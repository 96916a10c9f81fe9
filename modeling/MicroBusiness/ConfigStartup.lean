import MicroBusiness.ConfigParsing

/-!
# Which accepted configurations can be started

The parser takes the value of a `proxy_pass` and the address of a server as they
stand, and asks of an address only that there is a colon in it. What
`EventLoop::connectToBusinessServer` relies on is more: it takes seven letters off
the value of every location and calls `std::stoi` on every port of the upstream
that is left. So an accepted configuration can be started exactly if it is valid
(`Parser.startable_iff`), and for a well-formed file that can be read off its
items (`Parser.startable_iff_of_wellFormed`).
-/

namespace MicroBusiness

/-! ## What a startup asks for -/

namespace EventLoop

theorem forall_port_of_connectServers {attempt : ℕ → Bytes → ℤ → ConnectCalls} {location : Bytes}
    {p p' : Proxy} {i : ℕ} {servers : List (Bytes × Bytes)}
    (h : connectServers attempt location p i servers = .ok p') :
    ∀ server ∈ servers, ∃ n, stoi server.2 = .ok n := by
  induction servers generalizing p i with
  | nil => exact List.forall_mem_nil _
  | cons server servers ih =>
    obtain ⟨ip, port⟩ := server
    rw [connectServers] at h
    split at h
    · cases h
    · next n hn => exact List.forall_mem_cons.mpr ⟨⟨n, hn⟩, ih h⟩

/-- **Locations that have been connected** have a value to take the name of the
upstream from, and ports that were read. -/
theorem forall_of_connectLocations {config : Config} {attempts : Attempts} {p p' : Proxy}
    {locations : List (Bytes × Location)}
    (h : connectLocations config attempts p locations = .ok p') :
    ∀ l ∈ locations, 7 ≤ l.2.proxyPass.length
      ∧ ∀ server ∈ config.serversOf l.2, ∃ n, stoi server.2 = .ok n := by
  induction locations generalizing p with
  | nil => exact List.forall_mem_nil _
  | cons l locations ih =>
    obtain ⟨location, loc⟩ := l
    rw [connectLocations] at h
    dsimp only at h
    split at h
    · cases h
    · next hlength =>
      split at h
      · cases h
      · next p₁ hservers =>
        refine List.forall_mem_cons.mpr ⟨⟨not_lt.mp hlength, ?_⟩, ih h⟩
        exact forall_port_of_connectServers hservers

end EventLoop

namespace Config

/-- Every location passes on to an upstream that is declared. -/
def Declared (config : Config) : Prop :=
  ∀ (location : Bytes) (loc : Location), config.locations[location]? = some loc →
    loc.proxyPass.drop 7 ∈ config.upstreams

/-- **What is connected is valid**, if its upstreams are declared. -/
theorem valid_of_connectToBusinessServer {config : Config} (hdeclared : config.Declared)
    {attempts : Attempts} {p : Proxy}
    (h : EventLoop.connectToBusinessServer config attempts = .ok p) : config.Valid := by
  intro location loc hloc
  obtain ⟨hlength, hports⟩ := EventLoop.forall_of_connectLocations h (location, loc)
    (Std.ExtTreeMap.mem_toList_iff_getElem?_eq_some.mpr hloc)
  obtain ⟨upstream, hupstream⟩ := Option.isSome_iff_exists.mp
    (Std.ExtTreeMap.isSome_getElem?_iff_mem.mpr (hdeclared location loc hloc))
  refine ⟨hlength, upstream, hupstream, ?_⟩
  have hservers : config.serversOf loc = upstream.servers := by
    unfold serversOf
    rw [hupstream, Option.getD_some]
  rwa [hservers] at hports

/-- The upstreams of a valid configuration are declared. -/
theorem Valid.declared {config : Config} (h : config.Valid) : config.Declared := by
  intro location loc hloc
  obtain ⟨-, upstream, hupstream, -⟩ := h location loc hloc
  rw [← Std.ExtTreeMap.isSome_getElem?_iff_mem, hupstream]
  rfl

end Config

/-! ## Accepted configurations -/

namespace Parser

/-- The part of what has been parsed that is used to connect. -/
def config (p : Parser) : Config := ⟨p.server.locations, p.upstreams⟩

/-- **A configuration can be started**: connecting to its backends throws nothing,
whatever the attempts come to, and every location passes on to an upstream that
is declared. -/
def Startable (p : Parser) : Prop :=
  (∀ attempts, ∃ proxy, EventLoop.connectToBusinessServer p.config attempts = .ok proxy)
    ∧ p.config.Declared

theorem startable_iff_valid (p : Parser) : p.Startable ↔ p.config.Valid := by
  constructor
  · rintro ⟨hconnects, hdeclared⟩
    obtain ⟨proxy, hproxy⟩ := hconnects (attemptsFailing [])
    exact Config.valid_of_connectToBusinessServer hdeclared hproxy
  · intro hvalid
    exact ⟨exists_connectToBusinessServer hvalid, hvalid.declared⟩

/-- **When an accepted file can be started**: exactly if the configuration parsed
from it is valid.

Valid says of the stored settings what startup relies on without a check: each
location passes to something of seven letters and an upstream that has been declared,
and each port of that upstream is a text that `std::stoi` reads. The parser checks none
of this. -/
theorem startable_iff (listen threadNum queSize : ℤ) (file : Bytes) :
    (∀ p, (new listen threadNum queSize).parse file = .ok p → p.Startable)
      ↔ ∀ p, (new listen threadNum queSize).parse file = .ok p → p.config.Valid :=
  forall₂_congr (fun p _ => startable_iff_valid p)

/-- **When a well-formed file can be started**: exactly if the last `proxy_pass` of
each of its locations is long enough and passes on to one of its upstreams, the
servers of which have ports that can be read. -/
theorem startable_iff_of_wellFormed {file : Bytes} {items : List Item} (h : WellFormed file items)
    {listen threadNum queSize : ℤ} {p : Parser}
    (hparse : (new listen threadNum queSize).parse file = .ok p) :
    p.Startable ↔ ∀ id loc, (locationsOf items).lookup id = some loc →
      7 ≤ loc.proxyPass.length
        ∧ ∃ upstream, (upstreamsOf items).lookup (loc.proxyPass.drop 7) = some upstream
          ∧ ∀ server ∈ upstream.servers, ∃ n, stoi server.2 = .ok n := by
  obtain ⟨p', hparse', hconfigured⟩ := parse_wellFormed h listen threadNum queSize
  cases hparse.symm.trans hparse'
  rw [startable_iff_valid]
  unfold Config.Valid config
  simp only [hconfigured.locations, hconfigured.upstreams]

end Parser

/-- **The parser accepts a value of `proxy_pass` that `substr(7)` throws on.** -/
theorem not_startable_shortProxyPass :
    ¬ ∀ (file : Bytes) (p : Parser), (Parser.new 0 0 0).parse file = .ok p → p.Startable := by
  intro hall
  let file := bytes "server \x7b\n location /a/ \x7b\n proxy_pass u\n \x7d\n\x7d\n"
  have hrun : ((Parser.new 0 0 0).parse file).toOption.map (fun p =>
      (EventLoop.connectToBusinessServer p.config (attemptsFailing [])).isOk) = some false := by
    decide +kernel
  obtain ⟨p, hparse, hconnect⟩ := Option.map_eq_some_iff.mp hrun
  cases hfile : (Parser.new 0 0 0).parse file with
  | error e =>
    rw [hfile] at hparse
    cases hparse
  | ok p' =>
    rw [hfile] at hparse
    cases hparse
    obtain ⟨proxy, hproxy⟩ := (hall file p hfile).1 (attemptsFailing [])
    rw [hproxy] at hconnect
    cases hconnect

end MicroBusiness
