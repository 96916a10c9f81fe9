import MicroBusiness.EventLoop
import Mathlib.Logic.Function.Basic

/-!
# Connecting to the backends at startup

The configuration gives for each location the name of an upstream, and for
each upstream its servers in order of preference: the first is the primary, the
others are backups. `EventLoop::connectToBusinessServer` goes over the
locations and their servers, connects to each, and enters the descriptor into
the vector of the location and the connection into the table of backends.

A call of `connectToOneBusinessServer` that fails returns `-1`, and `-1` is
entered like a descriptor. So the vectors hold an entry for every configured
server (`exists_connectToBusinessServer`), which is what they should hold
exactly when every call succeeds (`tolerates_iff`).
-/

namespace MicroBusiness

open Search

/-! ## The configuration -/

/-- `struct Location`, without its `id`. -/
structure Location where
  proxyPass : Bytes
  deriving DecidableEq, Repr

/-- `struct Upstream`, without its name: addresses and ports. -/
structure Upstream where
  servers : List (Bytes × Bytes) := []
  deriving DecidableEq, Repr

/-- The part of the parsed configuration that is used to connect. -/
structure Config where
  locations : StdMap Bytes Location
  upstreams : StdMap Bytes Upstream

/-- What the system replies to the calls of one attempt to connect. -/
structure ConnectCalls where
  /-- The descriptor `socket` returns, `-1` on failure. -/
  socket : Fd
  /-- Whether `inet_pton` reads the address. -/
  isAddress : Bool
  /-- Whether `connect` succeeds. -/
  connected : Bool
  /-- The address of the peer. -/
  peerAddr : InetAddress
  deriving DecidableEq, Repr

/-- Whether all calls of an attempt succeed. -/
def ConnectCalls.Succeeds (calls : ConnectCalls) : Prop :=
  calls.socket ≠ -1 ∧ calls.isAddress ∧ calls.connected

instance : DecidablePred ConnectCalls.Succeeds :=
  fun _ => inferInstanceAs (Decidable (_ ∧ _ ∧ _))

/-- What the system replies to every attempt: for each location and each place
in its list of servers, by address and port. -/
abbrev Attempts := Bytes → ℕ → Bytes → ℤ → ConnectCalls

/-! ## Connecting -/

namespace EventLoop

/-- `connectToOneBusinessServer`. -/
def connectToOneBusinessServer (calls : ConnectCalls) : Fd :=
  if calls.socket = -1 then -1
  else if !calls.isAddress then -1
  else if !calls.connected then -1
  else calls.socket

/-- What is entered for a server, whatever the descriptor is. -/
def enterServer (p : Proxy) (location : Bytes) (fd : Fd) (peerAddr : InetAddress) : Proxy where
  tables := { p.tables with
    forwardingTable := p.tables.forwardingTable.insert location
      (p.tables.forwardingTable[location]?.getD [] ++ [fd])
    serverConns := p.tables.serverConns.insertIfNew fd ⟨fd, peerAddr⟩ }
  conns :=
    -- `insert` keeps a connection that is there under the descriptor
    if p.tables.serverConns.contains fd then p.conns
    else p.conns.insert fd { sock := fd, type := .server, peerAddr }

/-- The loop of `connectToBusinessServer` over the servers of a location. -/
def connectServers (attempt : ℕ → Bytes → ℤ → ConnectCalls) (location : Bytes) :
    Proxy → ℕ → List (Bytes × Bytes) → Except Fault Proxy
  | p, _, [] => .ok p
  | p, i, (ip, port) :: servers =>
    match stoi port with
    | .error e => .error e
    | .ok port =>
      let calls := attempt i ip port
      connectServers attempt location
        (enterServer p location (connectToOneBusinessServer calls) calls.peerAddr) (i + 1) servers

/-- The loop of `connectToBusinessServer` over the locations. -/
def connectLocations (config : Config) (attempts : Attempts) :
    Proxy → List (Bytes × Location) → Except Fault Proxy
  | p, [] => .ok p
  | p, (location, loc) :: locations =>
    let p := { p with tables := { p.tables with
      forwardingTable := p.tables.forwardingTable.insert location [] } }
    -- `substr(7)` takes off the `http://`
    if loc.proxyPass.length < 7 then .error .outOfRange
    else
      match connectServers (attempts location) location p 0
        (config.upstreams[loc.proxyPass.drop 7]?.getD {}).servers with
      | .error e => .error e
      | .ok p => connectLocations config attempts p locations

/-- `connectToBusinessServer`, called once with empty tables. -/
def connectToBusinessServer (config : Config) (attempts : Attempts) : Except Fault Proxy :=
  connectLocations config attempts ⟨{}, ∅⟩ config.locations.toList

/-- A call that succeeds returns a descriptor, and one that fails `-1`. -/
theorem connectToOneBusinessServer_eq (calls : ConnectCalls) :
    connectToOneBusinessServer calls = if calls.Succeeds then calls.socket else -1 := by
  unfold connectToOneBusinessServer ConnectCalls.Succeeds
  obtain ⟨socket, isAddress, connected, peerAddr⟩ := calls
  by_cases hsocket : socket = -1
  · simp [hsocket]
  · cases isAddress <;> cases connected <;> simp [hsocket]

end EventLoop

/-! ## What is attempted -/

/-- The attempts for a list of servers, from a place on. -/
def attemptsFrom (attempt : ℕ → Bytes → ℤ → ConnectCalls) :
    ℕ → List (Bytes × Bytes) → List ConnectCalls
  | _, [] => []
  | i, (ip, port) :: servers =>
    attempt i ip ((stoi port).toOption.getD 0) :: attemptsFrom attempt (i + 1) servers

namespace Config

variable (config : Config) (attempts : Attempts)

/-- The servers configured for a location. -/
def serversOf (loc : Location) : List (Bytes × Bytes) :=
  (config.upstreams[loc.proxyPass.drop 7]?.getD {}).servers

/-- The attempts made for a location. -/
def attemptsOf (location : Bytes) : List ConnectCalls :=
  match config.locations[location]? with
  | none => []
  | some loc => attemptsFrom (attempts location) 0 (config.serversOf loc)

/-- **The servers of a location that are reached**: the descriptors of the
successful attempts, in configured order. -/
def reachable (location : Bytes) : List Fd :=
  (config.attemptsOf attempts location).filterMap (fun calls =>
    if calls.Succeeds then some calls.socket else none)

/-- **A configuration that can be connected**: each location passes on to a
declared upstream, with numeric ports. -/
def Valid : Prop :=
  ∀ (location : Bytes) (loc : Location), config.locations[location]? = some loc →
    7 ≤ loc.proxyPass.length ∧ ∃ upstream : Upstream,
      config.upstreams[loc.proxyPass.drop 7]? = some upstream
      ∧ ∀ server ∈ upstream.servers, ∃ n, stoi server.2 = .ok n

end Config

/-! ## What is entered -/

/-- **Tables that hold these vectors**, in the table of backends exactly the
connections of their entries, each with its object that has read nothing, and
no clients. -/
structure Filled (p : Proxy) (vectors : Bytes → Option (List Fd)) : Prop where
  vector : ∀ location : Bytes, p.tables.forwardingTable[location]? = vectors location
  listed : ∀ fd : Fd, p.tables.serverConns.contains fd
    ↔ ∃ location fds, vectors location = some fds ∧ fd ∈ fds
  pointer : ∀ (fd : Fd) (ptr : TcpConnectionPtr), p.tables.serverConns[fd]? = some ptr → ptr.fd = fd
  object : ∀ (fd : Fd) (conn : TcpConnection), p.conns[fd]? = some conn →
    conn.sock = fd ∧ conn.readBuf = []
  clients : p.tables.clientConns = ∅

namespace Filled

variable {p : Proxy} {vectors : Bytes → Option (List Fd)} {location : Bytes} {fds : List Fd}

/-- Entering a server appends it to the vector of its location. -/
theorem enterServer (h : Filled p vectors) (hfds : vectors location = some fds) (fd : Fd)
    (peerAddr : InetAddress) :
    Filled (EventLoop.enterServer p location fd peerAddr)
      (Function.update vectors location (some (fds ++ [fd]))) where
  vector := by
    intro k
    unfold EventLoop.enterServer
    dsimp only
    rw [getElem?_insert_ite, h.vector location, hfds, h.vector k, Function.update_apply]
    exact if_congr eq_comm rfl rfl
  listed := by
    intro fd'
    unfold EventLoop.enterServer
    dsimp only
    rw [contains_insertIfNew_iff, h.listed fd']
    constructor
    · -- the new entry, and those that were there
      rintro (rfl | ⟨k, fds', hk, hfd'⟩)
      · exact ⟨location, _, Function.update_self location _ vectors, by simp⟩
      · by_cases hlocation : k = location
        · subst hlocation
          cases hfds.symm.trans hk
          exact ⟨k, _, Function.update_self k _ vectors, List.mem_append_left _ hfd'⟩
        · exact ⟨k, fds', by rw [Function.update_of_ne hlocation, hk], hfd'⟩
    · rintro ⟨k, fds', hk, hfd'⟩
      by_cases hlocation : k = location
      · subst hlocation
        rw [Function.update_self] at hk
        cases hk
        rcases List.mem_append.mp hfd' with hfd' | hfd'
        · exact Or.inr ⟨k, fds, hfds, hfd'⟩
        · exact Or.inl (List.mem_singleton.mp hfd').symm
      · rw [Function.update_of_ne hlocation] at hk
        exact Or.inr ⟨k, fds', hk, hfd'⟩
  pointer := by
    intro fd' ptr hptr
    unfold EventLoop.enterServer at hptr
    dsimp only at hptr
    rw [Std.ExtTreeMap.getElem?_insertIfNew] at hptr
    -- `insert` does not replace a pointer that is there
    split at hptr
    · next hnew =>
      cases hptr
      exact Std.LawfulEqCmp.compare_eq_iff_eq.mp hnew.1
    · exact h.pointer fd' ptr hptr
  object := by
    intro fd' conn hconn
    unfold EventLoop.enterServer at hconn
    dsimp only at hconn
    split at hconn
    · exact h.object fd' conn hconn
    · rcases of_getElem?_insert hconn with ⟨heq, rfl⟩ | ⟨-, hconn⟩
      · exact ⟨heq, rfl⟩
      · exact h.object fd' conn hconn
  clients := h.clients

/-- Opening the empty vector of a location that has none. -/
theorem openLocation (h : Filled p vectors) (hnone : vectors location = none) :
    Filled { p with tables := { p.tables with
        forwardingTable := p.tables.forwardingTable.insert location [] } }
      (Function.update vectors location (some [])) where
  vector := by
    intro k
    dsimp only
    rw [getElem?_insert_ite, h.vector k, Function.update_apply]
    exact if_congr eq_comm rfl rfl
  listed := by
    intro fd
    dsimp only
    rw [h.listed fd]
    constructor
    · rintro ⟨k, fds, hk, hfd⟩
      have hlocation : k ≠ location := by
        rintro rfl
        cases hnone.symm.trans hk
      exact ⟨k, fds, by rw [Function.update_of_ne hlocation, hk], hfd⟩
    · rintro ⟨k, fds, hk, hfd⟩
      by_cases hlocation : k = location
      · subst hlocation
        rw [Function.update_self] at hk
        cases hk
        exact absurd hfd List.not_mem_nil
      · rw [Function.update_of_ne hlocation] at hk
        exact ⟨k, fds, hk, hfd⟩
  pointer := h.pointer
  object := h.object
  clients := h.clients

/-- **The loop over the servers of a location** appends an entry for each. -/
theorem connectServers (h : Filled p vectors) (hfds : vectors location = some fds)
    {attempt : ℕ → Bytes → ℤ → ConnectCalls} {servers : List (Bytes × Bytes)} {i : ℕ} {p' : Proxy}
    (hrun : EventLoop.connectServers attempt location p i servers = .ok p') :
    Filled p' (Function.update vectors location (some (fds
      ++ (attemptsFrom attempt i servers).map EventLoop.connectToOneBusinessServer))) := by
  induction servers generalizing p vectors fds i with
  | nil =>
    cases hrun
    rw [attemptsFrom, List.map_nil, List.append_nil, ← hfds, Function.update_eq_self]
    exact h
  | cons server servers ih =>
    obtain ⟨ip, port⟩ := server
    rw [EventLoop.connectServers] at hrun
    cases hn : stoi port with
    | error e =>
      rw [hn] at hrun
      cases hrun
    | ok n =>
      rw [hn] at hrun
      have hnext := h.enterServer hfds (EventLoop.connectToOneBusinessServer (attempt i ip n))
        (attempt i ip n).peerAddr
      have hfilled := ih hnext (Function.update_self location _ vectors) hrun
      rw [Function.update_idem, List.append_assoc] at hfilled
      rw [attemptsFrom, hn]
      exact hfilled

/-- **The loop over the locations** gives each a vector of its own. -/
theorem connectLocations (h : Filled p vectors) {config : Config} {attempts : Attempts}
    {locations : List (Bytes × Location)} (hdistinct : (locations.map Prod.fst).Nodup)
    (hnone : ∀ location ∈ locations.map Prod.fst, vectors location = none) {p' : Proxy}
    (hrun : EventLoop.connectLocations config attempts p locations = .ok p') :
    ∃ vectors', Filled p' vectors'
      ∧ (∀ l ∈ locations, vectors' l.1 = some ((attemptsFrom (attempts l.1) 0
          (config.serversOf l.2)).map EventLoop.connectToOneBusinessServer))
      ∧ ∀ k ∉ locations.map Prod.fst, vectors' k = vectors k := by
  induction locations generalizing p vectors with
  | nil =>
    cases hrun
    exact ⟨vectors, h, by simp, fun _ _ => rfl⟩
  | cons l locations ih =>
    obtain ⟨location, loc⟩ := l
    rw [List.map_cons] at hdistinct hnone
    obtain ⟨hnotMem, hdistinct⟩ := List.nodup_cons.mp hdistinct
    obtain ⟨hlocation, hnone⟩ := List.forall_mem_cons.mp hnone
    rw [EventLoop.connectLocations] at hrun
    dsimp only at hrun hnotMem hlocation
    split at hrun
    · cases hrun
    · split at hrun
      · cases hrun
      · next p₁ hservers =>
        have hentered := (h.openLocation hlocation).connectServers
          (Function.update_self location _ vectors) hservers
        rw [Function.update_idem, List.nil_append] at hentered
        have hne : ∀ k ∈ locations.map Prod.fst, k ≠ location := by
          rintro k hk rfl
          exact hnotMem hk
        obtain ⟨vectors', hfilled, hmem, hother⟩ := ih hentered hdistinct
          (fun k hk => by rw [Function.update_of_ne (hne k hk), hnone k hk]) hrun
        refine ⟨vectors', hfilled, List.forall_mem_cons.mpr ⟨?_, hmem⟩, fun k hk => ?_⟩
        · rw [hother location hnotMem, Function.update_self]
          rfl
        · rw [List.map_cons, List.mem_cons, not_or] at hk
          rw [hother k hk.2, Function.update_of_ne hk.1]

end Filled

/-- Empty tables hold no vectors. -/
theorem filled_empty : Filled ⟨{}, ∅⟩ (fun _ => none) where
  vector := fun _ => Std.ExtTreeMap.getElem?_empty
  listed := by
    intro fd
    refine iff_of_false ?_ ?_
    · rw [Bool.not_eq_true]
      exact Std.ExtTreeMap.contains_empty
    · rintro ⟨_, _, hnone, -⟩
      cases hnone
  pointer := by
    intro fd ptr hptr
    rw [show (({} : Tables).serverConns)[fd]? = none from Std.ExtTreeMap.getElem?_empty] at hptr
    cases hptr
  object := by
    intro fd conn hconn
    rw [Std.ExtTreeMap.getElem?_empty] at hconn
    cases hconn
  clients := rfl

/-- The entries of the vector of a location: what each attempt returns. -/
def Config.entries (config : Config) (attempts : Attempts) (location : Bytes) : List Fd :=
  (config.attemptsOf attempts location).map EventLoop.connectToOneBusinessServer

/-- **What `connectToBusinessServer` leaves**: for each location a vector with an
entry for every server, whether it was reached or not. -/
theorem filled_of_connectToBusinessServer {config : Config} {attempts : Attempts} {p : Proxy}
    (h : EventLoop.connectToBusinessServer config attempts = .ok p) :
    Filled p (fun location =>
      config.locations[location]?.map (fun _ => config.entries attempts location)) := by
  have hdistinct : (config.locations.toList.map Prod.fst).Nodup := by
    rw [List.Nodup, List.pairwise_map]
    exact Std.ExtTreeMap.distinct_keys_toList.imp
      (fun hne heq => hne (Std.LawfulEqCmp.compare_eq_iff_eq.mpr heq))
  obtain ⟨vectors, hfilled, hmem, hother⟩ :=
    filled_empty.connectLocations hdistinct (fun _ _ => rfl) h
  have hvectors : vectors = fun location =>
      config.locations[location]?.map (fun _ => config.entries attempts location) := by
    funext location
    cases hloc : config.locations[location]? with
    | none =>
      refine hother location ?_
      rw [Std.ExtTreeMap.map_fst_toList_eq_keys, Std.ExtTreeMap.mem_keys,
        ← Std.ExtTreeMap.isSome_getElem?_iff_mem, hloc]
      simp
    | some loc =>
      rw [hmem (location, loc) (Std.ExtTreeMap.mem_toList_iff_getElem?_eq_some.mpr hloc)]
      unfold Config.entries Config.attemptsOf
      rw [hloc]
      rfl
  rw [hvectors] at hfilled
  exact hfilled

/-- The backends of filled tables are listed. -/
theorem Filled.backendsListed {p : Proxy} {vectors : Bytes → Option (List Fd)}
    (h : Filled p vectors) : p.tables.BackendsListed := by
  intro location fds hfds fd hfd
  rw [h.vector location] at hfds
  obtain ⟨ptr, hptr⟩ := contains_iff_exists.mp ((h.listed fd).mpr ⟨location, fds, hfds, hfd⟩)
  exact ⟨ptr, hptr, h.pointer fd ptr hptr⟩

/-! ## Startup with servers down -/

theorem exists_connectServers (attempt : ℕ → Bytes → ℤ → ConnectCalls) (location : Bytes)
    {servers : List (Bytes × Bytes)} (hports : ∀ server ∈ servers, ∃ n, stoi server.2 = .ok n)
    (p : Proxy) (i : ℕ) :
    ∃ p', EventLoop.connectServers attempt location p i servers = .ok p' := by
  induction servers generalizing p i with
  | nil => exact ⟨p, rfl⟩
  | cons server servers ih =>
    obtain ⟨ip, port⟩ := server
    obtain ⟨n, hn⟩ := hports (ip, port) List.mem_cons_self
    rw [EventLoop.connectServers, hn]
    exact ih (fun server hserver => hports server (List.mem_cons_of_mem _ hserver)) _ _

/-- **A valid configuration is connected**, whatever the attempts come to. -/
theorem exists_connectToBusinessServer {config : Config} (hvalid : config.Valid)
    (attempts : Attempts) :
    ∃ p, EventLoop.connectToBusinessServer config attempts = .ok p := by
  have hlocations : ∀ (locations : List (Bytes × Location)) (p : Proxy),
      (∀ l ∈ locations, config.locations[l.1]? = some l.2) →
      ∃ p', EventLoop.connectLocations config attempts p locations = .ok p' := by
    intro locations
    induction locations with
    | nil => exact fun p _ => ⟨p, rfl⟩
    | cons l locations ih =>
      intro p hmem
      obtain ⟨location, loc⟩ := l
      obtain ⟨hl, hmem⟩ := List.forall_mem_cons.mp hmem
      obtain ⟨hlength, upstream, hupstream, hports⟩ := hvalid location loc hl
      obtain ⟨p', hp'⟩ := exists_connectServers (attempts location) location hports
        { p with tables := { p.tables with
          forwardingTable := p.tables.forwardingTable.insert location [] } } 0
      obtain ⟨p'', hp''⟩ := ih p' hmem
      refine ⟨p'', ?_⟩
      rw [EventLoop.connectLocations]
      dsimp only
      rw [if_neg (by omega), hupstream, Option.getD_some, hp']
      exact hp''
  exact hlocations _ _ (fun l hl => Std.ExtTreeMap.mem_toList_iff_getElem?_eq_some.mp hl)

/-- **Startup tolerates dead servers**: the vector of each location holds the
servers of it that were reached, in configured order, the table of backends
holds exactly these, and requests go to the first of them or are answered that
there is none. -/
structure Tolerates (config : Config) (attempts : Attempts) (p : Proxy) : Prop where
  vector : ∀ location : Bytes, p.tables.forwardingTable[location]?
    = config.locations[location]?.map (fun _ => config.reachable attempts location)
  listed : ∀ fd : Fd, p.tables.serverConns.contains fd
    ↔ ∃ location, fd ∈ config.reachable attempts location
  routed : ∀ (json : JsonWriter) (conn : TcpConnection) (io : Recvs)
    (buf method path protocol businessCode : Bytes), readn io conn.readBuf = (true, buf) →
    TcpConnection.AcceptedLine p.tables.forwardingTable (TcpConnection.getline buf) method path
      protocol businessCode →
    ∃ conn', TcpConnection.doClient2server json p.tables conn io = .ok (p.tables, conn',
      [TcpConnection.routed json (config.reachable attempts businessCode).head?
        (TcpConnection.insertClient conn.peerAddr buf)])

/-- The entries of a location are the servers reached exactly if every attempt
succeeded. -/
theorem entries_eq_reachable_iff (config : Config) (attempts : Attempts) (location : Bytes) :
    config.entries attempts location = config.reachable attempts location
      ↔ ∀ calls ∈ config.attemptsOf attempts location, calls.Succeeds := by
  unfold Config.entries Config.reachable
  constructor
  · intro h
    have hlen := congrArg List.length h
    rw [List.length_map, eq_comm, List.filterMap_length_eq_length] at hlen
    intro calls hcalls
    by_contra hfails
    have hsome := hlen calls hcalls
    rw [if_neg hfails] at hsome
    cases hsome
  · intro h
    rw [← List.filterMap_eq_map]
    refine List.filterMap_congr (fun calls hcalls => ?_)
    rw [Function.comp_apply, EventLoop.connectToOneBusinessServer_eq, if_pos (h calls hcalls),
      if_pos (h calls hcalls)]

theorem reachable_of_none {config : Config} (attempts : Attempts) {location : Bytes}
    (h : config.locations[location]? = none) : config.reachable attempts location = [] := by
  unfold Config.reachable Config.attemptsOf
  rw [h]
  rfl

/-- **When startup tolerates dead servers**: exactly when there are none, that
is when every attempt to connect succeeds.

A server that cannot be connected is entered all the same, under the descriptor `-1`
that the attempt returns: into the vector of its location, in its place, and into the
table of backends. It is the first of the vector where it is the first in the file, and
then requests go to it although others could be reached. -/
theorem tolerates_iff {config : Config} (hvalid : config.Valid) (attempts : Attempts) :
    (∃ p, EventLoop.connectToBusinessServer config attempts = .ok p
        ∧ Tolerates config attempts p)
      ↔ ∀ location, ∀ calls ∈ config.attemptsOf attempts location, calls.Succeeds := by
  obtain ⟨p, hp⟩ := exists_connectToBusinessServer hvalid attempts
  have hfilled := filled_of_connectToBusinessServer hp
  constructor
  · rintro ⟨p', hp', htolerates⟩ location
    cases hp.symm.trans hp'
    -- the vector has the entries and also those that could be reached, so these are the same
    rw [← entries_eq_reachable_iff]
    have hvector := (hfilled.vector location).symm.trans (htolerates.vector location)
    cases hloc : config.locations[location]? with
    | none =>
      unfold Config.entries Config.reachable Config.attemptsOf
      rw [hloc]
      rfl
    | some loc =>
      rw [hloc] at hvector
      exact Option.some.inj hvector
  · intro hall
    -- no entry is in a vector that could not be reached
    have heq : ∀ location, config.entries attempts location = config.reachable attempts location :=
      fun location => (entries_eq_reachable_iff config attempts location).mpr (hall location)
    have hvector : ∀ location : Bytes, p.tables.forwardingTable[location]?
        = config.locations[location]?.map (fun _ => config.reachable attempts location) := by
      intro location
      rw [hfilled.vector location, heq location]
    refine ⟨p, hp, hvector, fun fd => ?_, ?_⟩
    · rw [hfilled.listed fd]
      constructor
      · rintro ⟨location, fds, hfds, hfd⟩
        obtain ⟨loc, hloc, rfl⟩ := Option.map_eq_some_iff.mp hfds
        exact ⟨location, by rwa [← heq location]⟩
      · rintro ⟨location, hfd⟩
        cases hloc : config.locations[location]? with
        | none =>
          rw [reachable_of_none attempts hloc] at hfd
          cases hfd
        | some loc =>
          refine ⟨location, config.entries attempts location, ?_, ?_⟩
          · rw [hloc]
            rfl
          · rwa [heq location]
    · -- a request goes to the first of the vector of its location
      intro json conn io buf method path protocol businessCode hread haccepted
      obtain ⟨conn', hrun⟩ :=
        TcpConnection.doClient2server_routed hfilled.backendsListed hread haccepted
      refine ⟨conn', hrun.trans ?_⟩
      rw [hvector businessCode]
      cases hloc : config.locations[businessCode]? with
      | none =>
        rw [reachable_of_none attempts hloc]
        rfl
      | some loc => rfl

/-- A location with a primary and a backup. -/
def primaryAndBackup : Config where
  locations := (∅ : StdMap Bytes Location).insert (bytes "/10001/")
    ⟨bytes "http://business1.proxy.com"⟩
  upstreams := (∅ : StdMap Bytes Upstream).insert (bytes "business1.proxy.com")
    ⟨[(bytes "101.42.249.191", bytes "10003"), (bytes "127.0.0.1", bytes "10002")]⟩

theorem primaryAndBackup_valid : primaryAndBackup.Valid := by
  intro location loc hloc
  unfold primaryAndBackup at hloc ⊢
  dsimp only at hloc ⊢
  rw [getElem?_insert_ite, Std.ExtTreeMap.getElem?_empty] at hloc
  split at hloc
  · cases hloc
    refine ⟨by decide, _, by rw [getElem?_insert_ite, if_pos (by decide)], ?_⟩
    intro server hserver
    rcases List.mem_cons.mp hserver with rfl | hserver
    · exact ⟨10003, by decide +kernel⟩
    · rw [List.mem_singleton.mp hserver]
      exact ⟨10002, by decide +kernel⟩
  · cases hloc

/-- Attempts of which the ones at the given places fail to connect. -/
def attemptsFailing (places : List ℕ) : Attempts := fun _ i _ _ =>
  { socket := 4 + i, isAddress := true, connected := i ∉ places, peerAddr := ⟨127, 0, 0, 1, 0⟩ }

theorem attemptsFrom_succeeds (location : Bytes) (i : ℕ) (servers : List (Bytes × Bytes)) :
    ∀ calls ∈ attemptsFrom (attemptsFailing [] location) i servers, calls.Succeeds := by
  induction servers generalizing i with
  | nil => exact fun _ h => absurd h List.not_mem_nil
  | cons server servers ih =>
    obtain ⟨ip, port⟩ := server
    refine List.forall_mem_cons.mpr ⟨⟨?_, rfl, by simp [attemptsFailing]⟩, ih (i + 1)⟩
    show (4 : ℤ) + (i : ℤ) ≠ -1
    omega

/-- With both servers up, startup leaves what it should. -/
theorem tolerates_bothUp :
    ∃ p, EventLoop.connectToBusinessServer primaryAndBackup (attemptsFailing []) = .ok p
      ∧ Tolerates primaryAndBackup (attemptsFailing []) p := by
  refine (tolerates_iff primaryAndBackup_valid _).mpr (fun location => ?_)
  unfold Config.attemptsOf
  split
  · exact fun _ h => absurd h List.not_mem_nil
  · exact attemptsFrom_succeeds location 0 _

/-- **With the primary down, the vector of the location begins with `-1`.** -/
theorem not_tolerates_primaryDown :
    ¬ ∀ (config : Config) (attempts : Attempts), config.Valid →
      ∃ p, EventLoop.connectToBusinessServer config attempts = .ok p
        ∧ Tolerates config attempts p := by
  intro h
  obtain ⟨p, hp, htolerates⟩ := h primaryAndBackup (attemptsFailing [0]) primaryAndBackup_valid
  have hvector := htolerates.vector (bytes "/10001/")
  have hreachable : primaryAndBackup.locations[bytes "/10001/"]?.map
      (fun _ => primaryAndBackup.reachable (attemptsFailing [0]) (bytes "/10001/")) = some [5] := by
    decide +kernel
  have hentered : (EventLoop.connectToBusinessServer primaryAndBackup
      (attemptsFailing [0])).toOption.bind (fun p => p.tables.forwardingTable[bytes "/10001/"]?)
        = some [-1, 5] := by
    decide +kernel
  rw [hp] at hentered
  exact absurd (hentered.symm.trans (hvector.trans hreachable)) (by decide)

end MicroBusiness
