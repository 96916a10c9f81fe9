import MicroBusiness.ConfigStartup
import MicroBusiness.Delivery
import MicroBusiness.LocationReach

/-!
# From the configuration to what the proxy writes

A proxy that has been started from a configuration in which each location has one
server is between two requests (`System.ready_of_startup`), so all that is shown of
runs from there holds of it.

What is in the file then decides where requests go, over whole runs: a request
goes to the server that the file lists for the upstream of a location, and the
location is the longest one of the file that is a boundary prefix of the target
(`writtenAsFiled_of_run`). The location is what `find_forward_path` returns with
the `int` position of the source, which is why the requests of such a run are
shorter than `2 ^ 31` bytes (`Traffic.Fits`): on longer targets the location is
another one, or none.

Between two requests means more than that nothing is under way. Each location of
the table has one backend, which is connected and under which a connection object
is found, no client is listed twice, and nothing unread is in a buffer
(`System.Ready`). Of these only the first is a matter of the file.
-/

namespace MicroBusiness

open Fields Transition TcpConnection

/-! ## What startup leaves -/

namespace EventLoop

theorem connectServers_preserves {inv : Proxy → Prop}
    (henter : ∀ p location fd addr, inv p → inv (enterServer p location fd addr))
    {attempt : ℕ → Bytes → ℤ → ConnectCalls} {location : Bytes} {servers : List (Bytes × Bytes)}
    {p p' : Proxy} {i : ℕ} (hp : inv p)
    (h : connectServers attempt location p i servers = .ok p') : inv p' := by
  induction servers generalizing p i with
  | nil =>
    cases h
    exact hp
  | cons server servers ih =>
    obtain ⟨ip, port⟩ := server
    rw [connectServers] at h
    split at h
    · cases h
    · exact ih (henter _ _ _ _ hp) h

/-- **What entering a server and opening a location preserve, the loop over the
locations preserves.** -/
theorem connectLocations_preserves {inv : Proxy → Prop}
    (henter : ∀ p location fd addr, inv p → inv (enterServer p location fd addr))
    (hopen : ∀ (p : Proxy) forwardingTable, inv p →
      inv { p with tables := { p.tables with forwardingTable } })
    {config : Config} {attempts : Attempts} {locations : List (Bytes × Location)} {p p' : Proxy}
    (hp : inv p) (h : connectLocations config attempts p locations = .ok p') : inv p' := by
  induction locations generalizing p with
  | nil =>
    cases h
    exact hp
  | cons l locations ih =>
    obtain ⟨location, loc⟩ := l
    rw [connectLocations] at h
    dsimp only at h
    split at h
    · cases h
    · split at h
      · cases h
      · next p₁ hservers => exact ih (connectServers_preserves henter (hopen _ _ hp) hservers) h

end EventLoop

/-- **Backends are linked**: no address is listed for a client, and there is a
connection object behind each backend of the table. -/
structure Linked (p : Proxy) : Prop where
  address : ∀ client : Bytes, p.tables.clientTable[client]? = none
  object : ∀ (fd : Fd) (ptr : TcpConnectionPtr), p.tables.serverConns[fd]? = some ptr →
    ∃ conn : TcpConnection, p.conns[fd]? = some conn ∧ conn.type = .server

/-- A server that is entered is linked. -/
theorem Linked.enterServer {p : Proxy} (h : Linked p) (location : Bytes) (fd : Fd)
    (addr : InetAddress) : Linked (EventLoop.enterServer p location fd addr) := by
  refine ⟨h.address, fun fd' ptr hptr => ?_⟩
  unfold EventLoop.enterServer at hptr ⊢
  dsimp only at hptr ⊢
  by_cases hfd : p.tables.serverConns.contains fd
  · rw [if_pos hfd]
    have hptr' : p.tables.serverConns[fd']? = some ptr := by
      rw [Std.ExtTreeMap.getElem?_insertIfNew, if_neg (fun hnew => hnew.2
        (Std.ExtTreeMap.contains_iff_mem.mp hfd))] at hptr
      exact hptr
    exact h.object fd' ptr hptr'
  · rw [if_neg hfd, getElem?_insert_ite]
    by_cases heq : fd = fd'
    · exact ⟨_, if_pos heq, rfl⟩
    · rw [if_neg heq]
      rw [Std.ExtTreeMap.getElem?_insertIfNew, if_neg (fun hnew => heq
        (Std.LawfulEqCmp.compare_eq_iff_eq.mp hnew.1))] at hptr
      exact h.object fd' ptr hptr

theorem linked_of_connectToBusinessServer {config : Config} {attempts : Attempts} {p : Proxy}
    (h : EventLoop.connectToBusinessServer config attempts = .ok p) : Linked p := by
  refine EventLoop.connectLocations_preserves (fun p location fd addr h =>
    h.enterServer location fd addr) (fun p _ h => ⟨h.address, h.object⟩) ?_ h
  exact ⟨fun _ => Std.ExtTreeMap.getElem?_empty, fun fd ptr hptr => by
    rw [show (({} : Tables).serverConns)[fd]? = none from Std.ExtTreeMap.getElem?_empty] at hptr
    cases hptr⟩

/-- The system behind a startup: the backends have received nothing. -/
def System.started (p : Proxy) : System := ⟨p, fun _ => {}⟩

theorem Config.entries_of_serversOf {config : Config} (attempts : Attempts) {location : Bytes}
    {loc : Location} (hloc : config.locations[location]? = some loc) {ip port : Bytes}
    (hservers : config.serversOf loc = [(ip, port)]) :
    config.entries attempts location = [EventLoop.connectToOneBusinessServer
      (attempts location 0 ip ((stoi port).toOption.getD 0))] := by
  unfold Config.entries Config.attemptsOf
  rw [hloc]
  dsimp only
  rw [hservers]
  rfl

/-- **A proxy that has been started is between two requests**, if each location has
one server. -/
theorem System.ready_of_startup {config : Config} {attempts : Attempts} {p : Proxy}
    (hstart : EventLoop.connectToBusinessServer config attempts = .ok p)
    (hone : ∀ (location : Bytes) (loc : Location), config.locations[location]? = some loc →
      ∃ server, config.serversOf loc = [server]) : (System.started p).Ready := by
  have hfilled := filled_of_connectToBusinessServer hstart
  have hlinked := linked_of_connectToBusinessServer hstart
  have hnoClient : ∀ fd : Fd, p.tables.clientConns[fd]? = none := by
    intro fd
    rw [hfilled.clients]
    exact Std.ExtTreeMap.getElem?_empty
  refine ⟨fun client fd h => ?_, fun fd ptr h => ?_, fun location fds hfds => ?_,
    fun fd ptr hptr => ⟨hfilled.pointer fd ptr hptr, hnoClient fd, hlinked.object fd ptr hptr⟩,
    hfilled.object, fun fd => ⟨∅, rfl⟩⟩
  · exact nomatch (hlinked.address client).symm.trans h
  · exact nomatch (hnoClient fd).symm.trans h
  · have hvector := hfds
    rw [show (System.started p).proxy.tables.forwardingTable[location]? = _ from
      hfilled.vector location] at hvector
    obtain ⟨loc, hloc, rfl⟩ := Option.map_eq_some_iff.mp hvector
    obtain ⟨⟨ip, port⟩, hservers⟩ := hone location loc hloc
    rw [Config.entries_of_serversOf attempts hloc hservers]
    obtain ⟨ptr, hptr⟩ := contains_iff_exists.mp ((hfilled.listed _).mpr
      ⟨location, _, hvector, by
        rw [Config.entries_of_serversOf attempts hloc hservers]
        exact List.mem_singleton_self _⟩)
    exact ⟨_, ptr, rfl, hptr⟩

/-! ## Where requests go -/

/-- **Where the file sends a target**: to the one server of the upstream of a
location, the longest of the file that is a boundary prefix of the target and more
than a slash. -/
structure FiledRoute (items : List Item) (attempts : Attempts) (target : Bytes) (fd : Fd)
    (location ip port : Bytes) : Prop where
  server : ∃ loc, (locationsOf items).lookup location = some loc ∧
    (upstreamsOf items).lookup (loc.proxyPass.drop 7) = some ⟨[(ip, port)]⟩
  length : 2 ≤ location.length
  boundary : Segments.BoundaryPrefix slash location target
  longest : ∀ location' loc', (locationsOf items).lookup location' = some loc' →
    2 ≤ location'.length → Segments.BoundaryPrefix slash location' target →
    location'.length ≤ location.length
  connected : ∃ n, stoi port = .ok n ∧ fd = (attempts location 0 ip n).socket

/-- What is asked is looked up as a location of the table, and is written, with the
client line, to where the file sends it. -/
def WrittenAsFiled (items : List Item) (attempts : Attempts) (s : Traffic)
    (label : TrafficAct × List (Fd × Bytes)) : Prop :=
  ∀ x, label.1 = .ask x → ∃ fd addr location ip port,
    checkedFindForwardPath s.system.proxy.tables.forwardingTable x.request.target
        = .ok (some location) ∧
      FiledRoute items attempts x.request.target fd location ip port ∧
      label.2 = [(fd, (x.request.withClient addr).bytes)]

/-- **Requests fit an `int`**: what is asked is shorter than `2 ^ 31` bytes. -/
def Traffic.Fits (_ : Traffic) (label : TrafficAct × List (Fd × Bytes)) : Prop :=
  ∀ x, label.1 = .ask x → x.request.bytes.length < 2 ^ 31

theorem RequestText.length_target_le (q : RequestText) : q.target.length ≤ q.bytes.length := by
  unfold RequestText.bytes RequestText.line
  simp only [List.length_append, List.length_cons]
  omega

section Filed

variable {items : List Item} {p : Parser} {proxy : Proxy} {attempts : Attempts}
  {settings : Settings}

theorem serversOf_configured (hconfigured : Configured settings items p.toSettings)
    {loc : Location} {servers : List (Bytes × Bytes)}
    (h : (upstreamsOf items).lookup (loc.proxyPass.drop 7) = some ⟨servers⟩) :
    p.config.serversOf loc = servers := by
  unfold Config.serversOf
  rw [show p.config.upstreams[loc.proxyPass.drop 7]? = _ from (hconfigured.upstreams _).trans h]
  rfl

theorem ready_of_configured (hconfigured : Configured settings items p.toSettings)
    (hstart : EventLoop.connectToBusinessServer p.config attempts = .ok proxy)
    (hone : ∀ id loc, (locationsOf items).lookup id = some loc →
      ∃ server, (upstreamsOf items).lookup (loc.proxyPass.drop 7) = some ⟨[server]⟩) :
    (System.started proxy).Ready := by
  refine System.ready_of_startup hstart fun location loc hloc => ?_
  obtain ⟨server, hserver⟩ := hone location loc ((hconfigured.locations location).symm.trans hloc)
  exact ⟨server, serversOf_configured hconfigured hserver⟩

/-- **The vectors that startup leaves send targets where the file does.** -/
theorem filedRoute_of_routes (hconfigured : Configured settings items p.toSettings)
    (hstart : EventLoop.connectToBusinessServer p.config attempts = .ok proxy)
    (hall : ∀ location, ∀ calls ∈ p.config.attemptsOf attempts location, calls.Succeeds)
    (hone : ∀ id loc, (locationsOf items).lookup id = some loc →
      ∃ server, (upstreamsOf items).lookup (loc.proxyPass.drop 7) = some ⟨[server]⟩)
    {t : Tables} (htable : t.forwardingTable = proxy.tables.forwardingTable) {target : Bytes}
    {fd : Fd} (hroutes : t.Routes target fd) :
    ∃ location ip port, findForwardPath t.forwardingTable target = some location ∧
      FiledRoute items attempts target fd location ip port := by
  obtain ⟨location, hfound, hhead⟩ := hroutes
  rw [htable] at hfound hhead ⊢
  have hvector := (filled_of_connectToBusinessServer hstart).vector
  have hlisted : ∀ id : Bytes, proxy.tables.forwardingTable.contains id
      ↔ ∃ loc, (locationsOf items).lookup id = some loc := by
    intro id
    rw [contains_iff_exists, hvector id, ← hconfigured.locations id]
    show (∃ fds, p.server.locations[id]?.map _ = some fds)
      ↔ ∃ loc, p.server.locations[id]? = some loc
    cases p.server.locations[id]? with
    | none => simp
    | some loc => simp
  obtain ⟨⟨hcontains, hlength, hboundary⟩, hlongest⟩ := findForwardPath_eq_some_iff.mp hfound
  obtain ⟨loc, hloc⟩ := (hlisted location).mp hcontains
  obtain ⟨⟨ip, port⟩, hserver⟩ := hone location loc hloc
  have hlocation : p.config.locations[location]? = some loc :=
    (hconfigured.locations location).trans hloc
  have hservers : p.config.serversOf loc = [(ip, port)] :=
    serversOf_configured hconfigured hserver
  -- the attempt of the one server has succeeded
  obtain ⟨-, hports⟩ := EventLoop.forall_of_connectLocations hstart (location, loc)
    (Std.ExtTreeMap.mem_toList_iff_getElem?_eq_some.mpr hlocation)
  obtain ⟨n, hn⟩ := hports (ip, port) (by rw [hservers]; exact List.mem_singleton_self _)
  have hattempts : p.config.attemptsOf attempts location = [attempts location 0 ip n] := by
    unfold Config.attemptsOf
    rw [hlocation]
    dsimp only
    rw [hservers, attemptsFrom, hn]
    rfl
  have hsucceeds : (attempts location 0 ip n).Succeeds :=
    hall location _ (by rw [hattempts]; exact List.mem_singleton_self _)
  have hentries : p.config.entries attempts location = [(attempts location 0 ip n).socket] := by
    unfold Config.entries
    rw [hattempts, List.map_singleton, EventLoop.connectToOneBusinessServer_eq, if_pos hsucceeds]
  refine ⟨location, ip, port, hfound, ⟨loc, hloc, hserver⟩, hlength, hboundary,
    fun id loc' hid hlen hprefix => hlongest id ⟨(hlisted id).mpr ⟨loc', hid⟩, hlen, hprefix⟩,
    n, hn, ?_⟩
  rw [hvector location, hlocation] at hhead
  dsimp only [Option.map_some, Option.getD_some] at hhead
  rw [hentries] at hhead
  exact (Option.some.inj hhead).symm

end Filed

/-- **Requests go where the file sends them.** A proxy that has been started from a
well-formed file, with one server for each location, whose backends could all be
connected, is between two requests. And in every run from there in which the
requests are proper and shorter than `2 ^ 31` bytes, and a client that leaves has
none on its way, each request is written, with the client line, to the server that
the file lists for the longest of its locations that is a boundary prefix of the
target; and all that the proxy writes besides are the answers of these servers, to
the clients that have asked. -/
theorem writtenAsFiled_of_run {file : Bytes} {items : List Item} (hfile : WellFormed file items)
    {listen threadNum queSize : ℤ} {p : Parser}
    (hparse : (Parser.new listen threadNum queSize).parse file = .ok p)
    (hone : ∀ id loc, (locationsOf items).lookup id = some loc →
      ∃ server, (upstreamsOf items).lookup (loc.proxyPass.drop 7) = some ⟨[server]⟩)
    {attempts : Attempts} {proxy : Proxy}
    (hstart : EventLoop.connectToBusinessServer p.config attempts = .ok proxy)
    (hall : ∀ location, ∀ calls ∈ p.config.attemptsOf attempts location, calls.Succeeds)
    {json : JsonWriter} {server : Fd → Server}
    {steps : List (Traffic × (TrafficAct × List (Fd × Bytes)))} {s : Traffic}
    (hrun : Run (TrafficStep json) { system := System.started proxy } steps s)
    (hproper : Meets (Traffic.Proper json server) steps) (hfits : Meets Traffic.Fits steps) :
    (System.started proxy).Ready
      ∧ Meets (WrittenAsFiled items attempts) steps
      ∧ Meets (Traffic.Writes json server) steps := by
  obtain ⟨p', hparse', hconfigured⟩ := Parser.parse_wellFormed hfile listen threadNum queSize
  cases hparse.symm.trans hparse'
  have hready := ready_of_configured hconfigured hstart hone
  have hbegin : Traffic.Sound json server { system := System.started proxy } :=
    ⟨hready, fun _ _ h => absurd h List.not_mem_nil, fun _ _ h => absurd h List.not_mem_nil⟩
  -- the table of locations is the one of the start, in every state of the run
  have hstep : ∀ (s : Traffic) label (t : Traffic),
      (s.Sound json server ∧
        s.system.proxy.tables.forwardingTable = proxy.tables.forwardingTable) →
      (s.Proper json server label ∧ s.Fits label) → TrafficStep json s label t →
      (t.Sound json server ∧
        t.system.proxy.tables.forwardingTable = proxy.tables.forwardingTable) ∧
      (WrittenAsFiled items attempts s label ∧ s.Writes json server label) := by
    rintro s ⟨act, written⟩ t ⟨hsound, htable⟩ ⟨hproper, hfits⟩ hstep
    obtain ⟨hsound', hwrites⟩ := hsound.step hproper hstep
    refine ⟨⟨hsound', (hsound.backends_eq hproper hstep).1.trans htable⟩,
      fun x hx => ?_, hwrites⟩
    have hlen := x.request.length_target_le.trans_lt (hfits x hx)
    dsimp only at hx
    subst hx
    obtain ⟨fd, addr, hway, hwritten⟩ := hwrites
    obtain ⟨location, ip, port, hfound, hroute⟩ :=
      filedRoute_of_routes hconfigured hstart hall hone htable hway.routes
    exact ⟨fd, addr, location, ip, port,
      (checkedFindForwardPath_eq _ hlen).trans (congrArg Except.ok hfound), hroute, hwritten⟩
  obtain ⟨-, hmeets⟩ := hrun.invariant_meets hstep
    (fun y hy => ⟨hproper y hy, hfits y hy⟩) ⟨hbegin, rfl⟩
  exact ⟨hready, fun y hy => (hmeets y hy).1, fun y hy => (hmeets y hy).2⟩

/-! ## Nested locations -/

/-- A file with a location inside another one, each with a backend of its own. -/
def nestedBusinesses : Bytes :=
  bytes "server \x7b\n location /10001/ \x7b\n  proxy_pass http://business1.proxy.com;\n \x7d\n"
    ++ bytes " location /10001/show/ \x7b\n  proxy_pass http://business2.proxy.com;\n \x7d\n\x7d\n"
    ++ bytes "upstream business1.proxy.com \x7b\n server 127.0.0.1:10002;\n\x7d\n"
    ++ bytes "upstream business2.proxy.com \x7b\n server 127.0.0.1:10003;\n\x7d\n"

/-- Its items. -/
def nestedItems : List Item :=
  [.server [
      .location ⟨bytes "/10001/", by decide +kernel, by decide +kernel⟩
        [⟨bytes "http://business1.proxy.com", by decide +kernel, by decide +kernel⟩],
      .location ⟨bytes "/10001/show/", by decide +kernel, by decide +kernel⟩
        [⟨bytes "http://business2.proxy.com", by decide +kernel, by decide +kernel⟩]],
    .upstream ⟨bytes "business1.proxy.com", by decide +kernel, by decide +kernel⟩
      [⟨bytes "127.0.0.1", bytes "10002", by decide +kernel, by decide +kernel⟩],
    .upstream ⟨bytes "business2.proxy.com", by decide +kernel, by decide +kernel⟩
      [⟨bytes "127.0.0.1", bytes "10003", by decide +kernel, by decide +kernel⟩]]

/-- The file is laid out as they are. -/
theorem laidOut_nestedBusinesses : LaidOut nestedBusinesses nestedItems := by
  refine ⟨(lines nestedBusinesses).map (fun line => fields Parser.isBlank (Parser.cut line)),
    [[[bytes "server", leftBracket], [bytes "location", bytes "/10001/", leftBracket],
        [bytes "proxy_pass", bytes "http://business1.proxy.com"], [rightBracket],
        [bytes "location", bytes "/10001/show/", leftBracket],
        [bytes "proxy_pass", bytes "http://business2.proxy.com"], [rightBracket], [rightBracket]],
      [[bytes "upstream", bytes "business1.proxy.com", leftBracket],
        [bytes "server", bytes "127.0.0.1:10002"], [rightBracket]],
      [[bytes "upstream", bytes "business2.proxy.com", leftBracket],
        [bytes "server", bytes "127.0.0.1:10003"], [rightBracket]]], ?_, ?_, ?_⟩
  · rw [List.forall₂_map_right_iff]
    exact List.forall₂_same.mpr (fun line _ => written_fields line)
  · refine .cons ?_ (.cons ?_ (.cons ?_ .nil))
    · exact .server (Or.inl rfl) (.cons (.location _ (Or.inl rfl))
        (.cons (.location _ (Or.inl rfl)) .nil))
    · exact .upstream _ (Or.inl rfl)
    · exact .upstream _ (Or.inl rfl)
  · decide +kernel

theorem nestedItems_oneServer (id : Bytes) (loc : Location)
    (h : (locationsOf nestedItems).lookup id = some loc) :
    ∃ server, (upstreamsOf nestedItems).lookup (loc.proxyPass.drop 7) = some ⟨[server]⟩ := by
  have hlocations : locationsOf nestedItems
      = [(bytes "/10001/", ⟨bytes "http://business1.proxy.com"⟩),
        (bytes "/10001/show/", ⟨bytes "http://business2.proxy.com"⟩)] := rfl
  rw [hlocations, List.lookup_cons, List.lookup_cons] at h
  split at h
  · cases h
    exact ⟨(bytes "127.0.0.1", bytes "10002"), by decide +kernel⟩
  · split at h
    · cases h
      exact ⟨(bytes "127.0.0.1", bytes "10003"), by decide +kernel⟩
    · cases h

/-- Attempts that all succeed, on a socket of its own for the location inside. -/
def nestedAttempts : Attempts := fun location _ _ _ =>
  { socket := if location = bytes "/10001/" then 4 else 5
    isAddress := true, connected := true, peerAddr := ⟨127, 0, 0, 1, 0⟩ }

theorem nestedAttempts_succeeds (location : Bytes) (i : ℕ) (servers : List (Bytes × Bytes)) :
    ∀ calls ∈ attemptsFrom (nestedAttempts location) i servers, calls.Succeeds := by
  induction servers generalizing i with
  | nil => exact fun _ h => absurd h List.not_mem_nil
  | cons server servers ih =>
    obtain ⟨ip, port⟩ := server
    refine List.forall_mem_cons.mpr ⟨⟨?_, rfl, rfl⟩, ih (i + 1)⟩
    unfold nestedAttempts
    dsimp only
    split <;> decide

/-- **The proxy is started from the file**, and finds the location inside, which the
second backend serves. -/
theorem exists_startedNested : ∃ p proxy,
    (Parser.new 0 0 0).parse nestedBusinesses = .ok p ∧
      EventLoop.connectToBusinessServer p.config nestedAttempts = .ok proxy ∧
      findForwardPath proxy.tables.forwardingTable showCommodities.target
        = some (bytes "/10001/show/") ∧
      proxy.tables.forwardingTable[bytes "/10001/show/"]? = some [5] ∧
      proxy.tables.serverConns[(7 : Fd)]? = none := by
  have hrun : ((Parser.new 0 0 0).parse nestedBusinesses).toOption.bind
      (fun p => (EventLoop.connectToBusinessServer p.config nestedAttempts).toOption.map
        fun proxy => (findForwardPath proxy.tables.forwardingTable showCommodities.target,
          proxy.tables.forwardingTable[bytes "/10001/show/"]?,
          proxy.tables.serverConns[(7 : Fd)]?))
        = some (some (bytes "/10001/show/"), some [5], none) := by
    decide +kernel
  obtain ⟨p, hparse, hrun⟩ := Option.bind_eq_some_iff.mp hrun
  obtain ⟨proxy, hstart, hfound⟩ := Option.map_eq_some_iff.mp hrun
  simp only [Prod.mk.injEq] at hfound
  refine ⟨p, proxy, ?_, ?_, hfound⟩
  · cases hfile : (Parser.new 0 0 0).parse nestedBusinesses with
    | error e =>
      rw [hfile] at hparse
      cases hparse
    | ok p' =>
      rw [hfile] at hparse
      cases hparse
      rfl
  · cases hconnect : EventLoop.connectToBusinessServer p.config nestedAttempts with
    | error e =>
      rw [hconnect] at hstart
      cases hstart
    | ok proxy' =>
      rw [hconnect] at hstart
      cases hstart
      rfl

/-- A connected client may ask for the commodities where there is a location. -/
theorem showEmpty_proper_of {t : Tables} {client : Fd} {addr : InetAddress} {location : Bytes}
    (hclient : t.clientConns[client]? = some ⟨client, addr⟩)
    (hfound : findForwardPath t.forwardingTable showCommodities.target = some location)
    (h0 : 0 ∉ (emptyAnswer addr).appendToBuffer) :
    (showEmpty client).Proper silentWriter (fun _ => server1) t where
  client := contains_iff_exists.mpr ⟨_, hclient⟩
  plain := showCommodities_plain
  location := ⟨_, hfound⟩
  notMem := showCommodities.notMem
  asksProperly _ _ hpath := by
    have hne : (showCommodities.readInto {} 0).path ≠ server1.buyPath := by decide +kernel
    exact absurd hpath hne
  mayAnswer _ addr leftover _ _ := showEmpty_mayAnswer client addr leftover
  notMem_response addr' leftover r haddr hr := by
    rw [showEmpty_outcome] at hr
    have hsame : t.clientConns[client]? = some ⟨client, addr'⟩ := haddr
    rw [hclient] at hsame
    cases hsame
    cases hr
    exact h0

/-- A client connects, and asks for the commodities. Both locations begin the target,
and the request is under way to the backend of the longer one. -/
theorem writtenAsFiled_nested : ∃ p proxy steps s,
    (Parser.new 0 0 0).parse nestedBusinesses = .ok p ∧
      EventLoop.connectToBusinessServer p.config nestedAttempts = .ok proxy ∧
      Run (TrafficStep silentWriter) { system := System.started proxy } steps s ∧
      s.underway 5 = [showEmpty 7] ∧
      (System.started proxy).Ready ∧
      Meets (WrittenAsFiled nestedItems nestedAttempts) steps ∧
      Meets (Traffic.Writes silentWriter fun _ => server1) steps := by
  obtain ⟨p, proxy, hparse, hstart, hfound, hbackends, hnoServer⟩ := exists_startedNested
  have hfile : WellFormed nestedBusinesses nestedItems :=
    ⟨laidOut_nestedBusinesses, by decide +kernel, by decide +kernel⟩
  have hall : ∀ location, ∀ calls ∈ p.config.attemptsOf nestedAttempts location,
      calls.Succeeds := by
    intro location
    unfold Config.attemptsOf
    split
    · exact fun _ h => absurd h List.not_mem_nil
    · exact nestedAttempts_succeeds location 0 _
  have hnoClient : proxy.tables.clientConns[(7 : Fd)]? = none := by
    rw [(filled_of_connectToBusinessServer hstart).clients]
    exact Std.ExtTreeMap.getElem?_empty
  have hnoAddress := (linked_of_connectToBusinessServer hstart).address clientA.ipPort
  have haccept : TrafficStep silentWriter { system := System.started proxy }
      (.accept 7 clientA, []) { system := (System.started proxy).accept 7 clientA } :=
    .accept hnoClient hnoServer hnoAddress
  obtain ⟨p', hparse', hconfigured⟩ := Parser.parse_wellFormed hfile 0 0 0
  cases hparse.symm.trans hparse'
  have hbegin : Traffic.Sound silentWriter (fun _ => server1)
      { system := System.started proxy } :=
    ⟨ready_of_configured hconfigured hstart nestedItems_oneServer,
      fun _ _ h => absurd h List.not_mem_nil, fun _ _ h => absurd h List.not_mem_nil⟩
  -- the client is listed now
  have hclient : ((System.started proxy).accept 7 clientA).proxy.tables.clientConns[(7 : Fd)]?
      = some ⟨7, clientA⟩ :=
    (EventLoop.getElem?_acceptClient clientA hnoClient 7).trans (if_pos rfl)
  have hask := showEmpty_proper_of hclient hfound (by decide +kernel)
  obtain ⟨fd, written, s, ⟨location, hlocation, hfd⟩, hstep, -, -, hunderway⟩ :=
    (hbegin.accept hnoClient hnoServer hnoAddress).exists_ask hask
  -- its request goes to the second backend
  obtain rfl : 5 = fd := by
    have hsame : findForwardPath proxy.tables.forwardingTable showCommodities.target
        = some location := hlocation
    cases hfound.symm.trans hsame
    have hhead : (proxy.tables.forwardingTable[bytes "/10001/show/"]?.getD []).head?
        = some fd := hfd
    rw [hbackends] at hhead
    exact Option.some.inj hhead
  have hrun : Run (TrafficStep silentWriter) { system := System.started proxy } _ s :=
    .cons haccept (.cons hstep (.nil s))
  have hproper : Meets (Traffic.Proper silentWriter fun _ => server1)
      [({ system := System.started proxy }, (TrafficAct.accept 7 clientA, [])),
        ({ system := (System.started proxy).accept 7 clientA },
          (.ask (showEmpty 7), written))] := by
    simp only [meets_cons]
    exact ⟨trivial, hask, fun _ h => absurd h List.not_mem_nil⟩
  have hfits : Meets Traffic.Fits
      [({ system := System.started proxy }, (TrafficAct.accept 7 clientA, [])),
        ({ system := (System.started proxy).accept 7 clientA },
          (.ask (showEmpty 7), written))] := by
    simp only [meets_cons]
    refine ⟨fun x hx => ?_, fun x hx => ?_, fun _ h => absurd h List.not_mem_nil⟩
    · cases hx
    · cases hx
      decide +kernel
  exact ⟨p, proxy, _, s, hparse, hstart, hrun, hunderway,
    writtenAsFiled_of_run hfile hparse nestedItems_oneServer hstart hall hrun hproper hfits⟩

end MicroBusiness
