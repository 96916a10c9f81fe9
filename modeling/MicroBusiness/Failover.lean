import MicroBusiness.Transition
import MicroBusiness.Upstreams

/-!
# Failover

After startup the vectors of the locations only ever lose entries: when a
worker finds that a backend has closed its connection, it takes the
descriptor out of every vector and out of the table of backends. So over any
run, whatever clients come and go and whatever tasks are still queued for
connections that are closed already, the vector of a location is the
configured list without the backends that have gone (`Remaining`).

Hence a request goes to the first configured backend that is still connected,
and is answered that there is none exactly when all have gone
(`failsOver_of_run`).
-/

namespace MicroBusiness

open Search Transition

/-! ## Steps -/

/-- What can happen to the proxy. -/
inductive ProxyAct
  /-- A client is accepted under a descriptor. -/
  | accept (fd : Fd) (addr : InetAddress)
  /-- A worker processes the connection of a descriptor. -/
  | task (fd : Fd) (io : Recvs)
  /-- The last pointer to a connection goes away. -/
  | destroy (fd : Fd)

/-- **A step of the proxy.** A descriptor is not given to a new client while
there is a connection with it, and a connection is there at least as long as
a table points to it; tasks may be queued for it longer. -/
inductive ProxyStep (json : JsonWriter) : Proxy → ProxyAct → Proxy → Prop
  | accept {p : Proxy} {fd : Fd} (addr : InetAddress) : p.conns[fd]? = none →
      ProxyStep json p (.accept fd addr) (EventLoop.handleNewConnection p fd addr)
  | task {p p' : Proxy} {fd : Fd} {io : Recvs} {conn : TcpConnection} {effects : List Effect} :
      p.conns[fd]? = some conn → EventLoop.process json p conn io = .ok (p', effects) →
      ProxyStep json p (.task fd io) p'
  | destroy {p : Proxy} {fd : Fd} : p.tables.clientConns[fd]? = none →
      p.tables.serverConns[fd]? = none →
      ProxyStep json p (.destroy fd) { p with conns := p.conns.erase fd }

/-- The backend whose disconnect a step handles. -/
def goneAt (p : Proxy) : ProxyAct → Option Fd
  | .task fd io =>
    match p.conns[fd]? with
    | some conn =>
      if conn.type = .server ∧ io.ending ≠ .wouldBlock then some conn.sock else none
    | none => none
  | _ => none

/-- The backends that have gone over some steps. -/
def gone (steps : List (Proxy × ProxyAct)) : List Fd :=
  steps.foldl (fun gone x => gone ++ (goneAt x.1 x.2).toList) []

/-! ## What remains -/

/-- **What remains of the backends**: the vectors, and the table of backends,
without those that have gone. -/
structure Remaining (start : Tables) (gone : List Fd) (p : Proxy) : Prop where
  vector : ∀ location : Bytes, p.tables.forwardingTable[location]?
    = start.forwardingTable[location]?.map (List.filter (fun fd => fd ∉ gone))
  conns : ∀ fd : Fd, p.tables.serverConns[fd]?
    = if fd ∈ gone then none else start.serverConns[fd]?

theorem erase_filter_notMem {fds gone : List Fd} (h : fds.Nodup) (fd : Fd) :
    (fds.filter (fun fd' => fd' ∉ gone)).erase fd
      = fds.filter (fun fd' => fd' ∉ gone ++ [fd]) := by
  rw [List.Nodup.erase_eq_filter (h.filter _), List.filter_filter]
  refine List.filter_congr (fun fd' _ => ?_)
  rw [Bool.eq_iff_iff]
  simp [and_comm]

section Remaining

variable {json : JsonWriter} {start : Tables} {gone : List Fd} {p p' : Proxy}

theorem Remaining.of_eq (h : Remaining start gone p)
    (hvector : p'.tables.forwardingTable = p.tables.forwardingTable)
    (hconns : p'.tables.serverConns = p.tables.serverConns) : Remaining start (gone ++ []) p' where
  vector := by
    intro location
    rw [hvector, List.append_nil]
    exact h.vector location
  conns := by
    intro fd
    rw [hconns, List.append_nil]
    exact h.conns fd

/-- A backend that is forgotten has gone. -/
theorem Remaining.forgetServer (h : Remaining start gone p)
    (hnodup : ∀ (location : Bytes) (fds : List Fd), start.forwardingTable[location]? = some fds →
      fds.Nodup)
    {fd : Fd} (hp' : p'.tables = TcpConnection.forgetServer p.tables fd) :
    Remaining start (gone ++ [fd]) p' where
  vector := by
    intro location
    rw [hp']
    unfold TcpConnection.forgetServer
    dsimp only
    rw [Std.ExtTreeMap.getElem?_map, h.vector location]
    cases hfds : start.forwardingTable[location]? with
    | none => rfl
    | some fds =>
      rw [Option.map_some, Option.map_some, Option.map_some]
      exact congrArg some (erase_filter_notMem (hnodup location fds hfds) fd)
  conns := by
    intro fd'
    rw [hp']
    unfold TcpConnection.forgetServer
    dsimp only
    rw [getElem?_erase_ite, h.conns fd']
    by_cases hfd : fd = fd'
    · rw [if_pos hfd, if_pos (by rw [hfd]; simp)]
    · rw [if_neg hfd]
      refine if_congr ?_ rfl rfl
      rw [List.mem_append, List.mem_singleton]
      exact (or_iff_left (fun h => hfd h.symm)).symm

/-- **A step leaves the backends, except the one whose disconnect it
handles.** -/
theorem Remaining.step (h : Remaining start gone p)
    (hnodup : ∀ (location : Bytes) (fds : List Fd), start.forwardingTable[location]? = some fds →
      fds.Nodup)
    {act : ProxyAct} (hstep : ProxyStep json p act p') :
    Remaining start (gone ++ (goneAt p act).toList) p' := by
  cases hstep with
  | accept addr hfd => exact h.of_eq rfl rfl
  | destroy hclient hserver => exact h.of_eq rfl rfl
  | @task _ fd io conn effects hconn hprocess =>
    obtain ⟨htables, -⟩ := EventLoop.of_process hprocess
    unfold goneAt
    dsimp only
    rw [hconn]
    dsimp only
    by_cases hending : io.ending = .wouldBlock
    · rw [if_pos hending] at htables
      rw [if_neg (fun h => h.2 hending)]
      exact h.of_eq (by rw [htables]) (by rw [htables])
    · rw [if_neg hending] at htables
      cases htype : conn.type with
      | client =>
        rw [htype] at htables
        rw [if_neg (fun h => nomatch h.1)]
        exact h.of_eq (by rw [htables]; rfl) (by rw [htables]; rfl)
      | server =>
        rw [htype] at htables
        rw [if_pos ⟨rfl, hending⟩]
        exact h.forgetServer hnodup htables

end Remaining

/-! ## Over a run -/

/-- **The proxy fails over in configured order**: each vector is the configured
list without the backends that have gone, all that it holds is connected, an
acceptable request goes to the first configured backend that has not gone or is
answered that there is none, its location is in the table, and no request meets
a null pointer. -/
structure FailsOver (config : Config) (attempts : Attempts) (gone : List Fd) (t : Tables) :
    Prop where
  vector : ∀ location : Bytes, t.forwardingTable[location]? = config.locations[location]?.map
    (fun _ => (config.reachable attempts location).filter (fun fd => fd ∉ gone))
  listed : t.BackendsListed
  routed : ∀ (json : JsonWriter) (conn : TcpConnection) (io : Recvs)
    (buf method path protocol businessCode : Bytes), readn io conn.readBuf = (true, buf) →
    TcpConnection.AcceptedLine t.forwardingTable (TcpConnection.getline buf) method path protocol
      businessCode →
    t.forwardingTable.contains businessCode ∧ ∃ conn',
      TcpConnection.doClient2server json t conn io = .ok (t, conn', [TcpConnection.routed json
        ((config.reachable attempts businessCode).filter (fun fd => fd ∉ gone)).head?
        (TcpConnection.insertClient conn.peerAddr buf)])
  safe : ∀ (json : JsonWriter) (conn : TcpConnection) (io : Recvs) (e : Fault),
    TcpConnection.doClient2server json t conn io ≠ .error e

section FailsOver

variable {config : Config} {attempts : Attempts} {p p' : Proxy} {gone : List Fd}

/-- What remains of the backends that startup has connected is what the proxy
fails over to. -/
theorem failsOver_of_remaining (hstart : EventLoop.connectToBusinessServer config attempts = .ok p)
    (hall : ∀ location, ∀ calls ∈ config.attemptsOf attempts location, calls.Succeeds)
    (h : Remaining p.tables gone p') : FailsOver config attempts gone p'.tables := by
  have hfilled := filled_of_connectToBusinessServer hstart
  have hvector : ∀ location : Bytes, p'.tables.forwardingTable[location]?
      = config.locations[location]?.map
        (fun _ => (config.reachable attempts location).filter (fun fd => fd ∉ gone)) := by
    intro location
    rw [h.vector location, hfilled.vector location,
      (entries_eq_reachable_iff config attempts location).mpr (hall location), Option.map_map]
    rfl
  have hlisted : p'.tables.BackendsListed := by
    intro location fds hfds fd hfd
    rw [h.vector location] at hfds
    obtain ⟨fds, hstart, rfl⟩ := Option.map_eq_some_iff.mp hfds
    obtain ⟨hmem, hgone⟩ := List.mem_filter.mp hfd
    obtain ⟨ptr, hptr, hfd⟩ := hfilled.backendsListed location fds hstart fd hmem
    refine ⟨ptr, ?_, hfd⟩
    rw [h.conns fd, if_neg (of_decide_eq_true hgone), hptr]
  refine ⟨hvector, hlisted, ?_, fun json conn io => TcpConnection.doClient2server_ne_error hlisted⟩
  intro json conn io buf method path protocol businessCode hread haccepted
  have hcontains := TcpConnection.contains_of_findForwardPath haccepted.location
  obtain ⟨conn', hrun⟩ := TcpConnection.doClient2server_routed hlisted hread haccepted
  refine ⟨hcontains, conn', hrun.trans ?_⟩
  obtain ⟨fds, hfds⟩ := contains_iff_exists.mp hcontains
  obtain ⟨loc, -, hfds'⟩ := Option.map_eq_some_iff.mp ((hvector businessCode).symm.trans hfds)
  rw [hfds, ← hfds']
  rfl

/-- **The proxy fails over in configured order over whole runs** that begin with
a fully successful startup, whatever clients and backends do in between.

What remains of the backends is a function of the disconnects that have been handled
(`Remaining`): each vector is the configured one without them, in its order, and a
backend that has not gone is in the table of backends. Every step keeps this relation,
also a task for a connection that has been taken out already. -/
theorem failsOver_of_run {json : JsonWriter} {steps : List (Proxy × ProxyAct)}
    (hstart : EventLoop.connectToBusinessServer config attempts = .ok p)
    (hall : ∀ location, ∀ calls ∈ config.attemptsOf attempts location, calls.Succeeds)
    (hdistinct : ∀ location, (config.reachable attempts location).Nodup)
    (hrun : Run (ProxyStep json) p steps p') :
    FailsOver config attempts (MicroBusiness.gone steps) p'.tables := by
  have hnodup : ∀ (location : Bytes) (fds : List Fd),
      p.tables.forwardingTable[location]? = some fds → fds.Nodup := by
    intro location fds hfds
    rw [(filled_of_connectToBusinessServer hstart).vector location] at hfds
    obtain ⟨loc, -, rfl⟩ := Option.map_eq_some_iff.mp hfds
    rw [(entries_eq_reachable_iff config attempts location).mpr (hall location)]
    exact hdistinct location
  have hnone : Remaining p.tables [] p :=
    ⟨fun location => by cases p.tables.forwardingTable[location]? <;> simp, fun fd => by simp⟩
  refine failsOver_of_remaining hstart hall ?_
  exact hrun.simulates (fun gone s e t h hstep => h.step hnodup hstep) hnone

end FailsOver

/-- The connection to one of two backends. -/
def backendOf (fd : Fd) : TcpConnection where
  sock := fd
  type := .server
  peerAddr := ⟨127, 0, 0, 1, 0⟩

/-- The proxy after it has connected to the primary and to the backup. -/
def bothConnected : Proxy where
  tables :=
    { forwardingTable := (∅ : StdMap Bytes (List Fd)).insert (bytes "/10001/") [4, 5]
      serverConns := ((∅ : StdMap Fd TcpConnectionPtr).insert 4 ⟨4, ⟨127, 0, 0, 1, 0⟩⟩).insert 5
        ⟨5, ⟨127, 0, 0, 1, 0⟩⟩ }
  conns := ((∅ : StdMap Fd TcpConnection).insert 4 (backendOf 4)).insert 5 (backendOf 5)

theorem connectToBusinessServer_bothConnected :
    EventLoop.connectToBusinessServer primaryAndBackup (attemptsFailing [])
      = .ok bothConnected := by
  decide +kernel

/-- After the primary has closed, the backup is what remains. -/
theorem failsOver_primaryClosed :
    ∃ (steps : List (Proxy × ProxyAct)) (p' : Proxy), gone steps = [4]
      ∧ FailsOver primaryAndBackup (attemptsFailing []) (gone steps) p'.tables := by
  have hall : ∀ location, ∀ calls ∈ primaryAndBackup.attemptsOf (attemptsFailing []) location,
      calls.Succeeds := by
    intro location
    unfold Config.attemptsOf
    split
    · exact fun _ h => absurd h List.not_mem_nil
    · exact attemptsFrom_succeeds location 0 _
  have hdistinct : ∀ location,
      (primaryAndBackup.reachable (attemptsFailing []) location).Nodup := by
    intro location
    by_cases hlocation : bytes "/10001/" = location
    · rw [← hlocation]
      decide +kernel
    · rw [reachable_of_none]
      · exact List.nodup_nil
      · unfold primaryAndBackup
        dsimp only
        rw [getElem?_insert_ite, if_neg hlocation, Std.ExtTreeMap.getElem?_empty]
  have hrun : Run (ProxyStep silentWriter) bothConnected
      [(bothConnected, .accept 7 clientA),
        (EventLoop.handleNewConnection bothConnected 7 clientA, .task 4 ⟨[], .closed⟩)] _ :=
    .cons (.accept clientA (by decide +kernel)) <|
      .cons (.task (by decide +kernel)
        (show EventLoop.process silentWriter _ (backendOf 4) _ = .ok (_, _) from rfl)) <| .nil _
  refine ⟨_, _, ?_,
    failsOver_of_run connectToBusinessServer_bothConnected hall hdistinct hrun⟩
  decide +kernel

end MicroBusiness
