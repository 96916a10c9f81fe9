import MicroBusiness.Dispatch

/-!
# Tasks in one go

A worker processes a connection in many steps, and the event loop and the other workers
take theirs in between. What comes of it is what would come of processing each
connection in one go: every run of the event loop and its workers that hands no
connection over again simulates a run of the proxy whose steps are whole tasks
(`inOneGo_of_run`). A task takes place when its worker handles the buffer, and receives
all that the worker has received until then. What the two runs send and reply is the
same, in the same order, and so are the tables at the end; and when all workers wait,
the connections are the same too.

What is put together here is the receiving. Behind `readn` a worker is taken to do the
rest of `process` in one step, as everywhere over `ReactorStep`: looking up the backend
or the client, taking out a closed connection and sending. The same goes for the second
result, that the backends of a location are used in configured order with any number of
workers (`failsOver_of_reactorRun`). There a connection may also be handed over again
while a worker is inside its `process`, so that several workers receive and append in
between each other; but one worker's lookup is not interleaved with another worker's
erasure.
-/

namespace MicroBusiness

open Transition

/-! ## What a step does to the outside -/

/-- What a step of the proxy sends and replies. -/
def effectsAt (json : JsonWriter) (p : Proxy) : ProxyAct → List Effect
  | .task fd io =>
    match p.conns[fd]? with
    | some conn =>
      match EventLoop.process json p conn io with
      | .ok (_, effects) => effects
      | .error _ => []
    | none => []
  | _ => []

variable {ι : Type*}

/-- What a step of the event loop or of a worker sends and replies. -/
def Reactor.effectsAt (json : JsonWriter) (s : Reactor ι) : ReactorAct ι → List Effect
  | .handle i =>
    match s.workers i with
    | .handling fd ending => MicroBusiness.effectsAt json s.proxy (.task fd ⟨[], ending⟩)
    | _ => []
  | _ => []

theorem effectsAt_task {json : JsonWriter} {p p' : Proxy} {fd : Fd} {io : Recvs}
    {conn : TcpConnection} {effects : List Effect} (hconn : p.conns[fd]? = some conn)
    (hprocess : EventLoop.process json p conn io = .ok (p', effects)) :
    effectsAt json p (.task fd io) = effects := by
  unfold effectsAt
  dsimp only
  rw [hconn]
  dsimp only
  rw [hprocess]

/-! ## Whole tasks -/

/-- The proxy, and the pieces that have been received on each connection. -/
structure Serving where
  proxy : Proxy
  received : Fd → List Chunk := fun _ => []

/-- The pieces that have been received behind a step. -/
def receivedAfter (received : Fd → List Chunk) : ProxyAct → Fd → List Chunk
  | .accept fd _ => Function.update received fd []
  | .task fd io => Function.update received fd (received fd ++ io.chunks)
  | .destroy _ => received

theorem receivedAfter_task (received : Fd → List Chunk) (fd : Fd) (io : Recvs) :
    receivedAfter received (.task fd io)
      = Function.update received fd (received fd ++ io.chunks) := rfl

/-- **A step of the proxy**, with what it receives. -/
inductive ServingStep (json : JsonWriter) : Serving → ProxyAct → Serving → Prop
  | step {p p' : Proxy} {received : Fd → List Chunk} {act : ProxyAct}
    (hstep : ProxyStep json p act p') :
    ServingStep json ⟨p, received⟩ act ⟨p', receivedAfter received act⟩

/-- A connection with pieces appended to its buffer. -/
def TcpConnection.appendChunks (conn : TcpConnection) (chunks : List Chunk) : TcpConnection :=
  { conn with readBuf := conn.readBuf ++ chunks.flatMap (fun chunk : Chunk => cString chunk.val) }

theorem TcpConnection.appendChunks_nil (conn : TcpConnection) : conn.appendChunks [] = conn := by
  unfold TcpConnection.appendChunks
  rw [List.flatMap_nil, List.append_nil]

theorem TcpConnection.appendChunks_append (conn : TcpConnection) (chunks : List Chunk)
    (chunk : Chunk) :
    { conn.appendChunks chunks with
        readBuf := (conn.appendChunks chunks).readBuf ++ cString chunk.val }
      = conn.appendChunks (chunks ++ [chunk]) := by
  unfold TcpConnection.appendChunks
  rw [List.flatMap_append, List.flatMap_singleton, List.append_assoc]

/-- The piece that a worker has received and not yet appended. -/
def Processing.chunks : Processing → List Chunk
  | .appending _ chunk => [chunk]
  | _ => []

/-- **The event loop and its workers do what whole tasks have done**, up to the tasks in
progress: a connection that a worker is inside `process` of has the pieces in its buffer
that the worker has appended. -/
structure InOneGo (s : Reactor ι) (v : Serving) (appended : Fd → List Chunk) : Prop where
  tables : v.proxy.tables = s.proxy.tables
  conns : ∀ fd : Fd, s.proxy.conns[fd]? =
    v.proxy.conns[fd]?.map (fun conn => conn.appendChunks (appended fd))
  received : ∀ fd : Fd, ∀ i, (s.workers i).conn = some fd →
    (s.streams fd).received = v.received fd ++ appended fd ++ (s.workers i).chunks
  idle : ∀ fd : Fd, (∀ i, (s.workers i).conn ≠ some fd) →
    appended fd = [] ∧ (s.streams fd).received = v.received fd

/-- **A task does to the tables and to its connection the same** wherever the tables are
the same. -/
theorem EventLoop.process_of_tables_eq {json : JsonWriter} {p p' q : Proxy}
    {conn : TcpConnection} {io : Recvs} {effects : List Effect} (htables : q.tables = p.tables)
    (h : process json p conn io = .ok (p', effects)) :
    ∃ conn', p'.conns = p.conns.insert conn.sock conn'
      ∧ process json q conn io = .ok (⟨p'.tables, q.conns.insert conn.sock conn'⟩, effects) := by
  obtain ⟨conn', hrun, hconns⟩ := exists_of_process h
  have hsock : conn'.sock = conn.sock := by
    cases htype : conn.type with
    | server =>
      rw [htype] at hrun
      exact (TcpConnection.doServer2client_ok hrun).2.1.sock
    | client =>
      rw [htype] at hrun
      exact (TcpConnection.doClient2server_ok hrun).2.1.sock
  rw [← htables] at hrun
  have hprocess := process_eq hrun
  rw [hsock] at hconns hprocess
  exact ⟨conn', hconns, hprocess⟩

namespace InOneGo

variable {json : JsonWriter} {queSize : ℕ} {s s' : Reactor ι} {v : Serving}
  {appended : Fd → List Chunk}

/-- What the workers are doing is nothing yet. -/
theorem start (p : Proxy) :
    InOneGo (Reactor.start p : Reactor ι) ⟨p, fun _ => []⟩ (fun _ => []) where
  tables := rfl
  conns fd := by
    simp only [TcpConnection.appendChunks_nil, Option.map_id']
    rfl
  received _ _ h := nomatch h
  idle _ _ := ⟨rfl, rfl⟩

/-- A new client has nothing in its buffer. -/
theorem accept (h : InOneGo s v appended) (hassigned : s.Assigned) {fd : Fd} (addr : InetAddress)
    (hfd : s.proxy.conns[fd]? = none) :
    v.proxy.conns[fd]? = none ∧ InOneGo
      { s with
        proxy := EventLoop.handleNewConnection s.proxy fd addr
        streams := Function.update s.streams fd {} }
      ⟨EventLoop.handleNewConnection v.proxy fd addr, Function.update v.received fd []⟩
      appended := by
  have hnone : v.proxy.conns[fd]? = none := Option.map_eq_none_iff.mp ((h.conns fd).symm.trans hfd)
  have hclients := hassigned.holds.held fd hfd
  have hidle := (hassigned.unused fd hfd).2
  refine ⟨hnone, ?_, fun fd' => ?_, fun fd' i hi => ?_, fun fd' hfd' => ?_⟩
  · show EventLoop.acceptClient v.proxy.tables fd addr
      = EventLoop.acceptClient s.proxy.tables fd addr
    rw [h.tables]
  · dsimp only
    rw [EventLoop.conns_handleNewConnection addr hclients fd',
      EventLoop.conns_handleNewConnection addr (h.tables ▸ hclients) fd']
    by_cases heq : fd = fd'
    · subst heq
      rw [if_pos rfl, if_pos rfl, Option.map_some, (h.idle fd hidle).1,
        TcpConnection.appendChunks_nil]
    · rw [if_neg heq, if_neg heq]
      exact h.conns fd'
  · have hne : fd' ≠ fd := by
      rintro rfl
      exact hidle i hi
    dsimp only
    rw [Function.update_of_ne hne, Function.update_of_ne hne]
    exact h.received fd' i hi
  · refine ⟨(h.idle fd' hfd').1, ?_⟩
    dsimp only
    by_cases heq : fd' = fd
    · subst heq
      rw [Function.update_self, Function.update_self]
    · rw [Function.update_of_ne heq, Function.update_of_ne heq]
      exact (h.idle fd' hfd').2

variable [DecidableEq ι]

/-- A worker begins with a connection that no one is inside `process` of. -/
theorem getRequest (h : InOneGo s v appended) {i : ι} {fd : Fd} (hi : s.workers i = .waiting)
    (hfd : ∀ j, (s.workers j).conn ≠ some fd) {rest : List Fd} :
    InOneGo { s with taskque := rest, workers := Function.update s.workers i (.reading fd) } v
      appended where
  tables := h.tables
  conns := h.conns
  received fd' j hj := by
    dsimp only at hj ⊢
    by_cases hij : j = i
    · subst hij
      rw [Function.update_self] at hj ⊢
      cases hj
      obtain ⟨hnil, hreceived⟩ := h.idle fd hfd
      rw [hnil, hreceived, List.append_nil]
      exact (List.append_nil _).symm
    · rw [Function.update_of_ne hij] at hj ⊢
      exact h.received fd' j hj
  idle fd' hfd' := by
    refine h.idle fd' fun j hj => hfd' j ?_
    dsimp only
    rw [Function.update_of_ne, hj]
    rintro rfl
    rw [hi] at hj
    cases hj

/-- **A worker that stays inside `process` of its connection** may append to its buffer. -/
theorem continues (h : InOneGo s v appended) (hassigned : s.Assigned) {i : ι} {fd : Fd}
    {w : Processing} (hi : (s.workers i).conn = some fd) (hw : w.conn = some fd) {p' : Proxy}
    {streams' : Fd → Stream} {appended' : Fd → List Chunk}
    (htables : p'.tables = s.proxy.tables)
    (hconns : ∀ fd' : Fd, p'.conns[fd']?
      = v.proxy.conns[fd']?.map (fun conn => conn.appendChunks (appended' fd')))
    (hstream : (streams' fd).received = v.received fd ++ appended' fd ++ w.chunks)
    (hothers : ∀ fd', fd' ≠ fd →
      (streams' fd').received = (s.streams fd').received ∧ appended' fd' = appended fd') :
    InOneGo
      { s with proxy := p', workers := Function.update s.workers i w, streams := streams' } v
      appended' where
  tables := h.tables.trans htables.symm
  conns := hconns
  received fd' j hj := by
    dsimp only at hj ⊢
    by_cases hij : j = i
    · subst hij
      rw [Function.update_self, hw, Option.some.injEq] at hj
      subst hj
      rw [Function.update_self]
      exact hstream
    · -- another worker is at another connection, of which nothing changes
      rw [Function.update_of_ne hij] at hj ⊢
      have hne : fd' ≠ fd := by
        rintro rfl
        exact hij (hassigned.exclusive j i fd' hj hi)
      rw [(hothers fd' hne).1, (hothers fd' hne).2]
      exact h.received fd' j hj
  idle fd' hfd' := by
    dsimp only at hfd' ⊢
    have hne : fd' ≠ fd := by
      rintro rfl
      refine hfd' i ?_
      rw [Function.update_self]
      exact hw
    rw [(hothers fd' hne).1, (hothers fd' hne).2]
    refine h.idle fd' fun j hj => hfd' j ?_
    rw [Function.update_of_ne, hj]
    rintro rfl
    exact hne (Option.some.inj (hj.symm.trans hi))

/-- What a worker receives is about to be appended. -/
theorem recv (h : InOneGo s v appended) (hassigned : s.Assigned) {i : ι} {fd : Fd}
    {chunk : Chunk} (hi : s.workers i = .reading fd) :
    InOneGo
      { s with
        workers := Function.update s.workers i (.appending fd chunk)
        streams := Function.update s.streams fd
          { s.streams fd with received := (s.streams fd).received ++ [chunk] } } v appended := by
  have hreceived : (s.streams fd).received = v.received fd ++ appended fd := by
    have hreceived := h.received fd i (by rw [hi]; rfl)
    rw [hi] at hreceived
    exact hreceived.trans (List.append_nil _)
  refine h.continues hassigned (by rw [hi]; rfl) rfl rfl h.conns ?_ fun fd' hne => ⟨?_, rfl⟩
  · rw [Function.update_self, ← hreceived]
    rfl
  · rw [Function.update_of_ne hne]

/-- Nothing more is received. -/
theorem recvEnd (h : InOneGo s v appended) (hassigned : s.Assigned) {i : ι} {fd : Fd}
    (hi : s.workers i = .reading fd) (ending : RecvEnd) :
    InOneGo { s with workers := Function.update s.workers i (.handling fd ending) } v
      appended := by
  have hreceived := h.received fd i (by rw [hi]; rfl)
  rw [hi] at hreceived
  exact h.continues hassigned (by rw [hi]; rfl) rfl rfl h.conns hreceived fun _ _ => ⟨rfl, rfl⟩

/-- A piece is appended. -/
theorem append (h : InOneGo s v appended) (hassigned : s.Assigned) {i : ι} {fd : Fd}
    {chunk : Chunk} {conn : TcpConnection} (hi : s.workers i = .appending fd chunk)
    (hconn : s.proxy.conns[fd]? = some conn) :
    InOneGo
      { s with
        proxy := { s.proxy with
          conns := s.proxy.conns.insert fd
            { conn with readBuf := conn.readBuf ++ cString chunk.val } }
        workers := Function.update s.workers i (.reading fd) } v
      (Function.update appended fd (appended fd ++ [chunk])) := by
  have hreceived := h.received fd i (by rw [hi]; rfl)
  rw [hi] at hreceived
  refine h.continues hassigned (by rw [hi]; rfl) rfl rfl (fun fd' => ?_) ?_ fun fd' hne =>
    ⟨rfl, Function.update_of_ne hne _ _⟩
  · dsimp only
    rw [getElem?_insert_ite]
    by_cases heq : fd = fd'
    · subst heq
      obtain ⟨before, hbefore, rfl⟩ := Option.map_eq_some_iff.mp ((h.conns fd).symm.trans hconn)
      rw [if_pos rfl, Function.update_self, hbefore, Option.map_some,
        TcpConnection.appendChunks_append]
    · rw [if_neg heq, Function.update_of_ne (Ne.symm heq)]
      exact h.conns fd'
  · rw [Function.update_self, hreceived, ← List.append_assoc]
    exact (List.append_nil _).symm

/-- **The rest of `process` is the task**: with all the pieces that its worker has
received. -/
theorem handle (h : InOneGo s v appended) (hassigned : s.Assigned) {i : ι} {fd : Fd}
    {ending : RecvEnd} {conn : TcpConnection} {p' : Proxy} {effects : List Effect}
    (hi : s.workers i = .handling fd ending) (hconn : s.proxy.conns[fd]? = some conn)
    (hprocess : EventLoop.process json s.proxy conn ⟨[], ending⟩ = .ok (p', effects)) :
    ∃ p'', ProxyStep json v.proxy (.task fd ⟨appended fd, ending⟩) p'' ∧
      effectsAt json v.proxy (.task fd ⟨appended fd, ending⟩) = effects ∧ InOneGo
      { s with
        proxy := p'
        workers := Function.update s.workers i .waiting
        streams := Function.update s.streams fd
          { s.streams fd with
            forwarded := (s.streams fd).forwarded
              ++ if sends effects = [] then [] else conn.readBuf } }
      ⟨p'', receivedAfter v.received (.task fd ⟨appended fd, ending⟩)⟩
      (Function.update appended fd []) := by
  have hreceived : (s.streams fd).received = v.received fd ++ appended fd := by
    have hreceived := h.received fd i (by rw [hi]; rfl)
    rw [hi] at hreceived
    exact hreceived.trans (List.append_nil _)
  -- the connection that the whole task begins with lacks the pieces that were appended
  obtain ⟨before, hbefore, hmap⟩ := Option.map_eq_some_iff.mp ((h.conns fd).symm.trans hconn)
  obtain ⟨conn', hconns, htask⟩ := EventLoop.process_of_tables_eq h.tables hprocess
  rw [hassigned.holds.sock fd conn hconn] at hconns htask
  rw [← hmap] at htask
  -- with them it is the one that the worker has
  have htask := (process_eq_of_appended json v.proxy before (appended fd) ending).trans htask
  refine ⟨_, .task hbefore htask, effectsAt_task hbefore htask, rfl, fun fd' => ?_,
    fun fd' j hj => ?_, fun fd' hfd' => ?_⟩
  · dsimp only
    rw [hconns, getElem?_insert_ite, getElem?_insert_ite]
    by_cases heq : fd = fd'
    · subst heq
      rw [if_pos rfl, if_pos rfl, Function.update_self, Option.map_some,
        TcpConnection.appendChunks_nil]
    · rw [if_neg heq, if_neg heq, Function.update_of_ne (Ne.symm heq)]
      exact h.conns fd'
  · dsimp only at hj ⊢
    have hij : j ≠ i := by
      rintro rfl
      rw [Function.update_self] at hj
      cases hj
    rw [Function.update_of_ne hij] at hj ⊢
    have hne : fd' ≠ fd := by
      rintro rfl
      exact hij (hassigned.exclusive j i fd' hj (by rw [hi]; rfl))
    rw [Function.update_of_ne hne, Function.update_of_ne hne, receivedAfter_task,
      Function.update_of_ne hne]
    exact h.received fd' j hj
  · dsimp only at hfd' ⊢
    rw [receivedAfter_task]
    by_cases heq : fd' = fd
    · subst heq
      rw [Function.update_self, Function.update_self, Function.update_self]
      exact ⟨rfl, hreceived⟩
    · rw [Function.update_of_ne heq, Function.update_of_ne heq, Function.update_of_ne heq]
      refine h.idle fd' fun j hj => hfd' j ?_
      rw [Function.update_of_ne, hj]
      rintro rfl
      rw [hi] at hj
      exact heq (Option.some.inj hj).symm

/-- **Every step is matched**: the rest of `process` by the whole task, a new client and a
connection that goes away by themselves, and any other step by none. -/
theorem step (h : InOneGo s v appended) (hassigned : s.Assigned) {act : ReactorAct ι}
    (hstep : ReactorStep json queSize s act s') :
    ∃ tasks v' appended', Run (ServingStep json) v tasks v' ∧ InOneGo s' v' appended' ∧
      tasks.flatMap (fun x => effectsAt json x.1.proxy x.2) = s.effectsAt json act := by
  cases hstep with
  | @accept fd addr hfd =>
    obtain ⟨hnone, haccept⟩ := h.accept hassigned addr hfd
    exact ⟨_, _, appended, .cons (.step (.accept addr hnone)) (.nil _), haccept, rfl⟩
  -- what arrives has not been received
  | arrive fd data =>
    have hreceived : ∀ fd', (Function.update s.streams fd
        { s.streams fd with arrived := (s.streams fd).arrived ++ data } fd').received
          = (s.streams fd').received := by
      intro fd'
      rw [Function.update_apply]
      split
      · next heq => rw [heq]
      · rfl
    refine ⟨[], v, appended, .nil v, ⟨h.tables, h.conns, fun fd' i hi => ?_, fun fd' hfd' => ?_⟩,
      rfl⟩
    · exact (hreceived fd').trans (h.received fd' i hi)
    · exact ⟨(h.idle fd' hfd').1, (hreceived fd').trans (h.idle fd' hfd').2⟩
  | handleMessage hconn _ =>
    exact ⟨[], v, appended, .nil v, ⟨h.tables, h.conns, h.received, h.idle⟩, rfl⟩
  | @getRequest i fd rest hi hqueue =>
    have hmem : fd ∈ s.taskque := by
      rw [hqueue]
      exact List.mem_cons_self
    refine ⟨[], v, appended, .nil v, h.getRequest hi fun j hj => ?_, rfl⟩
    exact hassigned.apart j fd hj hmem
  | recv hi _ => exact ⟨[], v, appended, .nil v, h.recv hassigned hi, rfl⟩
  | recvEnd hi _ => exact ⟨[], v, appended, .nil v, h.recvEnd hassigned hi _, rfl⟩
  | append hi hconn => exact ⟨[], v, _, .nil v, h.append hassigned hi hconn, rfl⟩
  -- the only step that sends and replies
  | @handle i fd ending conn p' effects hi hconn hprocess =>
    obtain ⟨p'', htask, heffects, hhandle⟩ := h.handle hassigned hi hconn hprocess
    refine ⟨_, _, _, .cons (.step htask) (.nil _), hhandle, ?_⟩
    rw [List.flatMap_singleton, heffects]
    unfold Reactor.effectsAt
    dsimp only
    rw [hi]
    exact (effectsAt_task hconn hprocess).symm
  | @destroy fd hclient hserver hqueue hworkers =>
    refine ⟨_, _, appended, .cons (.step (.destroy (h.tables ▸ hclient) (h.tables ▸ hserver)))
      (.nil _), ⟨h.tables, fun fd' => ?_, h.received, h.idle⟩, rfl⟩
    dsimp only
    rw [getElem?_erase_ite, getElem?_erase_ite]
    split
    · rfl
    · exact h.conns fd'

end InOneGo

/-! ## Over a run -/

/-- After startup nothing is in the queue, and no worker is inside `process`. -/
theorem assigned_start {config : Config} {attempts : Attempts} {p : Proxy}
    (hstart : EventLoop.connectToBusinessServer config attempts = .ok p) :
    (Reactor.start p : Reactor ι).Assigned := by
  refine ⟨⟨nofun, fun fd conn hconn => ⟨List.prefix_rfl, Or.inr ⟨nofun, ?_⟩⟩⟩,
    holds_of_connectToBusinessServer hstart, List.nodup_nil, nofun,
    fun fd _ => ⟨List.not_mem_nil, nofun⟩⟩
  rw [((filled_of_connectToBusinessServer hstart).object fd conn hconn).2]
  rfl

variable [DecidableEq ι]

/-- **The workers process each connection in one go**: from startup on, every run of the
event loop and its workers in which no connection is handed over again sends and replies
what a run of whole tasks does, and the tables are the same; and when all workers wait,
the connections are the same, and what has been received is what the tasks have
received.

The steps of a run are those of `ReactorStep`: the event loop and the workers
interleave at each `recv` and each append, and the rest of `process` behind `readn` is
one step of its worker. -/
theorem inOneGo_of_run {json : JsonWriter} {queSize : ℕ} {config : Config} {attempts : Attempts}
    {p : Proxy} (hstart : EventLoop.connectToBusinessServer config attempts = .ok p)
    {steps : List (Reactor ι × ReactorAct ι)} {s : Reactor ι}
    (hrun : Run (ReactorStep json queSize) (Reactor.start p) steps s)
    (honce : Meets HandedOnce steps) :
    ∃ tasks v, Run (ServingStep json) ⟨p, fun _ => []⟩ tasks v
      ∧ tasks.flatMap (fun x => effectsAt json x.1.proxy x.2)
        = steps.flatMap (fun x => x.1.effectsAt json x.2)
      ∧ v.proxy.tables = s.proxy.tables
      ∧ ((∀ i, s.workers i = .waiting) → v.proxy = s.proxy
        ∧ ∀ fd, v.received fd = (s.streams fd).received) := by
  have hmatched : ∀ (s : Reactor ι) (act : ReactorAct ι) (s' : Reactor ι) (v : Serving),
      (s.Assigned ∧ ∃ appended, InOneGo s v appended) → HandedOnce s act →
      ReactorStep json queSize s act s' → ∃ tasks v', Run (ServingStep json) v tasks v' ∧
        (s'.Assigned ∧ ∃ appended, InOneGo s' v' appended) ∧
        tasks.flatMap (fun x => effectsAt json x.1.proxy x.2) = s.effectsAt json act := by
    rintro s act s' v ⟨hassigned, appended, h⟩ honce hstep
    obtain ⟨tasks, v', appended', htasks, h', heffects⟩ := h.step hassigned hstep
    exact ⟨tasks, v', htasks, ⟨hassigned.step honce hstep, appended', h'⟩, heffects⟩
  obtain ⟨tasks, v, htasks, ⟨-, appended, h⟩, heffects⟩ :=
    hrun.exists_simulation hmatched honce ⟨assigned_start hstart, _, InOneGo.start p⟩
  refine ⟨tasks, v, htasks, heffects, h.tables, fun hwaiting => ?_⟩
  have hidle : ∀ fd : Fd, ∀ i, (s.workers i).conn ≠ some fd := by
    intro fd i hi
    rw [hwaiting i] at hi
    cases hi
  refine ⟨?_, fun fd => (h.idle fd (hidle fd)).2.symm⟩
  have hconns : v.proxy.conns = s.proxy.conns := by
    refine Std.ExtTreeMap.ext_getElem? fun fd => ?_
    rw [h.conns fd, (h.idle fd (hidle fd)).1]
    simp only [TcpConnection.appendChunks_nil, Option.map_id']
  exact congrArg₂ Proxy.mk h.tables hconns

/-- Two workers that process the connections of two clients at the same time. -/
theorem inOneGo_interleaved :
    ∃ (steps : List (Reactor Bool × ReactorAct Bool)) (s : Reactor Bool),
      Run (ReactorStep silentWriter 10) (Reactor.start bothConnected) steps s
        ∧ ∃ tasks v, Run (ServingStep silentWriter) ⟨bothConnected, fun _ => []⟩ tasks v
          ∧ v.proxy = s.proxy ∧ v.received 7 = [byteChunk 65] ∧ v.received 8 = [byteChunk 66] := by
  have hrun : Run (ReactorStep silentWriter 10) (Reactor.start bothConnected : Reactor Bool)
      [(_, .accept 7 clientA), (_, .accept 8 clientB), (_, .arrive 7 [65]), (_, .arrive 8 [66]),
        (_, .handleMessage 7), (_, .handleMessage 8), (_, .getRequest false), (_, .getRequest true),
        (_, .recv false (byteChunk 65)), (_, .recv true (byteChunk 66)), (_, .append true),
        (_, .append false), (_, .recvEnd false .wouldBlock), (_, .recvEnd true .wouldBlock),
        (_, .handle true), (_, .handle false)] _ :=
    .cons (.accept clientA (by decide +kernel)) <| .cons (.accept clientB (by decide +kernel)) <|
      .cons (.arrive 7 [65]) <| .cons (.arrive 8 [66]) <|
      .cons (.handleMessage (show _ = some (clientOn 7 clientA) by decide +kernel)
        (by decide +kernel)) <|
      .cons (.handleMessage (show _ = some (clientOn 8 clientB) by decide +kernel)
        (by decide +kernel)) <|
      .cons (.getRequest rfl rfl) <| .cons (.getRequest rfl rfl) <|
      .cons (.recv rfl (by decide +kernel)) <| .cons (.recv rfl (by decide +kernel)) <|
      .cons (.append rfl (show _ = some (clientOn 8 clientB) by decide +kernel)) <|
      .cons (.append rfl (show _ = some (clientOn 7 clientA) by decide +kernel)) <|
      .cons (.recvEnd rfl (fun _ => rfl)) <| .cons (.recvEnd rfl (fun _ => rfl)) <|
      .cons (.handle rfl (show _ = some { clientOn 8 clientB with readBuf := [66] } by
        decide +kernel) (show EventLoop.process silentWriter _
          { clientOn 8 clientB with readBuf := [66] } ⟨[], .wouldBlock⟩ = .ok (_, _) from rfl)) <|
      .cons (.handle rfl (show _ = some { clientOn 7 clientA with readBuf := [65] } by
        decide +kernel) (show EventLoop.process silentWriter _
          { clientOn 7 clientA with readBuf := [65] } ⟨[], .wouldBlock⟩ = .ok (_, _) from rfl)) <|
      .nil _
  obtain ⟨tasks, v, htasks, -, -, hend⟩ :=
    inOneGo_of_run connectToBusinessServer_bothConnected hrun (by
      simp only [meets_cons]
      refine ⟨trivial, trivial, trivial, trivial, ⟨?_, ?_⟩, ⟨?_, ?_⟩, trivial, trivial, trivial,
        trivial, trivial, trivial, trivial, trivial, trivial, trivial, fun _ h => nomatch h⟩ <;>
        decide +kernel)
  obtain ⟨hproxy, hreceived⟩ := hend (by decide +kernel)
  exact ⟨_, _, hrun, tasks, v, htasks, hproxy, hreceived 7, hreceived 8⟩

/-! ## Failover with any number of workers -/

namespace Reactor

/-- The backend whose disconnect a step of the event loop or of a worker handles. -/
def goneAt (s : Reactor ι) : ReactorAct ι → Option Fd
  | .handle i =>
    match s.workers i with
    | .handling fd ending => MicroBusiness.goneAt s.proxy (.task fd ⟨[], ending⟩)
    | _ => none
  | _ => none

/-- The backends that have gone over some steps. -/
def gone (steps : List (Reactor ι × ReactorAct ι)) : List Fd :=
  steps.foldl (fun gone x => gone ++ (x.1.goneAt x.2).toList) []

end Reactor

/-- **A step leaves the backends, except the one whose disconnect it handles**, also where
several workers are inside `process` of one connection. -/
theorem Remaining.reactorStep {json : JsonWriter} {queSize : ℕ} {start : Tables} {gone : List Fd}
    {s s' : Reactor ι} {act : ReactorAct ι} (h : Remaining start gone s.proxy)
    (hnodup : ∀ (location : Bytes) (fds : List Fd), start.forwardingTable[location]? = some fds →
      fds.Nodup)
    (hstep : ReactorStep json queSize s act s') :
    Remaining start (gone ++ (s.goneAt act).toList) s'.proxy := by
  cases hstep with
  | @accept fd addr hfd =>
    exact h.step hnodup (show ProxyStep json s.proxy (.accept fd addr) _ from .accept addr hfd)
  | @handle i fd ending conn p' effects hi hconn hprocess =>
    unfold Reactor.goneAt
    dsimp only
    rw [hi]
    exact h.step hnodup (.task hconn hprocess)
  | @destroy fd hclient hserver _ _ =>
    exact h.step hnodup
      (show ProxyStep json s.proxy (.destroy fd) _ from .destroy hclient hserver)
  | _ => exact h.of_eq rfl rfl

/-- **The proxy fails over in configured order with any number of workers**, in every
interleaving of their steps with those of the event loop, where the rest of `process`
behind `readn` is one step of its worker: a lookup in a vector is not interleaved with
another worker's erasure from it. No connection has to be handed over only once. -/
theorem failsOver_of_reactorRun {json : JsonWriter} {queSize : ℕ} {config : Config}
    {attempts : Attempts} {p : Proxy}
    (hstart : EventLoop.connectToBusinessServer config attempts = .ok p)
    (hall : ∀ location, ∀ calls ∈ config.attemptsOf attempts location, calls.Succeeds)
    (hdistinct : ∀ location, (config.reachable attempts location).Nodup)
    {steps : List (Reactor ι × ReactorAct ι)} {s : Reactor ι}
    (hrun : Run (ReactorStep json queSize) (Reactor.start p) steps s) :
    FailsOver config attempts (Reactor.gone steps) s.proxy.tables := by
  have hnodup : ∀ (location : Bytes) (fds : List Fd),
      p.tables.forwardingTable[location]? = some fds → fds.Nodup := by
    intro location fds hfds
    rw [(filled_of_connectToBusinessServer hstart).vector location] at hfds
    obtain ⟨loc, -, rfl⟩ := Option.map_eq_some_iff.mp hfds
    rw [(entries_eq_reachable_iff config attempts location).mpr (hall location)]
    exact hdistinct location
  have hnone : Remaining p.tables [] p :=
    ⟨fun location => by cases p.tables.forwardingTable[location]? <;> simp, fun fd => by simp⟩
  have hremaining : Remaining p.tables (Reactor.gone steps) s.proxy :=
    @Run.simulates _ _ _ (ReactorStep json queSize) (fun gone s => Remaining p.tables gone s.proxy)
      (fun gone x => gone ++ (x.1.goneAt x.2).toList)
      (fun _ _ _ _ h hstep => h.reactorStep hnodup hstep) _ _ _ hrun _ hnone
  exact failsOver_of_remaining hstart hall hremaining

theorem attemptsOf_primaryAndBackup (location : Bytes) :
    ∀ calls ∈ primaryAndBackup.attemptsOf (attemptsFailing []) location, calls.Succeeds := by
  unfold Config.attemptsOf
  split
  · exact fun _ h => absurd h List.not_mem_nil
  · exact attemptsFrom_succeeds location 0 _

theorem nodup_reachable_primaryAndBackup (location : Bytes) :
    (primaryAndBackup.reachable (attemptsFailing []) location).Nodup := by
  by_cases hlocation : bytes "/10001/" = location
  · rw [← hlocation]
    decide +kernel
  · rw [reachable_of_none]
    · exact List.nodup_nil
    · unfold primaryAndBackup
      dsimp only
      rw [getElem?_insert_ite, if_neg hlocation, Std.ExtTreeMap.getElem?_empty]

/-- The primary closes while another worker is inside `process` of its connection too. -/
theorem failsOver_twoWorkers :
    ∃ (steps : List (Reactor Bool × ReactorAct Bool)) (s : Reactor Bool),
      Run (ReactorStep silentWriter 10) (Reactor.start bothConnected) steps s
        ∧ Reactor.gone steps = [4]
        ∧ FailsOver primaryAndBackup (attemptsFailing []) (Reactor.gone steps) s.proxy.tables := by
  have hrun : Run (ReactorStep silentWriter 10) (Reactor.start bothConnected : Reactor Bool)
      [(_, .handleMessage 4), (_, .handleMessage 4), (_, .getRequest false), (_, .getRequest true),
        (_, .recvEnd false .closed), (_, .recvEnd true .wouldBlock), (_, .handle false)] _ :=
    .cons (.handleMessage (show _ = some (backendOf 4) by decide +kernel) (by decide +kernel)) <|
      .cons (.handleMessage (show _ = some (backendOf 4) by decide +kernel)
        (by decide +kernel)) <|
      .cons (.getRequest rfl rfl) <| .cons (.getRequest rfl rfl) <|
      .cons (.recvEnd rfl (fun _ => rfl)) <| .cons (.recvEnd rfl (fun _ => rfl)) <|
      .cons (.handle rfl (show _ = some (backendOf 4) by decide +kernel)
        (show EventLoop.process silentWriter _ (backendOf 4) ⟨[], .closed⟩ = .ok (_, _)
          from rfl)) <| .nil _
  refine ⟨_, _, hrun, ?_, failsOver_of_reactorRun connectToBusinessServer_bothConnected
    attemptsOf_primaryAndBackup nodup_reachable_primaryAndBackup hrun⟩
  decide +kernel

end MicroBusiness
