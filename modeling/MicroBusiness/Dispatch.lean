import MicroBusiness.ClientTable

/-!
# Connections handed to the workers

The event loop hands a connection to the workers whenever it is reported
readable. A worker takes it from the queue and runs `process` on it, which
receives piece by piece into the buffer of the connection and then looks at
the buffer. Nothing keeps the event loop from handing over a connection once
more while it is in the queue, or while a worker runs `process` on it.

As long as that does not happen no two workers are inside `process` of one
connection, and what has been sent on from its buffer and what is in it is
what has arrived, in order (`oneWorker_of_run`).

The receiving is modelled call by call: each `recv` and each append to the
buffer is a step of its own, and the event loop and the other workers may take
theirs in between. What `process` does behind `readn` is one step: looking up
the location and the backend or the client, taking a closed connection out of
the tables, and sending. The source holds no lock there, so taking it as one
step is an assumption of this model, and of all that is proved over it. What may
happen between two operations on the tables of clients is the subject of
`MicroBusiness.ClientLookup`, where each of them is a step.
-/

namespace MicroBusiness

open Transition

/-! ## A connection that is processed piece by piece -/

/-- **What `process` does after the last `recv`** depends on what has been
appended to the buffer, and not on the pieces. -/
theorem process_eq_of_appended (json : JsonWriter) (p : Proxy) (conn : TcpConnection)
    (chunks : List Chunk) (ending : RecvEnd) :
    EventLoop.process json p conn ⟨chunks, ending⟩
      = EventLoop.process json p
        { conn with
          readBuf := conn.readBuf ++ chunks.flatMap (fun chunk : Chunk => cString chunk.val) }
        ⟨[], ending⟩ := by
  have hread : readn ⟨chunks, ending⟩ conn.readBuf
      = readn ⟨[], ending⟩
        (conn.readBuf ++ chunks.flatMap (fun chunk : Chunk => cString chunk.val)) := by
    refine Prod.ext ?_ ?_
    · rw [readn_fst, readn_fst]
    · exact readn_snd ⟨chunks, ending⟩ conn.readBuf
  unfold EventLoop.process TcpConnection.doServer2client TcpConnection.doClient2server
  rw [hread]

/-! ## The event loop and the workers -/

/-- What has arrived on a connection, what the calls of `recv` have returned of
it, and what has been sent on from the buffer. -/
structure Stream where
  arrived : Bytes := []
  received : List Chunk := []
  forwarded : Bytes := []

/-- The bytes that have been received. -/
def Stream.taken (s : Stream) : Bytes := s.received.flatMap Subtype.val

/-- What the pieces that have been received are, appended as strings. -/
def Stream.strings (s : Stream) : Bytes :=
  s.received.flatMap (fun chunk : Chunk => cString chunk.val)

/-- Where a worker is in `threadFunc`. -/
inductive Processing
  /-- In `getRequest`. -/
  | waiting
  /-- In `process`, in front of a `recv`. -/
  | reading (fd : Fd)
  /-- In `process`, with what `recv` has returned. -/
  | appending (fd : Fd) (chunk : Chunk)
  /-- In `process`, when the last `recv` has returned. -/
  | handling (fd : Fd) (ending : RecvEnd)
  deriving DecidableEq

/-- The connection that a worker is inside `process` of. -/
def Processing.conn : Processing → Option Fd
  | waiting => none
  | reading fd => some fd
  | appending fd _ => some fd
  | handling fd _ => some fd

/-- The proxy, the connections in the queue, the workers and the connections'
streams. -/
structure Reactor (ι : Type*) where
  proxy : Proxy
  taskque : List Fd := []
  workers : ι → Processing := fun _ => .waiting
  streams : Fd → Stream := fun _ => {}

/-- What happens next. -/
inductive ReactorAct (ι : Type*)
  | accept (fd : Fd) (addr : InetAddress)
  /-- The peer's bytes arrive. -/
  | arrive (fd : Fd) (data : Bytes)
  /-- `handleMessage`, for a descriptor that is reported readable. -/
  | handleMessage (fd : Fd)
  | getRequest (i : ι)
  /-- `recv` returns bytes. -/
  | recv (i : ι) (chunk : Chunk)
  /-- `recv` returns none. -/
  | recvEnd (i : ι) (ending : RecvEnd)
  /-- `buf += temp`. -/
  | append (i : ι)
  /-- The rest of `process`, taken as one step. -/
  | handle (i : ι)
  /-- The last pointer to a connection goes away. -/
  | destroy (fd : Fd)

variable {ι : Type*}

/-- **A step of the event loop or of a worker.** The queue has room for a number
of connections. A connection is there at least as long as a table or the queue
points to it or a worker is inside its `process`.

A `recv` and an append are steps of their own. With `handle` a worker does all that
is behind `readn` at once, the operations on the tables and vectors that the
workers share and the sending included: the source does them one after the other
and without a lock, and interleavings of these operations are not runs of this
relation. -/
inductive ReactorStep [DecidableEq ι] (json : JsonWriter) (queSize : ℕ) :
    Reactor ι → ReactorAct ι → Reactor ι → Prop
  | accept {s : Reactor ι} {fd : Fd} (addr : InetAddress) : s.proxy.conns[fd]? = none →
      ReactorStep json queSize s (.accept fd addr)
        { s with
          proxy := EventLoop.handleNewConnection s.proxy fd addr
          streams := Function.update s.streams fd {} }
  | arrive {s : Reactor ι} (fd : Fd) (data : Bytes) :
      ReactorStep json queSize s (.arrive fd data)
        { s with
          streams := Function.update s.streams fd
            { s.streams fd with arrived := (s.streams fd).arrived ++ data } }
  | handleMessage {s : Reactor ι} {fd : Fd} {conn : TcpConnection} :
      EventLoop.handleMessage s.proxy fd = some conn → s.taskque.length < queSize →
      ReactorStep json queSize s (.handleMessage fd) { s with taskque := s.taskque ++ [fd] }
  | getRequest {s : Reactor ι} {i : ι} {fd : Fd} {rest : List Fd} :
      s.workers i = .waiting → s.taskque = fd :: rest →
      ReactorStep json queSize s (.getRequest i)
        { s with taskque := rest, workers := Function.update s.workers i (.reading fd) }
  | recv {s : Reactor ι} {i : ι} {fd : Fd} {chunk : Chunk} : s.workers i = .reading fd →
      (s.streams fd).taken ++ chunk.val <+: (s.streams fd).arrived →
      ReactorStep json queSize s (.recv i chunk)
        { s with
          workers := Function.update s.workers i (.appending fd chunk)
          streams := Function.update s.streams fd
            { s.streams fd with received := (s.streams fd).received ++ [chunk] } }
  | recvEnd {s : Reactor ι} {i : ι} {fd : Fd} {ending : RecvEnd} : s.workers i = .reading fd →
      (ending ≠ .error → (s.streams fd).taken = (s.streams fd).arrived) →
      ReactorStep json queSize s (.recvEnd i ending)
        { s with workers := Function.update s.workers i (.handling fd ending) }
  | append {s : Reactor ι} {i : ι} {fd : Fd} {chunk : Chunk} {conn : TcpConnection} :
      s.workers i = .appending fd chunk → s.proxy.conns[fd]? = some conn →
      ReactorStep json queSize s (.append i)
        { s with
          proxy := { s.proxy with
            conns := s.proxy.conns.insert fd
              { conn with readBuf := conn.readBuf ++ cString chunk.val } }
          workers := Function.update s.workers i (.reading fd) }
  | handle {s : Reactor ι} {i : ι} {fd : Fd} {ending : RecvEnd} {conn : TcpConnection}
      {p' : Proxy} {effects : List Effect} :
      s.workers i = .handling fd ending → s.proxy.conns[fd]? = some conn →
      EventLoop.process json s.proxy conn ⟨[], ending⟩ = .ok (p', effects) →
      ReactorStep json queSize s (.handle i)
        { s with
          proxy := p'
          workers := Function.update s.workers i .waiting
          streams := Function.update s.streams fd
            { s.streams fd with
              forwarded := (s.streams fd).forwarded
                ++ if sends effects = [] then [] else conn.readBuf } }
  | destroy {s : Reactor ι} {fd : Fd} : s.proxy.tables.clientConns[fd]? = none →
      s.proxy.tables.serverConns[fd]? = none → fd ∉ s.taskque →
      (∀ i, (s.workers i).conn ≠ some fd) →
      ReactorStep json queSize s (.destroy fd)
        { s with proxy := { s.proxy with conns := s.proxy.conns.erase fd } }

/-- **The bytes of a connection in order**: what has been received is the first
of what has arrived, and what has been sent on from the buffer, what is in it,
and the piece that a worker is about to append, are what has been received. -/
def InOrder (stream : Stream) (workers : ι → Processing) (fd : Fd) (readBuf : Bytes) : Prop :=
  stream.taken <+: stream.arrived
    ∧ ((∃ i chunk, workers i = .appending fd chunk
        ∧ stream.forwarded ++ (readBuf ++ cString chunk.val) = stream.strings)
      ∨ ((∀ i chunk, workers i ≠ .appending fd chunk)
        ∧ stream.forwarded ++ readBuf = stream.strings))

/-- **One worker per connection**: no two workers are inside `process` of the
same connection, and the bytes of each are in order. -/
structure OneWorker (s : Reactor ι) : Prop where
  exclusive : ∀ i j fd, (s.workers i).conn = some fd → (s.workers j).conn = some fd → i = j
  inOrder : ∀ (fd : Fd) (conn : TcpConnection), s.proxy.conns[fd]? = some conn →
    InOrder (s.streams fd) s.workers fd conn.readBuf

/-- **A connection is handed over once**: not while it is in the queue or a worker
is inside its `process`. -/
def HandedOnce (s : Reactor ι) : ReactorAct ι → Prop
  | .handleMessage fd => fd ∉ s.taskque ∧ ∀ i, (s.workers i).conn ≠ some fd
  | _ => True

/-! ## What steps keep -/

theorem EventLoop.conns_of_handleMessage {p : Proxy} {fd : Fd} {conn : TcpConnection}
    (h : handleMessage p fd = some conn) : p.conns[fd]? = some conn := by
  unfold handleMessage at h
  split at h
  · exact h
  · split at h
    · exact h
    · cases h

/-- **The invariant**: a connection is in the queue once, or one worker is inside
its `process`, or neither. -/
structure Reactor.Assigned (s : Reactor ι) : Prop extends OneWorker s where
  holds : s.proxy.Holds
  nodup : s.taskque.Nodup
  apart : ∀ i fd, (s.workers i).conn = some fd → fd ∉ s.taskque
  unused : ∀ fd : Fd, s.proxy.conns[fd]? = none →
    fd ∉ s.taskque ∧ ∀ i, (s.workers i).conn ≠ some fd

theorem InOrder.eq_of_forall_ne {stream : Stream} {workers : ι → Processing} {fd : Fd}
    {readBuf : Bytes} (h : InOrder stream workers fd readBuf)
    (hnone : ∀ i chunk, workers i ≠ .appending fd chunk) :
    stream.forwarded ++ readBuf = stream.strings := by
  rcases h.2 with ⟨i, chunk, hi, -⟩ | ⟨-, heq⟩
  · exact absurd hi (hnone i chunk)
  · exact heq

theorem Reactor.Assigned.ne_appending {s : Reactor ι} (h : s.Assigned) {i : ι} {fd : Fd}
    (hi : (s.workers i).conn = some fd) (hne : ∀ chunk, s.workers i ≠ .appending fd chunk)
    (j : ι) (chunk : Chunk) : s.workers j ≠ .appending fd chunk := by
  intro hj
  obtain rfl : i = j := h.exclusive i j fd hi (by rw [hj]; rfl)
  exact hne chunk hj

/-- A worker that is not appending, before or after, does not matter to the
bytes of a connection. -/
theorem InOrder.update [DecidableEq ι] {stream : Stream} {workers : ι → Processing} {fd : Fd}
    {readBuf : Bytes}
    (h : InOrder stream workers fd readBuf) {i : ι} {w : Processing}
    (hold : ∀ chunk, workers i ≠ .appending fd chunk) (hnew : ∀ chunk, w ≠ .appending fd chunk) :
    InOrder stream (Function.update workers i w) fd readBuf := by
  refine ⟨h.1, h.2.imp ?_ ?_⟩
  · rintro ⟨j, chunk, hj, heq⟩
    refine ⟨j, chunk, ?_, heq⟩
    rw [Function.update_of_ne, hj]
    rintro rfl
    exact hold chunk hj
  · rintro ⟨hnone, heq⟩
    refine ⟨fun j chunk hj => ?_, heq⟩
    rw [Function.update_apply] at hj
    split at hj
    · exact hnew chunk hj
    · exact hnone j chunk hj

namespace Reactor.Assigned

variable {s : Reactor ι}

/-- A new client is on no worker. -/
theorem accept (h : s.Assigned) (json : JsonWriter) {fd : Fd} (addr : InetAddress)
    (hfd : s.proxy.conns[fd]? = none) :
    Reactor.Assigned { s with
      proxy := EventLoop.handleNewConnection s.proxy fd addr
      streams := Function.update s.streams fd {} } := by
  have hconns := h.holds.conns_handleNewConnection hfd addr
  have hstep : ProxyStep json s.proxy (.accept fd addr) _ := .accept addr hfd
  refine ⟨⟨h.exclusive, fun fd' conn hconn => ?_⟩, h.holds.step hstep, h.nodup, h.apart,
    fun fd' hfd' => ?_⟩
  · dsimp only at hconn ⊢
    rw [hconns] at hconn
    rw [Function.update_apply]
    by_cases heq : fd = fd'
    · subst heq
      rw [if_pos rfl] at hconn ⊢
      cases hconn
      refine ⟨List.prefix_rfl, Or.inr ⟨fun i chunk hi => ?_, rfl⟩⟩
      exact (h.unused fd hfd).2 i (by rw [hi]; rfl)
    · rw [if_neg heq] at hconn
      rw [if_neg (fun h => heq h.symm)]
      exact h.inOrder fd' conn hconn
  · dsimp only at hfd'
    rw [hconns] at hfd'
    split at hfd'
    · cases hfd'
    · exact h.unused fd' hfd'

/-- What arrives stands behind what has arrived. -/
theorem arrive (h : s.Assigned) (fd : Fd) (data : Bytes) :
    Reactor.Assigned { s with
      streams := Function.update s.streams fd
        { s.streams fd with arrived := (s.streams fd).arrived ++ data } } := by
  refine ⟨⟨h.exclusive, fun fd' conn hconn => ?_⟩, h.holds, h.nodup, h.apart, h.unused⟩
  obtain ⟨htaken, hbytes⟩ := h.inOrder fd' conn hconn
  dsimp only
  rw [Function.update_apply]
  split
  · next heq =>
    subst heq
    exact ⟨htaken.trans (List.prefix_append _ _), hbytes⟩
  · exact ⟨htaken, hbytes⟩

/-- A connection is put into the queue once. -/
theorem handleMessage (h : s.Assigned) {fd : Fd} {conn : TcpConnection}
    (hconn : EventLoop.handleMessage s.proxy fd = some conn)
    (honce : HandedOnce s (.handleMessage fd)) :
    Reactor.Assigned { s with taskque := s.taskque ++ [fd] } := by
  refine ⟨⟨h.exclusive, h.inOrder⟩, h.holds, ?_, fun i fd' hi => ?_, fun fd' hfd' => ?_⟩
  · refine (List.perm_append_singleton fd s.taskque).nodup_iff.mpr ?_
    exact List.nodup_cons.mpr ⟨honce.1, h.nodup⟩
  · rw [List.mem_append, List.mem_singleton, not_or]
    refine ⟨h.apart i fd' hi, ?_⟩
    rintro rfl
    exact honce.2 i hi
  · obtain ⟨hqueue, hworkers⟩ := h.unused fd' hfd'
    rw [List.mem_append, List.mem_singleton, not_or]
    refine ⟨⟨hqueue, ?_⟩, hworkers⟩
    rintro rfl
    cases hfd'.symm.trans (EventLoop.conns_of_handleMessage hconn)

variable [DecidableEq ι]

/-- A worker takes a connection from the queue. -/
theorem getRequest (h : s.Assigned) {i : ι} {fd : Fd} {rest : List Fd}
    (hi : s.workers i = .waiting) (hqueue : s.taskque = fd :: rest) :
    Reactor.Assigned { s with
      taskque := rest, workers := Function.update s.workers i (.reading fd) } := by
  have hnodup := h.nodup
  rw [hqueue, List.nodup_cons] at hnodup
  have hmem : fd ∈ s.taskque := by
    rw [hqueue]
    exact List.mem_cons_self
  have hsub : ∀ {fd' : Fd}, fd' ∈ rest → fd' ∈ s.taskque := by
    intro fd' hfd'
    rw [hqueue]
    exact List.mem_cons_of_mem fd hfd'
  -- whoever is inside `process` afterwards is this worker, or was before
  have hconn : ∀ {j : ι} {fd' : Fd}, (Function.update s.workers i (.reading fd) j).conn = some fd' →
      (j = i ∧ fd' = fd) ∨ (fd' ≠ fd ∧ (s.workers j).conn = some fd') := by
    intro j fd' hj
    rw [Function.update_apply] at hj
    split at hj
    · next heq =>
      cases hj
      exact Or.inl ⟨heq, rfl⟩
    · refine Or.inr ⟨?_, hj⟩
      rintro rfl
      exact h.apart j _ hj hmem
  refine ⟨⟨fun j k fd' hj hk => ?_, fun fd' conn hconn' => ?_⟩, h.holds, hnodup.2,
    fun j fd' hj => ?_, fun fd' hfd' => ?_⟩
  · rcases hconn hj with ⟨rfl, rfl⟩ | ⟨hne, hj⟩
    · rcases hconn hk with ⟨rfl, -⟩ | ⟨hne, -⟩
      · rfl
      · exact absurd rfl hne
    · rcases hconn hk with ⟨-, rfl⟩ | ⟨-, hk⟩
      · exact absurd rfl hne
      · exact h.exclusive j k fd' hj hk
  · exact (h.inOrder fd' conn hconn').update (by rw [hi]; exact nofun) nofun
  · rcases hconn hj with ⟨rfl, rfl⟩ | ⟨-, hj⟩
    · exact hnodup.1
    · exact fun hrest => h.apart j fd' hj (hsub hrest)
  · obtain ⟨hnot, hworkers⟩ := h.unused fd' hfd'
    refine ⟨fun hrest => hnot (hsub hrest), fun j hj => ?_⟩
    rcases hconn hj with ⟨-, rfl⟩ | ⟨-, hj⟩
    · exact hnot hmem
    · exact hworkers j hj

/-- **A worker that stays inside `process` of its connection** keeps all
connections assigned, if it keeps their bytes in order. -/
theorem continues (h : s.Assigned) {i : ι} {w : Processing} (hw : w.conn = (s.workers i).conn)
    {p' : Proxy} (hholds : p'.Holds)
    (hconns : ∀ fd : Fd, p'.conns[fd]? = none → s.proxy.conns[fd]? = none)
    {streams' : Fd → Stream}
    (hinOrder : ∀ (fd : Fd) (conn : TcpConnection), p'.conns[fd]? = some conn →
      InOrder (streams' fd) (Function.update s.workers i w) fd conn.readBuf) :
    Reactor.Assigned { s with
      proxy := p', workers := Function.update s.workers i w, streams := streams' } := by
  have hconn : ∀ j, (Function.update s.workers i w j).conn = (s.workers j).conn := by
    intro j
    rw [Function.update_apply]
    split
    · next heq => rw [heq, hw]
    · rfl
  refine ⟨⟨fun j k fd hj hk => ?_, hinOrder⟩, hholds, h.nodup, fun j fd hj => ?_, fun fd hfd => ?_⟩
  · rw [hconn] at hj hk
    exact h.exclusive j k fd hj hk
  · rw [hconn] at hj
    exact h.apart j fd hj
  · obtain ⟨hqueue, hworkers⟩ := h.unused fd (hconns fd hfd)
    refine ⟨hqueue, fun j => ?_⟩
    rw [hconn]
    exact hworkers j

/-- What is received stands behind what has been appended. -/
theorem recv (h : s.Assigned) {i : ι} {fd : Fd} {chunk : Chunk} (hi : s.workers i = .reading fd)
    (hchunk : (s.streams fd).taken ++ chunk.val <+: (s.streams fd).arrived) :
    Reactor.Assigned { s with
      workers := Function.update s.workers i (.appending fd chunk)
      streams := Function.update s.streams fd
        { s.streams fd with received := (s.streams fd).received ++ [chunk] } } := by
  refine h.continues (by rw [hi]; rfl) h.holds (fun _ h => h) (fun fd' conn hconn => ?_)
  have hin := h.inOrder fd' conn hconn
  by_cases heq : fd' = fd
  · subst heq
    have hcomplete := hin.eq_of_forall_ne
      (h.ne_appending (by rw [hi]; rfl) (by rw [hi]; exact nofun))
    rw [Function.update_self]
    refine ⟨?_, Or.inl ⟨i, chunk, Function.update_self _ _ _, ?_⟩⟩
    · unfold Stream.taken
      rw [List.flatMap_append, List.flatMap_cons, List.flatMap_nil, List.append_nil]
      exact hchunk
    · unfold Stream.strings
      rw [List.flatMap_append, List.flatMap_cons, List.flatMap_nil, List.append_nil,
        ← List.append_assoc]
      exact congrArg (· ++ cString chunk.val) hcomplete
  · rw [Function.update_of_ne heq]
    refine hin.update (by rw [hi]; exact nofun) (fun c hc => ?_)
    cases hc
    exact heq rfl

/-- Nothing more is received. -/
theorem recvEnd (h : s.Assigned) {i : ι} {fd : Fd} (hi : s.workers i = .reading fd)
    (ending : RecvEnd) :
    Reactor.Assigned { s with workers := Function.update s.workers i (.handling fd ending) } :=
  h.continues (by rw [hi]; rfl) h.holds (fun _ h => h) (fun fd' conn hconn =>
    (h.inOrder fd' conn hconn).update (by rw [hi]; exact nofun) nofun)

/-- What was received is appended. -/
theorem append (h : s.Assigned) {i : ι} {fd : Fd} {chunk : Chunk} {conn : TcpConnection}
    (hi : s.workers i = .appending fd chunk) (hconn : s.proxy.conns[fd]? = some conn) :
    Reactor.Assigned { s with
      proxy := { s.proxy with
        conns := s.proxy.conns.insert fd
          { conn with readBuf := conn.readBuf ++ cString chunk.val } }
      workers := Function.update s.workers i (.reading fd) } := by
  refine h.continues (by rw [hi]; rfl) (h.holds.insert hconn (by rfl))
    (fun _ hfd' => getElem?_eq_none_of_insert hfd') (fun fd' conn' hconn' => ?_)
  rcases of_getElem?_insert hconn' with ⟨rfl, rfl⟩ | ⟨hne, hconn'⟩
  · obtain ⟨htaken, ⟨j, chunk', hj, heq⟩ | ⟨hnot, -⟩⟩ := h.inOrder fd conn hconn
    · -- this worker is the only one
      obtain rfl : i = j := h.exclusive i j fd (by rw [hi]; rfl) (by rw [hj]; rfl)
      cases hi.symm.trans hj
      refine ⟨htaken, Or.inr ⟨fun k chunk' hk => ?_, heq⟩⟩
      rw [Function.update_apply] at hk
      split at hk
      · cases hk
      · next hne => exact hne (h.exclusive k i fd (by rw [hk]; rfl) (by rw [hi]; rfl))
    · exact absurd hi (hnot i chunk)
  · refine (h.inOrder fd' conn' hconn').update (fun c hc => ?_) nofun
    cases hi.symm.trans hc
    exact hne rfl

/-- The rest of `process`, on a buffer that is complete. -/
theorem handle (h : s.Assigned) {json : JsonWriter} {i : ι} {fd : Fd} {ending : RecvEnd}
    {conn : TcpConnection} {p' : Proxy} {effects : List Effect}
    (hi : s.workers i = .handling fd ending) (hconn : s.proxy.conns[fd]? = some conn)
    (hprocess : EventLoop.process json s.proxy conn ⟨[], ending⟩ = .ok (p', effects)) :
    Reactor.Assigned { s with
      proxy := p'
      workers := Function.update s.workers i .waiting
      streams := Function.update s.streams fd
        { s.streams fd with
          forwarded := (s.streams fd).forwarded
            ++ if sends effects = [] then [] else conn.readBuf } } := by
  obtain ⟨-, conn', hsame, hconns, hbuf⟩ := EventLoop.of_process hprocess
  rw [h.holds.sock fd conn hconn] at hconns
  -- the worker is done, and all others are where they were
  have hworker : ∀ {j : ι} {fd' : Fd}, (Function.update s.workers i .waiting j).conn = some fd' →
      (s.workers j).conn = some fd' := by
    intro j fd' hj
    rw [Function.update_apply] at hj
    split at hj
    · cases hj
    · exact hj
  refine ⟨⟨fun j k fd' hj hk => h.exclusive j k fd' (hworker hj) (hworker hk),
    fun fd' conn₁ hconn₁ => ?_⟩, h.holds.step (.task hconn hprocess), h.nodup,
    fun j fd' hj => h.apart j fd' (hworker hj), fun fd' hfd' => ?_⟩
  · dsimp only at hconn₁ ⊢
    rw [hconns, getElem?_insert_ite] at hconn₁
    split at hconn₁
    · next heq =>
      subst heq
      cases hconn₁
      have hin := h.inOrder fd conn hconn
      -- no worker is appending, so the buffer is all that has not been sent on
      have hne : ∀ j chunk, s.workers j ≠ .appending fd chunk :=
        h.ne_appending (i := i) (by rw [hi]; rfl) (by rw [hi]; exact nofun)
      have hcomplete := hin.eq_of_forall_ne hne
      rw [Function.update_self, hbuf]
      refine ⟨hin.1, Or.inr ⟨fun j chunk hj => ?_, ?_⟩⟩
      · rw [Function.update_apply] at hj
        split at hj
        · cases hj
        · exact hne j chunk hj
      · dsimp only
        by_cases hsends : sends effects = []
        · rw [if_pos hsends, if_pos hsends, List.append_nil, readn_snd, List.flatMap_nil,
            List.append_nil]
          exact hcomplete
        · rw [if_neg hsends, if_neg hsends, List.append_nil]
          exact hcomplete
    · next hne =>
      rw [Function.update_of_ne (fun heq => hne heq.symm)]
      exact (h.inOrder fd' conn₁ hconn₁).update (by rw [hi]; exact nofun) nofun
  · rw [hconns] at hfd'
    exact (h.unused fd' (getElem?_eq_none_of_insert hfd')).imp_right
      (fun hworkers j hj => hworkers j (hworker hj))

/-- **Every step that does not hand a connection over again keeps the
invariant.** -/
theorem step (h : s.Assigned) {json : JsonWriter} {queSize : ℕ} {act : ReactorAct ι}
    {s' : Reactor ι} (honce : HandedOnce s act) (hstep : ReactorStep json queSize s act s') :
    s'.Assigned := by
  cases hstep with
  | accept addr hfd => exact h.accept json addr hfd
  | arrive fd data => exact h.arrive fd data
  | handleMessage hconn _ => exact h.handleMessage hconn honce
  | getRequest hi hqueue => exact h.getRequest hi hqueue
  | recv hi hchunk => exact h.recv hi hchunk
  | recvEnd hi _ => exact h.recvEnd hi _
  | append hi hconn => exact h.append hi hconn
  | handle hi hconn hprocess => exact h.handle hi hconn hprocess
  | @destroy fd hclient hserver hqueue hworkers =>
    have hstep : ProxyStep json s.proxy (.destroy fd) _ := .destroy hclient hserver
    refine ⟨⟨h.exclusive, fun fd' conn hconn => ?_⟩, h.holds.step hstep, h.nodup, h.apart,
      fun fd' hfd' => ?_⟩
    · exact h.inOrder fd' conn (of_getElem?_erase hconn).2
    · dsimp only at hfd'
      rw [getElem?_erase_ite] at hfd'
      split at hfd'
      · next heq => exact heq ▸ ⟨hqueue, hworkers⟩
      · exact h.unused fd' hfd'

end Reactor.Assigned

/-! ## Over a run -/

/-- The proxy after startup, with nothing to do. -/
def Reactor.start (p : Proxy) : Reactor ι where
  proxy := p

variable [DecidableEq ι]

/-- **There is one worker per connection** in every run from startup in which no
connection is handed over while it is in the queue or processed.

The invariant (`Reactor.Assigned`) is that a connection is in the queue once, or with
one worker, or neither. A step `handleMessage` that meets the condition keeps it, and
no other step hands anything over. That the bytes are in order then follows for each
connection from its only worker. -/
theorem oneWorker_of_run {json : JsonWriter} {queSize : ℕ} {config : Config} {attempts : Attempts}
    {p : Proxy} (hstart : EventLoop.connectToBusinessServer config attempts = .ok p)
    {steps : List (Reactor ι × ReactorAct ι)} {s : Reactor ι}
    (hrun : Run (ReactorStep json queSize) (Reactor.start p) steps s)
    (honce : Meets HandedOnce steps) : OneWorker s := by
  have hfilled := filled_of_connectToBusinessServer hstart
  have hassigned : (Reactor.start p : Reactor ι).Assigned := by
    refine ⟨⟨nofun, fun fd conn hconn => ⟨List.prefix_rfl, Or.inr ⟨nofun, ?_⟩⟩⟩,
      holds_of_connectToBusinessServer hstart, List.nodup_nil, nofun,
      fun fd _ => ⟨List.not_mem_nil, nofun⟩⟩
    rw [(hfilled.object fd conn hconn).2]
    rfl
  exact (hrun.invariant (fun s act s' h honce hstep => h.step honce hstep) honce
    hassigned).toOneWorker

/-- A byte, as a piece that is received. -/
def byteChunk (b : UInt8) : Chunk := ⟨[b], List.cons_ne_nil _ _, by simp⟩

/-- A connection that is handed over again when it has been processed. -/
theorem oneWorker_twice :
    ∃ (steps : List (Reactor Bool × ReactorAct Bool)) (s : Reactor Bool),
      Run (ReactorStep silentWriter 10) (Reactor.start bothConnected) steps s
        ∧ (s.workers true).conn = some 7 ∧ OneWorker s := by
  have hrun : Run (ReactorStep silentWriter 10) (Reactor.start bothConnected : Reactor Bool)
      [(_, .accept 7 clientA), (_, .arrive 7 [65]), (_, .handleMessage 7), (_, .getRequest false),
        (_, .recv false (byteChunk 65)), (_, .append false), (_, .recvEnd false .wouldBlock),
        (_, .handle false), (_, .handleMessage 7), (_, .getRequest true)] _ :=
    .cons (.accept clientA (by decide +kernel)) <| .cons (.arrive 7 [65]) <|
      .cons (.handleMessage (show _ = some (clientOn 7 clientA) by decide +kernel)
        (by decide +kernel)) <|
      .cons (.getRequest rfl rfl) <| .cons (.recv rfl (by decide +kernel)) <|
      .cons (.append rfl (show _ = some (clientOn 7 clientA) by decide +kernel)) <|
      .cons (.recvEnd rfl (fun _ => rfl)) <|
      .cons (.handle rfl (show _ = some { clientOn 7 clientA with readBuf := [65] } by
        decide +kernel) (show EventLoop.process silentWriter _
          { clientOn 7 clientA with readBuf := [65] } ⟨[], .wouldBlock⟩ = .ok (_, _) from rfl)) <|
      .cons (.handleMessage (show _ = some { clientOn 7 clientA with readBuf := [65] } by
        decide +kernel) (by decide +kernel)) <|
      .cons (.getRequest rfl rfl) <| .nil _
  refine ⟨_, _, hrun, ?_, oneWorker_of_run connectToBusinessServer_bothConnected hrun ?_⟩
  · rfl
  · simp only [meets_cons]
    refine ⟨trivial, trivial, ⟨?_, ?_⟩, trivial, trivial, trivial, trivial, trivial, ⟨?_, ?_⟩,
      trivial, fun _ h => nomatch h⟩ <;> decide +kernel

/-- **A connection that is handed over while it is processed has two
workers.** -/
theorem not_oneWorker_again :
    ¬ ∀ (config : Config) (attempts : Attempts) (p : Proxy)
      (steps : List (Reactor Bool × ReactorAct Bool)) (s : Reactor Bool),
      EventLoop.connectToBusinessServer config attempts = .ok p →
      Run (ReactorStep silentWriter 10) (Reactor.start p) steps s → OneWorker s := by
  intro h
  have hrun : Run (ReactorStep silentWriter 10) (Reactor.start bothConnected : Reactor Bool)
      [(_, .accept 7 clientA), (_, .arrive 7 [65]), (_, .handleMessage 7), (_, .getRequest false),
        (_, .arrive 7 [66]), (_, .handleMessage 7), (_, .getRequest true)] _ :=
    .cons (.accept clientA (by decide +kernel)) <| .cons (.arrive 7 [65]) <|
      .cons (.handleMessage (show _ = some (clientOn 7 clientA) by decide +kernel)
        (by decide +kernel)) <|
      .cons (.getRequest rfl rfl) <| .cons (.arrive 7 [66]) <|
      .cons (.handleMessage (show _ = some (clientOn 7 clientA) by decide +kernel)
        (by decide +kernel)) <|
      .cons (.getRequest rfl rfl) <| .nil _
  have hone := h _ _ _ _ _ connectToBusinessServer_bothConnected hrun
  exact absurd (hone.exclusive false true 7 rfl rfl) (by decide)

end MicroBusiness
