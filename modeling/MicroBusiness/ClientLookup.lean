import MicroBusiness.EventLoop
import MicroBusiness.Transition

/-!
# Looking up a client while others leave

A worker that has read a response looks for its client in one table, reads
the descriptor from the same table, and then the connection from the other.
A worker that handles a disconnect takes the client out of the second table
and then out of the first. No lock is held: between any two of these
operations those of other workers may come, and `operator[]` makes up an entry
where one has been taken out.

A response never meets a null pointer, nor the connection of another client,
as long as no entry is taken out that a worker is on its way to, and no client
is found that is half taken out (`safe_of_undisturbed`).
-/

namespace MicroBusiness

open Transition

/-! ## Operations on the tables -/

/-- The two tables of clients. `operator[]` may have left a null pointer in the
second. -/
structure ClientMaps where
  clientTable : StdMap Bytes Fd := ∅
  clientConns : StdMap Fd (Option TcpConnectionPtr) := ∅

/-- `operator[]`: the entry of a key, made up if there is none, and the map. -/
def index {κ υ : Type} [Ord κ] [Std.TransOrd κ] (m : StdMap κ υ) (k : κ) (default : υ) :
    υ × StdMap κ υ :=
  match m[k]? with
  | some v => (v, m)
  | none => (default, m.insert k default)

theorem index_of_some {κ υ : Type} [Ord κ] [Std.TransOrd κ] {m : StdMap κ υ} {k : κ} {v : υ}
    (h : m[k]? = some v) (default : υ) : index m k default = (v, m) := by
  unfold index
  rw [h]

/-- What a worker does next in one of its operations on the tables of
clients. -/
inductive Worker
  | idle
  /-- `_clientTable.find(client)`, with the client of a response. -/
  | find (client : Bytes)
  /-- `_clientTable[client]`. -/
  | indexTable (client : Bytes)
  /-- `_clientConns[fd]->send`. -/
  | indexConns (client : Bytes) (fd : Fd)
  /-- `send` through a null pointer. -/
  | crashed
  /-- `_clientConns.erase(_sock.fd())`, with a connection that was closed. -/
  | eraseConns (conn : TcpConnectionPtr)
  /-- `_clientTable.erase(_peerAddr.ip_port())`. -/
  | eraseTable (conn : TcpConnectionPtr)
  deriving DecidableEq

namespace Worker

/-- One operation of `do_server2client` or of the close branch of
`do_client2server`. -/
def step (m : ClientMaps) : Worker → Worker × ClientMaps
  | idle => (idle, m)
  | find client => (if m.clientTable.contains client then indexTable client else idle, m)
  | indexTable client =>
    let (fd, clientTable) := index m.clientTable client 0
    (indexConns client fd, { m with clientTable })
  | indexConns _ fd =>
    let (ptr, clientConns) := index m.clientConns fd none
    (match ptr with
      | none => crashed
      | some _ => idle, { m with clientConns })
  | crashed => (crashed, m)
  | eraseConns conn => (eraseTable conn, { m with clientConns := m.clientConns.erase conn.fd })
  | eraseTable conn =>
    (idle, { m with clientTable := m.clientTable.erase conn.peerAddr.ipPort })

variable {m : ClientMaps} {client : Bytes} {fd : Fd}

theorem step_find (hfd : m.clientTable[client]? = some fd) :
    (find client).step m = (indexTable client, m) := by
  unfold step
  dsimp only
  rw [if_pos (contains_iff_exists.mpr ⟨fd, hfd⟩)]

theorem step_find_of_none (hfd : m.clientTable[client]? = none) :
    (find client).step m = (idle, m) := by
  unfold step
  dsimp only
  rw [if_neg]
  rw [contains_iff_exists, hfd]
  exact fun h => nomatch h

theorem step_indexTable (hfd : m.clientTable[client]? = some fd) :
    (indexTable client).step m = (indexConns client fd, m) := by
  unfold step
  dsimp only
  rw [index_of_some hfd]

theorem step_indexConns {ptr : TcpConnectionPtr} (hptr : m.clientConns[fd]? = some (some ptr)) :
    (indexConns client fd).step m = (idle, m) := by
  unfold step
  dsimp only
  rw [index_of_some hptr]

theorem step_indexConns_of_none (hptr : m.clientConns[fd]? = none) :
    ((indexConns client fd).step m).1 = crashed := by
  unfold step index
  dsimp only
  rw [hptr]

/-- The connection whose disconnect a worker handles. -/
def closing : Worker → Option TcpConnectionPtr
  | eraseConns conn => some conn
  | eraseTable conn => some conn
  | _ => none

end Worker

/-! ## A worker that is not disturbed -/

/-- The tables of clients among all tables. -/
def Tables.clientMaps (t : Tables) : ClientMaps where
  clientTable := t.clientTable
  clientConns := t.clientConns.map (fun _ ptr => some ptr)

/-- Several operations of one worker in a row. -/
def Worker.steps (n : ℕ) (w : Worker) (m : ClientMaps) : Worker × ClientMaps :=
  match n with
  | 0 => (w, m)
  | n + 1 => Worker.steps n (w.step m).1 (w.step m).2

/-- **The operations on a response, one after the other, are what
`do_server2client` does**: they end at a null pointer where it does. -/
theorem steps_find_iff (t : Tables) (conn : TcpConnection) {io : Recvs} {client : Bytes}
    (hio : io.ending = .wouldBlock) (hclient : clientOf (readn io conn.readBuf).2 = some client) :
    (Worker.steps 3 (.find client) t.clientMaps).1 = .crashed
      ↔ TcpConnection.doServer2client t conn io = .error .nullPointer := by
  have hopen : (readn io conn.readBuf).1 = true := by
    rw [readn_fst, hio]
    rfl
  have hconns : ∀ fd : Fd, t.clientMaps.clientConns[fd]? = t.clientConns[fd]?.map some :=
    fun fd => Std.ExtTreeMap.getElem?_map
  unfold TcpConnection.doServer2client
  dsimp only
  rw [hopen, if_pos rfl, hclient]
  dsimp only
  cases hfd : t.clientTable[client]? with
  | none =>
    rw [Worker.steps, Worker.step_find_of_none (m := t.clientMaps) hfd]
    exact iff_of_false nofun nofun
  | some fd =>
    rw [Worker.steps, Worker.step_find (m := t.clientMaps) hfd, Worker.steps,
      Worker.step_indexTable (m := t.clientMaps) hfd, Worker.steps]
    dsimp only
    have hentry := hconns fd
    cases hptr : t.clientConns[fd]? with
    | none =>
      rw [hptr] at hentry
      refine iff_of_true ?_ rfl
      show ((Worker.indexConns client fd).step t.clientMaps).1 = .crashed
      exact Worker.step_indexConns_of_none hentry
    | some ptr =>
      rw [hptr] at hentry
      rw [Worker.step_indexConns hentry]
      exact iff_of_false nofun nofun

/-- **The operations on a disconnect, one after the other, forget the client.** -/
theorem steps_eraseConns (t : Tables) (conn : TcpConnectionPtr) :
    Worker.steps 2 (.eraseConns conn) t.clientMaps
      = (.idle, (TcpConnection.forgetClient t conn.fd conn.peerAddr).clientMaps) := by
  have herase : (t.clientConns.map (fun _ ptr => some ptr)).erase conn.fd
      = (t.clientConns.erase conn.fd).map (fun _ ptr => some ptr) := by
    refine Std.ExtTreeMap.ext_getElem? (fun fd => ?_)
    rw [getElem?_erase_ite, Std.ExtTreeMap.getElem?_map, Std.ExtTreeMap.getElem?_map,
      getElem?_erase_ite]
    split <;> rfl
  show (Worker.idle, (⟨t.clientTable.erase conn.peerAddr.ipPort,
    (t.clientConns.map (fun _ ptr => some ptr)).erase conn.fd⟩ : ClientMaps)) = _
  rw [herase]
  rfl

/-! ## Any number of workers -/

/-- The tables of clients with the connections there are, the workers that use
them, and the client that the event loop is entering. -/
structure Lookups (ι : Type*) where
  maps : ClientMaps := {}
  objects : StdMap Fd InetAddress := ∅
  entering : Option TcpConnectionPtr := none
  workers : ι → Worker := fun _ => .idle

/-- What happens next. -/
inductive LookupAct (ι : Type*)
  /-- `_clientConns.insert`, with a new connection. -/
  | insert (conn : TcpConnectionPtr)
  /-- `_clientTable[ip_port] = peerfd`. -/
  | assign
  /-- A worker has read a response that names a client. -/
  | respond (i : ι) (client : Bytes)
  /-- A worker has found a connection closed. -/
  | close (i : ι) (conn : TcpConnectionPtr)
  /-- A worker's next operation on the tables. -/
  | work (i : ι)
  /-- The last pointer to a connection goes away. -/
  | destroy (fd : Fd)

variable {ι : Type*}

/-- **A step of the workers and the event loop.** A descriptor is not given to
a new connection while there is one with it, and a connection is there at
least as long as the table points to it or a worker handles its disconnect. -/
inductive LookupStep [DecidableEq ι] : Lookups ι → LookupAct ι → Lookups ι → Prop
  | insert {s : Lookups ι} {conn : TcpConnectionPtr} :
      s.entering = none → s.objects[conn.fd]? = none →
      LookupStep s (.insert conn)
        { s with
          maps := { s.maps with clientConns := s.maps.clientConns.insertIfNew conn.fd (some conn) }
          objects := s.objects.insert conn.fd conn.peerAddr
          entering := some conn }
  | assign {s : Lookups ι} {conn : TcpConnectionPtr} : s.entering = some conn →
      LookupStep s .assign
        { s with
          maps := { s.maps with
            clientTable := s.maps.clientTable.insert conn.peerAddr.ipPort conn.fd }
          entering := none }
  | respond {s : Lookups ι} {i : ι} {client : Bytes} : s.workers i = .idle →
      LookupStep s (.respond i client)
        { s with workers := Function.update s.workers i (.find client) }
  | close {s : Lookups ι} {i : ι} {conn : TcpConnectionPtr} : s.workers i = .idle →
      s.objects[conn.fd]? = some conn.peerAddr → s.entering ≠ some conn →
      LookupStep s (.close i conn)
        { s with workers := Function.update s.workers i (.eraseConns conn) }
  | work {s : Lookups ι} {i : ι} :
      LookupStep s (.work i)
        { s with
          maps := ((s.workers i).step s.maps).2
          workers := Function.update s.workers i ((s.workers i).step s.maps).1 }
  | destroy {s : Lookups ι} {fd : Fd} : (∀ ptr, s.maps.clientConns[fd]? ≠ some (some ptr)) →
      (∀ i conn, (s.workers i).closing = some conn → conn.fd ≠ fd) →
      LookupStep s (.destroy fd) { s with objects := s.objects.erase fd }

/-- The client of a response and the pointer that is looked up for it, when a
step evaluates `_clientConns[fd]->send`. -/
def evaluated (s : Lookups ι) : LookupAct ι → Option (Bytes × Option TcpConnectionPtr)
  | .work i =>
    match s.workers i with
    | .indexConns client fd => some (client, (index s.maps.clientConns fd none).1)
    | _ => none
  | _ => none

/-- **A pointer that is evaluated is not null and belongs to the client that the
response names.** -/
def Safe (s : Lookups ι) (act : LookupAct ι) : Prop :=
  ∀ client ptr, evaluated s act = some (client, ptr) →
    ∃ conn, ptr = some conn ∧ conn.peerAddr.ipPort = client

/-- **No response is disturbed**: no entry is taken out that a worker is on its
way to, and no client is found whose connection is taken out already. -/
def Undisturbed (s : Lookups ι) : LookupAct ι → Prop
  | .work i =>
    match s.workers i with
    | .find client => ∀ fd, s.maps.clientTable[client]? = some fd → s.maps.clientConns.contains fd
    | .eraseConns conn => ∀ j client, s.workers j ≠ .indexConns client conn.fd
        ∧ (s.workers j = .indexTable client → s.maps.clientTable[client]? ≠ some conn.fd)
    | .eraseTable conn => ∀ j, s.workers j ≠ .indexTable conn.peerAddr.ipPort
    | _ => True
  | _ => True

/-! ## What undisturbed steps keep -/

/-- A descriptor leads to a connection of a client. -/
def ClientMaps.Leads (m : ClientMaps) (client : Bytes) (fd : Fd) : Prop :=
  ∃ conn : TcpConnectionPtr, m.clientConns[fd]? = some (some conn) ∧ conn.peerAddr.ipPort = client

/-- **The invariant**: pointers are to connections that are there, so are the
ones whose disconnect is handled, an address that is listed leads to its
client unless that client is half taken out, and workers on their way to a
client will find it. -/
structure Lookups.Coherent (s : Lookups ι) : Prop where
  pointer : ∀ (fd : Fd) (entry : Option TcpConnectionPtr), s.maps.clientConns[fd]? = some entry →
    ∃ addr : InetAddress, entry = some ⟨fd, addr⟩ ∧ s.objects[fd]? = some addr
  entering : ∀ conn, s.entering = some conn → s.maps.clientConns[conn.fd]? = some (some conn)
  closing : ∀ (i : ι) (conn : TcpConnectionPtr), (s.workers i).closing = some conn →
    s.objects[conn.fd]? = some conn.peerAddr ∧ s.entering ≠ some conn
  listed : ∀ (client : Bytes) (fd : Fd), s.maps.clientTable[client]? = some fd →
    s.maps.Leads client fd
      ∨ ∃ (i : ι) (addr : InetAddress), s.workers i = .eraseTable ⟨fd, addr⟩ ∧ addr.ipPort = client
  found : ∀ (i : ι) (client : Bytes), s.workers i = .indexTable client →
    ∃ fd, s.maps.clientTable[client]? = some fd ∧ s.maps.Leads client fd
  located : ∀ (i : ι) (client : Bytes) (fd : Fd), s.workers i = .indexConns client fd →
    s.maps.Leads client fd

namespace Lookups.Coherent

variable {s : Lookups ι}

/-- What is in the table under a descriptor that an address leads to. -/
theorem leads (h : s.Coherent) {client : Bytes} {fd : Fd}
    (hfd : s.maps.clientTable[client]? = some fd) (hconn : s.maps.clientConns.contains fd) :
    s.maps.Leads client fd := by
  rcases h.listed client fd hfd with hleads | ⟨i, addr, hi, haddr⟩
  · exact hleads
  · obtain ⟨entry, hentry⟩ := contains_iff_exists.mp hconn
    obtain ⟨addr', rfl, hobject⟩ := h.pointer fd entry hentry
    have hclosing := (h.closing i ⟨fd, addr⟩ (by rw [hi]; rfl)).1
    obtain rfl : addr = addr' := Option.some.inj (hclosing.symm.trans hobject)
    exact ⟨⟨fd, addr⟩, hentry, haddr⟩

theorem clientConns_eq_none (h : s.Coherent) {fd : Fd} (hnew : s.objects[fd]? = none) :
    s.maps.clientConns[fd]? = none := by
  cases hentry : s.maps.clientConns[fd]? with
  | none => rfl
  | some entry =>
    obtain ⟨addr, -, hobject⟩ := h.pointer fd entry hentry
    cases hnew.symm.trans hobject

/-- A new connection is entered under a descriptor that is not in use. -/
theorem insert (h : s.Coherent) {conn : TcpConnectionPtr}
    (hnew : s.objects[conn.fd]? = none) :
    Lookups.Coherent { s with
      maps := { s.maps with clientConns := s.maps.clientConns.insertIfNew conn.fd (some conn) }
      objects := s.objects.insert conn.fd conn.peerAddr
      entering := some conn } := by
  have hconns := getElem?_insertIfNew_of_none (h.clientConns_eq_none hnew)
  have hleads : ∀ {client : Bytes} {fd : Fd}, s.maps.Leads client fd →
      ClientMaps.Leads { s.maps with
        clientConns := s.maps.clientConns.insertIfNew conn.fd (some conn) } client fd := by
    rintro client fd ⟨ptr, hptr, hclient⟩
    refine ⟨ptr, ?_, hclient⟩
    dsimp only
    rw [hconns, if_neg, hptr]
    rintro rfl
    cases (h.clientConns_eq_none hnew).symm.trans hptr
  refine ⟨fun fd entry hentry => ?_, fun conn' hconn' => ?_, fun i conn' hi => ?_,
    fun client fd hfd => (h.listed client fd hfd).imp_left hleads, fun i client hi => ?_,
    fun i client fd hi => hleads (h.located i client fd hi)⟩
  · dsimp only at hentry ⊢
    rw [hconns] at hentry
    rw [getElem?_insert_ite]
    split at hentry
    · next heq =>
      subst heq
      cases hentry
      exact ⟨conn.peerAddr, rfl, if_pos rfl⟩
    · next hne =>
      rw [if_neg hne]
      exact h.pointer fd entry hentry
  · cases hconn'
    exact (hconns _ _).trans (if_pos rfl)
  · obtain ⟨hobject, -⟩ := h.closing i conn' hi
    have hne : conn.fd ≠ conn'.fd := by
      intro heq
      rw [heq] at hnew
      cases hnew.symm.trans hobject
    refine ⟨?_, fun heq => hne (congrArg TcpConnectionPtr.fd (Option.some.inj heq))⟩
    dsimp only
    rw [getElem?_insert_ite, if_neg hne, hobject]
  · obtain ⟨fd, hfd, hfound⟩ := h.found i client hi
    exact ⟨fd, hfd, hleads hfound⟩

/-- The address of the connection that is being entered is entered. -/
theorem assign (h : s.Coherent) {conn : TcpConnectionPtr} (hentering : s.entering = some conn) :
    Lookups.Coherent { s with
      maps := { s.maps with
        clientTable := s.maps.clientTable.insert conn.peerAddr.ipPort conn.fd }
      entering := none } := by
  have hnew : s.maps.Leads conn.peerAddr.ipPort conn.fd :=
    ⟨conn, h.entering conn hentering, rfl⟩
  refine ⟨h.pointer, nofun, fun i conn' hi => ⟨(h.closing i conn' hi).1, nofun⟩,
    fun client fd hfd => ?_, fun i client hi => ?_, h.located⟩
  · rcases of_getElem?_insert hfd with ⟨rfl, rfl⟩ | ⟨-, hfd⟩
    · exact Or.inl hnew
    · exact h.listed client fd hfd
  · dsimp only
    simp only [getElem?_insert_ite]
    by_cases haddr : conn.peerAddr.ipPort = client
    · subst haddr
      exact ⟨conn.fd, if_pos rfl, hnew⟩
    · simp only [if_neg haddr]
      exact h.found i client hi

/-- A connection that is not pointed to goes away. -/
theorem destroy (h : s.Coherent) {fd : Fd}
    (hconn : ∀ ptr, s.maps.clientConns[fd]? ≠ some (some ptr))
    (hclosing : ∀ i conn, (s.workers i).closing = some conn → conn.fd ≠ fd) :
    Lookups.Coherent { s with objects := s.objects.erase fd } := by
  refine ⟨fun fd' entry hentry => ?_, h.entering, fun i conn hi => ?_, h.listed, h.found,
    h.located⟩
  · obtain ⟨addr, rfl, hobject⟩ := h.pointer fd' entry hentry
    refine ⟨addr, rfl, ?_⟩
    dsimp only
    rw [getElem?_erase_ite, if_neg, hobject]
    rintro rfl
    exact hconn _ hentry
  · obtain ⟨hobject, hentering⟩ := h.closing i conn hi
    refine ⟨?_, hentering⟩
    dsimp only
    rw [getElem?_erase_ite, if_neg (fun heq => hclosing i conn hi heq.symm), hobject]

variable [DecidableEq ι]

theorem eq_of_update {workers : ι → Worker} {i j : ι} {v w : Worker}
    (h : Function.update workers i v j = w) (hne : v ≠ w) : workers j = w := by
  rw [Function.update_apply] at h
  split at h
  · exact absurd h hne
  · exact h

theorem update_eq_of_ne {workers : ι → Worker} {i j : ι} {v w : Worker} (h : workers j = w)
    (hne : workers i ≠ w) : Function.update workers i v j = w := by
  rw [Function.update_of_ne, h]
  rintro rfl
  exact hne h

/-- A worker that does not take out an entry may go on to another operation. -/
theorem setWorker (h : s.Coherent) {i : ι} {w : Worker}
    (hold : ∀ conn, s.workers i ≠ .eraseTable conn)
    (hclosing : ∀ conn, w.closing = some conn →
      s.objects[conn.fd]? = some conn.peerAddr ∧ s.entering ≠ some conn)
    (hfound : ∀ client, w = .indexTable client →
      ∃ fd, s.maps.clientTable[client]? = some fd ∧ s.maps.Leads client fd)
    (hlocated : ∀ client fd, w = .indexConns client fd → s.maps.Leads client fd) :
    Lookups.Coherent { s with workers := Function.update s.workers i w } where
  pointer := h.pointer
  entering := h.entering
  closing := (Function.forall_update_iff s.workers (fun _ w => ∀ conn, w.closing = some conn →
      s.objects[conn.fd]? = some conn.peerAddr ∧ s.entering ≠ some conn)).mpr
    ⟨hclosing, fun j _ => h.closing j⟩
  listed := by
    intro client fd hfd
    refine (h.listed client fd hfd).imp_right ?_
    rintro ⟨j, addr, hj, haddr⟩
    exact ⟨j, addr, update_eq_of_ne hj (hold _), haddr⟩
  found := (Function.forall_update_iff s.workers (fun _ w => ∀ client, w = .indexTable client →
      ∃ fd, s.maps.clientTable[client]? = some fd ∧ s.maps.Leads client fd)).mpr
    ⟨hfound, fun j _ => h.found j⟩
  located := (Function.forall_update_iff s.workers (fun _ w => ∀ client fd,
      w = .indexConns client fd → s.maps.Leads client fd)).mpr
    ⟨hlocated, fun j _ => h.located j⟩

theorem work_of_step (h : s.Coherent) {i : ι} {w : Worker}
    (hstep : (s.workers i).step s.maps = (w, s.maps))
    (hold : ∀ conn, s.workers i ≠ .eraseTable conn) (hclosing : w.closing = none)
    (hfound : ∀ client, w = .indexTable client →
      ∃ fd, s.maps.clientTable[client]? = some fd ∧ s.maps.Leads client fd)
    (hlocated : ∀ client fd, w = .indexConns client fd → s.maps.Leads client fd) :
    Lookups.Coherent { s with
      maps := ((s.workers i).step s.maps).2
      workers := Function.update s.workers i ((s.workers i).step s.maps).1 } := by
  rw [hstep]
  refine h.setWorker hold (fun conn hconn => ?_) hfound hlocated
  rw [hclosing] at hconn
  cases hconn

omit [DecidableEq ι] in
theorem eq_of_closing (h : s.Coherent) {i : ι} {conn ptr : TcpConnectionPtr}
    (hi : (s.workers i).closing = some conn)
    (hptr : s.maps.clientConns[conn.fd]? = some (some ptr)) : ptr = conn := by
  obtain ⟨addr, heq, hobject⟩ := h.pointer conn.fd (some ptr) hptr
  cases heq
  cases (h.closing i conn hi).1.symm.trans hobject
  rfl

/-- A connection that no one is on the way to is taken out. -/
theorem eraseConns (h : s.Coherent) {i : ι} {conn : TcpConnectionPtr}
    (hi : s.workers i = .eraseConns conn) (hcond : Undisturbed s (.work i)) :
    Lookups.Coherent { s with
      maps := { s.maps with clientConns := s.maps.clientConns.erase conn.fd }
      workers := Function.update s.workers i (.eraseTable conn) } := by
  unfold Undisturbed at hcond
  dsimp only at hcond
  rw [hi] at hcond
  have hclosing : (s.workers i).closing = some conn := by
    rw [hi]
    rfl
  -- every other descriptor leads where it did
  have hleads : ∀ {client : Bytes} {fd : Fd}, fd ≠ conn.fd → s.maps.Leads client fd →
      ClientMaps.Leads { s.maps with clientConns := s.maps.clientConns.erase conn.fd }
        client fd := by
    rintro client fd hne ⟨ptr, hptr, hclient⟩
    refine ⟨ptr, ?_, hclient⟩
    dsimp only
    rw [getElem?_erase_ite, if_neg hne.symm, hptr]
  refine ⟨fun fd entry hentry => ?_, fun conn' hconn' => ?_, fun j conn' hj => ?_,
    fun client fd hfd => ?_, fun j client hj => ?_, fun j client fd hj => ?_⟩
  · exact h.pointer fd entry (of_getElem?_erase hentry).2
  · dsimp only
    rw [getElem?_erase_ite, if_neg, h.entering conn' hconn']
    -- a connection that is being entered is not the one that is closed
    intro heq
    have hptr := h.entering conn' hconn'
    rw [← heq] at hptr
    refine (h.closing i conn hclosing).2 ?_
    rw [← h.eq_of_closing hclosing hptr]
    exact hconn'
  · dsimp only at hj
    rw [Function.update_apply] at hj
    split at hj
    · cases hj
      exact h.closing i conn hclosing
    · exact h.closing j conn' hj
  · rcases h.listed client fd hfd with hlisted | ⟨j, addr, hj, haddr⟩
    · by_cases hfd' : fd = conn.fd
      · -- this address is what the worker takes out next
        subst hfd'
        obtain ⟨ptr, hptr, hclient⟩ := hlisted
        obtain rfl := h.eq_of_closing hclosing hptr
        exact Or.inr ⟨i, ptr.peerAddr, Function.update_self _ _ _, hclient⟩
      · exact Or.inl (hleads hfd' hlisted)
    · exact Or.inr ⟨j, addr, update_eq_of_ne hj (by rw [hi]; exact nofun), haddr⟩
  · have hj := eq_of_update hj nofun
    obtain ⟨fd, hfd, hfound⟩ := h.found j client hj
    refine ⟨fd, hfd, hleads ?_ hfound⟩
    rintro rfl
    -- a worker that has found an address of this connection excludes the step
    exact (hcond j client).2 hj hfd
  · have hj := eq_of_update hj nofun
    refine hleads ?_ (h.located j client fd hj)
    rintro rfl
    exact (hcond j client).1 hj

/-- An address that no one is on the way to is taken out. -/
theorem eraseTable (h : s.Coherent) {i : ι} {conn : TcpConnectionPtr}
    (hi : s.workers i = .eraseTable conn) (hcond : Undisturbed s (.work i)) :
    Lookups.Coherent { s with
      maps := { s.maps with clientTable := s.maps.clientTable.erase conn.peerAddr.ipPort }
      workers := Function.update s.workers i .idle } := by
  unfold Undisturbed at hcond
  dsimp only at hcond
  rw [hi] at hcond
  refine ⟨h.pointer, h.entering, fun j conn' hj => ?_, fun client fd hfd => ?_,
    fun j client hj => ?_, fun j client fd hj => h.located j client fd (eq_of_update hj nofun)⟩
  · dsimp only at hj
    rw [Function.update_apply] at hj
    split at hj
    · cases hj
    · exact h.closing j conn' hj
  · obtain ⟨hne, hfd⟩ := of_getElem?_erase hfd
    refine (h.listed client fd hfd).imp_right ?_
    rintro ⟨j, addr, hj, haddr⟩
    refine ⟨j, addr, update_eq_of_ne hj (fun heq => ?_), haddr⟩
    cases hi.symm.trans heq
    exact hne haddr
  · have hj := eq_of_update hj nofun
    obtain ⟨fd, hfd, hfound⟩ := h.found j client hj
    refine ⟨fd, ?_, hfound⟩
    dsimp only
    rw [getElem?_erase_ite, if_neg, hfd]
    rintro rfl
    exact hcond j hj

/-- **An undisturbed operation keeps the invariant.** -/
theorem work (h : s.Coherent) {i : ι} (hcond : Undisturbed s (.work i)) :
    Lookups.Coherent { s with
      maps := ((s.workers i).step s.maps).2
      workers := Function.update s.workers i ((s.workers i).step s.maps).1 } := by
  obtain ⟨w, hi⟩ : ∃ w, s.workers i = w := ⟨_, rfl⟩
  cases w with
  | idle =>
    have hstep : (s.workers i).step s.maps = (.idle, s.maps) := by
      rw [hi]
      rfl
    exact h.work_of_step hstep (by rw [hi]; exact nofun) rfl nofun nofun
  | crashed =>
    have hstep : (s.workers i).step s.maps = (.crashed, s.maps) := by
      rw [hi]
      rfl
    exact h.work_of_step hstep (by rw [hi]; exact nofun) rfl nofun nofun
  -- the address is found, and leads to its client since it is not half taken out
  | find client =>
    unfold Undisturbed at hcond
    dsimp only at hcond
    rw [hi] at hcond
    cases hfd : s.maps.clientTable[client]? with
    | none =>
      have hstep : (s.workers i).step s.maps = (.idle, s.maps) := by
        rw [hi, Worker.step_find_of_none hfd]
      exact h.work_of_step hstep (by rw [hi]; exact nofun) rfl nofun nofun
    | some fd =>
      have hstep : (s.workers i).step s.maps = (.indexTable client, s.maps) := by
        rw [hi, Worker.step_find hfd]
      refine h.work_of_step hstep (by rw [hi]; exact nofun) rfl (fun c hc => ?_) nofun
      cases hc
      exact ⟨fd, hfd, h.leads hfd (hcond fd hfd)⟩
  -- by the invariant the entry is still there, and so is the one it leads to
  | indexTable client =>
    obtain ⟨fd, hfd, hleads⟩ := h.found i client hi
    have hstep : (s.workers i).step s.maps = (.indexConns client fd, s.maps) := by
      rw [hi, Worker.step_indexTable hfd]
    refine h.work_of_step hstep (by rw [hi]; exact nofun) rfl nofun (fun c fd' hc => ?_)
    cases hc
    exact hleads
  | indexConns client fd =>
    obtain ⟨ptr, hptr, -⟩ := h.located i client fd hi
    have hstep : (s.workers i).step s.maps = (.idle, s.maps) := by
      rw [hi, Worker.step_indexConns hptr]
    exact h.work_of_step hstep (by rw [hi]; exact nofun) rfl nofun nofun
  | eraseConns conn =>
    rw [hi]
    exact h.eraseConns hi hcond
  | eraseTable conn =>
    rw [hi]
    exact h.eraseTable hi hcond

/-- **Every undisturbed step keeps the invariant.** -/
theorem step (h : s.Coherent) {act : LookupAct ι} {s' : Lookups ι} (hcond : Undisturbed s act)
    (hstep : LookupStep s act s') : s'.Coherent := by
  cases hstep with
  | insert _ hnew => exact h.insert hnew
  | assign hentering => exact h.assign hentering
  | respond hi => exact h.setWorker (by rw [hi]; exact nofun) nofun nofun nofun
  | close hi hobject hentering =>
    refine h.setWorker (by rw [hi]; exact nofun) (fun conn hconn => ?_) nofun nofun
    cases hconn
    exact ⟨hobject, hentering⟩
  | work => exact h.work hcond
  | destroy hconn hclosing => exact h.destroy hconn hclosing

end Lookups.Coherent

/-! ## Over a run -/

variable [DecidableEq ι]

/-- **No response meets a null pointer or another client's connection** in a run
of any number of workers whose steps disturb none.

The invariant is that both tables agree on every client that nobody is taking out
(`Coherent`), and that each worker that has found its client is on the way to an entry
that is still there. What could break it are the two steps that the condition excludes:
an entry is erased while another worker is between finding and reading it, and a client
is found while it is taken out of one table and still in the other. -/
theorem safe_of_undisturbed {steps : List (Lookups ι × LookupAct ι)} {s : Lookups ι}
    (hrun : Run LookupStep {} steps s) (hcond : Meets Undisturbed steps) : Meets Safe steps := by
  have hstart : (({} : Lookups ι)).Coherent := by
    refine ⟨fun fd entry h => ?_, nofun, nofun, fun client fd h => ?_, nofun, nofun⟩
    · cases (Std.ExtTreeMap.getElem?_empty.symm.trans h)
    · cases (Std.ExtTreeMap.getElem?_empty.symm.trans h)
  refine hrun.meets (fun s act s' h hcond hstep => h.step hcond hstep) (fun s act h => ?_) hcond
    hstart
  intro client ptr hevaluated
  unfold evaluated at hevaluated
  split at hevaluated
  · next i =>
    split at hevaluated
    · next client' fd hi =>
      cases hevaluated
      obtain ⟨conn, hconn, hclient⟩ := h.located i client fd hi
      exact ⟨conn, by rw [index_of_some hconn], hclient⟩
    · cases hevaluated
  · cases hevaluated

/-- A response and a disconnect, one after the other. -/
theorem safe_oneAfterTheOther :
    ∃ (steps : List (Lookups Bool × LookupAct Bool)),
      (∃ x ∈ steps, evaluated x.1 x.2 = some (clientA.ipPort, some ⟨7, clientA⟩))
        ∧ Meets Safe steps := by
  have hrun : Run LookupStep ({} : Lookups Bool)
      [(_, .insert ⟨7, clientA⟩), (_, .assign), (_, .respond false clientA.ipPort),
        (_, .work false), (_, .work false), (_, .work false), (_, .close true ⟨7, clientA⟩),
        (_, .work true), (_, .work true)] _ :=
    .cons (.insert rfl (by decide +kernel)) <| .cons (.assign rfl) <| .cons (.respond rfl) <|
      .cons .work <| .cons .work <| .cons .work <|
      .cons (.close (by decide +kernel) (by decide +kernel) nofun) <| .cons .work <|
      .cons .work <| .nil _
  refine ⟨_, ?_, safe_of_undisturbed hrun ?_⟩
  · exact ⟨_, .tail _ <| .tail _ <| .tail _ <| .tail _ <| .tail _ <| .head _, by decide +kernel⟩
  · simp only [meets_cons]
    refine ⟨trivial, trivial, trivial, fun fd hfd => ?_, trivial, trivial, trivial,
      fun j client => ?_, fun j => ?_, fun _ h => nomatch h⟩
    · obtain rfl : (7 : Fd) = fd := Option.some.inj (Eq.trans (by decide +kernel) hfd)
      decide +kernel
    · have hclosing : ∀ w, w = Worker.indexConns client 7 ∨ w = .indexTable client →
          w ≠ .idle ∧ w ≠ .eraseConns ⟨7, clientA⟩ := by
        rintro _ (rfl | rfl) <;> exact ⟨nofun, nofun⟩
      cases j with
      | false =>
        exact ⟨fun h => (hclosing _ (Or.inl h)).1 (by decide +kernel),
          fun h => absurd (by decide +kernel) (hclosing _ (Or.inr h)).1⟩
      | true =>
        exact ⟨fun h => (hclosing _ (Or.inl h)).2 (by decide +kernel),
          fun h => absurd (by decide +kernel) (hclosing _ (Or.inr h)).2⟩
    · cases j <;> decide +kernel

/-- **A client that is taken out while a worker is on its way to it is a null
pointer.** -/
theorem not_safe_takenOut :
    ¬ ∀ (steps : List (Lookups Bool × LookupAct Bool)) (s : Lookups Bool),
      Run LookupStep {} steps s → Meets Safe steps := by
  intro h
  have hrun : Run LookupStep ({} : Lookups Bool)
      [(_, .insert ⟨7, clientA⟩), (_, .assign), (_, .respond false clientA.ipPort),
        (_, .close true ⟨7, clientA⟩), (_, .work false), (_, .work false), (_, .work true),
        (_, .work false)] _ :=
    .cons (.insert rfl (by decide +kernel)) <| .cons (.assign rfl) <| .cons (.respond rfl) <|
      .cons (.close rfl (by decide +kernel) nofun) <| .cons .work <| .cons .work <|
      .cons .work <| .cons .work <| .nil _
  have hsafe := h _ _ hrun
  simp only [meets_cons] at hsafe
  obtain ⟨-, -, -, -, -, -, -, hlast, -⟩ := hsafe
  obtain ⟨conn, hnull, -⟩ := hlast clientA.ipPort none (by decide +kernel)
  cases hnull

end MicroBusiness
