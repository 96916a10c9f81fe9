import Mathlib.Algebra.Order.BigOperators.Group.Finset
import Mathlib.Data.Fintype.EquivFin
import MicroBusiness.Readiness
import MicroBusiness.Threads

/-!
# The proxy comes to rest

As long as the peers do nothing, the event loop and its workers can take only so many
steps: `work` bounds them, since each one passes something on to where less is left to do,
from a report to the event list, to the queue, to a worker, which receives what is there
and hands it on (`work_lt`). Only an accepted connection may bring more, and there are
only as many as wait.

And where no step is possible any more nothing is left to do (`quiet_of_run`): no worker is
inside `process`, nothing is in the queue or to be reported, every connection has been read
to its end and is in a table, and the connections that still wait to be accepted are those
that have arrived on top of a report. The exception is a worker that has failed.

As over `ReactorStep` everywhere, a worker does the rest of `process` behind `readn` in one
step, and a peer ends its connection by closing it: `recv` reports an end or an error only
behind all the bytes of a connection that has been closed.
-/

namespace MicroBusiness

open Transition

variable {ι : Type*}

/-! ## What is left to do -/

/-- How much a worker has still to do. -/
def Processing.work : Processing → ℕ
  | .waiting => 0
  | .handling _ _ => 1
  | .reading _ => 2
  | .appending _ _ => 3

/-- The number of bytes that have arrived and have not been received. -/
def Stream.unread (s : Stream) : ℕ := s.arrived.length - s.taken.length

theorem Stream.unread_recv {s : Stream} {chunk : Chunk}
    (h : s.taken ++ chunk.val <+: s.arrived) :
    Stream.unread { s with received := s.received ++ [chunk] } + chunk.val.length
      = s.unread := by
  have hlength := h.length_le
  unfold Stream.unread
  unfold Stream.taken at hlength ⊢
  dsimp only
  rw [List.flatMap_append, List.flatMap_singleton]
  rw [List.length_append] at hlength ⊢
  omega

/-- The descriptors of the connections. -/
def Proxy.fds (p : Proxy) : Finset Fd := p.conns.keys.toFinset

theorem Proxy.mem_fds {p : Proxy} {fd : Fd} : fd ∈ p.fds ↔ p.conns[fd]? ≠ none := by
  unfold Proxy.fds
  rw [List.mem_toFinset, Std.ExtTreeMap.mem_keys, ← Std.ExtTreeMap.isSome_getElem?_iff_mem,
    Option.isSome_iff_ne_none]

theorem Proxy.fds_congr {p q : Proxy}
    (h : ∀ fd : Fd, p.conns[fd]? = none ↔ q.conns[fd]? = none) : p.fds = q.fds := by
  ext fd
  rw [mem_fds, mem_fds]
  exact not_congr (h fd)

theorem Proxy.fds_erase (p : Proxy) (fd : Fd) :
    Proxy.fds { p with conns := p.conns.erase fd } = p.fds.erase fd := by
  ext fd'
  rw [mem_fds, Finset.mem_erase, mem_fds]
  dsimp only
  rw [getElem?_erase_ite]
  by_cases heq : fd = fd'
  · rw [if_pos heq]
    exact iff_of_false (fun h => h rfl) (fun h => h.1 heq.symm)
  · rw [if_neg heq]
    exact (and_iff_right (Ne.symm heq)).symm

namespace Readiness

/-- **A step without the peers**: none of theirs, and `epoll_wait` returns something, and
what is destroyed is there. -/
def Internal (s : Readiness ι) : ReadinessAct ι → Prop
  | .connect _ | .arrive _ _ | .finish _ => False
  | .wait evtList => evtList ≠ []
  | .destroy fd => s.reactor.Registered fd
  | _ => True

/-- The descriptors that are to be reported. -/
def reported (s : Readiness ι) : Finset EpollFd :=
  (insert .listener (s.reactor.proxy.fds.image .conn)).filter (fun e => s.reports e = true)

/-- **What is left to do**, where nothing more arrives. -/
def work [Fintype ι] (s : Readiness ι) : ℕ :=
  s.reactor.proxy.fds.card + 2 * ∑ fd ∈ s.reactor.proxy.fds, (s.reactor.streams fd).unread
    + 5 * s.reported.card + 4 * s.evtList.length + 3 * s.reactor.taskque.length
    + ∑ i, (s.reactor.workers i).work

/-- **The invariant**: what has been received has arrived, and only connections that are
there are to be reported. -/
structure Live (s : Readiness ι) : Prop extends s.Covered where
  received : ∀ fd, (s.reactor.streams fd).taken <+: (s.reactor.streams fd).arrived
  registered : ∀ fd, s.reports (.conn fd) = true → s.reactor.Registered fd

namespace Live

variable {s s' : Readiness ι}

/-- Startup leaves nothing received and nothing to be reported. -/
theorem start {config : Config} {attempts : Attempts} {p : Proxy}
    (hstart : EventLoop.connectToBusinessServer config attempts = .ok p) :
    (Readiness.start p : Readiness ι).Live where
  toCovered := covered_start hstart
  received _ := List.prefix_rfl
  registered := nofun

/-- A worker that goes on does not touch what is reported. -/
theorem ofWorker [DecidableEq ι] (h : s.Live) {json : JsonWriter} {queSize : ℕ}
    {act : ReactorAct ι} {r : Reactor ι} (hact : act.OfWorker)
    (hstep : ReactorStep json queSize s.reactor act r) : Live { s with reactor := r } := by
  have hcovered := h.toCovered.ofWorker hact hstep
  cases hstep with
  | accept _ _ => exact hact.elim
  | arrive _ _ => exact hact.elim
  | handleMessage _ _ => exact hact.elim
  | recvEnd _ _ => exact hact.elim
  | destroy _ _ _ _ => exact hact.elim
  | getRequest hi hqueue => exact ⟨hcovered, h.received, h.registered⟩
  | @recv i fd chunk hi hchunk =>
    refine ⟨hcovered, fun fd' => ?_, h.registered⟩
    dsimp only
    rw [Function.update_apply]
    split
    · unfold Stream.taken
      dsimp only
      rw [List.flatMap_append, List.flatMap_singleton]
      exact hchunk
    · exact h.received fd'
  | append hi hconn =>
    refine ⟨hcovered, h.received, fun fd' hfd' => ?_⟩
    exact fun hnone => h.registered fd' hfd' (getElem?_eq_none_of_insert hnone)
  | @handle i fd ending conn p' effects hi hconn hprocess =>
    obtain ⟨-, conn', -, hconns, -⟩ := EventLoop.of_process hprocess
    refine ⟨hcovered, fun fd' => ?_, fun fd' hfd' hnone => h.registered fd' hfd' ?_⟩
    · dsimp only
      rw [Function.update_apply]
      split
      · next heq =>
        subst heq
        exact h.received fd'
      · exact h.received fd'
    · dsimp only at hnone
      rw [hconns] at hnone
      exact getElem?_eq_none_of_insert hnone

theorem registered_update (h : s.Live) {e : EpollFd} {b : Bool}
    (he : ∀ fd, e = .conn fd → b = true → s.reactor.Registered fd) (fd : Fd)
    (hfd : Function.update s.reports e b (.conn fd) = true) : s.reactor.Registered fd := by
  rw [Function.update_apply] at hfd
  split at hfd
  · next heq => exact he fd heq.symm hfd
  · exact h.registered fd hfd

/-- **Every step keeps the invariant.** -/
theorem step [DecidableEq ι] (h : s.Live) {json : JsonWriter} {queSize : ℕ}
    {act : ReadinessAct ι} (hstep : ReadinessStep json queSize s act s') : s'.Live := by
  have hcovered := h.toCovered.step hstep
  cases hstep with
  -- what has been received stays a part of what has arrived, where anything arrives or is read
  | connect addr =>
    exact ⟨hcovered, h.received, h.registered_update (e := .listener) (b := true) nofun⟩
  | @arrive fd data r _ hfd _ hstep =>
    cases hstep with
    | arrive =>
      refine ⟨hcovered, fun fd' => ?_, h.registered_update ?_⟩
      · dsimp only
        rw [Function.update_apply]
        split
        · next heq =>
          subst heq
          exact (h.received fd').trans (List.prefix_append _ _)
        · exact h.received fd'
      · rintro _ ⟨⟩ _
        exact hfd
  | @finish fd hfd =>
    refine ⟨hcovered, h.received, h.registered_update ?_⟩
    rintro _ ⟨⟩ _
    exact hfd
  | wait _ _ _ =>
    exact ⟨hcovered, h.received, fun fd hfd => h.registered fd (Bool.and_eq_true_iff.mp hfd).1⟩
  -- the new connection has received nothing
  | @accept fd addr data ended backlog evtList r r' _ _ haccept harrive =>
    cases haccept with
    | accept _ hnone =>
      cases harrive with
      | arrive =>
        have hconns := h.holds.conns_handleNewConnection hnone addr
        refine ⟨hcovered, fun fd' => ?_, fun fd' hfd' => ?_⟩
        · dsimp only
          by_cases heq : fd' = fd
          · subst heq
            rw [Function.update_self, Function.update_self]
            exact List.nil_prefix
          · rw [Function.update_of_ne heq, Function.update_of_ne heq]
            exact h.received fd'
        · unfold Reactor.Registered
          dsimp only at hfd' ⊢
          rw [hconns]
          split
          · exact Option.some_ne_none _
          · next hne =>
            rw [Function.update_of_ne fun heq => hne (EpollFd.conn.inj heq).symm] at hfd'
            exact h.registered fd' hfd'
  | handleMessage _ hstep =>
    cases hstep with
    | handleMessage _ _ => exact ⟨hcovered, h.received, h.registered⟩
  | ignore _ _ => exact ⟨hcovered, h.received, h.registered⟩
  | work hact hstep => exact h.ofWorker hact hstep
  | recvEnd _ _ _ hstep =>
    cases hstep with
    | recvEnd _ _ => exact ⟨hcovered, h.received, h.registered⟩
  | @destroy fd r hstep =>
    cases hstep with
    | destroy _ _ _ _ =>
      refine ⟨hcovered, h.received, fun fd' hfd' hnone => ?_⟩
      dsimp only at hfd' hnone
      rw [getElem?_erase_ite] at hnone
      by_cases heq : fd' = fd
      · subst heq
        rw [Function.update_self] at hfd'
        cases hfd'
      · rw [Function.update_of_ne fun h => heq (EpollFd.conn.inj h)] at hfd'
        rw [if_neg (Ne.symm heq)] at hnone
        exact h.registered fd' hfd' hnone

theorem of_run [DecidableEq ι] {json : JsonWriter} {queSize : ℕ} {config : Config}
    {attempts : Attempts} {p : Proxy}
    (hstart : EventLoop.connectToBusinessServer config attempts = .ok p)
    {steps : List (Readiness ι × ReadinessAct ι)}
    (hrun : Run (ReadinessStep json queSize) (Readiness.start p) steps s) : s.Live := by
  have hstep : ∀ (s : Readiness ι) (act : ReadinessAct ι) (t : Readiness ι), s.Live → True →
      ReadinessStep json queSize s act t → t.Live := fun _ _ _ h _ hstep => h.step hstep
  exact hrun.invariant hstep (fun _ _ => trivial) (Live.start hstart)

/-! ### Every step leaves less to do -/

theorem mem_fds (h : s.Live) {i : ι} {fd : Fd} (hi : (s.reactor.workers i).conn = some fd) :
    fd ∈ s.reactor.proxy.fds := by
  rw [Proxy.mem_fds]
  intro hnone
  exact (h.unused fd (not_not_intro hnone)).2 i hi

variable [DecidableEq ι] [Fintype ι]

omit [DecidableEq ι] in
/-- Where the connections stay, what is left to do is unread, in the queue, or with a
worker. -/
theorem work_lt_of_fds {r : Reactor ι} (hfds : r.proxy.fds = s.reactor.proxy.fds)
    (hlt : 2 * ∑ fd ∈ s.reactor.proxy.fds, (r.streams fd).unread + 3 * r.taskque.length
        + ∑ i, (r.workers i).work
      < 2 * ∑ fd ∈ s.reactor.proxy.fds, (s.reactor.streams fd).unread
        + 3 * s.reactor.taskque.length + ∑ i, (s.reactor.workers i).work) :
    work { s with reactor := r } < s.work := by
  unfold work reported
  dsimp only
  rw [hfds]
  omega

omit [Fintype ι] [DecidableEq ι] in
theorem sum_unread_update {fds : Finset Fd} {fd : Fd} (hfd : fd ∈ fds) (streams : Fd → Stream)
    (stream : Stream) :
    ∑ fd' ∈ fds, (Function.update streams fd stream fd').unread + (streams fd).unread
      = ∑ fd' ∈ fds, (streams fd').unread + stream.unread := by
  have hupdate : ∀ fd', (Function.update streams fd stream fd').unread
      = Function.update (fun fd' => (streams fd').unread) fd stream.unread fd' := by
    intro fd'
    exact Function.apply_update (fun _ stream => stream.unread) streams fd stream fd'
  rw [Finset.sum_congr rfl fun fd' _ => hupdate fd', Finset.sum_update_of_mem hfd,
    ← Finset.add_sum_erase fds (fun fd' => (streams fd').unread) hfd,
    Finset.sdiff_singleton_eq_erase]
  omega

/-- A worker that goes on has less to do, or leaves less. -/
theorem work_lt_ofWorker (h : s.Live) {json : JsonWriter} {queSize : ℕ}
    {act : ReactorAct ι} {r : Reactor ι} (hact : act.OfWorker)
    (hstep : ReactorStep json queSize s.reactor act r) :
    work { s with reactor := r } < s.work := by
  have hsum := Program.sum_update_add Processing.work s.reactor.workers
  cases hstep with
  | accept _ _ => exact hact.elim
  | arrive _ _ => exact hact.elim
  | handleMessage _ _ => exact hact.elim
  | recvEnd _ _ => exact hact.elim
  | destroy _ _ _ _ => exact hact.elim
  -- from the queue to a worker
  | @getRequest i fd rest hi hqueue =>
    have hsum := hsum i (.reading fd)
    rw [hi] at hsum
    have hlength := congrArg List.length hqueue
    refine work_lt_of_fds rfl ?_
    dsimp only [Processing.work, List.length_cons] at hsum hlength ⊢
    omega
  -- the worker has one step more in front of it, but the piece is not empty and is read
  | @recv i fd chunk hi hchunk =>
    have hsum := hsum i (.appending fd chunk)
    rw [hi] at hsum
    have hunread := sum_unread_update (h.mem_fds (by rw [hi]; rfl)) s.reactor.streams
      { s.reactor.streams fd with received := (s.reactor.streams fd).received ++ [chunk] }
    have hrecv := Stream.unread_recv hchunk
    have hpos := List.length_pos_of_ne_nil chunk.property.1
    refine work_lt_of_fds rfl ?_
    dsimp only [Processing.work] at hsum hunread hrecv ⊢
    omega
  -- the buffer does not count, and the connections are the same
  | @append i fd chunk conn hi hconn =>
    have hsum := hsum i (.reading fd)
    rw [hi] at hsum
    refine work_lt_of_fds (Proxy.fds_congr (getElem?_insert_eq_none_iff hconn _)) ?_
    dsimp only [Processing.work] at hsum ⊢
    omega
  -- a worker that has done with its connection waits
  | @handle i fd ending conn p' effects hi hconn hprocess =>
    have hsum := hsum i .waiting
    rw [hi] at hsum
    have hunread := sum_unread_update (h.mem_fds (by rw [hi]; rfl)) s.reactor.streams
      { s.reactor.streams fd with
        forwarded := (s.reactor.streams fd).forwarded
          ++ if sends effects = [] then [] else conn.readBuf }
    obtain ⟨-, conn', -, hconns, -⟩ := EventLoop.of_process hprocess
    refine work_lt_of_fds (Proxy.fds_congr fun fd' => ?_) ?_
    · rw [hconns, h.holds.sock fd conn hconn]
      exact getElem?_insert_eq_none_iff hconn conn' fd'
    · have hsame := Nat.add_right_cancel hunread
      dsimp only [Processing.work] at hsum hsame ⊢
      omega

omit [DecidableEq ι] [Fintype ι] in
/-- What `epoll_wait` returns was to be reported, and is not any more. -/
theorem card_reported_wait (h : s.Live) {evtList : List EpollFd} (hnodup : evtList.Nodup)
    (hreports : ∀ e ∈ evtList, s.reports e = true) :
    (reported { s with evtList, reports := fun e => s.reports e && e ∉ evtList }).card
      + evtList.length = s.reported.card := by
  have hsub : evtList.toFinset ⊆ s.reported := by
    intro e he
    rw [List.mem_toFinset] at he
    unfold reported
    rw [Finset.mem_filter, Finset.mem_insert, Finset.mem_image]
    refine ⟨?_, hreports e he⟩
    cases e with
    | listener => exact Or.inl rfl
    | conn fd => exact Or.inr ⟨fd, Proxy.mem_fds.mpr (h.registered fd (hreports _ he)), rfl⟩
  have hsdiff : reported { s with evtList, reports := fun e => s.reports e && e ∉ evtList }
      = s.reported \ evtList.toFinset := by
    ext e
    unfold reported
    rw [Finset.mem_filter, Finset.mem_sdiff, Finset.mem_filter, List.mem_toFinset, and_assoc,
      Bool.and_eq_true, decide_eq_true_eq]
  rw [hsdiff, ← List.toFinset_card_of_nodup hnodup]
  exact Finset.card_sdiff_add_card_eq_card hsub

/-- **Every step without the peers leaves less to do**, or fewer connections that wait. -/
theorem work_lt (h : s.Live) {json : JsonWriter} {queSize : ℕ} {act : ReadinessAct ι}
    (hact : s.Internal act) (hstep : ReadinessStep json queSize s act s') :
    Prod.Lex (· < ·) (· < ·) (s'.backlog.length, s'.work) (s.backlog.length, s.work) := by
  cases hstep with
  | connect _ => exact hact.elim
  | arrive _ _ _ _ => exact hact.elim
  | finish _ => exact hact.elim
  | @wait evtList hempty hnodup hreports =>
    refine .right _ ?_
    -- the reports that are taken off go to the event list, where they count less
    have hcard := h.card_reported_wait hnodup hreports
    have hpos := List.length_pos_of_ne_nil hact
    unfold work
    dsimp only
    rw [hempty, List.length_nil]
    omega
  -- an accepted connection may bring any number of bytes, but the backlog is shorter
  | accept _ hbacklog _ _ =>
    refine .left _ _ ?_
    rw [hbacklog, List.length_cons]
    exact Nat.lt_succ_self _
  | handleMessage hevents hstep =>
    cases hstep with
    | handleMessage _ _ =>
      refine .right _ ?_
      unfold work reported
      dsimp only
      rw [hevents, List.length_cons, List.length_append, List.length_singleton]
      omega
  | ignore hevents _ =>
    refine .right _ ?_
    unfold work reported
    dsimp only
    rw [hevents, List.length_cons]
    omega
  | work hworker hstep => exact .right _ (h.work_lt_ofWorker hworker hstep)
  | @recvEnd i fd ending r hi _ _ hstep =>
    cases hstep with
    | recvEnd hi' _ =>
      cases hi.symm.trans hi'
      refine .right _ (work_lt_of_fds rfl ?_)
      have hsum := Program.sum_update_add Processing.work s.reactor.workers i (.handling fd ending)
      rw [hi] at hsum
      dsimp only [Processing.work] at hsum ⊢
      omega
  -- the connection is not registered any more, and takes its unread bytes and its report with it
  | @destroy fd r hstep =>
    cases hstep with
    | destroy _ _ _ _ =>
      refine .right _ ?_
      have hcard := Finset.card_erase_add_one (Proxy.mem_fds.mpr hact)
      have hunread := Finset.sum_le_sum_of_subset (f := fun fd => (s.reactor.streams fd).unread)
        (Finset.erase_subset fd s.reactor.proxy.fds)
      have hreported : reported { s with
          reactor := { s.reactor with
            proxy := { s.reactor.proxy with conns := s.reactor.proxy.conns.erase fd } }
          reports := Function.update s.reports (.conn fd) false } ⊆ s.reported := by
        unfold reported
        dsimp only
        rw [Proxy.fds_erase]
        intro e he
        rw [Finset.mem_filter] at he ⊢
        refine ⟨?_, ?_⟩
        · exact Finset.insert_subset_insert _ (Finset.image_subset_image (Finset.erase_subset _ _))
            he.1
        · rw [Function.update_apply] at he
          split at he
          · exact absurd he.2 Bool.false_ne_true
          · exact he.2
      have hreported := Finset.card_le_card hreported
      unfold work
      dsimp only
      rw [Proxy.fds_erase]
      dsimp only at hreported
      omega

/-- **Without the peers no run goes on forever.** -/
theorem exists_not_step (h : s.Live) {json : JsonWriter} {queSize : ℕ} (run : ℕ → Readiness ι)
    (hstart : run 0 = s) :
    ∃ m, ∀ act, (run m).Internal act → ¬ ReadinessStep json queSize (run m) act (run (m + 1)) := by
  by_contra hforever
  push Not at hforever
  have hlive : ∀ m, (run m).Live := by
    intro m
    induction m with
    | zero => exact hstart ▸ h
    | succ m ih =>
      obtain ⟨act, -, hstep⟩ := hforever m
      exact ih.step hstep
  have hwf : IsWellFounded (ℕ × ℕ) (Prod.Lex (· < ·) (· < ·)) :=
    ⟨WellFounded.prod_lex Nat.lt_wfRel.wf Nat.lt_wfRel.wf⟩
  obtain ⟨m, hm⟩ := WellFounded.not_rel_apply_succ (r := Prod.Lex (· < ·) (· < ·))
    fun m => ((run m).backlog.length, (run m).work)
  obtain ⟨act, hact, hstep⟩ := hforever m
  exact hm ((hlive m).work_lt hact hstep)

end Live

/-! ## Where no step is possible -/

/-- No step is possible without the peers. -/
def AtRest [DecidableEq ι] (json : JsonWriter) (queSize : ℕ) (s : Readiness ι) : Prop :=
  ∀ act t, s.Internal act → ¬ ReadinessStep json queSize s act t

/-- **Nothing is left to do**: nothing is to be reported or in the queue, no worker is
inside `process`, and every connection has been read to its end and is in a table. -/
structure Quiet (s : Readiness ι) : Prop where
  reports : ∀ e, s.reports e = false
  evtList : s.evtList = []
  taskque : s.reactor.taskque = []
  waiting : ∀ i, s.reactor.workers i = .waiting
  drained : ∀ fd, s.reactor.Registered fd → (s.reactor.streams fd).Drained
  listed : ∀ fd, s.reactor.Registered fd → s.reactor.proxy.tables.Listed fd

/-- A worker fails in what it does with the buffer. -/
def Failed (json : JsonWriter) (s : Readiness ι) : Prop :=
  ∃ i fd ending conn e, s.reactor.workers i = .handling fd ending ∧
    s.reactor.proxy.conns[fd]? = some conn ∧
    EventLoop.process json s.reactor.proxy conn ⟨[], ending⟩ = .error e

namespace Live

variable {s : Readiness ι} [DecidableEq ι] {json : JsonWriter} {queSize : ℕ}

/-- **A worker goes on** until it waits, or fails. -/
theorem waiting_of_atRest (h : s.Live) (hrest : s.AtRest json queSize) (hok : ¬ s.Failed json)
    (i : ι) : s.reactor.workers i = .waiting := by
  have hwork : ∀ act r, act.OfWorker → ¬ ReactorStep json queSize s.reactor act r :=
    fun act r hact hstep => hrest (.work act) _ trivial (.work hact hstep)
  have hconn : ∀ fd, (s.reactor.workers i).conn = some fd →
      ∃ conn, s.reactor.proxy.conns[fd]? = some conn := fun fd hi =>
    Option.ne_none_iff_exists'.mp (Proxy.mem_fds.mp (h.mem_fds hi))
  cases hi : s.reactor.workers i with
  | waiting => rfl
  | reading fd =>
    exfalso
    by_cases hdrained : (s.reactor.streams fd).Drained
    · exact hrest (.recvEnd i .wouldBlock) _ trivial
        (.recvEnd hi hdrained (absurd rfl) (.recvEnd hi fun _ => hdrained))
    · -- there is a byte behind what has been received
      obtain ⟨rest, hrest'⟩ := h.received fd
      cases rest with
      | nil => exact hdrained (by rw [Stream.Drained, ← hrest', List.append_nil])
      | cons b rest =>
        refine hwork (.recv i (byteChunk b)) _ trivial (.recv hi ⟨rest, ?_⟩)
        rw [← hrest', List.append_assoc]
        rfl
  | appending fd chunk =>
    obtain ⟨conn, hfd⟩ := hconn fd (by rw [hi]; rfl)
    exact (hwork (.append i) _ trivial (.append hi hfd)).elim
  | handling fd ending =>
    obtain ⟨conn, hfd⟩ := hconn fd (by rw [hi]; rfl)
    cases hprocess : EventLoop.process json s.reactor.proxy conn ⟨[], ending⟩ with
    | error e => exact absurd ⟨i, fd, ending, conn, e, hi, hfd, hprocess⟩ hok
    | ok x => exact (hwork (.handle i) _ trivial (.handle hi hfd hprocess)).elim

/-- **Where no step is possible nothing is left to do**, unless a worker has failed. -/
theorem quiet_of_atRest [Nonempty ι] (h : s.Live) (hque : 0 < queSize)
    (hbacklog : s.accepts ≤ s.backlog.length) (hrest : s.AtRest json queSize)
    (hok : ¬ s.Failed json) : s.Quiet := by
  have hwaiting := h.waiting_of_atRest hrest hok
  have htaskque : s.reactor.taskque = [] := by
    cases hqueue : s.reactor.taskque with
    | nil => rfl
    | cons fd rest =>
      have i : ι := Classical.arbitrary ι
      exact (hrest (.work (.getRequest i)) _ trivial
        (.work trivial (.getRequest (hwaiting i) hqueue))).elim
  have hevtList : s.evtList = [] := by
    cases hevents : s.evtList with
    | nil => rfl
    | cons e evtList =>
      exfalso
      cases e with
      | listener =>
        -- a connection waits for each report, and there is always a new descriptor for it
        have hpos : 0 < s.accepts := by
          unfold accepts
          rw [hevents, List.count_cons_self]
          omega
        obtain ⟨addr, backlog, hcons⟩ := List.exists_cons_of_length_pos (hpos.trans_le hbacklog)
        obtain ⟨fd, hfd⟩ := Infinite.exists_notMem_finset s.reactor.proxy.fds
        rw [Proxy.mem_fds, not_not] at hfd
        exact hrest (.accept fd [] false) _ trivial
          (.accept hevents hcons (.accept addr hfd) (.arrive fd []))
      | conn fd =>
        cases hconn : EventLoop.handleMessage s.reactor.proxy fd with
        | none => exact hrest (.ignore fd) _ trivial (.ignore hevents hconn)
        | some conn =>
          refine hrest (.handleMessage fd) _ trivial
            (.handleMessage hevents (.handleMessage hconn ?_))
          rw [htaskque]
          exact hque
  have hreports : ∀ e, s.reports e = false := by
    intro e
    rw [← Bool.not_eq_true]
    intro he
    refine hrest (.wait [e]) _ (List.cons_ne_nil _ _) (.wait hevtList (List.nodup_singleton e) ?_)
    rw [List.forall_mem_singleton]
    exact he
  refine ⟨hreports, hevtList, htaskque, hwaiting, fun fd hfd => ?_, fun fd hfd => ?_⟩
  · by_contra hunread
    rcases h.unread fd hfd hunread with hreport | hevent | hqueue | ⟨i, hi⟩
    · exact absurd hreport (by rw [hreports]; exact Bool.false_ne_true)
    · exact absurd hevent (by rw [hevtList]; exact List.not_mem_nil)
    · exact absurd hqueue (by rw [htaskque]; exact List.not_mem_nil)
    · rw [hwaiting i] at hi
      cases hi
  · by_contra hlisted
    unfold Tables.Listed at hlisted
    rw [not_or, contains_iff_exists, contains_iff_exists] at hlisted
    refine hrest (.destroy fd) _ hfd (.destroy (.destroy ?_ ?_ ?_ fun i hi => ?_))
    · exact Option.eq_none_iff_forall_ne_some.mpr fun ptr hptr => hlisted.1 ⟨ptr, hptr⟩
    · exact Option.eq_none_iff_forall_ne_some.mpr fun ptr hptr => hlisted.2 ⟨ptr, hptr⟩
    · rw [htaskque]
      exact List.not_mem_nil
    · rw [hwaiting i] at hi
      cases hi

end Live

/-- **The proxy comes to rest**: from every state of every run from startup on, the event
loop and its workers take only so many steps as long as the peers do nothing, and where
none is possible any more nothing is left to do, but for as many connections that wait as
have arrived on top of a report; or a worker has failed.

A worker fails where its step `handle` is not possible, which is where the rest of
`process` throws or reads through a null pointer. -/
theorem quiet_of_run [DecidableEq ι] [Fintype ι] [Nonempty ι] {json : JsonWriter} {queSize : ℕ}
    (hque : 0 < queSize) {config : Config} {attempts : Attempts} {p : Proxy}
    (hstart : EventLoop.connectToBusinessServer config attempts = .ok p)
    {steps : List (Readiness ι × ReadinessAct ι)} {s : Readiness ι}
    (hrun : Run (ReadinessStep json queSize) (start p) steps s) :
    (∀ run : ℕ → Readiness ι, run 0 = s →
      ∃ m, ∀ act, (run m).Internal act → ¬ ReadinessStep json queSize (run m) act (run (m + 1)))
    ∧ (s.AtRest json queSize → s.Failed json ∨
      s.Quiet ∧ s.backlog.length = (steps.map (fun x => x.1.onTop x.2)).sum) := by
  have hlive := Live.of_run hstart hrun
  have hbacklog : s.backlog.length = s.accepts + (steps.map (fun x => x.1.onTop x.2)).sum := by
    have hbacklog := backlog_of_run hrun
    rw [show (start p : Readiness ι).accepts = 0 from rfl,
      show (start p : Readiness ι).backlog = [] from rfl, List.length_nil, Nat.zero_add] at hbacklog
    exact hbacklog
  refine ⟨hlive.exists_not_step, fun hrest => ?_⟩
  by_cases hok : s.Failed json
  · exact Or.inl hok
  · have hquiet := hlive.quiet_of_atRest hque (hbacklog ▸ Nat.le_add_right _ _) hrest hok
    refine Or.inr ⟨hquiet, ?_⟩
    have hnone : s.accepts = 0 := by
      unfold accepts
      rw [hquiet.reports, hquiet.evtList]
      rfl
    rw [hbacklog, hnone, Nat.zero_add]

/-- A client is accepted with a byte that has arrived: the proxy comes to rest, and not
before the byte has been received. -/
theorem quiet_accepted :
    ∃ (steps : List (Readiness Bool × ReadinessAct Bool)) (s : Readiness Bool),
      Run (ReadinessStep silentWriter 10) (start bothConnected) steps s
        ∧ ¬ s.AtRest silentWriter 10
        ∧ ∀ run : ℕ → Readiness Bool, run 0 = s → ∃ m, ∀ act, (run m).Internal act →
          ¬ ReadinessStep silentWriter 10 (run m) act (run (m + 1)) := by
  have hrun : Run (ReadinessStep silentWriter 10) (start bothConnected : Readiness Bool)
      [(_, .connect clientA), (_, .wait [.listener]), (_, .accept 7 [65] false)] _ :=
    .cons (.connect clientA) <| .cons (.wait rfl (List.nodup_singleton _) (by decide)) <|
      .cons (.accept rfl rfl (.accept clientA (by decide +kernel)) (.arrive 7 [65])) <| .nil _
  obtain ⟨hfinite, hquiet⟩ :=
    quiet_of_run (by decide) connectToBusinessServer_bothConnected hrun
  refine ⟨_, _, hrun, fun hrest => ?_, hfinite⟩
  rcases hquiet hrest with ⟨i, _, _, _, _, hi, -⟩ | ⟨hquiet, -⟩
  · cases hi
  · exact absurd (hquiet.reports (.conn 7)) (by decide)

end Readiness

end MicroBusiness
