import MicroBusiness.Threads
import MicroBusiness.Wakeups
import Mathlib.Data.Fintype.Option
import Mathlib.Data.Multiset.AddSub
import Mathlib.Tactic.Abel

/-!
# The thread pool

`Threadpool`: workers that take connections from the task queue and process
them until they read that they are to leave, and the main thread that adds
connections and at last calls `stop`. `stop` polls the queue until it is
empty, sets the exit flag, calls `wakeup`, and joins the workers one after the
other.

The pool is the threads of `QueueStep` with a program around their calls: what
happens inside a call is a step of the queue, and the pool adds what the
threads do between their calls (`ThreadpoolStep`).

* No connection is lost or processed twice (`Conserved`): what was added is
  what is on its way into the queue, in it, on its way out, in the hands of a
  worker, or processed.
* Behind the poll the queue stays empty, since only the main thread adds to
  it (`Phases`), and behind the joins all workers have left. So when `stop`
  returns, every connection has been processed once (`processed_once`).
* The joins do not wait for a sleeping worker, if the notification of `wakeup`
  comes in time (`join_awake`).
-/

namespace MicroBusiness

open Transition

/-- Where a worker stands in `threadFunc`. -/
inductive WorkerPc (τ : Type)
  /-- Before `_isExit` is read. -/
  | atLoop
  /-- In `getRequest`, which is `pop`. -/
  | inPop
  /-- In `process`. -/
  | inProcess (conn : τ)
  /-- The function has returned. -/
  | exited

/-- Where the main thread stands. -/
inductive MainPc
  /-- Between its calls. -/
  | ready
  /-- In `addRequest`, which is `push`. -/
  | inPush
  /-- In `stop`, before `empty()` is read. -/
  | atPoll
  /-- In `stop`, before `_isExit` is set. -/
  | atExit
  /-- In `stop`, in `wakeup`. -/
  | inWakeup
  /-- In `stop`, before the worker of that index is joined. -/
  | atJoin (idx : ℕ)
  /-- `stop` has returned. -/
  | stopped

/-- **`class Threadpool`** with its workers started, and the main thread: the
threads of the queue are the workers and, as `none`, the main thread. The
connections that were added, removed from the queue, and processed are kept
beside it. -/
structure Threadpool (threadNum : ℕ) (τ : Type) where
  taskque : QueueThreads (Option (Fin threadNum)) τ
  isExit : Bool := false
  worker : Fin threadNum → WorkerPc τ
  main : MainPc := .ready
  added : List τ := []
  removed : List τ := []
  processed : List τ := []

/-- The steps of the queue that are taken inside its functions. -/
def QueueAct.isInside {ι τ : Type} : QueueAct ι τ → Bool
  | call _ _ => false
  | ret _ => false
  | _ => true

/-- The element a step at a point of `pop` removes from the queue. -/
def TaskQueue.removedAt {ι τ : Type} (q : TaskQueue ι τ) : QueuePc τ → List τ
  | .popTake => q.que.take 1
  | _ => []

/-- The element a step removes from the queue. -/
def QueueThreads.removedBy {ι τ : Type} (s : QueueThreads ι τ) : QueueAct ι τ → List τ
  | .exec i => s.queue.removedAt (s.pc i)
  | _ => []

/-- What happens next in the pool. -/
inductive ThreadpoolAct (threadNum : ℕ) (τ : Type)
  /-- The main thread calls `addRequest`. -/
  | addRequest (conn : τ)
  /-- The main thread goes on. -/
  | main
  /-- A worker goes on. -/
  | worker (i : Fin threadNum)
  /-- A step inside the functions of the queue. -/
  | queue (a : QueueAct (Option (Fin threadNum)) τ)

/-- **A step of the pool.** -/
inductive ThreadpoolStep {threadNum : ℕ} {τ : Type} :
    Threadpool threadNum τ → ThreadpoolAct threadNum τ → Threadpool threadNum τ → Prop
  | addRequest {s : Threadpool threadNum τ} {t : QueueThreads (Option (Fin threadNum)) τ}
    (conn : τ) (hmain : s.main = .ready)
    (hcall : QueueStep s.taskque (.call none (.push conn)) t) :
    ThreadpoolStep s (.addRequest conn)
      { s with taskque := t, main := .inPush, added := s.added ++ [conn] }
  | added {s : Threadpool threadNum τ} (hmain : s.main = .inPush)
    (hidle : s.taskque.pc none = .idle) :
    ThreadpoolStep s .main { s with main := .ready }
  | stop {s : Threadpool threadNum τ} (hmain : s.main = .ready) :
    ThreadpoolStep s .main { s with main := .atPoll }
  | pollAgain {s : Threadpool threadNum τ} (hmain : s.main = .atPoll)
    (hempty : s.taskque.queue.empty = false) : ThreadpoolStep s .main s
  | pollDone {s : Threadpool threadNum τ} (hmain : s.main = .atPoll)
    (hempty : s.taskque.queue.empty = true) :
    ThreadpoolStep s .main { s with main := .atExit }
  | setExit {s : Threadpool threadNum τ} {t : QueueThreads (Option (Fin threadNum)) τ}
    (hmain : s.main = .atExit) (hcall : QueueStep s.taskque (.call none .wakeup) t) :
    ThreadpoolStep s .main { s with taskque := t, isExit := true, main := .inWakeup }
  | wokenUp {s : Threadpool threadNum τ} (hmain : s.main = .inWakeup)
    (hidle : s.taskque.pc none = .idle) :
    ThreadpoolStep s .main { s with main := .atJoin 0 }
  | join {s : Threadpool threadNum τ} {idx : Fin threadNum} (hmain : s.main = .atJoin idx)
    (hexited : s.worker idx = .exited) :
    ThreadpoolStep s .main { s with main := .atJoin (idx + 1) }
  | stopped {s : Threadpool threadNum τ} (hmain : s.main = .atJoin threadNum) :
    ThreadpoolStep s .main { s with main := .stopped }
  | getRequest {s : Threadpool threadNum τ} {t : QueueThreads (Option (Fin threadNum)) τ}
    {i : Fin threadNum} (hworker : s.worker i = .atLoop) (hexit : s.isExit = false)
    (hcall : QueueStep s.taskque (.call (some i) .pop) t) :
    ThreadpoolStep s (.worker i)
      { s with taskque := t, worker := Function.update s.worker i .inPop }
  | exit {s : Threadpool threadNum τ} {i : Fin threadNum} (hworker : s.worker i = .atLoop)
    (hexit : s.isExit = true) :
    ThreadpoolStep s (.worker i) { s with worker := Function.update s.worker i .exited }
  | gotConn {s : Threadpool threadNum τ} {t : QueueThreads (Option (Fin threadNum)) τ}
    {i : Fin threadNum} {conn : τ} (hworker : s.worker i = .inPop)
    (hpopped : s.taskque.pc (some i) = .popped (some conn))
    (hret : QueueStep s.taskque (.ret (some i)) t) :
    ThreadpoolStep s (.worker i)
      { s with taskque := t, worker := Function.update s.worker i (.inProcess conn) }
  | gotNull {s : Threadpool threadNum τ} {t : QueueThreads (Option (Fin threadNum)) τ}
    {i : Fin threadNum} (hworker : s.worker i = .inPop)
    (hpopped : s.taskque.pc (some i) = .popped none)
    (hret : QueueStep s.taskque (.ret (some i)) t) :
    ThreadpoolStep s (.worker i)
      { s with taskque := t, worker := Function.update s.worker i .atLoop }
  | processed {s : Threadpool threadNum τ} {i : Fin threadNum} {conn : τ}
    (hworker : s.worker i = .inProcess conn) :
    ThreadpoolStep s (.worker i)
      { s with worker := Function.update s.worker i .atLoop,
               processed := s.processed ++ [conn] }
  | queue {s : Threadpool threadNum τ} {t : QueueThreads (Option (Fin threadNum)) τ}
    {a : QueueAct (Option (Fin threadNum)) τ} (ha : a.isInside = true)
    (hstep : QueueStep s.taskque a t) :
    ThreadpoolStep s (.queue a)
      { s with taskque := t, removed := s.removed ++ s.taskque.removedBy a }

/-- A pool of a number of workers and a capacity, behind `start`. -/
def Threadpool.start (threadNum : ℕ) (τ : Type) (queSize : ℕ) : Threadpool threadNum τ where
  taskque := .start (Option (Fin threadNum)) τ queSize
  worker _ := .atLoop

/-! ## No connection is lost -/

namespace QueuePc

variable {τ : Type}

/-- What a thread is about to insert. -/
def pushing : QueuePc τ → Multiset τ
  | pushLock e | pushTest e | pushWait e | pushSleep e | pushInsert e => {e}
  | _ => 0

/-- What a thread has removed and not begun to use. -/
def popping : QueuePc τ → Multiset τ
  | popNotify x => {x}
  | popUnlock r | popped r => r.toList
  | _ => 0

end QueuePc

/-- What a worker is processing. -/
def WorkerPc.processing {τ : Type} : WorkerPc τ → Multiset τ
  | inProcess conn => {conn}
  | _ => 0

namespace TaskQueue

variable {ι τ : Type} [DecidableEq ι] {i : ι} {q q' : TaskQueue ι τ} {p p' : QueuePc τ}

/-- **A step of `push` or `pop` loses nothing**: what it inserts comes from
the thread, what it removes goes to it. -/
theorem Exec.conserved (h : Exec i q p q' p') :
    p.pushing + (q.que : Multiset τ) = (q.removedAt p : Multiset τ) + (p'.pushing + q'.que)
      ∧ p'.popping = p.popping + (q.removedAt p : Multiset τ) := by
  cases h with
  | insert e =>
    refine ⟨?_, rfl⟩
    show {e} + (q.que : Multiset τ) = 0 + (0 + ((q.que ++ [e] : List τ) : Multiset τ))
    rw [← Multiset.coe_add, zero_add, zero_add, add_comm]
    rfl
  | @take x rest hque =>
    unfold removedAt
    rw [hque]
    exact ⟨rfl, rfl⟩
  | _ =>
    refine ⟨?_, ?_⟩ <;> simp [removedAt, QueuePc.pushing, QueuePc.popping]

end TaskQueue

namespace QueueThreads

variable {ι τ : Type} [Fintype ι]

/-- What the threads are about to insert. -/
def pushing (s : QueueThreads ι τ) : Multiset τ := ∑ j, (s.pc j).pushing

/-- What the threads have removed and not begun to use. -/
def popping (s : QueueThreads ι τ) : Multiset τ := ∑ j, (s.pc j).popping

/-- What a step is given to insert. -/
def givenBy : QueueAct ι τ → Multiset τ
  | .call _ c => c.entry.pushing
  | _ => 0

/-- What a step lets its thread use. -/
def usedBy (s : QueueThreads ι τ) : QueueAct ι τ → Multiset τ
  | .ret i => (s.pc i).popping
  | _ => 0

variable [DecidableEq ι]

theorem pushing_update (s : QueueThreads ι τ) (q : TaskQueue ι τ) (i : ι) (p : QueuePc τ)
    (awake : Bool) :
    pushing ⟨q, Function.update s.pc i p, awake⟩ + (s.pc i).pushing = s.pushing + p.pushing
      ∧ popping ⟨q, Function.update s.pc i p, awake⟩ + (s.pc i).popping
        = s.popping + p.popping :=
  ⟨Program.sum_update_add QueuePc.pushing s.pc i p, Program.sum_update_add QueuePc.popping s.pc i p⟩

/-- **A step of the queue loses nothing**: what the threads are about to insert
and what is in the queue, with what the step is given, is what it removes and
what is there afterwards; and what is removed and not used grows by what it
removes and shrinks by what it lets its thread use. -/
theorem conserved_step {s t : QueueThreads ι τ} {a : QueueAct ι τ} (h : QueueStep s a t) :
    s.pushing + s.queue.que + givenBy a = s.removedBy a + (t.pushing + t.queue.que)
      ∧ t.popping + s.usedBy a = s.popping + s.removedBy a := by
  cases h with
  -- a thread begins a call with what it is to push in hand
  | @call i c hidle =>
    obtain ⟨hpush, hpop⟩ := pushing_update s s.queue i c.entry s.awake
    have hnone : c.entry.popping = 0 := by cases c <;> rfl
    rw [hidle] at hpush hpop
    rw [hnone] at hpop
    refine ⟨?_, hpop⟩
    show s.pushing + (s.queue.que : Multiset τ) + c.entry.pushing
      = 0 + (pushing _ + (s.queue.que : Multiset τ))
    rw [(add_zero _).symm.trans hpush]
    abel
  -- a statement moves an element between the thread's hand and the queue
  | @exec i q p hexec =>
    obtain ⟨hpush, hpop⟩ := pushing_update s q i p s.awake
    obtain ⟨hinsert, htake⟩ := hexec.conserved
    constructor
    · refine add_right_cancel (b := (s.pc i).pushing) ?_
      show s.pushing + (s.queue.que : Multiset τ) + 0 + (s.pc i).pushing
        = (s.queue.removedAt (s.pc i) : Multiset τ) + (pushing _ + (q.que : Multiset τ))
          + (s.pc i).pushing
      calc s.pushing + (s.queue.que : Multiset τ) + 0 + (s.pc i).pushing
          = s.pushing + ((s.pc i).pushing + s.queue.que) := by abel
        _ = s.queue.removedAt (s.pc i) + (s.pushing + p.pushing + q.que) := by rw [hinsert]; abel
        _ = _ := by rw [← hpush]; abel
    · refine add_right_cancel (b := (s.pc i).popping) ?_
      show popping _ + 0 + (s.pc i).popping
        = s.popping + (s.queue.removedAt (s.pc i) : Multiset τ) + (s.pc i).popping
      rw [add_zero, hpop, htake]
      abel
  -- what was popped is used from now on
  | @ret i r hpopped =>
    obtain ⟨hpush, hpop⟩ := pushing_update s s.queue i .idle s.awake
    rw [hpopped] at hpush
    refine ⟨?_, hpop⟩
    show s.pushing + (s.queue.que : Multiset τ) + 0 = 0 + (pushing _ + (s.queue.que : Multiset τ))
    rw [add_right_cancel hpush, add_zero, zero_add]
  | @wakeupClear i hpc =>
    obtain ⟨hpush, hpop⟩ := pushing_update s { s.queue with flag := false } i .wakeupNotify s.awake
    rw [hpc] at hpush hpop
    refine ⟨?_, hpop⟩
    show s.pushing + (s.queue.que : Multiset τ) + 0 = 0 + (pushing _ + (s.queue.que : Multiset τ))
    rw [add_right_cancel hpush, add_zero, zero_add]
  | @wakeupNotify i hpc =>
    obtain ⟨hpush, hpop⟩ := pushing_update s
      { s.queue with notEmpty := s.queue.notEmpty.notifyAll } i .idle true
    rw [hpc] at hpush hpop
    refine ⟨?_, hpop⟩
    show s.pushing + (s.queue.que : Multiset τ) + 0 = 0 + (pushing _ + (s.queue.que : Multiset τ))
    rw [add_right_cancel hpush, add_zero, zero_add]
  | spuriousFull => exact ⟨by rw [add_comm]; rfl, rfl⟩
  | spuriousEmpty => exact ⟨by rw [add_comm]; rfl, rfl⟩

end QueueThreads

namespace Threadpool

variable {threadNum : ℕ} {τ : Type} {s t : Threadpool threadNum τ}
  {a : ThreadpoolAct threadNum τ}

/-- What the workers are processing. -/
def processing (s : Threadpool threadNum τ) : Multiset τ := ∑ i, (s.worker i).processing

/-- **No connection is lost or doubled**: what was added has been removed, is
in the queue, or is about to be inserted; what was removed has been processed,
is being processed, or is on its way to a worker. -/
structure Conserved (s : Threadpool threadNum τ) : Prop where
  added : (s.added : Multiset τ) = s.removed + (s.taskque.pushing + s.taskque.queue.que)
  removed : (s.removed : Multiset τ) = s.processed + (s.processing + s.taskque.popping)

theorem conserved_start (queSize : ℕ) : (start threadNum τ queSize).Conserved := by
  constructor
  · simp [start, QueueThreads.start, QueueThreads.pushing, QueuePc.pushing]
  · simp [start, QueueThreads.start, QueueThreads.popping, QueuePc.popping, processing,
      WorkerPc.processing]

/-- **The accounts of a step**: what it is given, removes and uses accounts for
every change. -/
theorem Conserved.of_accounts (hs : s.Conserved) {given removed used : Multiset τ}
    (hqueue : s.taskque.pushing + s.taskque.queue.que + given
      = removed + (t.taskque.pushing + t.taskque.queue.que))
    (hpopping : t.taskque.popping + used = s.taskque.popping + removed)
    (hadded : (t.added : Multiset τ) = s.added + given)
    (hremoved : (t.removed : Multiset τ) = s.removed + removed)
    (hprocessed : t.processing + t.processed = s.processing + s.processed + used) :
    t.Conserved := by
  constructor
  · rw [hadded, hremoved, hs.added, add_assoc, hqueue]
    abel
  · refine add_right_cancel (b := used) ?_
    calc (t.removed : Multiset τ) + used
        = s.processing + s.processed + used + (s.taskque.popping + removed) := by
          rw [hremoved, hs.removed]
          abel
      _ = t.processing + t.processed + (t.taskque.popping + used) := by
          rw [← hprocessed, hpopping]
      _ = _ := by abel

/-- The accounts of a worker that goes on: what it is given to use is what it
is processing afterwards, or has processed. -/
theorem processing_accounts (s : Threadpool threadNum τ) {i : Fin threadNum} {w : WorkerPc τ}
    {used done processed : Multiset τ} (hprocessed : processed = s.processed + done)
    (h : (s.worker i).processing + used = w.processing + done) :
    (∑ j, (Function.update s.worker i w j).processing) + processed
      = s.processing + s.processed + used := by
  have hsum := Program.sum_update_add WorkerPc.processing s.worker i w
  refine add_right_cancel (b := (s.worker i).processing) ?_
  calc (∑ j, (Function.update s.worker i w j).processing) + processed + (s.worker i).processing
      = (∑ j, (Function.update s.worker i w j).processing) + (s.worker i).processing
          + (s.processed + done) := by
        rw [hprocessed]
        abel
    _ = s.processing + (s.processed + (w.processing + done)) := by
        rw [hsum, processing]
        abel
    _ = _ := by
        rw [← h]
        abel

/-- **Every step of the pool conserves the connections.** -/
theorem Conserved.step (hs : s.Conserved) (h : ThreadpoolStep s a t) : t.Conserved := by
  have hzero : ∀ m : Multiset τ, m = m + 0 := fun m => (add_zero m).symm
  cases h with
  -- a call of the queue moves a connection between caller, queue and worker
  | addRequest conn hmain hcall =>
    obtain ⟨hqueue, hpopping⟩ := QueueThreads.conserved_step hcall
    exact hs.of_accounts hqueue hpopping rfl (hzero _) (hzero _)
  | added => exact ⟨hs.added, hs.removed⟩
  | stop => exact ⟨hs.added, hs.removed⟩
  | pollAgain => exact hs
  | pollDone => exact ⟨hs.added, hs.removed⟩
  | wokenUp => exact ⟨hs.added, hs.removed⟩
  | join => exact ⟨hs.added, hs.removed⟩
  | stopped => exact ⟨hs.added, hs.removed⟩
  | setExit hmain hcall =>
    obtain ⟨hqueue, hpopping⟩ := QueueThreads.conserved_step hcall
    exact hs.of_accounts hqueue hpopping (hzero _) (hzero _) (hzero _)
  | getRequest hworker hexit hcall =>
    obtain ⟨hqueue, hpopping⟩ := QueueThreads.conserved_step hcall
    refine hs.of_accounts hqueue hpopping (hzero _) (hzero _)
      (s.processing_accounts (hzero _) ?_)
    rw [hworker]
    rfl
  -- a worker that leaves without a call has nothing in hand
  | @exit i hworker hexit =>
    refine hs.of_accounts (add_comm _ 0) rfl (hzero _) (hzero _)
      (s.processing_accounts (hzero _) ?_)
    rw [hworker]
    rfl
  -- what `pop` returns is what the worker processes
  | gotConn hworker hpopped hret =>
    obtain ⟨hqueue, hpopping⟩ := QueueThreads.conserved_step hret
    refine hs.of_accounts hqueue hpopping (hzero _) (hzero _)
      (s.processing_accounts (hzero _) ?_)
    rw [hworker, QueueThreads.usedBy, hpopped]
    rfl
  | gotNull hworker hpopped hret =>
    obtain ⟨hqueue, hpopping⟩ := QueueThreads.conserved_step hret
    refine hs.of_accounts hqueue hpopping (hzero _) (hzero _)
      (s.processing_accounts (hzero _) ?_)
    rw [hworker, QueueThreads.usedBy, hpopped]
    rfl
  | @processed i conn hworker =>
    refine hs.of_accounts (add_comm _ 0) rfl (hzero _) (hzero _)
      (s.processing_accounts (Multiset.coe_add _ _).symm ?_)
    rw [hworker]
    rfl
  -- inside the queue nothing is given or used
  | @queue u b hb hstep =>
    obtain ⟨hqueue, hpopping⟩ := QueueThreads.conserved_step hstep
    have hnone : QueueThreads.givenBy b = 0 ∧ s.taskque.usedBy b = 0 := by
      cases b with
      | call i c => cases hb
      | ret i => cases hb
      | _ => exact ⟨rfl, rfl⟩
    rw [hnone.1] at hqueue
    rw [hnone.2] at hpopping
    exact hs.of_accounts hqueue hpopping (hzero _) (Multiset.coe_add _ _).symm (hzero _)

end Threadpool

/-! ## Who calls what -/

/-- The functions of the queue. -/
inductive QueueFn
  | push
  | pop
  | wakeup
  deriving DecidableEq

/-- The function a thread is in. -/
def QueuePc.fn {τ : Type} : QueuePc τ → Option QueueFn
  | idle => none
  | pushLock _ | pushTest _ | pushWait _ | pushSleep _ | pushInsert _ | pushNotify | pushUnlock =>
    some .push
  | wakeupClear | wakeupNotify => some .wakeup
  | _ => some .pop

theorem QueuePc.nothing_of_fn {τ : Type} {p : QueuePc τ} (h : p.fn = none) :
    p.pushing = 0 ∧ p.popping = 0 := by
  cases p with
  | idle => exact ⟨rfl, rfl⟩
  | _ => cases h

/-- A step of `push` or `pop` stays in the function or returns from `push`. -/
theorem TaskQueue.Exec.fn {ι τ : Type} [DecidableEq ι] {i : ι} {q q' : TaskQueue ι τ}
    {p p' : QueuePc τ} (h : Exec i q p q' p') :
    p.fn ≠ some .wakeup ∧ (p'.fn = p.fn ∨ p.fn = some .push ∧ p'.fn = none) := by
  cases h with
  | unlockPush => exact ⟨by simp [QueuePc.fn], Or.inr ⟨rfl, rfl⟩⟩
  | _ => exact ⟨by simp [QueuePc.fn], Or.inl rfl⟩

namespace QueueThreads

variable {ι τ : Type} [DecidableEq ι] {s t : QueueThreads ι τ} {a : QueueAct ι τ}

/-- **A step inside the functions** stays in the function or returns from
`push` or `wakeup`. -/
theorem fn_step (h : QueueStep s a t) (ha : a.isInside = true) (j : ι) :
    (t.pc j).fn = (s.pc j).fn
      ∨ (t.pc j).fn = none ∧ ((s.pc j).fn = some .push ∨ (s.pc j).fn = some .wakeup
        ∧ t.awake = true) := by
  cases h with
  | call => cases ha
  | ret => cases ha
  | @exec i q p hexec =>
    show (Function.update s.pc i p j).fn = _ ∨ (Function.update s.pc i p j).fn = none ∧ _
    by_cases hj : j = i
    · subst hj
      rw [Function.update_self]
      rcases hexec.fn.2 with hsame | ⟨hpush, hnone⟩
      · exact Or.inl hsame
      · exact Or.inr ⟨hnone, Or.inl hpush⟩
    · rw [Function.update_of_ne hj]
      exact Or.inl rfl
  | @wakeupClear i hpc =>
    show (Function.update s.pc i .wakeupNotify j).fn = _ ∨ _
    by_cases hj : j = i
    · subst hj
      rw [Function.update_self, hpc]
      exact Or.inl rfl
    · rw [Function.update_of_ne hj]
      exact Or.inl rfl
  | @wakeupNotify i hpc =>
    show (Function.update s.pc i .idle j).fn = _ ∨ (Function.update s.pc i .idle j).fn = none ∧ _
    by_cases hj : j = i
    · subst hj
      rw [Function.update_self, hpc]
      exact Or.inr ⟨rfl, Or.inr ⟨rfl, rfl⟩⟩
    · rw [Function.update_of_ne hj]
      exact Or.inl rfl
  | spuriousFull => exact Or.inl rfl
  | spuriousEmpty => exact Or.inl rfl

/-- Where nobody is in `push`, an empty queue stays empty. -/
theorem que_step (h : QueueStep s a t) (hpush : ∀ j, (s.pc j).fn ≠ some .push)
    (hque : s.queue.que = []) : t.queue.que = [] := by
  cases h with
  | @exec i q p hexec =>
    have hi := hpush i
    generalize s.pc i = pc at hexec hi
    cases hexec with
    | insert e => exact absurd rfl hi
    | take htake =>
      rw [hque] at htake
      cases htake
    | _ => exact hque
  | _ => exact hque

/-- A call of `wakeup` that has returned has returned for good. -/
theorem awake_step (h : QueueStep s a t) (hawake : s.awake = true) : t.awake = true := by
  cases h with
  | wakeupNotify => rfl
  | _ => exact hawake

end QueueThreads

/-- The functions of the queue a worker can be in. -/
def WorkerPc.fn {τ : Type} : WorkerPc τ → Option QueueFn
  | inPop => some .pop
  | _ => none

namespace MainPc

/-- The function of the queue the main thread can be in, until it returns. -/
def fn : MainPc → Option QueueFn
  | inPush => some .push
  | inWakeup => some .wakeup
  | _ => none

/-- Whether `stop` has found the queue empty. -/
def hasPolled : MainPc → Bool
  | ready | inPush | atPoll => false
  | _ => true

/-- Whether `stop` is behind its call of `wakeup`. -/
def hasWoken : MainPc → Bool
  | atJoin _ | stopped => true
  | _ => false

/-- How many workers `stop` has joined. -/
def joined (threadNum : ℕ) : MainPc → ℕ
  | atJoin idx => idx
  | stopped => threadNum
  | _ => 0

end MainPc

namespace Threadpool

variable {threadNum : ℕ} {τ : Type} {s t : Threadpool threadNum τ}
  {a : ThreadpoolAct threadNum τ}

/-- **The phases of the pool**: the threads are in the functions their
programs call, the queue is empty behind the poll, `wakeup` has returned where
`stop` goes on behind it, and the workers that were joined have left. -/
structure Phases (s : Threadpool threadNum τ) : Prop where
  worker : ∀ i, (s.taskque.pc (some i)).fn = (s.worker i).fn
  main : (s.taskque.pc none).fn = s.main.fn ∨ (s.taskque.pc none).fn = none
  polled : s.main.hasPolled = true → s.taskque.queue.que = []
  returned : s.main = .inWakeup → (s.taskque.pc none).fn = none → s.taskque.awake = true
  woken : s.main.hasWoken = true → s.taskque.awake = true
  joined : ∀ i : Fin threadNum, (i : ℕ) < s.main.joined threadNum → s.worker i = .exited

theorem phases_start (queSize : ℕ) : (start threadNum τ queSize).Phases where
  worker _ := rfl
  main := Or.inl rfl
  polled := nofun
  returned := nofun
  woken := nofun
  joined _ := nofun

/-- Behind the poll nobody is in `push`. -/
theorem Phases.not_push (hs : s.Phases) (hpolled : s.main.hasPolled = true)
    (j : Option (Fin threadNum)) : (s.taskque.pc j).fn ≠ some .push := by
  cases j with
  | some i =>
    rw [hs.worker i]
    cases s.worker i <;> nofun
  | none =>
    rcases hs.main with hmain | hmain
    · rw [hmain]
      cases hpc : s.main with
      | inPush =>
        rw [hpc] at hpolled
        cases hpolled
      | _ => nofun
    · rw [hmain]
      nofun

theorem Phases.joined_update (hs : s.Phases) {i : Fin threadNum} {w : WorkerPc τ}
    (hi : s.worker i ≠ .exited) (j : Fin threadNum) (hj : (j : ℕ) < s.main.joined threadNum) :
    Function.update s.worker i w j = .exited := by
  have hne : j ≠ i := by
    rintro rfl
    exact hi (hs.joined j hj)
  rw [Function.update_of_ne hne]
  exact hs.joined j hj

theorem Phases.worker_update (hs : s.Phases) {i : Fin threadNum} {p : QueuePc τ} {w : WorkerPc τ}
    (h : p.fn = w.fn) (j : Fin threadNum) :
    (Function.update s.taskque.pc (some i) p (some j)).fn
      = (Function.update s.worker i w j).fn := by
  by_cases hj : j = i
  · subst hj
    rw [Function.update_self, Function.update_self]
    exact h
  · rw [Function.update_of_ne (by simpa using hj), Function.update_of_ne hj]
    exact hs.worker j

theorem Phases.worker_step (hs : s.Phases) {i : Fin threadNum} {p : QueuePc τ} {w : WorkerPc τ}
    (processed : List τ) (hi : s.worker i ≠ .exited) (h : p.fn = w.fn) :
    Phases { s with taskque := { s.taskque with pc := Function.update s.taskque.pc (some i) p },
                    worker := Function.update s.worker i w, processed := processed } := by
  have hmain : Function.update s.taskque.pc (some i) p none = s.taskque.pc none :=
    Function.update_of_ne (Option.some_ne_none i).symm p s.taskque.pc
  refine ⟨hs.worker_update h, ?_, hs.polled, ?_, hs.woken, hs.joined_update hi⟩
  · show (Function.update s.taskque.pc (some i) p none).fn = _ ∨ _
    rw [hmain]
    exact hs.main
  · show _ → (Function.update s.taskque.pc (some i) p none).fn = none → _
    rw [hmain]
    exact hs.returned

/-- A step inside the functions of the queue keeps the phases. -/
theorem Phases.queue_step (hs : s.Phases) {b : QueueAct (Option (Fin threadNum)) τ}
    {u : QueueThreads (Option (Fin threadNum)) τ} {removed : List τ} (hb : b.isInside = true)
    (h : QueueStep s.taskque b u) : Phases { s with taskque := u, removed := removed } where
  worker i := by
    rcases QueueThreads.fn_step h hb (some i) with hsame | ⟨-, hpush | ⟨hwakeup, -⟩⟩
    · exact hsame.trans (hs.worker i)
    · rw [hs.worker i] at hpush
      cases hw : s.worker i <;> rw [hw] at hpush <;> cases hpush
    · rw [hs.worker i] at hwakeup
      cases hw : s.worker i <;> rw [hw] at hwakeup <;> cases hwakeup
  main := by
    rcases QueueThreads.fn_step h hb none with hsame | ⟨hnone, -⟩
    · show (u.pc none).fn = _ ∨ (u.pc none).fn = none
      rw [hsame]
      exact hs.main
    · exact Or.inr hnone
  polled hpolled := QueueThreads.que_step h (hs.not_push hpolled) (hs.polled hpolled)
  returned hmain hnone := by
    rcases QueueThreads.fn_step h hb none with hsame | ⟨-, hpush | ⟨-, hawake⟩⟩
    · exact QueueThreads.awake_step h (hs.returned hmain (hsame.symm.trans hnone))
    · exact absurd hpush (hs.not_push (by rw [hmain]; rfl) none)
    · exact hawake
  woken hwoken := QueueThreads.awake_step h (hs.woken hwoken)
  joined := hs.joined

/-- **Every step keeps the phases.** -/
theorem Phases.step (hs : s.Phases) (h : ThreadpoolStep s a t) : t.Phases := by
  have hworker : ∀ {p : QueuePc τ} (i : Fin threadNum),
      (Function.update s.taskque.pc none p (some i)).fn = (s.worker i).fn := by
    intro p i
    rw [Function.update_of_ne (Option.some_ne_none i)]
    exact hs.worker i
  have hself : ∀ p : QueuePc τ, (Function.update s.taskque.pc none p none).fn = p.fn := by
    intro p
    rw [Function.update_self]
  -- the main thread goes on without the queue
  have hsame : ∀ {m : MainPc}, s.main.fn = m.fn →
      (s.taskque.pc none).fn = m.fn ∨ (s.taskque.pc none).fn = none := by
    intro m hm
    rw [← hm]
    exact hs.main
  cases h with
  | addRequest conn hmain hcall =>
    cases hcall with
    | call _ hidle =>
      exact ⟨hworker (p := .pushLock conn), Or.inl (hself _), nofun, nofun, nofun, fun _ => nofun⟩
  | added hmain hidle =>
    exact ⟨hs.worker, Or.inr (by rw [hidle]; rfl), nofun, nofun, nofun, fun _ => nofun⟩
  | stop hmain => exact ⟨hs.worker, hsame (by rw [hmain]; rfl), nofun, nofun, nofun, fun _ => nofun⟩
  | pollAgain => exact hs
  | pollDone hmain hempty =>
    refine ⟨hs.worker, hsame (by rw [hmain]; rfl), fun _ => ?_, nofun, nofun, fun _ => nofun⟩
    exact List.length_eq_zero_iff.mp (of_decide_eq_true hempty)
  | setExit hmain hcall =>
    cases hcall with
    | call _ hidle =>
      refine ⟨hworker (p := .wakeupClear), Or.inl (hself _),
        fun _ => hs.polled (by rw [hmain]; rfl), fun _ hnone => ?_, nofun, fun _ => nofun⟩
      cases (hself _).symm.trans hnone
  | wokenUp hmain hidle =>
    have hnone : (s.taskque.pc none).fn = none := by rw [hidle]; rfl
    exact ⟨hs.worker, Or.inr hnone, fun _ => hs.polled (by rw [hmain]; rfl), nofun,
      fun _ => hs.returned hmain hnone, fun _ hlt => absurd hlt (Nat.not_lt_zero _)⟩
  | @join idx hmain hexited =>
    refine ⟨hs.worker, hsame (by rw [hmain]; rfl), fun _ => hs.polled (by rw [hmain]; rfl), nofun,
      fun _ => hs.woken (by rw [hmain]; rfl), fun i hlt => ?_⟩
    rcases Nat.lt_or_eq_of_le (Nat.le_of_lt_succ hlt) with hlt' | heq
    · refine hs.joined i ?_
      rw [hmain]
      exact hlt'
    · rw [Fin.ext heq]
      exact hexited
  | stopped hmain =>
    refine ⟨hs.worker, hsame (by rw [hmain]; rfl), fun _ => hs.polled (by rw [hmain]; rfl), nofun,
      fun _ => hs.woken (by rw [hmain]; rfl), fun i _ => hs.joined i ?_⟩
    rw [hmain]
    exact i.isLt
  | getRequest hi hexit hcall =>
    cases hcall with
    | call => exact hs.worker_step _ (by rw [hi]; nofun) rfl
  | @exit i hi hexit =>
    have hidle := hs.worker i
    rw [hi] at hidle
    have hstep := hs.worker_step (w := .exited) (p := s.taskque.pc (some i)) (i := i)
      s.processed (by rw [hi]; nofun) hidle
    rw [Function.update_eq_self] at hstep
    exact hstep
  | gotConn hi hpopped hret =>
    cases hret with
    | ret => exact hs.worker_step _ (by rw [hi]; nofun) rfl
  | gotNull hi hpopped hret =>
    cases hret with
    | ret => exact hs.worker_step _ (by rw [hi]; nofun) rfl
  | @processed i conn hi =>
    have hidle := hs.worker i
    rw [hi] at hidle
    have hstep := hs.worker_step (w := .atLoop) (p := s.taskque.pc (some i)) (i := i)
      (s.processed ++ [conn]) (by rw [hi]; nofun) hidle
    rw [Function.update_eq_self] at hstep
    exact hstep
  | queue hb hstep => exact hs.queue_step hb hstep

theorem conserved_phases_run {queSize : ℕ}
    {steps : List (Threadpool threadNum τ × ThreadpoolAct threadNum τ)}
    (h : Run ThreadpoolStep (start threadNum τ queSize) steps s) : s.Conserved ∧ s.Phases := by
  have hstep : ∀ (s : Threadpool threadNum τ) a t, s.Conserved ∧ s.Phases → True →
      ThreadpoolStep s a t → t.Conserved ∧ t.Phases :=
    fun _ _ _ hs _ hst => ⟨hs.1.step hst, hs.2.step hst⟩
  exact h.invariant hstep (fun _ _ => trivial) ⟨conserved_start queSize, phases_start queSize⟩

/-- **Every connection that is added is processed exactly once**: for every
number of workers, every capacity, whatever is added, and every interleaving
of the main thread with the workers, whenever `stop` has returned, what was
processed is what was added, each as often as it was added, and so is what the
workers have taken out of the queue, which is empty. -/
theorem processed_once {queSize : ℕ}
    {steps : List (Threadpool threadNum τ × ThreadpoolAct threadNum τ)}
    (h : Run ThreadpoolStep (start threadNum τ queSize) steps s) (hstopped : s.main = .stopped) :
    s.processed.Perm s.added ∧ s.removed.Perm s.processed ∧ s.taskque.queue.que = []
      ∧ ∀ i, s.worker i = .exited := by
  obtain ⟨hconserved, hphases⟩ := conserved_phases_run h
  have hque : s.taskque.queue.que = [] := hphases.polled (by rw [hstopped]; rfl)
  have hexited : ∀ i, s.worker i = .exited := by
    intro i
    refine hphases.joined i ?_
    rw [hstopped]
    exact i.isLt
  -- nobody is in a function of the queue any more
  have hidle : ∀ j, (s.taskque.pc j).fn = none := by
    intro j
    cases j with
    | some i => rw [hphases.worker i, hexited i]; rfl
    | none =>
      rcases hphases.main with hmain | hmain
      · rw [hmain, hstopped]
        rfl
      · exact hmain
  have hpushing : s.taskque.pushing = 0 :=
    Finset.sum_eq_zero fun j _ => (QueuePc.nothing_of_fn (hidle j)).1
  have hpopping : s.taskque.popping = 0 :=
    Finset.sum_eq_zero fun j _ => (QueuePc.nothing_of_fn (hidle j)).2
  have hprocessing : s.processing = 0 :=
    Finset.sum_eq_zero fun i _ => by rw [hexited i]; rfl
  obtain ⟨hadded, hremoved⟩ := hconserved
  rw [hpushing, hque, Multiset.coe_nil, add_zero, add_zero] at hadded
  rw [hpopping, hprocessing, add_zero, add_zero] at hremoved
  refine ⟨?_, Multiset.coe_eq_coe.mp hremoved, hque, hexited⟩
  exact Multiset.coe_eq_coe.mp (hremoved.symm.trans hadded.symm)

/-- A pool of two workers, between two calls of everybody. -/
def twoWorkers (que added removed processed : List ℕ) : Threadpool 2 ℕ where
  taskque := { queue := { queSize := 2, que }, pc := fun _ => .idle }
  worker _ := .atLoop
  added := added
  removed := removed
  processed := processed

/-- A connection is added. -/
theorem twoWorkers_addRequest {que added : List ℕ} (conn : ℕ)
    (hfull : (twoWorkers que added [] []).taskque.queue.full = false) :
    ∃ steps, Run ThreadpoolStep (twoWorkers que added [] []) steps
      (twoWorkers (que ++ [conn]) (added ++ [conn]) [] []) := by
  have h : Run ThreadpoolStep (twoWorkers que added [] []) _ _ :=
    .cons (.addRequest conn rfl (.call _ rfl)) <|
    .cons (.queue rfl (.exec (i := none) (.lockPush _ conn rfl))) <|
    .cons (.queue rfl (.exec (i := none) (.testNotFull _ conn hfull))) <|
    .cons (.queue rfl (.exec (i := none) (.insert _ conn))) <|
    .cons (.queue rfl (.exec (i := none) (.notifyEmpty _ (.none rfl)))) <|
    .cons (.queue rfl (.exec (i := none) (.unlockPush _))) <|
    .cons (.added rfl rfl) (.nil _)
  refine ⟨_, (congrArg (fun pc => Run ThreadpoolStep _ _
    { twoWorkers (que ++ [conn]) (added ++ [conn]) [] [] with
      taskque := { (twoWorkers (que ++ [conn]) (added ++ [conn]) [] []).taskque with pc } })
    (funext fun j => ?_)).mp h⟩
  cases j <;> rfl

/-- Both workers take a connection out of the queue, and the second one is the first to have
processed its own. -/
theorem twoWorkers_process : ∃ steps, Run ThreadpoolStep (twoWorkers [7, 8] [7, 8] [] []) steps
    (twoWorkers [] [7, 8] [7, 8] [8, 7]) := by
  have h : Run ThreadpoolStep (twoWorkers [7, 8] [7, 8] [] []) _ _ :=
    .cons (.getRequest (i := 0) rfl rfl (.call _ rfl)) <|
    .cons (.getRequest (i := 1) rfl rfl (.call _ rfl)) <|
    .cons (.queue rfl (.exec (i := some 0) (.lockPop _ rfl))) <|
    .cons (.queue rfl (.exec (i := some 0) (.flagSet _ rfl))) <|
    .cons (.queue rfl (.exec (i := some 0) (.testNotEmpty _ rfl))) <|
    .cons (.queue rfl (.exec (i := some 0) (.checkSet _ rfl))) <|
    .cons (.queue rfl (.exec (i := some 0) (.take _ rfl))) <|
    .cons (.queue rfl (.exec (i := some 0) (.notifyFull _ 7 (.none rfl)))) <|
    .cons (.queue rfl (.exec (i := some 0) (.unlockPop _ _))) <|
    .cons (.queue rfl (.exec (i := some 1) (.lockPop _ rfl))) <|
    .cons (.queue rfl (.exec (i := some 1) (.flagSet _ rfl))) <|
    .cons (.queue rfl (.exec (i := some 1) (.testNotEmpty _ rfl))) <|
    .cons (.queue rfl (.exec (i := some 1) (.checkSet _ rfl))) <|
    .cons (.queue rfl (.exec (i := some 1) (.take _ rfl))) <|
    .cons (.queue rfl (.exec (i := some 1) (.notifyFull _ 8 (.none rfl)))) <|
    .cons (.queue rfl (.exec (i := some 1) (.unlockPop _ _))) <|
    .cons (.gotConn (i := 0) rfl rfl (.ret rfl)) <| .cons (.gotConn (i := 1) rfl rfl (.ret rfl)) <|
    .cons (.processed (i := 1) rfl) <| .cons (.processed (i := 0) rfl) (.nil _)
  refine ⟨_, (congrArg₂ (fun pc worker => Run ThreadpoolStep _ _
    { twoWorkers [] [7, 8] [7, 8] [8, 7] with
      taskque := { (twoWorkers [] [7, 8] [7, 8] [8, 7]).taskque with pc }, worker })
    (funext fun j => ?_) (funext fun i => ?_)).mp h⟩
  · match j with
    | none => rfl
    | some 0 => rfl
    | some 1 => rfl
  · match i with
    | 0 => rfl
    | 1 => rfl

theorem twoWorkers_stop : ∃ steps s,
    Run ThreadpoolStep (twoWorkers [] [7, 8] [7, 8] [8, 7]) steps s
      ∧ s.main = .stopped ∧ s.added = [7, 8] ∧ s.processed = [8, 7] :=
  ⟨_, _,
    .cons (.stop rfl) <| .cons (.pollDone rfl rfl) <| .cons (.setExit rfl (.call _ rfl)) <|
    .cons (.queue rfl (.wakeupClear (i := none) rfl)) <|
    .cons (.queue rfl (.wakeupNotify (i := none) rfl)) <| .cons (.wokenUp rfl rfl) <|
    .cons (.exit (i := 1) rfl rfl) <| .cons (.exit (i := 0) rfl rfl) <|
    .cons (@ThreadpoolStep.join 2 ℕ _ 0 rfl rfl) <|
    .cons (@ThreadpoolStep.join 2 ℕ _ 1 rfl rfl) <|
    .cons (.stopped rfl) (.nil _), rfl, rfl, rfl⟩

/-- Two connections through a pool of two workers, which have processed them in the other
order when the pool is stopped. -/
theorem processed_once_twoWorkers : ∃ (steps : List (Threadpool 2 ℕ × ThreadpoolAct 2 ℕ))
    (s : Threadpool 2 ℕ), Run ThreadpoolStep (start 2 ℕ 2) steps s ∧ s.main = .stopped
      ∧ s.added = [7, 8] ∧ s.processed = [8, 7] ∧ s.processed.Perm s.added := by
  obtain ⟨steps, hfirst⟩ : ∃ steps, Run ThreadpoolStep (twoWorkers [] [] [] []) steps
      (twoWorkers [7] [7] [] []) := twoWorkers_addRequest 7 rfl
  obtain ⟨steps', hsecond⟩ : ∃ steps, Run ThreadpoolStep (twoWorkers [7] [7] [] []) steps
      (twoWorkers [7, 8] [7, 8] [] []) := twoWorkers_addRequest 8 rfl
  obtain ⟨steps'', hprocess⟩ := twoWorkers_process
  obtain ⟨stops, s, hstop, hstopped, hadded, hprocessed⟩ := twoWorkers_stop
  have h : Run ThreadpoolStep (start 2 ℕ 2) _ s :=
    ((hfirst.append hsecond).append hprocess).append hstop
  exact ⟨_, s, h, hstopped, hadded, hprocessed, (processed_once h hstopped).1⟩

/-! ## What the joins wait for -/

/-- The notification of `wakeup` comes in time. -/
def NotifiesInTime (s : Threadpool threadNum τ) (a : ThreadpoolAct threadNum τ) : Prop :=
  ∀ b, a = .queue b → s.taskque.NotifiesInTime b

/-- A step of the pool is none of the queue, or one that notifies in time if
the step of the pool does. -/
theorem roused_step (hs : s.taskque.Roused) (hcond : NotifiesInTime s a)
    (h : ThreadpoolStep s a t) : t.taskque.Roused := by
  cases h with
  | addRequest conn hmain hcall => exact hs.step (by rintro _ ⟨⟩) hcall
  | setExit hmain hcall => exact hs.step (by rintro _ ⟨⟩) hcall
  | getRequest hi hexit hcall => exact hs.step (by rintro _ ⟨⟩) hcall
  | gotConn hi hpopped hret => exact hs.step (by rintro _ ⟨⟩) hret
  | gotNull hi hpopped hret => exact hs.step (by rintro _ ⟨⟩) hret
  | queue hb hstep => exact hs.step (hcond _ rfl) hstep
  | _ => exact hs

/-- **The joins of `stop` do not wait for a sleeping worker**, in every run in
which no worker is about to sleep when `wakeup` notifies. -/
theorem join_awake {queSize idx : ℕ}
    {steps : List (Threadpool threadNum τ × ThreadpoolAct threadNum τ)}
    (h : Run ThreadpoolStep (start threadNum τ queSize) steps s)
    (hcond : Meets NotifiesInTime steps) (hmain : s.main = .atJoin idx) :
    s.taskque.queue.notEmpty.waiting = ∅ := by
  have hstep : ∀ (s : Threadpool threadNum τ) a t, s.taskque.Roused → NotifiesInTime s a →
      ThreadpoolStep s a t → t.taskque.Roused := fun _ _ _ hs ha hst => roused_step hs ha hst
  have hroused : s.taskque.Roused := h.invariant hstep hcond
    ⟨QueueThreads.exclusive_start queSize, fun _ => nofun, nofun⟩
  have hawake : s.taskque.awake = true :=
    (conserved_phases_run h).2.woken (by rw [hmain]; rfl)
  exact (hroused.shut hawake).waiting

end Threadpool

end MicroBusiness
