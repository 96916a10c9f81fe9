import MicroBusiness.CondVar
import MicroBusiness.Transition
import Mathlib.Logic.Function.Basic

/-!
# The task queue

`TaskQueue`: a list with a capacity, a mutex, two condition variables and a
flag. `push` and `pop` take the mutex, test, wait where the test says so, and
change the list; `wakeup` clears the flag and notifies everybody without
taking the mutex. The element type is any type.

Any number of threads call these functions in any order. Every statement
between two of which another thread can run is a step of its own (`Exec` for
those of `push` and `pop`), so that a run of `QueueStep` is an interleaving of
statements, and the stretches a thread spends inside the mutex come out as
uninterrupted by the mutex alone (`Exclusive`).

`fifo`: whatever the interleaving, the elements returned so far and those in
the queue are, in order, the elements that were inserted, and the queue is
never longer than its capacity.
-/

namespace MicroBusiness

open Transition

/-- `class TaskQueue`. -/
structure TaskQueue (ι τ : Type) where
  queSize : ℕ
  que : List τ := []
  /-- The thread that has the mutex. -/
  mutex : Option ι := none
  notFull : CondVar ι := {}
  notEmpty : CondVar ι := {}
  flag : Bool := true

namespace TaskQueue

variable {ι τ : Type}

/-- `empty`. -/
def empty (q : TaskQueue ι τ) : Bool := q.que.length = 0

/-- `full`, which is a test for equality. -/
def full (q : TaskQueue ι τ) : Bool := q.que.length = q.queSize

end TaskQueue

/-! ## The steps of a thread -/

/-- Where a thread stands: in no call, or in one of the three functions in
front of one of their steps. -/
inductive QueuePc (τ : Type)
  | idle
  /-- `push`, before the mutex is taken. -/
  | pushLock (e : τ)
  /-- `push`, before `full()`. -/
  | pushTest (e : τ)
  /-- `push`, before the thread enters the wait set of `_notFull`. -/
  | pushWait (e : τ)
  /-- `push`, in `_notFull.wait`. -/
  | pushSleep (e : τ)
  /-- `push`, before `_que.push(e)`. -/
  | pushInsert (e : τ)
  /-- `push`, before `_notEmpty.notify_one()`. -/
  | pushNotify
  /-- `push`, before it gives the mutex back and returns. -/
  | pushUnlock
  /-- `pop`, before the mutex is taken. -/
  | popLock
  /-- `pop`, before `_flag` is read in the loop condition. -/
  | popFlag
  /-- `pop`, before `empty()` in the loop condition. -/
  | popEmpty
  /-- `pop`, before the thread enters the wait set of `_notEmpty`. -/
  | popWait
  /-- `pop`, in `_notEmpty.wait`. -/
  | popSleep
  /-- `pop`, behind the loop, before `_flag` is read again. -/
  | popCheck
  /-- `pop`, before `front()` and `_que.pop()`. -/
  | popTake
  /-- `pop`, before `_notFull.notify_one()`, with the element taken. -/
  | popNotify (x : τ)
  /-- `pop`, before it gives the mutex back and returns. -/
  | popUnlock (r : Option τ)
  /-- `pop` has returned an element, or null. -/
  | popped (r : Option τ)
  /-- `wakeup`, before `_flag = false`. -/
  | wakeupClear
  /-- `wakeup`, before `_notEmpty.notify_all()`. -/
  | wakeupNotify

namespace QueuePc

variable {τ : Type}

/-- Whether a thread is inside the mutex. -/
def locked : QueuePc τ → Bool
  | pushTest _ | pushWait _ | pushInsert _ | pushNotify | pushUnlock => true
  | popFlag | popEmpty | popWait | popCheck | popTake | popNotify _ | popUnlock _ => true
  | _ => false

/-- The element a step inserts. -/
def inserts : QueuePc τ → Option τ
  | pushInsert e => some e
  | _ => none

/-- The element a step returns. -/
def returns : QueuePc τ → Option τ
  | popUnlock r => r
  | _ => none

/-- Where a thread stands inside the mutex: nowhere, if it has not got it. -/
def inside (p : QueuePc τ) : QueuePc τ := if p.locked then p else idle

/-- The element a thread has taken out of the queue and not returned yet. -/
def carries : QueuePc τ → List τ
  | popNotify x => [x]
  | popUnlock r => r.toList
  | _ => []

@[simp] theorem carries_inside (p : QueuePc τ) : p.inside.carries = p.carries := by
  cases p <;> rfl

@[simp] theorem inserts_inside (p : QueuePc τ) : p.inside.inserts = p.inserts := by
  cases p <;> rfl

end QueuePc

namespace TaskQueue

variable {ι τ : Type} [DecidableEq ι]

/-- **A step of a thread in `push` or `pop`**, with what it does to the
queue. -/
inductive Exec (i : ι) : TaskQueue ι τ → QueuePc τ → TaskQueue ι τ → QueuePc τ → Prop
  | lockPush (q : TaskQueue ι τ) (e : τ) (hfree : q.mutex = none) :
    Exec i q (.pushLock e) { q with mutex := some i } (.pushTest e)
  | testFull (q : TaskQueue ι τ) (e : τ) (hfull : q.full = true) :
    Exec i q (.pushTest e) q (.pushWait e)
  | testNotFull (q : TaskQueue ι τ) (e : τ) (hfull : q.full = false) :
    Exec i q (.pushTest e) q (.pushInsert e)
  | waitFull (q : TaskQueue ι τ) (e : τ) :
    Exec i q (.pushWait e) { q with mutex := none, notFull := q.notFull.wait i } (.pushSleep e)
  | wakeFull (q : TaskQueue ι τ) (e : τ) (hwoken : i ∈ q.notFull.notified)
    (hfree : q.mutex = none) :
    Exec i q (.pushSleep e) { q with mutex := some i, notFull := q.notFull.resume i } (.pushTest e)
  | insert (q : TaskQueue ι τ) (e : τ) :
    Exec i q (.pushInsert e) { q with que := q.que ++ [e] } .pushNotify
  | notifyEmpty (q : TaskQueue ι τ) {c : CondVar ι} (hone : q.notEmpty.NotifyOne c) :
    Exec i q .pushNotify { q with notEmpty := c } .pushUnlock
  | unlockPush (q : TaskQueue ι τ) : Exec i q .pushUnlock { q with mutex := none } .idle
  | lockPop (q : TaskQueue ι τ) (hfree : q.mutex = none) :
    Exec i q .popLock { q with mutex := some i } .popFlag
  | flagSet (q : TaskQueue ι τ) (hflag : q.flag = true) : Exec i q .popFlag q .popEmpty
  | flagClear (q : TaskQueue ι τ) (hflag : q.flag = false) : Exec i q .popFlag q .popCheck
  | testEmpty (q : TaskQueue ι τ) (hempty : q.empty = true) : Exec i q .popEmpty q .popWait
  | testNotEmpty (q : TaskQueue ι τ) (hempty : q.empty = false) : Exec i q .popEmpty q .popCheck
  | waitEmpty (q : TaskQueue ι τ) :
    Exec i q .popWait { q with mutex := none, notEmpty := q.notEmpty.wait i } .popSleep
  | wakeEmpty (q : TaskQueue ι τ) (hwoken : i ∈ q.notEmpty.notified) (hfree : q.mutex = none) :
    Exec i q .popSleep { q with mutex := some i, notEmpty := q.notEmpty.resume i } .popFlag
  | checkSet (q : TaskQueue ι τ) (hflag : q.flag = true) : Exec i q .popCheck q .popTake
  | checkClear (q : TaskQueue ι τ) (hflag : q.flag = false) :
    Exec i q .popCheck q (.popUnlock none)
  | take (q : TaskQueue ι τ) {x : τ} {rest : List τ} (hque : q.que = x :: rest) :
    Exec i q .popTake { q with que := rest } (.popNotify x)
  | notifyFull (q : TaskQueue ι τ) (x : τ) {c : CondVar ι} (hone : q.notFull.NotifyOne c) :
    Exec i q (.popNotify x) { q with notFull := c } (.popUnlock (some x))
  | unlockPop (q : TaskQueue ι τ) (r : Option τ) :
    Exec i q (.popUnlock r) { q with mutex := none } (.popped r)

/-- **What can happen to a queue while another thread has the mutex.** -/
inductive Outside : TaskQueue ι τ → TaskQueue ι τ → Prop
  | same (q : TaskQueue ι τ) : Outside q q
  | clear (q : TaskQueue ι τ) : Outside q { q with flag := false }
  | notifyAll (q : TaskQueue ι τ) : Outside q { q with notEmpty := q.notEmpty.notifyAll }
  | spuriousFull (q : TaskQueue ι τ) {i : ι} (hwaiting : i ∈ q.notFull.waiting) :
    Outside q { q with notFull := q.notFull.notify i }
  | spuriousEmpty (q : TaskQueue ι τ) {i : ι} (hwaiting : i ∈ q.notEmpty.waiting) :
    Outside q { q with notEmpty := q.notEmpty.notify i }

variable {i : ι} {q q' : TaskQueue ι τ} {p p' : QueuePc τ}

/-- A thread takes the mutex when nobody has it, and gives back its own. -/
theorem Exec.mutex (h : Exec i q p q' p') (hlocked : p.locked = true → q.mutex = some i) :
    q.mutex = (if p.locked then some i else none)
      ∧ q'.mutex = (if p'.locked then some i else none) := by
  cases h with
  | lockPush e hfree => exact ⟨hfree, rfl⟩
  | wakeFull e hwoken hfree => exact ⟨hfree, rfl⟩
  | lockPop hfree => exact ⟨hfree, rfl⟩
  | wakeEmpty hwoken hfree => exact ⟨hfree, rfl⟩
  | waitFull => exact ⟨hlocked rfl, rfl⟩
  | unlockPush => exact ⟨hlocked rfl, rfl⟩
  | waitEmpty => exact ⟨hlocked rfl, rfl⟩
  | unlockPop => exact ⟨hlocked rfl, rfl⟩
  | testFull | testNotFull | insert | notifyEmpty | flagSet | flagClear | testEmpty
  | testNotEmpty | checkSet | checkClear | take | notifyFull =>
    exact ⟨hlocked rfl, hlocked rfl⟩

/-- **What a step returns and what it leaves is what there was and what it
inserts**, in order. -/
theorem Exec.order (h : Exec i q p q' p') :
    p.returns.toList ++ (p'.carries ++ q'.que) = p.carries ++ (q.que ++ p.inserts.toList) := by
  cases h with
  | insert e => rfl
  | take hque =>
    rw [hque]
    simp [QueuePc.returns, QueuePc.carries, QueuePc.inserts]
  | unlockPop r => simp [QueuePc.returns, QueuePc.carries, QueuePc.inserts]
  | _ => simp [QueuePc.returns, QueuePc.carries, QueuePc.inserts]

/-- The capacity stays. -/
theorem Exec.queSize (h : Exec i q p q' p') : q'.queSize = q.queSize := by
  cases h <;> rfl

/-- The flag stays. -/
theorem Exec.flag (h : Exec i q p q' p') : q'.flag = q.flag := by
  cases h <;> rfl

/-- What is about to be inserted has room. The test is for equality, which is
enough because the queue is within its capacity when it is made. -/
theorem Exec.bounded (h : Exec i q p q' p')
    (hbound : q.que.length + p.inserts.toList.length ≤ q.queSize) :
    q'.que.length + p'.inserts.toList.length ≤ q'.queSize := by
  cases h with
  | testNotFull e hfull =>
    have hne : q.que.length ≠ q.queSize := of_decide_eq_false hfull
    show q.que.length + 1 ≤ q.queSize
    exact Nat.lt_of_le_of_ne (Nat.le_of_add_right_le hbound) hne
  | insert e =>
    show (q.que ++ [e]).length ≤ q.queSize
    rw [List.length_append]
    exact hbound
  | take hque =>
    rw [hque, List.length_cons] at hbound
    exact Nat.le_of_succ_le hbound
  | _ => exact hbound

/-- Without the mutex the elements of a queue stay. -/
theorem Outside.que (h : Outside q q') : q'.que = q.que := by
  cases h <;> rfl

@[inherit_doc Exec.queSize]
theorem Outside.queSize (h : Outside q q') : q'.queSize = q.queSize := by
  cases h <;> rfl

end TaskQueue

/-! ## Threads that use a queue -/

/-- A call of one of the three functions. -/
inductive QueueCall (τ : Type)
  | push (e : τ)
  | pop
  | wakeup

/-- Where a call begins. -/
def QueueCall.entry {τ : Type} : QueueCall τ → QueuePc τ
  | push e => .pushLock e
  | pop => .popLock
  | wakeup => .wakeupClear

/-- What a thread does next. -/
inductive QueueAct (ι τ : Type)
  /-- It calls a function. -/
  | call (i : ι) (c : QueueCall τ)
  /-- It takes a step of `push` or `pop`. -/
  | exec (i : ι)
  /-- It uses what `pop` has returned. -/
  | ret (i : ι)
  | wakeupClear (i : ι)
  | wakeupNotify (i : ι)
  /-- Its wait ends for no reason. -/
  | spurious (i : ι)

/-- A queue and the threads that use it. -/
structure QueueThreads (ι τ : Type) where
  queue : TaskQueue ι τ
  pc : ι → QueuePc τ
  /-- Whether a call of `wakeup` has returned. -/
  awake : Bool := false

/-- **A step of one of the threads.** -/
inductive QueueStep {ι τ : Type} [DecidableEq ι] :
    QueueThreads ι τ → QueueAct ι τ → QueueThreads ι τ → Prop
  | call {s : QueueThreads ι τ} {i : ι} (c : QueueCall τ) (hidle : s.pc i = .idle) :
    QueueStep s (.call i c) { s with pc := Function.update s.pc i c.entry }
  | exec {s : QueueThreads ι τ} {i : ι} {q : TaskQueue ι τ} {p : QueuePc τ}
    (hexec : TaskQueue.Exec i s.queue (s.pc i) q p) :
    QueueStep s (.exec i) { s with queue := q, pc := Function.update s.pc i p }
  | ret {s : QueueThreads ι τ} {i : ι} {r : Option τ} (hpopped : s.pc i = .popped r) :
    QueueStep s (.ret i) { s with pc := Function.update s.pc i .idle }
  | wakeupClear {s : QueueThreads ι τ} {i : ι} (hpc : s.pc i = .wakeupClear) :
    QueueStep s (.wakeupClear i)
      { s with queue := { s.queue with flag := false },
               pc := Function.update s.pc i .wakeupNotify }
  | wakeupNotify {s : QueueThreads ι τ} {i : ι} (hpc : s.pc i = .wakeupNotify) :
    QueueStep s (.wakeupNotify i)
      { queue := { s.queue with notEmpty := s.queue.notEmpty.notifyAll },
        pc := Function.update s.pc i .idle, awake := true }
  | spuriousFull {s : QueueThreads ι τ} {i : ι} (hwaiting : i ∈ s.queue.notFull.waiting) :
    QueueStep s (.spurious i)
      { s with queue := { s.queue with notFull := s.queue.notFull.notify i } }
  | spuriousEmpty {s : QueueThreads ι τ} {i : ι} (hwaiting : i ∈ s.queue.notEmpty.waiting) :
    QueueStep s (.spurious i)
      { s with queue := { s.queue with notEmpty := s.queue.notEmpty.notify i } }

namespace QueueThreads

variable {ι τ : Type}

/-- A new queue of a capacity, and threads that have not called it yet. -/
def start (ι τ : Type) (queSize : ℕ) : QueueThreads ι τ where
  queue := { queSize }
  pc _ := .idle

/-- Where the thread stands that has the mutex. -/
def holder (s : QueueThreads ι τ) : QueuePc τ :=
  match s.queue.mutex with
  | none => .idle
  | some i => s.pc i

/-- **Mutual exclusion**: the thread that has the mutex is the one inside
it. -/
def Exclusive (s : QueueThreads ι τ) : Prop :=
  ∀ i, (s.pc i).locked = true ↔ s.queue.mutex = some i

theorem exclusive_start (queSize : ℕ) : (start ι τ queSize).Exclusive := by
  intro i
  constructor
  · intro h
    cases h
  · intro h
    cases h

variable [DecidableEq ι] {s t : QueueThreads ι τ} {a : QueueAct ι τ}

/-- A step outside the mutex changes neither who has it nor where that thread
stands. -/
theorem Exclusive.outside (hs : s.Exclusive) {i : ι} {p : QueuePc τ} {q : TaskQueue ι τ}
    {awake : Bool} (hi : (s.pc i).locked = false) (hp : p.locked = false)
    (hmutex : q.mutex = s.queue.mutex) :
    Exclusive ⟨q, Function.update s.pc i p, awake⟩
      ∧ holder ⟨q, Function.update s.pc i p, awake⟩ = s.holder := by
  have hne : s.queue.mutex ≠ some i := by
    intro howner
    rw [(hs i).mpr howner] at hi
    cases hi
  constructor
  · intro j
    show (Function.update s.pc i p j).locked = true ↔ q.mutex = some j
    rw [hmutex]
    by_cases hj : j = i
    · subst hj
      rw [Function.update_self, hp]
      exact iff_of_false Bool.false_ne_true hne
    · rw [Function.update_of_ne hj]
      exact hs j
  · unfold holder
    rw [hmutex]
    cases howner : s.queue.mutex with
    | none => rfl
    | some j =>
      have hj : j ≠ i := by
        rintro rfl
        exact hne howner
      exact Function.update_of_ne hj _ _

/-- A step of `push` or `pop` is taken by the thread that has the mutex, or
by one that takes it while nobody has it. -/
theorem Exclusive.exec (hs : s.Exclusive) {i : ι} {p : QueuePc τ} {q : TaskQueue ι τ}
    (h : TaskQueue.Exec i s.queue (s.pc i) q p) :
    Exclusive { s with queue := q, pc := Function.update s.pc i p }
      ∧ s.holder = (s.pc i).inside
      ∧ holder { s with queue := q, pc := Function.update s.pc i p } = p.inside := by
  obtain ⟨hmutex, hmutex'⟩ := h.mutex (hs i).mp
  refine ⟨fun j => ?_, ?_, ?_⟩
  · show (Function.update s.pc i p j).locked = true ↔ q.mutex = some j
    rw [hmutex']
    by_cases hj : j = i
    · subst hj
      rw [Function.update_self]
      cases p.locked <;> simp
    · have hother := hs j
      rw [hmutex] at hother
      rw [Function.update_of_ne hj, hother]
      cases p.locked <;> cases (s.pc i).locked <;> simp [Ne.symm hj]
  · unfold holder QueuePc.inside
    rw [hmutex]
    cases (s.pc i).locked <;> rfl
  · show (match q.mutex with | none => .idle | some j => Function.update s.pc i p j) = p.inside
    unfold QueuePc.inside
    rw [hmutex']
    cases p.locked
    · rfl
    · exact Function.update_self i p s.pc

/-- **What a step does, seen from the mutex**: it keeps mutual exclusion, and
either a thread steps in `push` or `pop`, and is the one that has the mutex
before the step, after it, or both; or the queue changes in a way that needs
no mutex. -/
theorem Exclusive.step (hs : s.Exclusive) (h : QueueStep s a t) :
    t.Exclusive
      ∧ ((∃ i p, a = .exec i ∧ TaskQueue.Exec i s.queue (s.pc i) t.queue p
          ∧ s.holder = (s.pc i).inside ∧ t.holder = p.inside)
        ∨ ((∀ i, a ≠ .exec i) ∧ TaskQueue.Outside s.queue t.queue ∧ t.holder = s.holder)) := by
  cases h with
  | @call i c hidle =>
    obtain ⟨hexcl, hholder⟩ := hs.outside (i := i) (p := c.entry) (q := s.queue)
      (by rw [hidle]; rfl) (by cases c <;> rfl) rfl
    exact ⟨hexcl, Or.inr ⟨fun _ => nofun, .same _, hholder⟩⟩
  | @exec i q p hexec =>
    obtain ⟨hexcl, hholder, hholder'⟩ := hs.exec hexec
    exact ⟨hexcl, Or.inl ⟨i, p, rfl, hexec, hholder, hholder'⟩⟩
  | @ret i r hpopped =>
    obtain ⟨hexcl, hholder⟩ := hs.outside (i := i) (p := .idle) (q := s.queue)
      (by rw [hpopped]; rfl) rfl rfl
    exact ⟨hexcl, Or.inr ⟨fun _ => nofun, .same _, hholder⟩⟩
  | @wakeupClear i hpc =>
    obtain ⟨hexcl, hholder⟩ := hs.outside (i := i) (p := .wakeupNotify)
      (q := { s.queue with flag := false }) (by rw [hpc]; rfl) rfl rfl
    exact ⟨hexcl, Or.inr ⟨fun _ => nofun, .clear _, hholder⟩⟩
  | @wakeupNotify i hpc =>
    obtain ⟨hexcl, hholder⟩ := hs.outside (i := i) (p := .idle)
      (q := { s.queue with notEmpty := s.queue.notEmpty.notifyAll }) (by rw [hpc]; rfl) rfl rfl
    exact ⟨hexcl, Or.inr ⟨fun _ => nofun, .notifyAll _, hholder⟩⟩
  | spuriousFull hwaiting => exact ⟨hs, Or.inr ⟨fun _ => nofun, .spuriousFull _ hwaiting, rfl⟩⟩
  | spuriousEmpty hwaiting => exact ⟨hs, Or.inr ⟨fun _ => nofun, .spuriousEmpty _ hwaiting, rfl⟩⟩

/-! ## First in, first out -/

/-- The element a step returns from `pop`. -/
def returnedBy : QueueThreads ι τ × QueueAct ι τ → Option τ
  | (s, .exec i) => (s.pc i).returns
  | _ => none

/-- The element a step inserts into the queue. -/
def insertedBy : QueueThreads ι τ × QueueAct ι τ → Option τ
  | (s, .exec i) => (s.pc i).inserts
  | _ => none

/-- The elements that the calls of `pop` in a run have returned, in the order
in which they had the mutex. -/
def returned (steps : List (QueueThreads ι τ × QueueAct ι τ)) : List τ :=
  steps.flatMap (fun x => (returnedBy x).toList)

/-- The elements that a run has inserted, in order. -/
def inserted (steps : List (QueueThreads ι τ × QueueAct ι τ)) : List τ :=
  steps.flatMap (fun x => (insertedBy x).toList)

/-- **One step keeps the order**: what it returns, then what is under way and
in the queue behind it, is what was under way and in the queue before it, then
what it inserts. -/
theorem order_step (hs : s.Exclusive) (h : QueueStep s a t) :
    (returnedBy (s, a)).toList ++ (t.holder.carries ++ t.queue.que)
      = s.holder.carries ++ (s.queue.que ++ (insertedBy (s, a)).toList) := by
  rcases (hs.step h).2 with ⟨i, p, rfl, hexec, hholder, hholder'⟩ | ⟨ha, houtside, hholder⟩
  · rw [hholder, hholder', QueuePc.carries_inside, QueuePc.carries_inside]
    exact hexec.order
  · have hnone : returnedBy (s, a) = none ∧ insertedBy (s, a) = none := by
      cases a with
      | exec i => exact absurd rfl (ha i)
      | _ => exact ⟨rfl, rfl⟩
    rw [hnone.1, hnone.2, hholder, houtside.que]
    simp

/-- **A run keeps the order.** -/
theorem order_run {steps : List (QueueThreads ι τ × QueueAct ι τ)}
    (h : Run QueueStep s steps t) (hs : s.Exclusive) :
    returned steps ++ (t.holder.carries ++ t.queue.que)
      = s.holder.carries ++ (s.queue.que ++ inserted steps) := by
  induction h with
  | nil s => simp [returned, inserted]
  | @cons s t u a steps hst _ ih =>
    have hstep := order_step hs hst
    calc returned ((s, a) :: steps) ++ (u.holder.carries ++ u.queue.que)
        = (returnedBy (s, a)).toList ++ (returned steps ++ (u.holder.carries ++ u.queue.que)) := by
          simp [returned]
      _ = (returnedBy (s, a)).toList ++ (t.holder.carries ++ t.queue.que) ++ inserted steps := by
          rw [ih (hs.step hst).1]
          simp
      _ = s.holder.carries ++ (s.queue.que ++ inserted ((s, a) :: steps)) := by
          rw [hstep]
          simp [inserted]

/-- **Within capacity**: the queue has room for what it holds and for what is
about to be inserted. -/
def Bounded (s : QueueThreads ι τ) : Prop :=
  s.queue.que.length + s.holder.inserts.toList.length ≤ s.queue.queSize

/-- Every step keeps the queue within its capacity. -/
theorem Bounded.step (hs : s.Exclusive) (hbound : s.Bounded) (h : QueueStep s a t) :
    t.Bounded := by
  unfold Bounded at hbound ⊢
  rcases (hs.step h).2 with ⟨i, p, -, hexec, hholder, hholder'⟩ | ⟨-, houtside, hholder⟩
  · rw [hholder, QueuePc.inserts_inside] at hbound
    rw [hholder', QueuePc.inserts_inside]
    exact hexec.bounded hbound
  · rw [hholder, houtside.que, houtside.queSize]
    exact hbound

/-- Every state of a run has mutual exclusion, is within the capacity, and
has the capacity that was given. -/
theorem exclusive_bounded_run {queSize : ℕ} {steps : List (QueueThreads ι τ × QueueAct ι τ)}
    (h : Run QueueStep (start ι τ queSize) steps s) :
    s.Exclusive ∧ s.Bounded ∧ s.queue.queSize = queSize := by
  have hstep : ∀ s (a : QueueAct ι τ) t, (s.Exclusive ∧ s.Bounded ∧ s.queue.queSize = queSize) →
      True → QueueStep s a t → t.Exclusive ∧ t.Bounded ∧ t.queue.queSize = queSize := by
    rintro s a t ⟨hexcl, hbound, hsize⟩ - hst
    refine ⟨(hexcl.step hst).1, hbound.step hexcl hst, ?_⟩
    rcases (hexcl.step hst).2 with ⟨i, p, -, hexec, -, -⟩ | ⟨-, houtside, -⟩
    · rw [hexec.queSize, hsize]
    · rw [houtside.queSize, hsize]
  exact h.invariant hstep (fun _ _ => trivial) ⟨exclusive_start queSize, Nat.zero_le _, rfl⟩

/-- **The task queue is a bounded first-in first-out queue**: for every
capacity, any threads and any interleaving of their steps, whenever no thread
is inside the mutex, the elements returned so far and those in the queue are,
in order, the elements inserted so far, and the queue is never longer than its
capacity. -/
theorem fifo {queSize : ℕ} {steps : List (QueueThreads ι τ × QueueAct ι τ)}
    (h : Run QueueStep (start ι τ queSize) steps s) :
    s.queue.que.length ≤ queSize
      ∧ returned steps ++ (s.holder.carries ++ s.queue.que) = inserted steps
      ∧ (s.queue.mutex = none → returned steps ++ s.queue.que = inserted steps) := by
  obtain ⟨-, hbound, hsize⟩ := exclusive_bounded_run h
  have horder : returned steps ++ (s.holder.carries ++ s.queue.que) = inserted steps :=
    order_run h (exclusive_start queSize)
  refine ⟨?_, horder, fun hfree => ?_⟩
  · unfold Bounded at hbound
    omega
  · have hnone : s.holder = .idle := by
      unfold holder
      rw [hfree]
    rw [← horder, hnone]
    rfl

/-- Two pushes and two pops through a queue of capacity two. Both threads are inside `push`,
and then both are inside `pop`, at the same time. -/
theorem fifo_pushPop : ∃ (steps : List (QueueThreads Bool ℕ × QueueAct Bool ℕ))
    (s : QueueThreads Bool ℕ), Run QueueStep (start Bool ℕ 2) steps s ∧ s.queue.que.length ≤ 2
      ∧ returned steps = [7, 8] ∧ returned steps ++ s.queue.que = inserted steps := by
  have h : Run QueueStep (start Bool ℕ 2) _ _ :=
    .cons (.call (i := true) (.push 7) rfl) <| .cons (.call (i := false) (.push 8) rfl) <|
    .cons (.exec (i := true) (.lockPush _ 7 rfl)) <|
    .cons (.exec (i := true) (.testNotFull _ 7 rfl)) <|
    .cons (.exec (i := true) (.insert _ 7)) <|
    .cons (.exec (i := true) (.notifyEmpty _ (.none rfl))) <|
    .cons (.exec (i := true) (.unlockPush _)) <|
    .cons (.exec (i := false) (.lockPush _ 8 rfl)) <|
    .cons (.exec (i := false) (.testNotFull _ 8 rfl)) <|
    .cons (.exec (i := false) (.insert _ 8)) <|
    .cons (.exec (i := false) (.notifyEmpty _ (.none rfl))) <|
    .cons (.exec (i := false) (.unlockPush _)) <|
    .cons (.call (i := true) .pop rfl) <| .cons (.call (i := false) .pop rfl) <|
    .cons (.exec (i := false) (.lockPop _ rfl)) <| .cons (.exec (i := false) (.flagSet _ rfl)) <|
    .cons (.exec (i := false) (.testNotEmpty _ rfl)) <|
    .cons (.exec (i := false) (.checkSet _ rfl)) <| .cons (.exec (i := false) (.take _ rfl)) <|
    .cons (.exec (i := false) (.notifyFull _ 7 (.none rfl))) <|
    .cons (.exec (i := false) (.unlockPop _ _)) <|
    .cons (.exec (i := true) (.lockPop _ rfl)) <| .cons (.exec (i := true) (.flagSet _ rfl)) <|
    .cons (.exec (i := true) (.testNotEmpty _ rfl)) <|
    .cons (.exec (i := true) (.checkSet _ rfl)) <| .cons (.exec (i := true) (.take _ rfl)) <|
    .cons (.exec (i := true) (.notifyFull _ 8 (.none rfl))) <|
    .cons (.exec (i := true) (.unlockPop _ _)) (.nil _)
  obtain ⟨hbound, -, horder⟩ := fifo h
  exact ⟨_, _, h, hbound, rfl, horder rfl⟩

end QueueThreads

end MicroBusiness
