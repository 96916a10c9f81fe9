import MicroBusiness.TaskQueue

/-!
# Who is woken, and who is not

A thread that waits on a condition variable of the task queue has to be woken
when there is something for it to do. As long as `wakeup` is not called this
is a matter of counting: where consumers sleep there are at most as many
elements in the queue as there are consumers on their way back from sleep, and
where producers sleep there are at most as many free slots as there are
producers on their way. What a thread inside the mutex still owes – a
notification, or the element it was woken for – is counted with where it
stands (`owesConsumers`, `owesProducers`).

The shutdown is another matter. `wakeup` clears the flag and notifies without
the mutex that `pop` holds from its test to its wait, so both can come between
the two, and the consumer goes to sleep when nobody is left to wake it
(`sleeps_through_wakeup`). As long as no notification comes at such a moment,
nobody sleeps once `wakeup` has returned (`wakeup_wakes`).
-/

namespace MicroBusiness

open Transition

namespace QueuePc

variable {τ : Type}

/-- What a thread in the mutex owes the sleeping consumers: a notification,
or to take the element it may have been woken for. -/
def owesConsumers : QueuePc τ → ℕ
  | pushNotify => 1
  | popFlag | popEmpty | popCheck | popTake => 1
  | _ => 0

/-- What a thread in the mutex owes the sleeping producers: a notification,
or to fill the slot it may have been woken for. -/
def owesProducers : QueuePc τ → ℕ
  | popNotify _ => 1
  | pushTest _ | pushInsert _ => 1
  | _ => 0

/-- Whether a thread is in `wakeup`. -/
def inWakeup : QueuePc τ → Bool
  | wakeupClear | wakeupNotify => true
  | _ => false

theorem owes_of_not_locked {p : QueuePc τ} (hp : ¬ p.locked = true) :
    p.owesConsumers = 0 ∧ p.owesProducers = 0 ∧ p ≠ popWait ∧ ∀ e, p ≠ pushWait e := by
  cases p with
  | pushTest | pushWait | pushInsert | pushNotify | pushUnlock => exact absurd rfl hp
  | popFlag | popEmpty | popWait | popCheck | popTake | popNotify | popUnlock =>
    exact absurd rfl hp
  | _ => exact ⟨rfl, rfl, nofun, fun _ => nofun⟩

end QueuePc

namespace TaskQueue

variable {ι τ : Type}

/-- **No wakeup is missed**, where a thread stands in the mutex: sleeping
consumers leave no more elements, and sleeping producers no more free slots,
than woken threads and the thread in the mutex will see to; and a thread that
is about to wait has reason to. -/
structure Attended (q : TaskQueue ι τ) (p : QueuePc τ) : Prop where
  consumers : q.notEmpty.waiting.Nonempty →
    q.que.length ≤ q.notEmpty.notified.card + p.owesConsumers
  producers : q.notFull.waiting.Nonempty →
    q.queSize ≤ q.que.length + (q.notFull.notified.card + p.owesProducers)
  popWait : p = .popWait → q.que.length = 0
  pushWait : ∀ e, p = .pushWait e → q.que.length = q.queSize

variable [DecidableEq ι] {i : ι} {q q' : TaskQueue ι τ} {p p' : QueuePc τ}

omit [DecidableEq ι] in
/-- Only what a thread does inside the mutex counts. -/
theorem attended_inside : q.Attended p.inside ↔ q.Attended p := by
  unfold QueuePc.inside
  by_cases hp : p.locked = true
  · rw [if_pos hp]
  · obtain ⟨hconsumers, hproducers, hpopWait, hpushWait⟩ := QueuePc.owes_of_not_locked hp
    rw [if_neg hp]
    constructor
    · intro h
      refine ⟨?_, ?_, fun hw => absurd hw hpopWait, fun e hw => absurd hw (hpushWait e)⟩
      · rw [hconsumers]
        exact h.consumers
      · rw [hproducers]
        exact h.producers
    · intro h
      refine ⟨?_, ?_, nofun, nofun⟩
      · have := h.consumers
        rwa [hconsumers] at this
      · have := h.producers
        rwa [hproducers] at this

/-- A thread in `push` or `pop` does not come into `wakeup`. -/
theorem Exec.inWakeup (h : Exec i q p q' p') : p'.inWakeup = false := by
  cases h <;> rfl

/-- **A step of `push` or `pop` keeps to the waits**: the thread is in a wait
exactly if it stands there, and the others stay where they are. -/
theorem Exec.threads (h : Exec i q p q' p') (hempty : i ∈ q.notEmpty.threads ↔ p = .popSleep)
    (hfull : i ∈ q.notFull.threads ↔ ∃ e, p = .pushSleep e) :
    ((i ∈ q'.notEmpty.threads ↔ p' = .popSleep)
        ∧ (i ∈ q'.notFull.threads ↔ ∃ e, p' = .pushSleep e))
      ∧ ∀ j, j ≠ i → (j ∈ q'.notEmpty.threads ↔ j ∈ q.notEmpty.threads)
        ∧ (j ∈ q'.notFull.threads ↔ j ∈ q.notFull.threads) := by
  cases h with
  | waitFull e =>
    refine ⟨⟨by simpa using hempty, ?_⟩, fun j hj => ⟨Iff.rfl, ?_⟩⟩
    · exact iff_of_true (CondVar.mem_threads_wait.mpr (Or.inl rfl)) ⟨e, rfl⟩
    · rw [CondVar.mem_threads_wait, or_iff_right hj]
  | wakeFull e hwoken hfree =>
    refine ⟨⟨by simpa using hempty, ?_⟩, fun j hj => ⟨Iff.rfl, ?_⟩⟩
    · exact iff_of_false (fun hi => ((CondVar.mem_threads_resume hwoken).mp hi).1 rfl) (by simp)
    · rw [CondVar.mem_threads_resume hwoken, and_iff_right hj]
  | waitEmpty =>
    refine ⟨⟨?_, by simpa using hfull⟩, fun j hj => ⟨?_, Iff.rfl⟩⟩
    · exact iff_of_true (CondVar.mem_threads_wait.mpr (Or.inl rfl)) rfl
    · rw [CondVar.mem_threads_wait, or_iff_right hj]
  | wakeEmpty hwoken hfree =>
    refine ⟨⟨?_, by simpa using hfull⟩, fun j hj => ⟨?_, Iff.rfl⟩⟩
    · exact iff_of_false (fun hi => ((CondVar.mem_threads_resume hwoken).mp hi).1 rfl) nofun
    · rw [CondVar.mem_threads_resume hwoken, and_iff_right hj]
  | notifyEmpty hone =>
    rw [hone.threads]
    exact ⟨⟨by simpa using hempty, by simpa using hfull⟩, fun j _ => ⟨Iff.rfl, Iff.rfl⟩⟩
  | notifyFull x hone =>
    rw [hone.threads]
    exact ⟨⟨by simpa using hempty, by simpa using hfull⟩, fun j _ => ⟨Iff.rfl, Iff.rfl⟩⟩
  | _ => exact ⟨⟨by simpa using hempty, by simpa using hfull⟩, fun j _ => ⟨Iff.rfl, Iff.rfl⟩⟩

/-- **A step of `push` or `pop` misses no wakeup**, as long as the flag is
set. -/
theorem Attended.exec (h : Exec i q p q' p') (hflag : q.flag = true) (hq : q.Attended p) :
    q'.Attended p' := by
  obtain ⟨hconsumers, hproducers, hpopWait, hpushWait⟩ := hq
  cases h with
  | lockPush e hfree =>
    exact ⟨hconsumers, fun hw => (hproducers hw).trans (Nat.le_succ _), nofun, nofun⟩
  | testFull e hfull =>
    have hlen : q.que.length = q.queSize := of_decide_eq_true hfull
    exact ⟨hconsumers, fun _ => hlen ▸ Nat.le_add_right _ _, nofun, fun _ _ => hlen⟩
  | testNotFull e hfull => exact ⟨hconsumers, hproducers, nofun, nofun⟩
  | waitFull e =>
    have hlen := hpushWait e rfl
    exact ⟨hconsumers, fun _ => hlen ▸ Nat.le_add_right _ _, nofun, nofun⟩
  | wakeFull e hwoken hfree =>
    refine ⟨hconsumers, fun hw => ?_, nofun, nofun⟩
    -- the thread that wakes up is counted in the mutex now
    have hle := hproducers hw
    rw [← CondVar.card_notified_resume hwoken] at hle
    exact hle
  | insert e =>
    refine ⟨fun hw => ?_, fun hw => ?_, nofun, nofun⟩
    · have hle := hconsumers hw
      show (q.que ++ [e]).length ≤ _
      rw [List.length_append]
      exact Nat.add_le_add_right hle 1
    · have hle := hproducers hw
      show _ ≤ (q.que ++ [e]).length + _
      rw [List.length_append, Nat.add_assoc, Nat.add_comm [e].length]
      exact hle
  | @notifyEmpty c hone =>
    refine ⟨fun hw => ?_, hproducers, nofun, nofun⟩
    -- somebody sleeps after the notification, so it has woken somebody
    have hw' : q.notEmpty.waiting.Nonempty := hw.mono hone.waiting_subset
    show q.que.length ≤ c.notified.card
    rw [hone.card_notified hw']
    exact hconsumers hw'
  | unlockPush => exact ⟨hconsumers, hproducers, nofun, nofun⟩
  | lockPop hfree =>
    exact ⟨fun hw => (hconsumers hw).trans (Nat.le_succ _), hproducers, nofun, nofun⟩
  | flagSet hflag => exact ⟨hconsumers, hproducers, nofun, nofun⟩
  | flagClear hclear => exact absurd (hflag.symm.trans hclear) (by simp)
  | testEmpty hempty =>
    have hlen : q.que.length = 0 := of_decide_eq_true hempty
    exact ⟨fun _ => hlen ▸ Nat.zero_le _, hproducers, fun _ => hlen, nofun⟩
  | testNotEmpty hempty => exact ⟨hconsumers, hproducers, nofun, nofun⟩
  | waitEmpty =>
    have hlen := hpopWait rfl
    exact ⟨fun _ => hlen ▸ Nat.zero_le _, hproducers, nofun, nofun⟩
  | wakeEmpty hwoken hfree =>
    refine ⟨fun hw => ?_, hproducers, nofun, nofun⟩
    have hle := hconsumers hw
    rw [← CondVar.card_notified_resume hwoken] at hle
    exact hle
  | checkSet hflag => exact ⟨hconsumers, hproducers, nofun, nofun⟩
  | checkClear hclear => exact absurd (hflag.symm.trans hclear) (by simp)
  | @take x rest hque =>
    refine ⟨fun hw => ?_, fun hw => ?_, nofun, nofun⟩
    · have hle := hconsumers hw
      rw [hque] at hle
      exact Nat.le_of_succ_le_succ hle
    · have hle := hproducers hw
      rw [hque, List.length_cons, Nat.add_assoc, Nat.add_comm 1] at hle
      exact hle
  | @notifyFull x c hone =>
    refine ⟨hconsumers, fun hw => ?_, nofun, nofun⟩
    have hw' : q.notFull.waiting.Nonempty := hw.mono hone.waiting_subset
    show q.queSize ≤ q.que.length + c.notified.card
    rw [hone.card_notified hw']
    exact hproducers hw'
  | unlockPop r => exact ⟨hconsumers, hproducers, nofun, nofun⟩

/-- Whether a consumer at a point of `pop` goes to sleep next. -/
def StandsBeforeWait (q : TaskQueue ι τ) (p : QueuePc τ) : Prop :=
  p = .popWait ∨ p = .popEmpty ∧ q.que = []

/-- With the flag clear a step of `push` or `pop` puts no consumer to sleep
that is not about to, and brings none there. -/
theorem Exec.shut (h : Exec i q p q' p') (hflag : q.flag = false)
    (hp : ¬ q.StandsBeforeWait p) :
    q'.notEmpty.waiting ⊆ q.notEmpty.waiting ∧ ¬ q'.StandsBeforeWait p' := by
  cases h with
  | flagSet hset => exact absurd (hset.symm.trans hflag) (by simp)
  | testEmpty hempty =>
    exact absurd (Or.inr ⟨rfl, List.length_eq_zero_iff.mp (of_decide_eq_true hempty)⟩) hp
  | waitEmpty => exact absurd (Or.inl rfl) hp
  | notifyEmpty hone => exact ⟨hone.waiting_subset, by simp [StandsBeforeWait]⟩
  | _ => exact ⟨Finset.Subset.refl _, by simp [StandsBeforeWait]⟩

theorem Exec.que_of_not_locked (h : Exec i q p q' p') (hp : p.locked = false) :
    q'.que = q.que := by
  cases h with
  | insert => cases hp
  | take => cases hp
  | _ => rfl

/-- What happens without the mutex misses no wakeup. -/
theorem Attended.outside (h : Outside q q') (hq : q.Attended p) : q'.Attended p := by
  obtain ⟨hconsumers, hproducers, hpopWait, hpushWait⟩ := hq
  cases h with
  | same => exact ⟨hconsumers, hproducers, hpopWait, hpushWait⟩
  | clear => exact ⟨hconsumers, hproducers, hpopWait, hpushWait⟩
  | notifyAll =>
    exact ⟨fun hw => absurd hw Finset.not_nonempty_empty, hproducers, hpopWait, hpushWait⟩
  | @spuriousFull i hwaiting =>
    refine ⟨hconsumers, fun hw => ?_, hpopWait, hpushWait⟩
    have hle := hproducers (hw.mono CondVar.waiting_notify_subset)
    show q.queSize ≤ q.que.length + ((q.notFull.notify i).notified.card + _)
    rw [CondVar.card_notified_notify hwaiting]
    omega
  | @spuriousEmpty i hwaiting =>
    refine ⟨fun hw => ?_, hproducers, hpopWait, hpushWait⟩
    have hle := hconsumers (hw.mono CondVar.waiting_notify_subset)
    show q.que.length ≤ (q.notEmpty.notify i).notified.card + _
    rw [CondVar.card_notified_notify hwaiting]
    omega

end TaskQueue

namespace QueueThreads

variable {ι τ : Type} [DecidableEq ι] {s t : QueueThreads ι τ} {a : QueueAct ι τ} {queSize : ℕ}

/-! ## Before the shutdown -/

/-- **Calm**: `wakeup` has not been called. -/
def Calm (s : QueueThreads ι τ) : Prop :=
  s.queue.flag = true ∧ ∀ i, (s.pc i).inWakeup = false

/-- Whatever is called but `wakeup`, it stays calm. -/
theorem Calm.step (hs : s.Calm) (ha : ∀ i, a ≠ .call i .wakeup) (h : QueueStep s a t) :
    t.Calm := by
  obtain ⟨hflag, hpc⟩ := hs
  have hupdate : ∀ {i : ι} {p : QueuePc τ}, p.inWakeup = false →
      ∀ j, (Function.update s.pc i p j).inWakeup = false := by
    intro i p hp
    rw [Function.forall_update_iff s.pc (fun _ w => w.inWakeup = false)]
    exact ⟨hp, fun j _ => hpc j⟩
  cases h with
  | call c hidle =>
    refine ⟨hflag, hupdate ?_⟩
    cases c with
    | push e => rfl
    | pop => rfl
    | wakeup => exact absurd rfl (ha _)
  | exec hexec =>
    exact ⟨hexec.flag.trans hflag, hupdate hexec.inWakeup⟩
  | ret hpopped => exact ⟨hflag, hupdate rfl⟩
  | @wakeupClear i hi =>
    have := hpc i
    rw [hi] at this
    cases this
  | @wakeupNotify i hi =>
    have := hpc i
    rw [hi] at this
    cases this
  | spuriousFull => exact ⟨hflag, hpc⟩
  | spuriousEmpty => exact ⟨hflag, hpc⟩

/-- **Every step misses no wakeup**, as long as it is calm. -/
theorem attended_step (hexcl : s.Exclusive) (hcalm : s.Calm)
    (hs : s.queue.Attended s.holder) (h : QueueStep s a t) : t.queue.Attended t.holder := by
  rcases (hexcl.step h).2 with ⟨i, p, -, hexec, hholder, hholder'⟩ | ⟨-, houtside, hholder⟩
  · rw [hholder, TaskQueue.attended_inside] at hs
    rw [hholder', TaskQueue.attended_inside]
    exact hs.exec hexec hcalm.1
  · rw [hholder]
    exact hs.outside houtside

theorem attended_run {steps : List (QueueThreads ι τ × QueueAct ι τ)}
    (h : Run QueueStep (start ι τ queSize) steps s)
    (hcalls : Meets (fun _ a => ∀ i, a ≠ .call i .wakeup) steps) :
    s.queue.Attended s.holder := by
  have hstep : ∀ (s : QueueThreads ι τ) a t,
      (s.Exclusive ∧ s.Calm ∧ s.queue.Attended s.holder) →
      (∀ i, a ≠ .call i .wakeup) → QueueStep s a t →
      t.Exclusive ∧ t.Calm ∧ t.queue.Attended t.holder := by
    rintro s a t ⟨hexcl, hcalm, hs⟩ ha hst
    exact ⟨(hexcl.step hst).1, hcalm.step ha hst, attended_step hexcl hcalm hs hst⟩
  have hstart : (start ι τ queSize).queue.Attended (start ι τ queSize).holder :=
    ⟨fun hw => absurd hw Finset.not_nonempty_empty,
      fun hw => absurd hw Finset.not_nonempty_empty, nofun, nofun⟩
  exact (h.invariant hstep hcalls
    ⟨exclusive_start queSize, ⟨rfl, fun _ => rfl⟩, hstart⟩).2.2

/-! ## Who sleeps where -/

/-- **The threads that wait on a condition variable are those that stand in
its wait.** -/
def Asleep (s : QueueThreads ι τ) : Prop :=
  ∀ i, (i ∈ s.queue.notEmpty.threads ↔ s.pc i = .popSleep)
    ∧ (i ∈ s.queue.notFull.threads ↔ ∃ e, s.pc i = .pushSleep e)

/-- A step outside the mutex keeps to the waits. -/
theorem Asleep.outside (hs : s.Asleep) {i : ι} {p : QueuePc τ} {q : TaskQueue ι τ} {awake : Bool}
    (hempty : q.notEmpty.threads = s.queue.notEmpty.threads)
    (hfull : q.notFull.threads = s.queue.notFull.threads)
    (hi : s.pc i ≠ .popSleep ∧ ∀ e, s.pc i ≠ .pushSleep e)
    (hp : p ≠ .popSleep ∧ ∀ e, p ≠ .pushSleep e) :
    Asleep ⟨q, Function.update s.pc i p, awake⟩ := by
  intro j
  show (j ∈ q.notEmpty.threads ↔ Function.update s.pc i p j = .popSleep)
    ∧ (j ∈ q.notFull.threads ↔ ∃ e, Function.update s.pc i p j = .pushSleep e)
  rw [hempty, hfull, (hs j).1, (hs j).2]
  by_cases hj : j = i
  · subst hj
    rw [Function.update_self]
    exact ⟨iff_of_false hi.1 hp.1,
      iff_of_false (fun ⟨e, he⟩ => hi.2 e he) (fun ⟨e, he⟩ => hp.2 e he)⟩
  · rw [Function.update_of_ne hj]
    exact ⟨Iff.rfl, Iff.rfl⟩

/-- **Every step keeps to the waits.** -/
theorem Asleep.step (hs : s.Asleep) (h : QueueStep s a t) : t.Asleep := by
  cases h with
  | @call i c hidle =>
    refine hs.outside rfl rfl (by rw [hidle]; exact ⟨nofun, nofun⟩) ?_
    cases c <;> exact ⟨nofun, nofun⟩
  | @exec i q p hexec =>
    obtain ⟨hi, hother⟩ := hexec.threads (hs i).1 (hs i).2
    intro j
    show (j ∈ q.notEmpty.threads ↔ Function.update s.pc i p j = .popSleep)
      ∧ (j ∈ q.notFull.threads ↔ ∃ e, Function.update s.pc i p j = .pushSleep e)
    by_cases hj : j = i
    · subst hj
      rw [Function.update_self]
      exact hi
    · rw [Function.update_of_ne hj, (hother j hj).1, (hother j hj).2]
      exact hs j
  | ret hpopped => exact hs.outside rfl rfl (by rw [hpopped]; exact ⟨nofun, nofun⟩) ⟨nofun, nofun⟩
  | wakeupClear hpc =>
    exact hs.outside (q := { s.queue with flag := false }) rfl rfl
      (by rw [hpc]; exact ⟨nofun, nofun⟩) ⟨nofun, nofun⟩
  | wakeupNotify hpc =>
    exact hs.outside CondVar.threads_notifyAll rfl
      (by rw [hpc]; exact ⟨nofun, nofun⟩) ⟨nofun, nofun⟩
  | spuriousFull hwaiting =>
    intro j
    rw [CondVar.threads_notify hwaiting]
    exact hs j
  | spuriousEmpty hwaiting =>
    intro j
    rw [CondVar.threads_notify hwaiting]
    exact hs j

theorem asleep_run {steps : List (QueueThreads ι τ × QueueAct ι τ)}
    (h : Run QueueStep (start ι τ queSize) steps s) : s.Asleep := by
  have hstep : ∀ (s : QueueThreads ι τ) a t, s.Asleep → True → QueueStep s a t → t.Asleep :=
    fun _ _ _ hs _ hst => hs.step hst
  refine h.invariant hstep (fun _ _ => trivial) fun i => ?_
  exact ⟨iff_of_false (Finset.notMem_empty i) nofun,
    iff_of_false (Finset.notMem_empty i) (fun ⟨_, he⟩ => nomatch he)⟩

/-- **No wakeup is missed before the shutdown**: for every capacity, any
threads and any interleaving of their steps without a call of `wakeup`,
whenever no thread is inside the mutex, sleeping consumers leave at most as
many elements in the queue as there are woken consumers, and sleeping
producers at most as many free slots as there are woken producers. So beside
an element, or a free slot, there is always a thread on its way to it. -/
theorem no_missed_wakeup {steps : List (QueueThreads ι τ × QueueAct ι τ)}
    (h : Run QueueStep (start ι τ queSize) steps s)
    (hcalls : Meets (fun _ a => ∀ i, a ≠ .call i .wakeup) steps)
    (hfree : s.queue.mutex = none) :
    (s.queue.notEmpty.waiting.Nonempty →
        s.queue.que.length ≤ s.queue.notEmpty.notified.card
        ∧ (s.queue.que ≠ [] → ∃ i ∈ s.queue.notEmpty.notified, s.pc i = .popSleep))
      ∧ (s.queue.notFull.waiting.Nonempty →
        queSize - s.queue.que.length ≤ s.queue.notFull.notified.card
        ∧ (s.queue.que.length < queSize →
          ∃ i ∈ s.queue.notFull.notified, ∃ e, s.pc i = .pushSleep e)) := by
  obtain ⟨-, -, hsize⟩ := exclusive_bounded_run h
  have hasleep := asleep_run h
  have hnone : s.holder = .idle := by
    unfold holder
    rw [hfree]
  obtain ⟨hconsumers, hproducers, -, -⟩ := hnone ▸ attended_run h hcalls
  rw [hsize] at hproducers
  refine ⟨fun hw => ⟨hconsumers hw, fun hne => ?_⟩, fun hw => ⟨?_, fun hlt => ?_⟩⟩
  · have hpos : 0 < s.queue.notEmpty.notified.card :=
      (List.length_pos_iff.mpr hne).trans_le (hconsumers hw)
    obtain ⟨i, hi⟩ := Finset.card_pos.mp hpos
    exact ⟨i, hi, (hasleep i).1.mp (CondVar.mem_threads.mpr (Or.inr hi))⟩
  · exact Nat.sub_le_iff_le_add'.mpr (hproducers hw)
  · have hpos : 0 < s.queue.notFull.notified.card := by
      have hle := hproducers hw
      simp only [QueuePc.owesProducers] at hle
      omega
    obtain ⟨i, hi⟩ := Finset.card_pos.mp hpos
    exact ⟨i, hi, (hasleep i).2.mp (CondVar.mem_threads.mpr (Or.inr hi))⟩

/-- Two consumers asleep, and a push. -/
theorem no_missed_wakeup_push : ∃ (steps : List (QueueThreads (Fin 3) ℕ × QueueAct (Fin 3) ℕ))
    (s : QueueThreads (Fin 3) ℕ), Run QueueStep (start (Fin 3) ℕ 1) steps s
      ∧ s.queue.notEmpty.waiting = {1} ∧ s.queue.que = [7]
      ∧ s.queue.que.length ≤ s.queue.notEmpty.notified.card := by
  have h : Run QueueStep (start (Fin 3) ℕ 1) _ _ :=
    .cons (.call (i := 0) .pop rfl) <| .cons (.exec (i := 0) (.lockPop _ rfl)) <|
    .cons (.exec (i := 0) (.flagSet _ rfl)) <| .cons (.exec (i := 0) (.testEmpty _ rfl)) <|
    .cons (.exec (i := 0) (.waitEmpty _)) <| .cons (.call (i := 1) .pop rfl) <|
    .cons (.exec (i := 1) (.lockPop _ rfl)) <| .cons (.exec (i := 1) (.flagSet _ rfl)) <|
    .cons (.exec (i := 1) (.testEmpty _ rfl)) <| .cons (.exec (i := 1) (.waitEmpty _)) <|
    .cons (.call (i := 2) (.push 7) rfl) <| .cons (.exec (i := 2) (.lockPush _ 7 rfl)) <|
    .cons (.exec (i := 2) (.testNotFull _ 7 rfl)) <| .cons (.exec (i := 2) (.insert _ 7)) <|
    .cons (.exec (i := 2) (.notifyEmpty _ (.some (i := 0) (by decide)))) <|
    .cons (.exec (i := 2) (.unlockPush _)) (.nil _)
  refine ⟨_, _, h, by decide, rfl, ((no_missed_wakeup h ?_ rfl).1 ⟨1, by decide⟩).1⟩
  iterate 16 refine meets_cons.mpr ⟨fun _ => nofun, ?_⟩
  exact List.forall_mem_nil _

/-! ## At the shutdown -/

/-- **About to sleep**: a consumer that has found the flag set and finds the
queue empty, and has not entered the wait set yet. -/
def AboutToSleep (s : QueueThreads ι τ) (i : ι) : Prop :=
  s.queue.StandsBeforeWait (s.pc i)

/-- A notification of all consumers comes **in time** when none of them is
about to sleep. -/
def NotifiesInTime (s : QueueThreads ι τ) (a : QueueAct ι τ) : Prop :=
  ∀ i, a = .wakeupNotify i → ∀ j, ¬ s.AboutToSleep j

/-- **Shut**: the flag is clear, and no consumer sleeps or is about to. -/
structure Shut (s : QueueThreads ι τ) : Prop where
  flag : s.queue.flag = false
  waiting : s.queue.notEmpty.waiting = ∅
  awake : ∀ i, ¬ s.AboutToSleep i

/-- A step outside the mutex that leaves the elements and puts nobody to sleep
keeps a queue shut. -/
theorem Shut.outside (hs : s.Shut) {i : ι} {p : QueuePc τ} {q : TaskQueue ι τ} {awake : Bool}
    (hflag : q.flag = false) (hwaiting : q.notEmpty.waiting ⊆ s.queue.notEmpty.waiting)
    (hque : q.que = s.queue.que) (hp : ¬ q.StandsBeforeWait p) :
    Shut ⟨q, Function.update s.pc i p, awake⟩ := by
  refine ⟨hflag, Finset.subset_empty.mp (hs.waiting ▸ hwaiting), ?_⟩
  show ∀ j, ¬ q.StandsBeforeWait (Function.update s.pc i p j)
  rw [Function.forall_update_iff s.pc (fun _ w => ¬ q.StandsBeforeWait w)]
  refine ⟨hp, fun j _ => ?_⟩
  have hawake := hs.awake j
  unfold AboutToSleep TaskQueue.StandsBeforeWait at hawake
  unfold TaskQueue.StandsBeforeWait
  rw [hque]
  exact hawake

/-- **A queue that is shut stays shut.** A consumer that finds it empty has
the mutex, so nobody else empties it meanwhile. -/
theorem Shut.step (hexcl : s.Exclusive) (hs : s.Shut) (h : QueueStep s a t) : t.Shut := by
  cases h with
  | call c hidle =>
    refine hs.outside hs.flag (Finset.Subset.refl _) rfl ?_
    cases c <;> rintro (hp | ⟨hp, -⟩) <;> cases hp
  | @exec i q p hexec =>
    obtain ⟨hwaiting, hp⟩ := hexec.shut hs.flag (hs.awake i)
    refine ⟨hexec.flag.trans hs.flag, Finset.subset_empty.mp (hs.waiting ▸ hwaiting), fun j => ?_⟩
    show ¬ q.StandsBeforeWait (Function.update s.pc i p j)
    by_cases hj : j = i
    · subst hj
      rw [Function.update_self]
      exact hp
    · rw [Function.update_of_ne hj]
      have hawake := hs.awake j
      rintro (hwait | ⟨hempty, hque⟩)
      · exact hawake (Or.inl hwait)
      · have howner : s.queue.mutex = some j := (hexcl j).mp (by rw [hempty]; rfl)
        have hi : (s.pc i).locked = false := by
          by_contra hlocked
          have howner' := (hexcl i).mp (Bool.of_not_eq_false hlocked)
          exact hj (Option.some.inj (howner.symm.trans howner'))
        exact hawake (Or.inr ⟨hempty, (hexec.que_of_not_locked hi).symm.trans hque⟩)
  | ret hpopped =>
    refine hs.outside hs.flag (Finset.Subset.refl _) rfl ?_
    rintro (hp | ⟨hp, -⟩) <;> cases hp
  | wakeupClear hpc =>
    refine hs.outside (q := { s.queue with flag := false }) rfl (Finset.Subset.refl _) rfl ?_
    rintro (hp | ⟨hp, -⟩) <;> cases hp
  | wakeupNotify hpc =>
    refine hs.outside (q := { s.queue with notEmpty := s.queue.notEmpty.notifyAll }) hs.flag
      (Finset.empty_subset _) rfl ?_
    rintro (hp | ⟨hp, -⟩) <;> cases hp
  | spuriousFull => exact ⟨hs.flag, hs.waiting, hs.awake⟩
  | spuriousEmpty hwaiting =>
    rw [hs.waiting] at hwaiting
    exact absurd hwaiting (Finset.notMem_empty _)

/-- **What a notification in time ensures**: a call of `wakeup` has cleared
the flag before it notifies, and once one has returned the queue is shut. -/
structure Roused (s : QueueThreads ι τ) : Prop where
  exclusive : s.Exclusive
  cleared : ∀ i, s.pc i = .wakeupNotify → s.queue.flag = false
  shut : s.awake = true → s.Shut

/-- **Every step that notifies in time ensures it.** -/
theorem Roused.step (hs : s.Roused) (hcond : NotifiesInTime s a) (h : QueueStep s a t) :
    t.Roused := by
  obtain ⟨hexcl, hcleared, hshut⟩ := hs
  have hupdate : ∀ {i : ι} {p : QueuePc τ}, p ≠ .wakeupNotify →
      ∀ j, Function.update s.pc i p j = .wakeupNotify → s.queue.flag = false := by
    intro i p hp
    rw [Function.forall_update_iff s.pc (fun _ w => w = .wakeupNotify → s.queue.flag = false)]
    exact ⟨fun h => absurd h hp, fun j _ => hcleared j⟩
  refine ⟨(hexcl.step h).1, ?_, fun hawake => ?_⟩
  · cases h with
    | call c hidle => exact hupdate (by cases c <;> nofun)
    | exec hexec =>
      refine fun j hj => hexec.flag.trans (hupdate ?_ j hj)
      rintro rfl
      exact absurd hexec.inWakeup (by simp [QueuePc.inWakeup])
    | ret hpopped => exact hupdate nofun
    | wakeupClear hpc => exact fun _ _ => rfl
    | @wakeupNotify i hpc => exact fun _ _ => hcleared i hpc
    | spuriousFull => exact hcleared
    | spuriousEmpty => exact hcleared
  · by_cases hbefore : s.awake = true
    · exact (hshut hbefore).step hexcl h
    · -- only the notification itself makes the difference
      cases h with
      | @wakeupNotify i hpc =>
        refine ⟨hcleared i hpc, rfl, ?_⟩
        show ∀ j, ¬ s.queue.StandsBeforeWait (Function.update s.pc i .idle j)
        rw [Function.forall_update_iff s.pc (fun _ w => ¬ s.queue.StandsBeforeWait w)]
        exact ⟨by simp [TaskQueue.StandsBeforeWait], fun j _ => hcond i rfl j⟩
      | _ => exact absurd hawake hbefore

theorem roused_run {steps : List (QueueThreads ι τ × QueueAct ι τ)}
    (h : Run QueueStep (start ι τ queSize) steps s) (hcond : Meets NotifiesInTime steps) :
    s.Roused :=
  h.invariant (fun _ _ _ hs ha hst => hs.step ha hst) hcond
    ⟨exclusive_start queSize, fun _ => nofun, nofun⟩

/-- **The shutdown wakes every consumer**, in every run in which no consumer is
about to sleep when `wakeup` notifies.

`wakeup` sets the flag and notifies without the mutex. A consumer that has read the
flag before it was set, and goes to sleep behind the notification, is not woken by
anybody. The condition is on the states in front of the notifications. -/
theorem wakeup_wakes {steps : List (QueueThreads ι τ × QueueAct ι τ)}
    (h : Run QueueStep (start ι τ queSize) steps s) (hcond : Meets NotifiesInTime steps)
    (hawake : s.awake = true) : s.queue.notEmpty.waiting = ∅ :=
  ((roused_run h hcond).shut hawake).waiting

/-- A consumer that is asleep before the shutdown is woken. -/
theorem wakeup_wakes_sleeper : ∃ (steps : List (QueueThreads Bool ℕ × QueueAct Bool ℕ))
    (s : QueueThreads Bool ℕ), Run QueueStep (start Bool ℕ 1) steps s ∧ s.awake = true
      ∧ s.pc true = .popSleep ∧ s.queue.notEmpty.waiting = ∅ := by
  have h : Run QueueStep (start Bool ℕ 1) _ _ :=
    .cons (.call (i := true) .pop rfl) <| .cons (.exec (i := true) (.lockPop _ rfl)) <|
    .cons (.exec (i := true) (.flagSet _ rfl)) <| .cons (.exec (i := true) (.testEmpty _ rfl)) <|
    .cons (.exec (i := true) (.waitEmpty _)) <| .cons (.call (i := false) .wakeup rfl) <|
    .cons (.wakeupClear (i := false) rfl) <| .cons (.wakeupNotify (i := false) rfl) (.nil _)
  refine ⟨_, _, h, rfl, rfl, wakeup_wakes h ?_ rfl⟩
  iterate 7 refine meets_cons.mpr ⟨fun _ => nofun, ?_⟩
  refine meets_cons.mpr ⟨fun i _ j => ?_, List.forall_mem_nil _⟩
  cases j <;> rintro (hj | ⟨hj, -⟩) <;> cases hj

/-- **A consumer can sleep through the shutdown**: it finds the flag set and
the queue empty, `wakeup` clears the flag and notifies nobody, and then it
waits. -/
theorem sleeps_through_wakeup : ∃ (steps : List (QueueThreads Bool ℕ × QueueAct Bool ℕ))
    (s : QueueThreads Bool ℕ), Run QueueStep (start Bool ℕ 1) steps s ∧ s.awake = true
      ∧ s.pc true = .popSleep ∧ true ∈ s.queue.notEmpty.waiting := by
  have h : Run QueueStep (start Bool ℕ 1) _ _ :=
    .cons (.call (i := true) .pop rfl) <| .cons (.exec (i := true) (.lockPop _ rfl)) <|
    .cons (.exec (i := true) (.flagSet _ rfl)) <| .cons (.exec (i := true) (.testEmpty _ rfl)) <|
    .cons (.call (i := false) .wakeup rfl) <| .cons (.wakeupClear (i := false) rfl) <|
    .cons (.wakeupNotify (i := false) rfl) <|
    .cons (.exec (i := true) (.waitEmpty _)) (.nil _)
  exact ⟨_, _, h, rfl, rfl, by decide⟩

end QueueThreads

end MicroBusiness
