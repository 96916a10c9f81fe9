import Mathlib.Data.Finset.Card
import Mathlib.Tactic.Cases

/-!
# Condition variables

A condition variable, seen from the threads that wait on it: those that sleep,
and those that have been woken and have not taken the mutex again yet. A
thread is in one of the two sets at most, which is part of the type.

Waking one thread takes any of the sleeping ones, if there is one
(`NotifyOne`); a sleeping thread may also wake without a reason, which is the
same change (`CondVar.notify`). What the number of woken threads does under
each operation is what proofs about a monitor count with.
-/

/-- **A condition variable**: the threads that sleep on it, and the threads
that have been woken and are about to take the mutex again. -/
structure CondVar (ι : Type*) where
  waiting : Finset ι := ∅
  notified : Finset ι := ∅
  disjoint : Disjoint waiting notified := by exact Finset.disjoint_empty_left _

namespace CondVar

variable {ι : Type*} [DecidableEq ι] {c c' : CondVar ι} {i : ι}

/-- A thread goes to sleep. -/
def wait (c : CondVar ι) (i : ι) : CondVar ι where
  waiting := insert i c.waiting
  notified := c.notified.erase i
  disjoint := by
    rw [Finset.disjoint_insert_left]
    exact ⟨Finset.notMem_erase i _, c.disjoint.mono_right (Finset.erase_subset _ _)⟩

/-- A thread that was woken takes the mutex again. -/
def resume (c : CondVar ι) (i : ι) : CondVar ι where
  waiting := c.waiting
  notified := c.notified.erase i
  disjoint := c.disjoint.mono_right (Finset.erase_subset _ _)

/-- A sleeping thread is woken, by a notification or for no reason. -/
def notify (c : CondVar ι) (i : ι) : CondVar ι where
  waiting := c.waiting.erase i
  notified := insert i c.notified
  disjoint := by
    rw [Finset.disjoint_insert_right]
    exact ⟨Finset.notMem_erase i _, c.disjoint.mono_left (Finset.erase_subset _ _)⟩

/-- All sleeping threads are woken. -/
def notifyAll (c : CondVar ι) : CondVar ι where
  waiting := ∅
  notified := c.waiting ∪ c.notified
  disjoint := Finset.disjoint_empty_left _

/-- **Waking one thread**: any of the sleeping ones, if there is one. -/
inductive NotifyOne : CondVar ι → CondVar ι → Prop
  | none {c : CondVar ι} (hwaiting : c.waiting = ∅) : NotifyOne c c
  | some {c : CondVar ι} {i : ι} (hwaiting : i ∈ c.waiting) : NotifyOne c (c.notify i)

/-- The threads that are in a wait on the condition variable. -/
def threads (c : CondVar ι) : Finset ι := c.waiting ∪ c.notified

theorem waiting_notify_subset : (c.notify i).waiting ⊆ c.waiting := Finset.erase_subset i _

theorem NotifyOne.waiting_subset (h : NotifyOne c c') : c'.waiting ⊆ c.waiting := by
  cases h with
  | none hwaiting => exact Finset.Subset.refl _
  | some hwaiting => exact waiting_notify_subset

theorem card_notified_resume (hi : i ∈ c.notified) :
    (c.resume i).notified.card + 1 = c.notified.card :=
  Finset.card_erase_add_one hi

theorem card_notified_notify (hi : i ∈ c.waiting) :
    (c.notify i).notified.card = c.notified.card + 1 :=
  Finset.card_insert_of_notMem (Finset.disjoint_left.mp c.disjoint hi)

theorem NotifyOne.card_notified (h : NotifyOne c c') (hwaiting : c.waiting.Nonempty) :
    c'.notified.card = c.notified.card + 1 := by
  cases h with
  | none hnone => exact absurd hnone hwaiting.ne_empty
  | some hi => exact card_notified_notify hi

/-! ## Who is in a wait -/

theorem mem_threads {j : ι} : j ∈ c.threads ↔ j ∈ c.waiting ∨ j ∈ c.notified :=
  Finset.mem_union

theorem mem_threads_wait {j : ι} : j ∈ (c.wait i).threads ↔ j = i ∨ j ∈ c.threads := by
  rw [mem_threads, mem_threads]
  simp only [wait, Finset.mem_insert, Finset.mem_erase]
  tauto

theorem mem_threads_resume {j : ι} (hi : i ∈ c.notified) :
    j ∈ (c.resume i).threads ↔ j ≠ i ∧ j ∈ c.threads := by
  have hwaiting : i ∉ c.waiting := Finset.disjoint_right.mp c.disjoint hi
  rw [mem_threads, mem_threads]
  simp only [resume, Finset.mem_erase]
  constructor
  · rintro (hj | ⟨hne, hj⟩)
    · exact ⟨fun h => hwaiting (h ▸ hj), Or.inl hj⟩
    · exact ⟨hne, Or.inr hj⟩
  · rintro ⟨hne, hj | hj⟩
    · exact Or.inl hj
    · exact Or.inr ⟨hne, hj⟩

/-- A thread that is woken is in a wait still. -/
theorem threads_notify (hi : i ∈ c.waiting) : (c.notify i).threads = c.threads := by
  ext j
  rw [mem_threads, mem_threads]
  simp only [notify, Finset.mem_erase, Finset.mem_insert]
  by_cases hj : j = i
  · subst hj
    simp [hi]
  · simp [hj]

@[inherit_doc threads_notify]
theorem NotifyOne.threads (h : NotifyOne c c') : c'.threads = c.threads := by
  cases h with
  | none hwaiting => rfl
  | some hwaiting => exact threads_notify hwaiting

theorem threads_notifyAll : c.notifyAll.threads = c.threads := Finset.empty_union _

end CondVar
