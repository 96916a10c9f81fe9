import MicroBusiness.Program
import MicroBusiness.Transition
import Mathlib.Logic.Function.Basic
import Mathlib.Algebra.BigOperators.Group.Finset.Piecewise

/-!
# Threads

Several programs run at the same time over one shared state: a step of the
system is one call of one of them (`Threads.Step`), so that a run is an
interleaving of their calls.

The second part is about threads that share one mutex (`Mutex.Exec`). The
program of a thread is `Guarded` if it changes the shared state only while
it has the mutex, keeps an invariant of the state there, gives the mutex
back, and ends in a given postcondition. What a thread knows changes with the
mutex: with it the thread knows the whole state, without it only its own part
of the state (its view), which no other thread changes. Guarded threads keep
the invariant in every interleaving (`Kept.run`).
-/

namespace Program

open Transition

variable {ι Op : Type} {Reply : Op → Type} {ε α σ V : Type}

/-- The result of a program that has ended. -/
def Prog.result : Prog Op Reply ε α → Option (Except ε α)
  | .ret a => some (.ok a)
  | .fail e => some (.error e)
  | .op _ _ => none

/-- The state of several threads: the state they share, and what is left of
the program of each. -/
structure Threads (ι Op : Type) (Reply : Op → Type) (ε α σ : Type) where
  shared : σ
  prog : ι → Prog Op Reply ε α

/-- **A step of the threads**: one thread makes its next call. -/
inductive Threads.Step [DecidableEq ι] (exec : ι → σ → Event Reply → σ → Prop) :
    Threads ι Op Reply ε α σ → ι × Event Reply → Threads ι Op Reply ε α σ → Prop
  | call {s t : σ} {prog : ι → Prog Op Reply ε α} {i : ι} {o : Op}
    {k : Reply o → Prog Op Reply ε α} {r : Reply o} (hprog : prog i = .op o k)
    (hexec : exec i s ⟨o, r⟩ t) :
    Step exec ⟨s, prog⟩ (i, ⟨o, r⟩) ⟨t, Function.update prog i (k r)⟩

/-- **A change of one thread changes a sum over the threads in one place.** -/
theorem sum_update_add {ι α M : Type*} [DecidableEq ι] [Fintype ι] [AddCommMonoid M]
    (w : α → M) (threads : ι → α) (i : ι) (thread : α) :
    (∑ j, w (Function.update threads i thread j)) + w (threads i)
      = (∑ j, w (threads j)) + w thread := by
  show (∑ j, (w ∘ Function.update threads i thread) j) + w (threads i) = _
  rw [Function.comp_update, Finset.sum_update_of_mem (Finset.mem_univ i),
    ← Finset.sum_erase_add _ (fun j => w (threads j)) (Finset.mem_univ i),
    Finset.sdiff_singleton_eq_erase, add_assoc, add_comm (w thread)]
  rfl

/-! ## Threads that share a mutex -/

variable (lock unlock : Op)

/-- **The calls of threads that share a mutex.** Next to the state there is
the thread that has the mutex. -/
inductive Mutex.Exec (exec : ι → σ → Event Reply → σ → Prop) (i : ι) :
    Option ι × σ → Event Reply → Option ι × σ → Prop
  | lock (s : σ) (r : Reply lock) : Exec exec i (none, s) ⟨lock, r⟩ (some i, s)
  | unlock (s : σ) (r : Reply unlock) : Exec exec i (some i, s) ⟨unlock, r⟩ (none, s)
  | other {owner : Option ι} {s t : σ} {e : Event Reply} (hlock : e.1 ≠ lock)
    (hunlock : e.1 ≠ unlock) (hexec : exec i s e t) : Exec exec i (owner, s) e (owner, t)

/-- A call on state and mutex is one on the state, if a lock or an unlock does
nothing to it. -/
theorem Mutex.Exec.exec {exec : ι → σ → Event Reply → σ → Prop} {i : ι}
    {s t : Option ι × σ} {e : Event Reply} (h : Mutex.Exec lock unlock exec i s e t)
    (hlock : ∀ s r, exec i s ⟨lock, r⟩ s) (hunlock : ∀ s r, exec i s ⟨unlock, r⟩ s) :
    exec i s.2 e t.2 := by
  cases h with
  | lock s r => exact hlock s r
  | unlock s r => exact hunlock s r
  | other _ _ hexec => exact hexec

/-- What a thread knows: without the mutex its view, with it the state. -/
inductive Knowledge (V σ : Type)
  | outside (v : V)
  | inside (s : σ)

section Guarded

variable [DecidableEq Op] (exec : σ → Event Reply → σ → Prop) (inv : σ → Prop) (view : σ → V)
  (post : Except ε α → V → Prop)

/-- **A program is guarded by the mutex**: without the mutex it changes
nothing, with it it keeps the invariant, and it ends without the mutex and in
the postcondition. -/
def Prog.Guarded : Prog Op Reply ε α → Knowledge V σ → Prop
  | .ret a, .outside v => post (.ok a) v
  | .ret _, .inside _ => False
  | .fail e, .outside v => post (.error e) v
  | .fail e, .inside s => post (.error e) (view s)
  | .op o k, .outside v =>
    if o = lock then ∀ r s, inv s → view s = v → (k r).Guarded (.inside s)
    else ∀ r s t, exec s ⟨o, r⟩ t → t = s ∧ (k r).Guarded (.outside v)
  | .op o k, .inside s =>
    if o = unlock then ∀ r, (k r).Guarded (.outside (view s))
    else ∀ r t, exec s ⟨o, r⟩ t → inv t ∧ (k r).Guarded (.inside t)

variable {lock unlock exec inv view post}

/-- A thread that takes the mutex gets to know a state with the invariant and
with its own view. -/
theorem Prog.guarded_lock {k : Reply lock → Prog Op Reply ε α} {v : V} :
    (Prog.op lock k).Guarded lock unlock exec inv view post (.outside v)
      ↔ ∀ r s, inv s → view s = v →
        (k r).Guarded lock unlock exec inv view post (.inside s) := by
  rw [Prog.Guarded, if_pos rfl]

theorem Prog.guarded_unlock {k : Reply unlock → Prog Op Reply ε α} {s : σ} :
    (Prog.op unlock k).Guarded lock unlock exec inv view post (.inside s)
      ↔ ∀ r, (k r).Guarded lock unlock exec inv view post (.outside (view s)) := by
  rw [Prog.Guarded, if_pos rfl]

theorem Prog.guarded_outside {o : Op} (ho : o ≠ lock) {k : Reply o → Prog Op Reply ε α} {v : V} :
    (Prog.op o k).Guarded lock unlock exec inv view post (.outside v)
      ↔ ∀ r s t, exec s ⟨o, r⟩ t →
        t = s ∧ (k r).Guarded lock unlock exec inv view post (.outside v) := by
  rw [Prog.Guarded, if_neg ho]

theorem Prog.guarded_inside {o : Op} (ho : o ≠ unlock) {k : Reply o → Prog Op Reply ε α} {s : σ} :
    (Prog.op o k).Guarded lock unlock exec inv view post (.inside s)
      ↔ ∀ r t, exec s ⟨o, r⟩ t →
        inv t ∧ (k r).Guarded lock unlock exec inv view post (.inside t) := by
  rw [Prog.Guarded, if_neg ho]

end Guarded

section Kept

variable [DecidableEq ι] [DecidableEq Op] (exec : ι → σ → Event Reply → σ → Prop) (inv : σ → Prop)
  (view : ι → σ → V) (post : ι → Except ε α → V → Prop)

/-- What a thread knows of the shared state. -/
def knowledge (i : ι) (shared : Option ι × σ) : Knowledge V σ :=
  if shared.1 = some i then .inside shared.2 else .outside (view i shared.2)

/-- **The invariant is kept**: it holds, and what is left of each thread is
guarded from what the thread knows. -/
structure Kept (th : Threads ι Op Reply ε α (Option ι × σ)) : Prop where
  invariant : inv th.shared.2
  guarded (i : ι) : (th.prog i).Guarded lock unlock (exec i) inv (view i) (post i)
    (knowledge view i th.shared)

variable {lock unlock exec inv view post}

omit [DecidableEq Op] in
theorem knowledge_of_owner (i : ι) (s : σ) :
    knowledge view i (some i, s) = .inside s :=
  if_pos rfl

omit [DecidableEq Op] in
theorem knowledge_of_ne {i : ι} {owner : Option ι} (h : owner ≠ some i) (s : σ) :
    knowledge view i (owner, s) = .outside (view i s) :=
  if_neg h

theorem Kept.of_update {shared : Option ι × σ} {prog : ι → Prog Op Reply ε α} {i : ι}
    {p : Prog Op Reply ε α} (hinv : inv shared.2)
    (hi : p.Guarded lock unlock (exec i) inv (view i) (post i) (knowledge view i shared))
    (hothers : ∀ j, j ≠ i → (prog j).Guarded lock unlock (exec j) inv (view j) (post j)
      (knowledge view j shared)) :
    Kept lock unlock exec inv view post ⟨shared, Function.update prog i p⟩ := by
  refine ⟨hinv, fun j => ?_⟩
  dsimp only
  by_cases hj : j = i
  · subst hj
    rw [Function.update_self]
    exact hi
  · rw [Function.update_of_ne hj]
    exact hothers j hj

/-- **A step of guarded threads keeps the invariant**, if no thread changes
the view of another. -/
theorem Kept.step (hview : ∀ i j s e t, exec i s e t → j ≠ i → view j t = view j s)
    {th th' : Threads ι Op Reply ε α (Option ι × σ)} {label : ι × Event Reply}
    (h : Kept lock unlock exec inv view post th)
    (hstep : Threads.Step (Mutex.Exec lock unlock exec) th label th') :
    Kept lock unlock exec inv view post th' := by
  obtain ⟨hinv, hguarded⟩ := h
  cases hstep with
  | @call _ _ prog i o k r hprog hexec =>
  dsimp only at hinv hguarded hprog
  have hi := hguarded i
  rw [hprog] at hi
  have hfree : ∀ j : ι, (none : Option ι) ≠ some j := fun j h => nomatch h
  have htaken : ∀ j : ι, j ≠ i → some i ≠ some j := fun j hj h => hj (Option.some.inj h).symm
  cases hexec with
  -- who takes the mutex gets to know the invariant
  | lock s r =>
    rw [knowledge_of_ne (hfree i), Prog.guarded_lock] at hi
    refine Kept.of_update hinv ?_ fun j hj => ?_
    · rw [knowledge_of_owner]
      exact hi r s hinv rfl
    · have hother := hguarded j
      rw [knowledge_of_ne (hfree j)] at hother
      rw [knowledge_of_ne (htaken j hj)]
      exact hother
  -- who gives it back has restored the invariant
  | unlock s r =>
    rw [knowledge_of_owner, Prog.guarded_unlock] at hi
    refine Kept.of_update hinv ?_ fun j hj => ?_
    · rw [knowledge_of_ne (hfree i)]
      exact hi r
    · have hother := hguarded j
      rw [knowledge_of_ne (htaken j hj)] at hother
      rw [knowledge_of_ne (hfree j)]
      exact hother
  | @other owner s t _ hlock hunlock hexec =>
    dsimp only at hlock hunlock
    -- with the mutex the view may change, and nobody else looks at it; without, nothing does
    by_cases howner : owner = some i
    · subst howner
      rw [knowledge_of_owner, Prog.guarded_inside hunlock] at hi
      obtain ⟨hinv, hi⟩ := hi r t hexec
      refine Kept.of_update hinv ?_ fun j hj => ?_
      · rw [knowledge_of_owner]
        exact hi
      · have hother := hguarded j
        rw [knowledge_of_ne (htaken j hj)] at hother
        rw [knowledge_of_ne (htaken j hj), hview i j s _ t hexec hj]
        exact hother
    · rw [knowledge_of_ne howner, Prog.guarded_outside hlock] at hi
      obtain ⟨rfl, hi⟩ := hi r s t hexec
      refine Kept.of_update hinv ?_ fun j _ => hguarded j
      rw [knowledge_of_ne howner]
      exact hi

/-- **Guarded threads keep the invariant in every interleaving.** -/
theorem Kept.run (hview : ∀ i j s e t, exec i s e t → j ≠ i → view j t = view j s)
    {th th' : Threads ι Op Reply ε α (Option ι × σ)}
    {steps : List (Threads ι Op Reply ε α (Option ι × σ) × (ι × Event Reply))}
    (hrun : Run (Threads.Step (Mutex.Exec lock unlock exec)) th steps th')
    (h : Kept lock unlock exec inv view post th) : Kept lock unlock exec inv view post th' :=
  hrun.invariant (fun _ _ _ h _ hstep => h.step hview hstep)
    (show Meets (fun _ _ => True) steps from fun _ _ => trivial) h

/-- A guarded thread that has ended has its postcondition. -/
theorem Kept.of_result {th : Threads ι Op Reply ε α (Option ι × σ)}
    (h : Kept lock unlock exec inv view post th) {i : ι} {x : Except ε α}
    (hx : (th.prog i).result = some x) : post i x (view i th.shared.2) := by
  have hi := h.guarded i
  unfold knowledge at hi
  match hprog : th.prog i with
  | .ret a =>
    rw [hprog] at hi hx
    cases hx
    split at hi
    · exact hi.elim
    · exact hi
  | .fail e =>
    rw [hprog] at hi hx
    cases hx
    split at hi
    · exact hi
    · exact hi
  | .op o k =>
    rw [hprog] at hx
    cases hx

end Kept

end Program
