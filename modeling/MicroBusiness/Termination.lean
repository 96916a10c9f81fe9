import MicroBusiness.Threads
import Mathlib.Logic.Hydra
import Mathlib.Algebra.Order.Group.Multiset

/-!
# Threads that run to their end

A program is a tree, and each of its calls leaves a smaller one. So several threads
cannot make calls forever, whatever the surroundings reply and however the calls are
interleaved (`Threads.wellFounded_step`): what is left of all of them is a multiset of
programs, and a call puts a smaller program in the place of one.

Whether all threads have ended where none can go on is a question of what they wait for.
A program `Obeys` a discipline if, with what it holds, it makes only the calls it may
make then, and if it ends only with what it may end with.
-/

namespace Program

open Transition

variable {ι Op : Type} {Reply : Op → Type} {ε α σ τ : Type}

/-! ## Termination -/

/-- What a call leaves of a program. -/
inductive Prog.After : Prog Op Reply ε α → Prog Op Reply ε α → Prop
  | op (o : Op) (k : Reply o → Prog Op Reply ε α) (r : Reply o) : After (k r) (.op o k)

theorem Prog.wellFounded_after :
    WellFounded (Prog.After : Prog Op Reply ε α → Prog Op Reply ε α → Prop) := by
  refine ⟨fun p => ?_⟩
  induction p with
  | ret a => exact ⟨_, fun _ h => nomatch h⟩
  | fail e => exact ⟨_, fun _ h => nomatch h⟩
  | op o k ih =>
    refine ⟨_, fun p h => ?_⟩
    cases h with
    | op _ _ r => exact ih r

namespace Threads

/-- What is left of all threads together. -/
def left [Fintype ι] (th : Threads ι Op Reply ε α σ) : Multiset (Prog Op Reply ε α) :=
  ∑ i, {th.prog i}

section

variable [DecidableEq ι] {exec : ι → σ → Event Reply → σ → Prop}

/-- **A step leaves less.** -/
theorem Step.cutExpand_left [Fintype ι] {th th' : Threads ι Op Reply ε α σ}
    {label : ι × Event Reply} (h : Step exec th label th') :
    Relation.CutExpand Prog.After th'.left th.left := by
  cases h with
  | @call s t prog i o k r hprog hexec =>
    have hleft := sum_update_add (fun p => ({p} : Multiset (Prog Op Reply ε α))) prog i (k r)
    refine ⟨{k r}, prog i, fun p hp => ?_, hleft⟩
    rw [Multiset.mem_singleton.mp hp, hprog]
    exact .op o k r

/-- **Threads make calls only so often.** -/
theorem wellFounded_step [Fintype ι] (exec : ι → σ → Event Reply → σ → Prop) :
    WellFounded fun th' th : Threads ι Op Reply ε α σ => ∃ label, Step exec th label th' :=
  Subrelation.wf (fun ⟨_, h⟩ => h.cutExpand_left)
    (InvImage.wf left Prog.wellFounded_after.cutExpand)

variable (exec) in
/-- No thread can go on. -/
def Stuck (th : Threads ι Op Reply ε α σ) : Prop := ∀ label th', ¬ Step exec th label th'

end

end Threads

/-! ## Disciplines -/

/-- **A program obeys a discipline**: with what it holds it makes only calls that are
allowed then, and it ends only with what it may end with. -/
def Prog.Obeys (allowed : τ → Op → Prop) (after : τ → Event Reply → τ)
    (done : Except ε α → τ → Prop) : Prog Op Reply ε α → τ → Prop
  | .ret a, t => done (.ok a) t
  | .fail e, t => done (.error e) t
  | .op o k, t => allowed t o ∧ ∀ r, (k r).Obeys allowed after done (after t ⟨o, r⟩)

end Program
