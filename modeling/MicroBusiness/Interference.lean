import MicroBusiness.Threads
import Mathlib.Logic.Relation

/-!
# Threads that refine a specification

A specification of threads says which steps each of them takes on an abstract
state of its own. That threads refine it is shown for one thread at a time:
what is left of its program is run on along the tree, over any change of the
state that the thread relies on the others for (`Rely`), and at each call the
specification may follow with one step of the same thread. What the step of
one thread changes, all others must rely on (`Prog.Refines`).

* `Refining.run`: threads whose programs refine a specification refine it in
  every interleaving; each step of a run is accompanied by at most one step of
  the specification, of the same thread (`Accompanied`), so that the order of
  time is kept.
* `Prog.Refines.of_exec`: so does each of them alone, run to its end.
-/

namespace Program

open Transition

variable {ι Op : Type} {Reply : Op → Type} {ε α σ τ : Type}

/-- **What the threads rely on**: how a state may change by the steps of the
other threads. -/
structure Rely (ι S : Type) where
  rel : ι → S → S → Prop
  refl (i : ι) (s : S) : rel i s s
  trans {i : ι} {s t u : S} : rel i s t → rel i t u → rel i s u

section Refines

variable (exec : ι → σ → Event Reply → σ → Prop) (spec : ι → τ → τ → Prop)
  (cond : ι → σ → Event Reply → Prop) (rely : Rely ι (σ × τ)) (inv : σ × τ → Prop)

/-- **A program refines a specification** as the thread `i`, from a state of
both on: at each call that meets the condition the specification can stay or
follow with a step, such that the invariant holds again and the others see
what they rely on, and the end is in the postcondition. -/
def Prog.Refines (i : ι) (post : Except ε α → σ × τ → Prop) :
    Prog Op Reply ε α → σ × τ → Prop
  | .ret a, s => ∀ t, rely.rel i s t → post (.ok a) t
  | .fail e, s => ∀ t, rely.rel i s t → post (.error e) t
  | .op o k, s => ∀ t, rely.rel i s t → inv t → ∀ r u, cond i t.1 ⟨o, r⟩ → exec i t.1 ⟨o, r⟩ u →
    ∃ b, Relation.ReflGen (spec i) t.2 b ∧ inv (u, b) ∧
      (∀ j, j ≠ i → rely.rel j t (u, b)) ∧ (k r).Refines i post (u, b)

variable {exec spec cond rely inv} {i : ι} {post : Except ε α → σ × τ → Prop}
  {p : Prog Op Reply ε α} {s t : σ × τ}

/-- **A program goes on to refine the specification** over what the others
change. -/
theorem Prog.Refines.of_rely (h : p.Refines exec spec cond rely inv i post s)
    (hrely : rely.rel i s t) : p.Refines exec spec cond rely inv i post t := by
  cases p with
  | ret a => exact fun u hu => h u (rely.trans hrely hu)
  | fail e => exact fun u hu => h u (rely.trans hrely hu)
  | op o k => exact fun u hu => h u (rely.trans hrely hu)

theorem Prog.Refines.of_result (h : p.Refines exec spec cond rely inv i post s)
    {x : Except ε α} (hx : p.result = some x) : post x s := by
  cases p with
  | ret a =>
    cases hx
    exact h s (rely.refl i s)
  | fail e =>
    cases hx
    exact h s (rely.refl i s)
  | op o k => cases hx

/-- **A program that runs alone refines its specification**: an execution whose
calls meet the condition is matched by steps of the specification. -/
theorem Prog.Refines.of_exec {s : σ} {a : τ}
    (h : p.Refines exec spec cond rely inv i post (s, a)) (hs : inv (s, a)) {x : Except ε α}
    {s' : σ} (hexec : p.Exec (fun s e t => cond i s e ∧ exec i s e t) s x s') :
    ∃ b, Relation.ReflTransGen (spec i) a b ∧ inv (s', b) ∧ post x (s', b) := by
  induction hexec generalizing a with
  | ret r s => exact ⟨a, .refl, hs, h (s, a) (rely.refl i _)⟩
  | fail e s => exact ⟨a, .refl, hs, h (s, a) (rely.refl i _)⟩
  | op hstep _ ih =>
    obtain ⟨b, hspec, hinv, -, hrest⟩ := h _ (rely.refl i _) hs _ _ hstep.1 hstep.2
    obtain ⟨c, hsteps, hend⟩ := ih hrest hinv
    exact ⟨c, hspec.to_reflTransGen.trans hsteps, hend⟩

end Refines

section Refining

variable [DecidableEq ι] (exec : ι → σ → Event Reply → σ → Prop) (spec : ι → τ → τ → Prop)
  (cond : ι → σ → Event Reply → Prop) (rely : Rely ι (σ × τ)) (inv : σ × τ → Prop)
  (post : ι → Except ε α → σ × τ → Prop)

/-- **A step of the threads, accompanied**: the specification stays, or takes a
step of the same thread. -/
def Accompanied (x : Threads ι Op Reply ε α σ × τ) (label : ι × Event Reply)
    (y : Threads ι Op Reply ε α σ × τ) : Prop :=
  Threads.Step exec x.1 label y.1 ∧ Relation.ReflGen (spec label.1) x.2 y.2

/-- **The threads refine the specification**: the invariant holds, and the
program of each thread refines the specification from here on. -/
structure Refining (x : Threads ι Op Reply ε α σ × τ) : Prop where
  invariant : inv (x.1.shared, x.2)
  refines (i : ι) :
    (x.1.prog i).Refines exec spec cond rely inv i (post i) (x.1.shared, x.2)

variable {exec spec cond rely inv post}

/-- **A step of threads that refine a specification is accompanied by it**, and
they go on to refine it. -/
theorem Refining.step {th th' : Threads ι Op Reply ε α σ} {a : τ} {label : ι × Event Reply}
    (h : Refining exec spec cond rely inv post (th, a)) (hcond : cond label.1 th.shared label.2)
    (hstep : Threads.Step exec th label th') :
    ∃ b, Accompanied exec spec (th, a) label (th', b) ∧
      Refining exec spec cond rely inv post (th', b) := by
  cases hstep with
  | @call s t prog i o k r hprog hexec =>
  have hi := h.refines i
  rw [show (⟨s, prog⟩ : Threads ι Op Reply ε α σ).prog i = .op o k from hprog] at hi
  obtain ⟨b, hspec, hinv, hothers, hrest⟩ :=
    hi (s, a) (rely.refl i _) h.invariant r t hcond hexec
  refine ⟨b, ⟨.call hprog hexec, hspec⟩, hinv, fun j => ?_⟩
  dsimp only
  by_cases hj : j = i
  · subst hj
    rw [Function.update_self]
    exact hrest
  · rw [Function.update_of_ne hj]
    exact (h.refines j).of_rely (hothers j hj)

/-- **Threads that refine a specification refine it in every interleaving**
whose steps meet the condition. -/
theorem Refining.run {th th' : Threads ι Op Reply ε α σ} {a : τ}
    {steps : List (Threads ι Op Reply ε α σ × (ι × Event Reply))}
    (h : Refining exec spec cond rely inv post (th, a))
    (hrun : Run (Threads.Step exec) th steps th')
    (hcond : Meets (fun th label => cond label.1 th.shared label.2) steps) :
    ∃ steps' b, Run (Accompanied exec spec) (th, a) steps' (th', b) ∧
      steps'.map (fun x => (x.1.1, x.2)) = steps ∧
      Refining exec spec cond rely inv post (th', b) ∧
      Meets (fun x _ => Refining exec spec cond rely inv post x) steps' :=
  hrun.exists_companion (fun _ _ _ _ hgood hcond hstep => hgood.step hcond hstep) hcond h

omit [DecidableEq ι] in
theorem Refining.of_result {x : Threads ι Op Reply ε α σ × τ}
    (h : Refining exec spec cond rely inv post x) {i : ι} {result : Except ε α}
    (hresult : (x.1.prog i).result = some result) : post i result (x.1.shared, x.2) :=
  (h.refines i).of_result hresult

end Refining

end Program
