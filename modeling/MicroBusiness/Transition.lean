import Mathlib.Algebra.BigOperators.Group.List.Basic
import Mathlib.Logic.Basic
import Mathlib.Tactic.Cases

/-!
# Runs of a transition system

A transition system is a relation between a state, the label of a step, and
the state after it. A run keeps for each of its steps the state the step is
taken in and its label, so that conditions on the steps of a run can be
stated (`Meets`).

* `Run.invariant`: what a step that meets the condition preserves, a run whose
  steps all meet it preserves.
* `Run.forall_iff_meets`: if over each step from a good state the condition
  decides whether the next state is good, then the states of a run are all good
  exactly if all its steps meet the condition. `Run.forall_iff_along` is the same for a
  condition that depends on what came before (`Along`).
* `Run.simulates`: a computation along the steps that follows the states does
  so over a whole run.
* `Run.exists_simulation`: if each step of one system is matched by a run of another one
  from which the same is seen, so is each run.
* `Run.exists_companion`: if a second state can be carried along over each step, it can
  be over a run.
* `Run.balance`: what each step takes from a quantity, a run takes in total.
* `Run.firstIn_firstOut`: what a queue has at the beginning of a run and what is
  put in on the way is what is taken out and what is in it at the end, in this
  order.
-/

namespace Transition

variable {σ ε α : Type*} (step : σ → ε → σ → Prop)

/-- A run from a state to a state, and the steps it takes. -/
inductive Run : σ → List (σ × ε) → σ → Prop
  | nil (s : σ) : Run s [] s
  | cons {s t u : σ} {e : ε} {steps : List (σ × ε)} :
      step s e t → Run t steps u → Run s ((s, e) :: steps) u

/-- Whether all steps of a run meet a condition. -/
def Meets (cond : σ → ε → Prop) (steps : List (σ × ε)) : Prop := ∀ x ∈ steps, cond x.1 x.2

variable {step}

theorem meets_cons {cond : σ → ε → Prop} {x : σ × ε} {steps : List (σ × ε)} :
    Meets cond (x :: steps) ↔ cond x.1 x.2 ∧ Meets cond steps :=
  List.forall_mem_cons

/-- **What steps preserve, runs preserve**: an invariant of the steps that
meet a condition holds at the end of every run whose steps meet it. -/
theorem Run.invariant {inv : σ → Prop} {cond : σ → ε → Prop}
    (hstep : ∀ s e t, inv s → cond s e → step s e t → inv t) {s t : σ} {steps : List (σ × ε)}
    (h : Run step s steps t) (hcond : Meets cond steps) (hs : inv s) : inv t := by
  induction h with
  | nil s => exact hs
  | @cons s t u e steps hst _ ih =>
    obtain ⟨hcond, hrest⟩ := meets_cons.mp hcond
    exact ih hrest (hstep s e t hs hcond hst)

/-- **Whether all steps of a run meet a condition on what came before**: next to the state
and the label, the condition is about what has been computed along the steps. -/
def Along (next : α → σ × ε → α) (cond : α → σ → ε → Prop) : α → List (σ × ε) → Prop
  | _, [] => True
  | a, x :: steps => cond a x.1 x.2 ∧ Along next cond (next a x) steps

theorem along_iff_meets {cond : σ → ε → Prop} (next : α → σ × ε → α) {a : α}
    {steps : List (σ × ε)} : Along next (fun _ => cond) a steps ↔ Meets cond steps := by
  induction steps generalizing a with
  | nil => exact ⟨fun _ _ hx => absurd hx List.not_mem_nil, fun _ => trivial⟩
  | cons x steps ih => rw [Along, meets_cons, ih]

/-- **The states of a run are all good exactly if its steps all meet the condition**, where
the condition decides over each step from a good state whether the next state is good, and
an invariant of the state and of what has been computed holds as long as the states are
good. -/
theorem Run.forall_iff_along {inv : α → σ → Prop} {good : σ → Prop} {next : α → σ × ε → α}
    {cond : α → σ → ε → Prop}
    (hinv : ∀ a s e t, inv a s → good s → step s e t → good t → inv (next a (s, e)) t)
    (hstep : ∀ a s e t, inv a s → good s → step s e t → (good t ↔ cond a s e)) {s t : σ}
    {steps : List (σ × ε)} (h : Run step s steps t) {a : α} (hs : inv a s) (hgood : good s) :
    ((∀ x ∈ steps, good x.1) ∧ good t) ↔ Along next cond a steps := by
  induction h generalizing a with
  | nil s => exact ⟨fun _ => trivial, fun _ => ⟨by simp, hgood⟩⟩
  | @cons s t u e steps hst hrest ih =>
    have hnext := hstep a s e t hs hgood hst
    rw [List.forall_mem_cons, Along, and_assoc, and_iff_right hgood]
    constructor
    · intro hall
      -- the next state is the end or the state of the next step
      have ht : good t := by
        cases hrest with
        | nil => exact hall.2
        | cons _ _ => exact hall.1 _ List.mem_cons_self
      exact ⟨hnext.mp ht, (ih (hinv a s e t hs hgood hst ht) ht).mp hall⟩
    · rintro ⟨hcond, halong⟩
      have ht : good t := hnext.mpr hcond
      exact (ih (hinv a s e t hs hgood hst ht) ht).mpr halong

/-- **The states of a run are all good exactly if its steps all meet the
condition**, where the condition decides over each step from a good state
whether the next one is good. -/
theorem Run.forall_iff_meets {inv good : σ → Prop} {cond : σ → ε → Prop}
    (hinv : ∀ s e t, inv s → step s e t → inv t)
    (hstep : ∀ s e t, inv s → good s → step s e t → (good t ↔ cond s e)) {s t : σ}
    {steps : List (σ × ε)} (h : Run step s steps t) (hs : inv s) (hgood : good s) :
    ((∀ x ∈ steps, good x.1) ∧ good t) ↔ Meets cond steps := by
  rw [← along_iff_meets (fun (past : List (σ × ε)) x => past ++ [x]) (a := [])]
  exact h.forall_iff_along (fun _ s e t hs _ hst _ => hinv s e t hs hst)
    (fun _ s e t hs hgood hst => hstep s e t hs hgood hst) hs hgood

/-- **What follows every step follows a run**: if a computation keeps to the
states over each step, it does so over a whole run. -/
theorem Run.simulates {sim : α → σ → Prop} {f : α → σ × ε → α}
    (hstep : ∀ a s e t, sim a s → step s e t → sim (f a (s, e)) t) {s t : σ}
    {steps : List (σ × ε)} (h : Run step s steps t) {a : α} (hs : sim a s) :
    sim (steps.foldl f a) t := by
  induction h generalizing a with
  | nil s => exact hs
  | @cons s t u e steps hst _ ih => exact ih (hstep a s e t hs hst)

/-- Runs compose. -/
theorem Run.append {s t u : σ} {before after : List (σ × ε)} (h : Run step s before t)
    (h' : Run step t after u) : Run step s (before ++ after) u := by
  induction h with
  | nil => exact h'
  | cons hst _ ih => exact .cons hst (ih h')

/-- A run is cut at any of its steps. -/
theorem Run.split {s u : σ} {before after : List (σ × ε)} {x : σ × ε}
    (h : Run step s (before ++ x :: after) u) :
    Run step s before x.1 ∧ ∃ t, step x.1 x.2 t ∧ Run step t after u := by
  induction before generalizing s with
  | nil =>
    cases h with
    | cons hst hrest => exact ⟨.nil s, _, hst, hrest⟩
  | cons y before ih =>
    cases h with
    | cons hst hrest =>
      obtain ⟨hbefore, t, hx, hafter⟩ := ih hrest
      exact ⟨.cons hst hbefore, t, hx, hafter⟩

/-- The steps of a run are taken. -/
theorem Run.taken {s t : σ} {steps : List (σ × ε)} (h : Run step s steps t) :
    Meets (fun s e => ∃ t, step s e t) steps := by
  intro x hx
  obtain ⟨before, after, rfl⟩ := List.append_of_mem hx
  obtain ⟨-, t, hstep, -⟩ := h.split
  exact ⟨t, hstep⟩

/-- **What an invariant implies of each step, the steps of a run have**, if they
all meet the condition under which the invariant is preserved. -/
theorem Run.meets {inv : σ → Prop} {cond good : σ → ε → Prop}
    (hstep : ∀ s e t, inv s → cond s e → step s e t → inv t)
    (hgood : ∀ s e, inv s → good s e) {s t : σ} {steps : List (σ × ε)} (h : Run step s steps t)
    (hcond : Meets cond steps) (hs : inv s) : Meets good steps := by
  intro x hx
  obtain ⟨before, after, rfl⟩ := List.append_of_mem hx
  refine hgood x.1 x.2 (h.split.1.invariant hstep (fun y hy => ?_) hs)
  exact hcond y (List.mem_append_left _ hy)

/-- **What the steps from an invariant show, the steps of a run show**, and it holds at the
end. -/
theorem Run.invariant_meets {inv : σ → Prop} {cond good : σ → ε → Prop}
    (hstep : ∀ s e t, inv s → cond s e → step s e t → inv t ∧ good s e) {s t : σ}
    {steps : List (σ × ε)} (h : Run step s steps t) (hcond : Meets cond steps) (hs : inv s) :
    inv t ∧ Meets good steps := by
  induction h with
  | nil s => exact ⟨hs, fun _ hx => absurd hx List.not_mem_nil⟩
  | @cons s t u e steps hst _ ih =>
    obtain ⟨hcond, hrest⟩ := meets_cons.mp hcond
    obtain ⟨ht, hgood⟩ := hstep s e t hs hcond hst
    obtain ⟨hu, hmeets⟩ := ih hrest ht
    exact ⟨hu, meets_cons.mpr ⟨hgood, hmeets⟩⟩

/-- **Simulation**: if every step is matched by a run of another system from which the
same is seen, then so is every run whose steps meet the condition. -/
theorem Run.exists_simulation {σ' ε' β : Type*} {step' : σ' → ε' → σ' → Prop}
    {sim : σ → σ' → Prop} {cond : σ → ε → Prop} {seen : σ → ε → List β} {seen' : σ' × ε' → List β}
    (hstep : ∀ s e t s', sim s s' → cond s e → step s e t →
      ∃ steps' t', Run step' s' steps' t' ∧ sim t t' ∧ steps'.flatMap seen' = seen s e)
    {s t : σ} {steps : List (σ × ε)} (h : Run step s steps t) (hcond : Meets cond steps) {s' : σ'}
    (hsim : sim s s') :
    ∃ steps' t', Run step' s' steps' t' ∧ sim t t' ∧
      steps'.flatMap seen' = steps.flatMap (fun x => seen x.1 x.2) := by
  induction h generalizing s' with
  | nil s => exact ⟨[], s', .nil s', hsim, rfl⟩
  | @cons s t u e steps hst _ ih =>
    obtain ⟨hcond, hrest⟩ := meets_cons.mp hcond
    obtain ⟨first, t', hfirst, ht, hseen⟩ := hstep s e t s' hsim hcond hst
    obtain ⟨rest, u', hruns, hu, hseen'⟩ := ih hrest ht
    refine ⟨first ++ rest, u', hfirst.append hruns, hu, ?_⟩
    rw [List.flatMap_append, hseen, hseen', List.flatMap_cons]

/-- **What can be carried along over each step can be over a run**: a companion of the
state that each step gives a next one. -/
theorem Run.exists_companion {τ : Type*} {step' : σ × τ → ε → σ × τ → Prop}
    {good : σ × τ → Prop} {cond : σ → ε → Prop}
    (hstep : ∀ s a e t, good (s, a) → cond s e → step s e t →
      ∃ b, step' (s, a) e (t, b) ∧ good (t, b))
    {s t : σ} {steps : List (σ × ε)} (h : Run step s steps t) (hcond : Meets cond steps) {a : τ}
    (hs : good (s, a)) :
    ∃ steps' b, Run step' (s, a) steps' (t, b) ∧ steps'.map (fun x => (x.1.1, x.2)) = steps ∧
      good (t, b) ∧ Meets (fun x _ => good x) steps' := by
  induction h generalizing a with
  | nil s => exact ⟨[], a, .nil _, rfl, hs, fun _ hx => absurd hx List.not_mem_nil⟩
  | @cons s t u e steps hst _ ih =>
    obtain ⟨hcond, hrest⟩ := meets_cons.mp hcond
    obtain ⟨b, hfirst, ht⟩ := hstep s a e t hs hcond hst
    obtain ⟨rest, c, hruns, hmap, hu, hmeets⟩ := ih hrest ht
    refine ⟨((s, a), e) :: rest, c, .cons hfirst hruns, ?_, hu, meets_cons.mpr ⟨hs, hmeets⟩⟩
    rw [List.map_cons, hmap]

/-- **What each step takes from a quantity, a run takes in total.** -/
theorem Run.balance {M : Type*} [AddCommMonoid M] {inv : σ → Prop} {cond : σ → ε → Prop}
    {value : σ → M} {paid : σ → ε → M}
    (hstep : ∀ s e t, inv s → cond s e → step s e t → inv t ∧ value t + paid s e = value s)
    {s t : σ} {steps : List (σ × ε)} (h : Run step s steps t) (hcond : Meets cond steps)
    (hs : inv s) : value t + (steps.map fun x => paid x.1 x.2).sum = value s := by
  induction h with
  | nil s => exact add_zero _
  | @cons s t u e steps hst _ ih =>
    obtain ⟨hcond, hrest⟩ := meets_cons.mp hcond
    obtain ⟨ht, hpaid⟩ := hstep s e t hs hcond hst
    rw [List.map_cons, List.sum_cons, ← hpaid, ← ih hrest ht]
    exact add_left_comm _ _ _ |>.trans (add_comm _ _)

/-- **First in, first out**: what a queue is over each step, it is over a run. -/
theorem Run.firstIn_firstOut {queue : σ → List α} {puts takes : σ → ε → List α}
    (hstep : ∀ s e t, step s e t → queue s ++ puts s e = takes s e ++ queue t) {s t : σ}
    {steps : List (σ × ε)} (h : Run step s steps t) :
    queue s ++ steps.flatMap (fun x => puts x.1 x.2)
      = steps.flatMap (fun x => takes x.1 x.2) ++ queue t := by
  induction h with
  | nil s => exact List.append_nil _
  | @cons s t u e steps hst _ ih =>
    rw [List.flatMap_cons, List.flatMap_cons, ← List.append_assoc, hstep s e t hst,
      List.append_assoc, ih, List.append_assoc]

end Transition
