import MicroBusiness.Threads

/-!
# Calls that are made in steps

Threads whose calls take several steps, between which other threads take
theirs (`Piecemeal.Step`). A call has come to its reply at one of its steps, if
up to there nobody sees that it has begun, and from there on nobody sees that it
has not returned (`Pieces.Atomic`). The threads then look as if they made their
calls at these steps at once (`Piecemeal.atomic`): every run is one of calls
that are made at once, in the order of time (`Pieces.Atomic.run`).
-/

namespace Program

open Transition

variable {ι Op : Type} {Reply : Op → Type} {ε α σ τ C A : Type}

/-- **How calls are made in steps**: where a call stands at its beginning, the
steps of the call of an operation, which go on or return, and what the call has
come to where it stands, once that is decided. -/
structure Pieces (ι Op : Type) (Reply : Op → Type) (σ C A : Type) where
  start : C
  step : ι → (o : Op) → σ × C → A → σ × (C ⊕ Reply o) → Prop
  decided : (o : Op) → C → Option (Reply o)
  decided_start (o : Op) : decided o start = none

/-- What a call has come to behind a step. -/
def Pieces.after (pieces : Pieces ι Op Reply σ C A) (o : Op) : C ⊕ Reply o → Option (Reply o) :=
  Sum.elim (pieces.decided o) some

/-- Several threads, and where the call of each stands. -/
structure Piecemeal (ι Op : Type) (Reply : Op → Type) (ε α σ C : Type) where
  shared : σ
  prog : ι → Prog Op Reply ε α
  call : ι → C

/-- **A step of the threads**: one of them takes the next step of its call. -/
inductive Piecemeal.Step [DecidableEq ι] (pieces : Pieces ι Op Reply σ C A) :
    Piecemeal ι Op Reply ε α σ C → ι × A → Piecemeal ι Op Reply ε α σ C → Prop
  | goOn {x : Piecemeal ι Op Reply ε α σ C} {i : ι} {o : Op} {k : Reply o → Prog Op Reply ε α}
    {a : A} {t : σ} {c : C} (hprog : x.prog i = .op o k)
    (hstep : pieces.step i o (x.shared, x.call i) a (t, .inl c)) :
    Step pieces x (i, a) { x with shared := t, call := Function.update x.call i c }
  | return {x : Piecemeal ι Op Reply ε α σ C} {i : ι} {o : Op} {k : Reply o → Prog Op Reply ε α}
    {a : A} {t : σ} {r : Reply o} (hprog : x.prog i = .op o k)
    (hstep : pieces.step i o (x.shared, x.call i) a (t, .inr r)) :
    Step pieces x (i, a)
      { shared := t
        prog := Function.update x.prog i (k r)
        call := Function.update x.call i pieces.start }

/-- What is left of a program when the call it is in returns what it has come
to. -/
def Pieces.rest (pieces : Pieces ι Op Reply σ C A) (c : C) :
    Prog Op Reply ε α → Prog Op Reply ε α
  | .op o k => ((pieces.decided o c).map k).getD (.op o k)
  | p => p

theorem Pieces.rest_start (pieces : Pieces ι Op Reply σ C A) (p : Prog Op Reply ε α) :
    pieces.rest pieces.start p = p := by
  cases p with
  | op o k =>
    show ((pieces.decided o pieces.start).map k).getD (.op o k) = .op o k
    rw [pieces.decided_start]
    rfl
  | _ => rfl

/-- **The threads as if their calls were made at once**: a call that has come to
its reply has returned. -/
def Piecemeal.atomic (pieces : Pieces ι Op Reply σ C A) (view : σ → τ)
    (x : Piecemeal ι Op Reply ε α σ C) : Threads ι Op Reply ε α τ where
  shared := view x.shared
  prog i := pieces.rest (x.call i) (x.prog i)

/-- **Calls look as if they were made at once**: a step of a call changes
nothing that is seen, or the call has come to its reply with it, as by the
call at once. -/
def Pieces.Atomic (pieces : Pieces ι Op Reply σ C A) (view : σ → τ)
    (exec : ι → τ → Event Reply → τ → Prop)
    (cond : Threads ι Op Reply ε α τ → ι × Event Reply → Prop)
    (good : Piecemeal ι Op Reply ε α σ C → ι × A → Prop) : Prop :=
  ∀ (x : Piecemeal ι Op Reply ε α σ C) (i : ι) (o : Op) (k : Reply o → Prog Op Reply ε α)
    (a : A) (t : σ) (res : C ⊕ Reply o), x.prog i = .op o k → good x (i, a) →
    pieces.step i o (x.shared, x.call i) a (t, res) →
    (pieces.after o res = pieces.decided o (x.call i) ∧ view t = view x.shared) ∨
      (pieces.decided o (x.call i) = none ∧ ∃ r, pieces.after o res = some r ∧
        exec i (view x.shared) ⟨o, r⟩ (view t) ∧ cond (x.atomic pieces view) (i, ⟨o, r⟩))

section Atomic

variable [DecidableEq ι] {pieces : Pieces ι Op Reply σ C A} {view : σ → τ}
  {exec : ι → τ → Event Reply → τ → Prop}
  {cond : Threads ι Op Reply ε α τ → ι × Event Reply → Prop}
  {good : Piecemeal ι Op Reply ε α σ C → ι × A → Prop}
  {x y : Piecemeal ι Op Reply ε α σ C} {label : ι × A}

variable (view) in
/-- **What is seen of a step**: one thread goes on where its call is. -/
theorem Piecemeal.Step.cases (h : Piecemeal.Step pieces x label y) :
    ∃ o k res, x.prog label.1 = .op o k ∧
      pieces.step label.1 o (x.shared, x.call label.1) label.2 (y.shared, res) ∧
      y.atomic pieces view = ⟨view y.shared, Function.update (x.atomic pieces view).prog label.1
        (((pieces.after o res).map k).getD (.op o k))⟩ := by
  cases h with
  | @goOn i o k a t c hprog hstep =>
    refine ⟨o, k, .inl c, hprog, hstep, ?_⟩
    unfold Piecemeal.atomic
    congr 1
    funext j
    dsimp only
    by_cases hj : j = i
    · subst hj
      rw [Function.update_self, Function.update_self, hprog]
      rfl
    · rw [Function.update_of_ne hj, Function.update_of_ne hj]
  | @«return» i o k a t r hprog hstep =>
    refine ⟨o, k, .inr r, hprog, hstep, ?_⟩
    unfold Piecemeal.atomic
    congr 1
    funext j
    dsimp only
    by_cases hj : j = i
    · subst hj
      rw [Function.update_self, Function.update_self, Function.update_self, pieces.rest_start]
      rfl
    · rw [Function.update_of_ne hj, Function.update_of_ne hj, Function.update_of_ne hj]

/-- **A step is not seen, or is a call made at once.** -/
theorem Pieces.Atomic.step (h : pieces.Atomic view exec cond good) (hgood : good x label)
    (hstep : Piecemeal.Step pieces x label y) :
    y.atomic pieces view = x.atomic pieces view ∨
      ∃ e, Threads.Step exec (x.atomic pieces view) (label.1, e) (y.atomic pieces view) ∧
        cond (x.atomic pieces view) (label.1, e) := by
  obtain ⟨o, k, res, hprog, hpiece, hatomic⟩ := hstep.cases view
  have hrest : (x.atomic pieces view).prog label.1
      = ((pieces.decided o (x.call label.1)).map k).getD (.op o k) := by
    unfold Piecemeal.atomic
    dsimp only
    rw [hprog]
    rfl
  rcases h x label.1 o k label.2 y.shared res hprog hgood hpiece with
    ⟨hsame, hview⟩ | ⟨hnone, r, hafter, hexec, hcond⟩
  · refine Or.inl ?_
    rw [hatomic, hsame, ← hrest, Function.update_eq_self, hview]
    rfl
  · refine Or.inr ⟨⟨o, r⟩, ?_, hcond⟩
    rw [hnone] at hrest
    rw [hatomic, hafter]
    exact .call hrest hexec

/-- **Calls made in steps look like calls made at once in every run**: each of
these is made in one of the steps of its thread, in the order of time. -/
theorem Pieces.Atomic.run (h : pieces.Atomic view exec cond good)
    {steps : List (Piecemeal ι Op Reply ε α σ C × (ι × A))}
    (hrun : Run (Piecemeal.Step pieces) x steps y) (hgood : Meets good steps) :
    ∃ steps', Run (Threads.Step exec) (x.atomic pieces view) steps' (y.atomic pieces view) ∧
      Meets cond steps' ∧
      (steps'.map fun s => (s.1, s.2.1)).Sublist
        (steps.map fun s => (s.1.atomic pieces view, s.2.1)) := by
  induction hrun with
  | nil x => exact ⟨[], .nil _, fun _ hx => absurd hx List.not_mem_nil, .slnil⟩
  | @cons x y z label steps hstep _ ih =>
    obtain ⟨hlabel, hrest⟩ := meets_cons.mp hgood
    obtain ⟨steps', hrun', hcond, hsub⟩ := ih hrest
    rcases h.step hlabel hstep with hsame | ⟨e, hcall, hmeets⟩
    · rw [hsame] at hrun'
      exact ⟨steps', hrun', hcond, hsub.cons _⟩
    · exact ⟨_, .cons hcall hrun', meets_cons.mpr ⟨hmeets, hcond⟩, hsub.cons_cons _⟩

end Atomic

end Program
