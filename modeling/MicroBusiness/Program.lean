import Mathlib.Logic.Basic
import Mathlib.Tactic.Cases

/-!
# Programs that call on their surroundings

A program here is a tree: it returns, or fails, or calls an operation of its
surroundings and goes on with the reply. Operations and replies are
parameters, and so is what an operation does to the state of the
surroundings: a relation between the state before, the call with its reply
(an `Event`), and the state after.

* `Prog.Exec` is the execution of one program to its end.
* `Prog.Wp` is the weakest precondition of a postcondition on result and
  final state, computed along the tree; `Prog.wp_iff` says it is that. A
  triple about a program is proved by unfolding `Wp` along it.
* `Prog.outcome` is the result where each call has one reply, and `Prog.events` are
  the calls.
* `Prog.map` sends the result of a program through a function, and has the
  executions of the program (`Prog.exec_map_iff`).
* `Prog.MayCall` and `Prog.Follows` are about the calls that a program can
  still make, whatever the replies.
-/

namespace Program

variable {Op : Type} {Reply : Op → Type} {ε α σ : Type}

/-- A program: a tree of calls. -/
inductive Prog (Op : Type) (Reply : Op → Type) (ε α : Type)
  /-- Return a value. -/
  | ret (a : α)
  /-- Fail. -/
  | fail (e : ε)
  /-- Call an operation, and go on with its reply. -/
  | op (o : Op) (k : Reply o → Prog Op Reply ε α)

/-- A call together with its reply. -/
abbrev Event (Reply : Op → Type) := (o : Op) × Reply o

namespace Prog

/-- **The execution of a program**: the state of the surroundings it starts
in, its result, and the state it leaves. -/
inductive Exec (exec : σ → Event Reply → σ → Prop) :
    Prog Op Reply ε α → σ → Except ε α → σ → Prop
  | ret (a : α) (s : σ) : Exec exec (.ret a) s (.ok a) s
  | fail (e : ε) (s : σ) : Exec exec (.fail e) s (.error e) s
  | op {o : Op} {k : Reply o → Prog Op Reply ε α} {r : Reply o} {s t u : σ}
      {x : Except ε α} : exec s ⟨o, r⟩ t → Exec exec (k r) t x u → Exec exec (.op o k) s x u

/-- **The weakest precondition** of a postcondition. -/
def Wp (exec : σ → Event Reply → σ → Prop) (post : Except ε α → σ → Prop) :
    Prog Op Reply ε α → σ → Prop
  | .ret a, s => post (.ok a) s
  | .fail e, s => post (.error e) s
  | .op o k, s => ∀ r t, exec s ⟨o, r⟩ t → Wp exec post (k r) t

variable {exec : σ → Event Reply → σ → Prop} {post : Except ε α → σ → Prop}

/-- **The weakest precondition is the weakest**: it holds of a state exactly
when every execution from it meets the postcondition. -/
theorem wp_iff {p : Prog Op Reply ε α} {s : σ} :
    p.Wp exec post s ↔ ∀ x t, p.Exec exec s x t → post x t := by
  induction p generalizing s with
  | ret a =>
    constructor
    · intro h x t hx
      cases hx
      exact h
    · intro h
      exact h _ _ (.ret a s)
  | fail e =>
    constructor
    · intro h x t hx
      cases hx
      exact h
    · intro h
      exact h _ _ (.fail e s)
  | op o k ih =>
    constructor
    · intro h x t hx
      cases hx with
      | op hs hx => exact (ih _).mp (h _ _ hs) _ _ hx
    · intro h r t hs
      exact (ih r).mpr (fun x u hx => h x u (.op hs hx))

/-- A program with its result sent through a function. -/
def map {β : Type} (f : α → β) : Prog Op Reply ε α → Prog Op Reply ε β
  | .ret a => .ret (f a)
  | .fail e => .fail e
  | .op o k => .op o fun r => (k r).map f

/-- **Sending the result through a function changes nothing else**: the executions are
those of the program. -/
theorem exec_map_iff {β : Type} {f : α → β} {p : Prog Op Reply ε α} {s t : σ} {x : Except ε β} :
    (p.map f).Exec exec s x t ↔ ∃ y, p.Exec exec s y t ∧ x = y.map f := by
  induction p generalizing s with
  | ret a =>
    constructor
    · intro h
      cases h
      exact ⟨_, .ret a _, rfl⟩
    · rintro ⟨y, hy, rfl⟩
      cases hy
      exact .ret _ _
  | fail e =>
    constructor
    · intro h
      cases h
      exact ⟨_, .fail e _, rfl⟩
    · rintro ⟨y, hy, rfl⟩
      cases hy
      exact .fail e _
  | op o k ih =>
    constructor
    · intro h
      cases h with
      | op hs h =>
        obtain ⟨y, hy, hx⟩ := (ih _).mp h
        exact ⟨y, .op hs hy, hx⟩
    · rintro ⟨y, hy, rfl⟩
      cases hy with
      | op hs hy => exact .op hs ((ih _).mpr ⟨y, hy, rfl⟩)

/-- **The result of a program** in surroundings that have one reply to each
call. -/
def outcome (reply : (o : Op) → Reply o) : Prog Op Reply ε α → Except ε α
  | .ret a => .ok a
  | .fail e => .error e
  | .op o k => (k (reply o)).outcome reply

/-- The calls of a program in such surroundings. -/
def events (reply : (o : Op) → Reply o) : Prog Op Reply ε α → List (Event Reply)
  | .ret _ => []
  | .fail _ => []
  | .op o k => ⟨o, reply o⟩ :: (k (reply o)).events reply

/-- Where the surroundings determine the reply to each call and its effect, the weakest
precondition is about the result, and about the state that the calls lead to. -/
theorem wp_iff_of_determined {reply : (o : Op) → Reply o} {next : σ → Event Reply → σ}
    (hexec : ∀ s e t, exec s e t ↔ e.2 = reply e.1 ∧ t = next s e)
    {p : Prog Op Reply ε α} {s : σ} :
    p.Wp exec post s ↔ post (p.outcome reply) ((p.events reply).foldl next s) := by
  induction p generalizing s with
  | ret a => exact Iff.rfl
  | fail e => exact Iff.rfl
  | op o k ih =>
    constructor
    · intro h
      exact (ih _).mp (h (reply o) _ ((hexec _ _ _).mpr ⟨rfl, rfl⟩))
    · intro h r t hexecutes
      obtain ⟨hr, rfl⟩ := (hexec _ _ _).mp hexecutes
      obtain rfl : r = reply o := hr
      exact (ih _).mpr h

theorem wp_reply_iff {reply : (o : Op) → Reply o} {post : Except ε α → Prop}
    {p : Prog Op Reply ε α} :
    p.Wp (fun _ e (_ : Unit) => e.2 = reply e.1) (fun x _ => post x) ()
      ↔ post (p.outcome reply) := by
  have hexec : ∀ (s : Unit) (e : Event Reply) (t : Unit),
      e.2 = reply e.1 ↔ e.2 = reply e.1 ∧ t = (fun s _ => s) s e :=
    fun _ _ _ => (and_iff_left rfl).symm
  exact wp_iff_of_determined hexec

/-- Where each call has one reply and one effect, the weakest precondition is about the
result, and about the state that the calls lead to. -/
theorem wp_events_iff {reply : (o : Op) → Reply o} {next : σ → Event Reply → σ}
    {p : Prog Op Reply ε α} {s : σ} :
    p.Wp (fun s e t => e.2 = reply e.1 ∧ t = next s e) post s
      ↔ post (p.outcome reply) ((p.events reply).foldl next s) :=
  wp_iff_of_determined fun _ _ _ => Iff.rfl

/-- Whether a program may still make a call of a kind. -/
def MayCall (kind : Op → Prop) : Prog Op Reply ε α → Prop
  | .ret _ => False
  | .fail _ => False
  | .op o k => kind o ∨ ∃ r, (k r).MayCall kind

theorem MayCall.mono {kind kind' : Op → Prop} (himp : ∀ o, kind o → kind' o)
    {p : Prog Op Reply ε α} (h : p.MayCall kind) : p.MayCall kind' := by
  induction p with
  | ret a => exact h
  | fail e => exact h
  | op o k ih =>
    rcases h with ho | ⟨r, h⟩
    · exact Or.inl (himp o ho)
    · exact Or.inr ⟨r, ih r h⟩

/-- **A program follows a protocol**: from a state of the protocol on, it
makes only the calls that are allowed, where each call with its reply takes
the protocol to its next state. -/
def Follows {τ : Type} (allowed : τ → Op → Prop) (after : τ → Event Reply → τ) :
    Prog Op Reply ε α → τ → Prop
  | .ret _, _ => True
  | .fail _, _ => True
  | .op o k, t => allowed t o ∧ ∀ r, (k r).Follows allowed after (after t ⟨o, r⟩)

end Prog

end Program
