import Mathlib.Data.Int.Basic
import Mathlib.Data.List.Basic
import Mathlib.Tactic.Cases
import Mathlib.Tactic.NormNum

/-!
# Positions of a string in machine integers

A search of a string returns an unsigned 64-bit position, and the largest
unsigned number `npos` when it fails. Programs store what it returns in a
signed 32-bit integer, compute with that, and hand it back where an unsigned
position is expected.

This module has the conversions between the two, the arithmetic of the signed
one, and the operations on a string that take a position. All of them are
checked: an operation whose position is not one of the string, or a stored
result that tells a failed search from a successful one wrongly, is a
`Misuse`. Nothing of the kind happens to what a search of a string shorter
than `2 ^ 31` returns (`store_eq`).

What is converted to a signed integer is cut to its bits (`wrap`), and so is a
sum or a difference, unless it is formed by `succ`: the next position of one
that has none is a `Misuse` too.
-/

namespace Positions

/-- What can go wrong with a position. -/
inductive Misuse
  /-- A part of a string is asked for, or text inserted, behind its end. -/
  | start
  /-- The letter at a position that the string does not have. -/
  | index
  /-- A stored result reads as a failure where the search succeeded, or the
  other way round. -/
  | mistaken
  /-- A loop over positions has not ended in time. -/
  | endless
  /-- The position behind the largest signed number. -/
  | overflow
  deriving DecidableEq, Repr

/-! ## Unsigned and signed numbers -/

/-- The largest unsigned number, which stands for a failed search. -/
def npos : ℕ := 2 ^ 64 - 1

/-- What a search returns. -/
def result (found : Option ℕ) : ℕ := found.getD npos

/-- The signed number with the bits of another one. -/
def wrap (z : ℤ) : ℤ := z.bmod (2 ^ 32)

/-- The unsigned number that a signed one is converted to. -/
def toSize (z : ℤ) : ℕ := (z % 2 ^ 64).toNat

/-- The unsigned number below another one. -/
def pred (n : ℕ) : ℕ := (n + npos) % 2 ^ 64

/-- The signed number behind another one, if there is one. -/
def succ (z : ℤ) : Except Misuse ℤ := if z + 1 < 2 ^ 31 then .ok (z + 1) else .error .overflow

/-- The result of a search, stored in a signed number: it has to compare equal
to `npos` exactly when the search has failed. -/
def store (found : Option ℕ) : Except Misuse ℤ :=
  let pos := wrap (result found)
  if toSize pos = npos ↔ found = none then .ok pos else .error .mistaken

/-- What is stored where nothing is lost: the position, or minus one. -/
def stored : Option ℕ → ℤ
  | some i => i
  | none => -1

theorem wrap_eq_self {z : ℤ} (hlo : -2 ^ 31 ≤ z) (hhi : z < 2 ^ 31) : wrap z = z := by
  unfold wrap
  rw [Int.bmod_def]
  norm_num at hlo hhi ⊢
  split <;> omega

theorem wrap_natCast_le (n : ℕ) : wrap n ≤ n := by
  unfold wrap
  rw [Int.bmod_def]
  norm_num
  split <;> omega

/-- **A number is not wrapped exactly if it fits.** -/
theorem wrap_natCast_eq_iff (n : ℕ) : wrap n = n ↔ n < 2 ^ 31 := by
  refine ⟨fun h => ?_, fun h => wrap_eq_self (by omega) (by omega)⟩
  unfold wrap at h
  rw [Int.bmod_def] at h
  norm_num at h ⊢
  split at h <;> omega

theorem wrap_natCast_nonpos {n : ℕ} (hlo : 2 ^ 31 ≤ n) (hhi : n ≤ 2 ^ 32) : wrap n ≤ 0 := by
  unfold wrap
  rw [Int.bmod_def]
  norm_num at hlo hhi ⊢
  split <;> omega

theorem succ_eq {n : ℕ} (h : n + 1 < 2 ^ 31) : succ n = .ok ((n + 1 : ℕ) : ℤ) :=
  if_pos (by omega)

theorem toSize_natCast {n : ℕ} (h : n < 2 ^ 64) : toSize n = n := by
  unfold toSize
  norm_num at h ⊢
  omega

theorem pred_eq {n : ℕ} (hpos : 0 < n) (h : n < 2 ^ 64) : pred n = n - 1 := by
  unfold pred npos
  norm_num at h ⊢
  omega

theorem toSize_stored_none : toSize (stored none) = npos := by
  decide

theorem toSize_stored_some {i : ℕ} (h : i < 2 ^ 31) : toSize (stored (some i)) ≠ npos := by
  rw [stored, toSize_natCast (by omega)]
  unfold npos
  omega

/-- Only minus one is converted to `npos`, among the numbers that a position
is stored in. -/
theorem toSize_stored_eq_npos_iff {found : Option ℕ} (h : ∀ i, found = some i → i < 2 ^ 31) :
    toSize (stored found) = npos ↔ found = none := by
  cases found with
  | none => exact iff_of_true toSize_stored_none rfl
  | some i => exact iff_of_false (toSize_stored_some (h i rfl)) (Option.some_ne_none i)

/-- **Positions below `2 ^ 31` are stored without loss.** -/
theorem store_eq {found : Option ℕ} (h : ∀ i, found = some i → i < 2 ^ 31) :
    store found = .ok (stored found) := by
  have hwrap : wrap (result found) = stored found := by
    cases found with
    | none => decide
    | some i =>
      have hi := h i rfl
      exact wrap_eq_self (by simp only [result, Option.getD_some]; omega)
        (by simp only [result, Option.getD_some]; omega)
  unfold store
  dsimp only
  rw [hwrap, if_pos (toSize_stored_eq_npos_iff h)]

/-- A position below `2 ^ 31` survives the way there and back. -/
theorem toSize_wrap {n : ℕ} (h : n < 2 ^ 31) : toSize (wrap n) = n := by
  rw [wrap_eq_self (by omega) (by omega), toSize_natCast (by omega)]

theorem toSize_wrap_succ {n : ℕ} (h : n + 1 < 2 ^ 31) : toSize (wrap (n + 1)) = n + 1 :=
  toSize_wrap h

/-- The next position of one below `2 ^ 31`, which is not one before it even where
it overflows. -/
theorem le_toSize_wrap {n : ℕ} (h : n ≤ 2 ^ 31) : n ≤ toSize (wrap n) := by
  rcases Nat.lt_or_ge n (2 ^ 31) with hlt | hge
  · exact (toSize_wrap hlt).ge
  · obtain rfl : n = 2 ^ 31 := le_antisymm h hge
    decide

/-! ## Operations at a position -/

section Operations

variable {α : Type*}

theorem ok_bind {β γ : Type} (a : β) (f : β → Except Misuse γ) : (Except.ok a >>= f) = f a := rfl

/-- At most `n` letters from a position on. -/
def substr (s : List α) (pos n : ℕ) : Except Misuse (List α) :=
  if pos ≤ s.length then .ok ((s.drop pos).take n) else .error .start

/-- Text inserted in front of a position. -/
def insert (s : List α) (pos : ℕ) (w : List α) : Except Misuse (List α) :=
  if pos ≤ s.length then .ok (s.take pos ++ (w ++ s.drop pos)) else .error .start

/-- The letter at a position. -/
def index (s : List α) (pos : ℕ) : Except Misuse α :=
  match s[pos]? with
  | some a => .ok a
  | none => .error .index

theorem substr_eq {s : List α} {pos : ℕ} (h : pos ≤ s.length) (n : ℕ) :
    substr s pos n = .ok ((s.drop pos).take n) :=
  if_pos h

theorem insert_eq {s : List α} {pos : ℕ} (h : pos ≤ s.length) (w : List α) :
    insert s pos w = .ok (s.take pos ++ (w ++ s.drop pos)) :=
  if_pos h

theorem substr_npos {s : List α} {pos : ℕ} (h : pos ≤ s.length) (hlen : s.length ≤ npos) :
    substr s pos npos = .ok (s.drop pos) := by
  rw [substr_eq h, List.take_of_length_le]
  rw [List.length_drop]
  omega

/-- **All but the last letter**, also of the empty string, whose length minus
one is `npos`. -/
theorem substr_pred {s : List α} (hlen : s.length ≤ npos) :
    substr s 0 (pred s.length) = .ok s.dropLast := by
  rw [substr_eq (Nat.zero_le _), List.drop_zero]
  cases s with
  | nil => rw [List.take_nil, List.dropLast_nil]
  | cons a s =>
    have hlt : (a :: s).length < 2 ^ 64 := by
      unfold npos at hlen
      omega
    rw [pred_eq (List.length_pos_iff.mpr (List.cons_ne_nil a s)) hlt, List.dropLast_eq_take]

end Operations

end Positions
