import Mathlib.Data.List.Basic
import Mathlib.Tactic.Cases

/-!
# What a list of steps sets

A list of steps is folded over a state, and each step sets one of the values that
can be read off the state, or leaves it alone. In the end such a value is the last
one set (`foldl_eq_getLastD`), and a table of declarations has an entry for each
name that was declared (`foldl_lookup`).
-/

namespace Folds

variable {σ α β κ υ : Type*} {f : σ → α → σ}

theorem foldl_eq_of_forall {g : σ → β} (h : ∀ s a, g (f s a) = g s) (s : σ) (xs : List α) :
    g (xs.foldl f s) = g s := by
  induction xs generalizing s with
  | nil => rfl
  | cons a xs ih => rw [List.foldl_cons, ih, h]

/-- **What steps set has the value of the last step that sets it.** -/
theorem foldl_eq_getLastD {g : σ → β} {set : α → Option β}
    (h : ∀ s a, g (f s a) = (set a).getD (g s)) (s : σ) (xs : List α) :
    g (xs.foldl f s) = (xs.filterMap set).getLastD (g s) := by
  induction xs generalizing s with
  | nil => rfl
  | cons a xs ih =>
    rw [List.foldl_cons, ih, h, List.filterMap_cons]
    cases set a with
    | none => rfl
    | some b => exact List.getLastD_cons.symm

/-- **Steps that declare different names** leave what each declares. -/
theorem foldl_lookup [BEq κ] [LawfulBEq κ] [DecidableEq κ] {g : σ → κ → Option υ}
    {d : α → Option (κ × υ)}
    (hnone : ∀ s a, d a = none → ∀ k, g (f s a) k = g s k)
    (hsome : ∀ s a name v, d a = some (name, v) → g s name = none →
      ∀ k, g (f s a) k = if name = k then some v else g s k)
    {xs : List α} (hnodup : ((xs.filterMap d).map Prod.fst).Nodup) {s : σ}
    (hs : ∀ name ∈ (xs.filterMap d).map Prod.fst, g s name = none) (k : κ) :
    g (xs.foldl f s) k = ((xs.filterMap d).lookup k).or (g s k) := by
  induction xs generalizing s with
  | nil => rfl
  | cons a xs ih =>
    rw [List.foldl_cons]
    rw [List.filterMap_cons] at hnodup hs ⊢
    cases hd : d a with
    | none =>
      rw [hd] at hnodup hs
      rw [ih hnodup (fun name hname => (hnone s a hd name).trans (hs name hname)),
        hnone s a hd]
    | some x =>
      obtain ⟨name, v⟩ := x
      rw [hd] at hnodup hs
      obtain ⟨hnotMem, hnodup⟩ := List.nodup_cons.mp hnodup
      obtain ⟨hname, hs⟩ := List.forall_mem_cons.mp hs
      have hlook := hsome s a name v hd hname
      rw [ih hnodup (fun name' hname' => ?_), hlook, List.lookup_cons]
      · by_cases hk : name = k
        · subst hk
          rw [if_pos rfl, beq_self_eq_true, List.lookup_eq_none_iff.mpr]
          · rfl
          · intro x hx
            rw [bne_iff_ne]
            intro heq
            exact hnotMem (List.mem_map.mpr ⟨x, hx, heq.symm⟩)
        · rw [if_neg hk, beq_false_of_ne (fun h => hk h.symm)]
      · rw [hlook, if_neg, hs name' hname']
        rintro rfl
        exact hnotMem hname'

end Folds
