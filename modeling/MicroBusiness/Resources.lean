import Mathlib.Data.List.Basic
import Mathlib.Data.List.Count
import Mathlib.Tactic.Cases

/-!
# Resources that are acquired and released

A log is a list of uses of resources: a resource is acquired, touched or released. A
use is proper where it acquires what is not held, or touches or releases what is.

A log is **balanced** if all its uses are proper and every resource has been released as
often as it was acquired. That is a statement about a whole log; what is followed along
a program is what the log holds so far (`Clean`), and a log is balanced exactly if it
is clean and holds nothing (`balanced_iff_clean`).
-/

namespace Resources

variable {η : Type*}

/-- A use of a resource. -/
inductive Use (η : Type*)
  | acquire (h : η)
  | touch (h : η)
  | release (h : η)
  deriving DecidableEq

variable [DecidableEq η]

/-- What is held behind a use. -/
def heldAfter (held : List η) : Use η → List η
  | .acquire h => h :: held
  | .touch _ => held
  | .release h => held.erase h

/-- What is held behind a log. -/
def held (log : List (Use η)) : List η := log.foldl heldAfter []

omit [DecidableEq η] in
/-- Whether a use is proper where these resources are held. -/
def Use.Proper (held : List η) : Use η → Prop
  | .acquire h => h ∉ held
  | .touch h => h ∈ held
  | .release h => h ∈ held

/-- Whether all uses of a log are proper, from these resources on. -/
def ProperFrom : List η → List (Use η) → Prop
  | _, [] => True
  | held, u :: log => u.Proper held ∧ ProperFrom (heldAfter held u) log

/-- **A balanced log**: nothing is touched or released that is not held, and what has been
acquired has been released as often. -/
structure Balanced (log : List (Use η)) : Prop where
  proper : ProperFrom [] log
  released : ∀ h : η, log.count (.acquire h) = log.count (.release h)

/-- **A clean log**: all its uses are proper, and it holds these resources. -/
structure Clean (log : List (Use η)) (hs : List η) : Prop where
  proper : ProperFrom [] log
  held : held log = hs

variable {log : List (Use η)} {hs : List η} {h : η}

theorem properFrom_append {held : List η} {log log' : List (Use η)} :
    ProperFrom held (log ++ log')
      ↔ ProperFrom held log ∧ ProperFrom (log.foldl heldAfter held) log' := by
  induction log generalizing held with
  | nil => exact (and_iff_right trivial).symm
  | cons u log ih => rw [List.cons_append, ProperFrom, ProperFrom, ih, List.foldl_cons, and_assoc]

theorem clean_nil : Clean ([] : List (Use η)) [] := ⟨trivial, rfl⟩

/-- A clean log with one more use that is proper. -/
theorem Clean.concat (hclean : Clean log hs) {u : Use η} (hu : u.Proper hs) :
    Clean (log ++ [u]) (heldAfter hs u) where
  proper := by
    refine properFrom_append.mpr ⟨hclean.proper, ?_, trivial⟩
    rw [← Resources.held, hclean.held]
    exact hu
  held := by
    rw [Resources.held, List.foldl_append, ← Resources.held, hclean.held]
    rfl

theorem count_heldAfter {held : List η} {u : Use η} (hu : u.Proper held) (h : η) :
    (heldAfter held u).count h + (if u = .release h then 1 else 0)
      = held.count h + (if u = .acquire h then 1 else 0) := by
  cases u with
  | acquire a => simp [heldAfter, List.count_cons]
  | touch a => simp [heldAfter]
  | release a =>
    rcases eq_or_ne a h with rfl | hne
    · have hpos := List.count_pos_iff.mpr hu
      simp only [heldAfter, List.count_erase_self, if_true, reduceCtorEq, if_false]
      omega
    · simp [heldAfter, List.count_erase_of_ne hne.symm, hne]

/-- **What has been acquired has been released, or is held.** -/
theorem count_acquire {held : List η} {log : List (Use η)} (hproper : ProperFrom held log)
    (h : η) : log.count (.acquire h) + held.count h
      = log.count (.release h) + (log.foldl heldAfter held).count h := by
  induction log generalizing held with
  | nil => rfl
  | cons u log ih =>
    obtain ⟨hu, hrest⟩ := hproper
    have hcount := ih hrest
    have hstep := count_heldAfter hu h
    simp only [List.foldl_cons, List.count_cons, beq_iff_eq]
    omega

/-- **A log is balanced exactly if it is clean and holds nothing.** -/
theorem balanced_iff_clean : Balanced log ↔ Clean log [] := by
  constructor
  · intro hbalanced
    refine ⟨hbalanced.proper, List.eq_nil_iff_forall_not_mem.mpr fun h => ?_⟩
    have hcount := count_acquire hbalanced.proper h
    rw [hbalanced.released h] at hcount
    exact List.count_eq_zero.mp (Nat.add_left_cancel hcount).symm
  · intro hclean
    refine ⟨hclean.proper, fun h => ?_⟩
    have hcount := count_acquire hclean.proper h
    rw [← Resources.held, hclean.held] at hcount
    exact Nat.add_right_cancel hcount

theorem Clean.not_balanced (hclean : Clean log (h :: hs)) : ¬ Balanced log := by
  intro hbalanced
  have hheld := hclean.held.symm.trans (balanced_iff_clean.mp hbalanced).held
  cases hheld

end Resources
