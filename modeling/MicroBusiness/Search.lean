import Mathlib.Data.List.Infix
import Mathlib.Data.List.Basic
import Mathlib.Tactic.Cases

/-!
# Searching a list for a word or a letter

The text the programs handle is cut by searches: the first occurrence of a
word, the first or the last occurrence of a letter, each from some position
on. This module has these searches over any alphabet, together with the
facts the parsers rest on: what a position found says about the text around
it, and which text in front of an occurrence can be skipped.

`Skips p x` says that a search for the word `p` passes over `x` whatever
follows. A stretch without the first letter of the word is passed over
(`skips_of_head_notMem`), and a letter foreign to the word separates what
stands before it from what stands after it (`skips_of_separator`).
-/

namespace Search

variable {α : Type*} [DecidableEq α]

/-- The position of the first occurrence of the word `p`. -/
def findSub (p : List α) : List α → Option ℕ
  | [] => if p = [] then some 0 else none
  | a :: s => if p <+: a :: s then some 0 else (findSub p s).map (· + 1)

/-- The position of the last occurrence of the letter `c`. -/
def findLast (c : α) (s : List α) : Option ℕ :=
  (s.reverse.idxOf? c).map (fun i => s.length - 1 - i)

/-- The position of the first occurrence of the letter `c` at or after the
position `k`. -/
def findFrom (c : α) (k : ℕ) (s : List α) : Option ℕ :=
  ((s.drop k).idxOf? c).map (· + k)

/-! ## Letters -/

omit [DecidableEq α] in
theorem exists_eq_append_cons_of_mem {c : α} {s : List α} (h : c ∈ s) :
    ∃ l t, s = l ++ c :: t ∧ c ∉ l := by
  obtain ⟨l, t, hs, hl⟩ := List.eq_append_cons_of_mem h
  exact ⟨l, t, hs, hl⟩

omit [DecidableEq α] in
theorem exists_eq_append_cons_of_mem_last {c : α} {s : List α} (h : c ∈ s) :
    ∃ l t, s = l ++ c :: t ∧ c ∉ t := by
  obtain ⟨l, t, hs, hl⟩ :=
    exists_eq_append_cons_of_mem (List.mem_reverse.mpr h)
  refine ⟨t.reverse, l.reverse, ?_, by simpa using hl⟩
  rw [← List.reverse_reverse s, hs]
  simp

@[simp] theorem idxOf?_append_cons {c : α} {l : List α} (t : List α)
    (h : c ∉ l) : (l ++ c :: t).idxOf? c = some l.length := by
  induction l with
  | nil => simp [List.idxOf?_cons]
  | cons a l ih =>
    rw [List.mem_cons, not_or] at h
    rw [List.cons_append, List.idxOf?_cons, ih h.2]
    simp [Ne.symm h.1]

@[simp] theorem findLast_append_cons {c : α} (l : List α) {t : List α}
    (h : c ∉ t) : findLast c (l ++ c :: t) = some l.length := by
  have hr : (l ++ c :: t).reverse = t.reverse ++ c :: l.reverse := by simp
  rw [findLast, hr, idxOf?_append_cons _ (by simpa using h)]
  simp only [Option.map_some, List.length_reverse, List.length_append,
    List.length_cons, Option.some.injEq]
  omega

theorem findLast_eq_none_iff {c : α} {s : List α} :
    findLast c s = none ↔ c ∉ s := by
  rw [findLast, Option.map_eq_none_iff, List.idxOf?_eq_none_iff,
    List.mem_reverse]

/-- **What a last letter found says**: the text splits there. -/
theorem findLast_eq_some_iff {c : α} {s : List α} {i : ℕ} :
    findLast c s = some i ↔ ∃ l t, s = l ++ c :: t ∧ c ∉ t ∧ l.length = i := by
  constructor
  · intro h
    have hm : c ∈ s := by
      by_contra hc
      rw [findLast_eq_none_iff.mpr hc] at h
      exact absurd h (by simp)
    obtain ⟨l, t, rfl, ht⟩ := exists_eq_append_cons_of_mem_last hm
    rw [findLast_append_cons l ht, Option.some.injEq] at h
    exact ⟨l, t, rfl, ht, h⟩
  · rintro ⟨l, t, rfl, ht, rfl⟩
    exact findLast_append_cons l ht

theorem getElem?_ne_of_findLast {c : α} {s : List α} {i j : ℕ} (h : findLast c s = some i)
    (hij : i < j) : s[j]? ≠ some c := by
  obtain ⟨l, t, rfl, ht, rfl⟩ := findLast_eq_some_iff.mp h
  intro hj
  rw [List.getElem?_append_right (by omega),
    show j - l.length = (j - l.length - 1) + 1 by omega, List.getElem?_cons_succ] at hj
  exact ht (List.mem_of_getElem? hj)

theorem getElem?_of_findLast {c : α} {s : List α} {i : ℕ} (h : findLast c s = some i) :
    s[i]? = some c := by
  obtain ⟨l, t, rfl, -, rfl⟩ := findLast_eq_some_iff.mp h
  simp

theorem lt_length_of_findLast {c : α} {s : List α} {i : ℕ} (h : findLast c s = some i) :
    i < s.length :=
  (List.getElem?_eq_some_iff.mp (getElem?_of_findLast h)).1

/-- Up to a position where the letter does not stand, its last occurrence is
before the position. -/
theorem lt_of_findLast_take {c : α} {s : List α} {k i : ℕ} (hk : s[k]? ≠ some c)
    (h : findLast c (s.take (k + 1)) = some i) : i < k := by
  have hget := getElem?_of_findLast h
  rw [List.getElem?_take] at hget
  split at hget
  · next hle =>
    rcases Nat.lt_or_ge i k with hlt | hge
    · exact hlt
    · rw [show i = k by omega] at hget
      exact absurd hget hk
  · cases hget

/-- **What a first letter found says**: the text splits there. -/
theorem idxOf?_eq_some_iff {c : α} {s : List α} {i : ℕ} :
    s.idxOf? c = some i ↔ ∃ l t, s = l ++ c :: t ∧ c ∉ l ∧ l.length = i := by
  constructor
  · intro h
    have hm : c ∈ s := by
      by_contra hc
      rw [List.idxOf?_eq_none_iff.mpr hc] at h
      exact absurd h (by simp)
    obtain ⟨l, t, rfl, hl⟩ := exists_eq_append_cons_of_mem hm
    rw [idxOf?_append_cons t hl, Option.some.injEq] at h
    exact ⟨l, t, rfl, hl, h⟩
  · rintro ⟨l, t, rfl, hl, rfl⟩
    exact idxOf?_append_cons t hl

theorem getElem?_of_idxOf? {c : α} {s : List α} {i : ℕ} (h : s.idxOf? c = some i) :
    s[i]? = some c := by
  obtain ⟨l, t, rfl, -, rfl⟩ := idxOf?_eq_some_iff.mp h
  simp

theorem lt_length_of_idxOf? {c : α} {s : List α} {i : ℕ} (h : s.idxOf? c = some i) :
    i < s.length :=
  (List.getElem?_eq_some_iff.mp (getElem?_of_idxOf? h)).1

omit [DecidableEq α] in
/-- A letter that follows some text stands first where the text has it first,
if the text has it at all. -/
theorem exists_first_cons (c : α) (l z : List α) :
    ∃ p q, l ++ c :: z = p ++ c :: q ∧ c ∉ p ∧ (c ∉ l → p = l ∧ q = z)
      ∧ (c ∈ l → z.length < q.length) := by
  by_cases h : c ∈ l
  · obtain ⟨p, q, rfl, hp⟩ := exists_eq_append_cons_of_mem h
    refine ⟨p, q ++ c :: z, by simp, hp, fun hc => absurd h hc, fun _ => ?_⟩
    rw [List.length_append, List.length_cons]
    omega
  · exact ⟨l, z, rfl, h, fun _ => ⟨rfl, rfl⟩, fun hc => absurd hc h⟩

omit [DecidableEq α] in
/-- **A text with a letter in it twice splits at the first and at the last.** -/
theorem eq_of_first_of_last {c : α} {m s u v : List α} (h : m ++ c :: s = u ++ c :: v)
    (hm : c ∉ m) (hne : u.length ≠ m.length) : ∃ p, u = m ++ c :: p ∧ s = p ++ c :: v := by
  rcases List.append_eq_append_iff.mp h with ⟨w, hu, hs⟩ | ⟨w, hm', hs⟩
  · cases w with
    | nil =>
      rw [List.append_nil] at hu
      exact absurd (congrArg List.length hu) hne
    | cons b w =>
      rw [List.cons_append, List.cons.injEq] at hs
      rw [← hs.1] at hu
      exact ⟨w, hu, hs.2⟩
  · cases w with
    | nil =>
      rw [List.append_nil] at hm'
      exact absurd (congrArg List.length hm').symm hne
    | cons b w =>
      rw [List.cons_append, List.cons.injEq] at hs
      rw [hm', hs.1] at hm
      exact absurd (List.mem_append_right u List.mem_cons_self) hm

/-- A search from `k` on starts after the first `k` letters. -/
theorem findFrom_append {c : α} (l s : List α) :
    findFrom c l.length (l ++ s) = (s.idxOf? c).map (· + l.length) := by
  rw [findFrom, List.drop_left]

theorem findFrom_of_length_le {c : α} {k : ℕ} {s : List α} (h : s.length ≤ k) :
    findFrom c k s = none := by
  rw [findFrom, List.drop_eq_nil_of_le h]
  rfl

/-- A position found from `k` on is not before `k`, and is inside the text. -/
theorem findFrom_bounds {c : α} {k i : ℕ} {s : List α}
    (h : findFrom c k s = some i) : k ≤ i ∧ i < s.length := by
  obtain ⟨j, hj, rfl⟩ := Option.map_eq_some_iff.mp h
  obtain ⟨l, r, hs, -, rfl⟩ := idxOf?_eq_some_iff.mp hj
  have hlen := congrArg List.length hs
  simp only [List.length_drop, List.length_append, List.length_cons] at hlen
  omega

/-! ## Words -/

theorem findSub_eq_zero {p s : List α} (h : p <+: s) :
    findSub p s = some 0 := by
  cases s with
  | nil => rw [findSub, if_pos (List.prefix_nil.mp h)]
  | cons a s => rw [findSub, if_pos h]

@[simp] theorem findSub_append_self (p t : List α) :
    findSub p (p ++ t) = some 0 :=
  findSub_eq_zero (List.prefix_append p t)

theorem findSub_nil_eq_some_iff {p : List α} {i : ℕ} :
    findSub p [] = some i ↔ p = [] ∧ 0 = i := by
  by_cases hp : p = []
  · simp [findSub, hp]
  · simp [findSub, hp]

theorem findSub_eq_succ {p : List α} {a : α} {s : List α}
    (h : ¬ p <+: a :: s) : findSub p (a :: s) = (findSub p s).map (· + 1) := by
  rw [findSub, if_neg h]

theorem findSub_eq_none_iff {p s : List α} :
    findSub p s = none ↔ ¬ p <:+: s := by
  induction s with
  | nil => simp [findSub]
  | cons a s ih =>
    by_cases h : p <+: a :: s
    · rw [findSub_eq_zero h]
      simp [h.isInfix]
    · rw [findSub_eq_succ h, Option.map_eq_none_iff, ih,
        List.infix_cons_iff, not_or]
      simp [h]

/-- **What a word found says**: the text splits around it. -/
theorem exists_of_findSub_eq_some {p s : List α} {i : ℕ}
    (h : findSub p s = some i) :
    ∃ l t, s = l ++ (p ++ t) ∧ l.length = i := by
  induction s generalizing i with
  | nil =>
    obtain ⟨rfl, rfl⟩ := findSub_nil_eq_some_iff.mp h
    exact ⟨[], [], rfl, rfl⟩
  | cons a s ih =>
    by_cases hpre : p <+: a :: s
    · rw [findSub_eq_zero hpre, Option.some.injEq] at h
      obtain ⟨t, ht⟩ := hpre
      exact ⟨[], t, by simp [ht], h⟩
    · rw [findSub_eq_succ hpre] at h
      obtain ⟨j, hj, rfl⟩ := Option.map_eq_some_iff.mp h
      obtain ⟨l, t, rfl, rfl⟩ := ih hj
      exact ⟨a :: l, t, rfl, rfl⟩

/-- A word found stays where it is when text is added at the end. -/
theorem findSub_append_right {p s : List α} {i : ℕ} (t : List α)
    (h : findSub p s = some i) : findSub p (s ++ t) = some i := by
  induction s generalizing i with
  | nil =>
    obtain ⟨rfl, rfl⟩ := findSub_nil_eq_some_iff.mp h
    exact findSub_eq_zero List.nil_prefix
  | cons a s ih =>
    by_cases hpre : p <+: a :: s
    · rw [findSub_eq_zero hpre] at h
      rw [← h]
      exact findSub_eq_zero (hpre.trans (List.prefix_append _ t))
    · rw [findSub_eq_succ hpre] at h
      obtain ⟨j, hj, rfl⟩ := Option.map_eq_some_iff.mp h
      -- the word occurs inside `s`, so it is no longer than `s`
      have hlen : p.length ≤ s.length := by
        obtain ⟨l, r, rfl, -⟩ := exists_of_findSub_eq_some hj
        simp only [List.length_append]
        omega
      have hpre' : ¬ p <+: (a :: s) ++ t := by
        intro hp
        exact hpre (List.prefix_of_prefix_length_le hp
          (List.prefix_append (a :: s) t) (by simp only [List.length_cons]; omega))
      rw [List.cons_append] at hpre' ⊢
      rw [findSub_eq_succ hpre', ih hj]
      rfl

/-! ## Text a search passes over -/

/-- **Text the search for a word passes over**: whatever follows it, no
occurrence begins in it. -/
def Skips (p x : List α) : Prop :=
  ∀ u, findSub p (x ++ u) = (findSub p u).map (· + x.length)

theorem Skips.findSub_append {p x : List α} (h : Skips p x) (t : List α) :
    findSub p (x ++ (p ++ t)) = some x.length := by
  rw [h, findSub_append_self, Option.map_some, Nat.zero_add]

theorem skips_nil (p : List α) : Skips p [] := by
  intro u
  rw [List.nil_append]
  exact Option.map_id'.symm

theorem Skips.append {p x y : List α} (hx : Skips p x) (hy : Skips p y) :
    Skips p (x ++ y) := by
  intro u
  rw [List.append_assoc, hx, hy, Option.map_map, List.length_append]
  congr 1
  funext i
  simp only [Function.comp_apply]
  omega

/-- **A stretch without the word's first letter is passed over.** -/
theorem skips_of_head_notMem {a : α} {p l : List α} (h : a ∉ l) : Skips (a :: p) l := by
  intro t
  induction l with
  | nil => simp
  | cons b l ih =>
    rw [List.mem_cons, not_or] at h
    have hpre : ¬ a :: p <+: b :: (l ++ t) := by
      intro hp
      exact h.1 (List.cons_prefix_cons.mp hp).1
    rw [List.cons_append, findSub_eq_succ hpre, ih h.2,
      Option.map_map]
    congr 1

/-- A stretch that begins as the word does and goes on otherwise is passed
over, if the word's first letter does not come back in it. -/
theorem skips_cons_of_ne {a b c : α} {p l : List α} (hbc : b ≠ c) (h : a ∉ c :: l) :
    Skips (a :: b :: p) (a :: c :: l) := by
  intro t
  have hpre : ¬ a :: b :: p <+: a :: ((c :: l) ++ t) := by
    intro hp
    exact hbc (List.cons_prefix_cons.mp (List.cons_prefix_cons.mp hp).2).1
  rw [List.cons_append, findSub_eq_succ hpre, skips_of_head_notMem h,
    Option.map_map]
  congr 1

/-- **A letter foreign to the word separates**: text without an occurrence is
passed over together with such a letter behind it. -/
theorem skips_of_separator {c : α} {p s : List α} (hc : c ∉ p)
    (hs : findSub p s = none) : Skips p (s ++ [c]) := by
  intro t
  rw [List.append_assoc, List.singleton_append]
  have hp : p ≠ [] := by
    rintro rfl
    rw [findSub_eq_zero List.nil_prefix] at hs
    exact absurd hs (by simp)
  induction s with
  | nil =>
    have hpre : ¬ p <+: c :: t := by
      intro h
      obtain ⟨a, q, rfl⟩ := List.exists_cons_of_ne_nil hp
      rw [(List.cons_prefix_cons.mp h).1] at hc
      exact hc List.mem_cons_self
    rw [List.nil_append, findSub_eq_succ hpre]
    rfl
  | cons a s ih =>
    have hnone : ¬ p <+: a :: s ∧ findSub p s = none := by
      by_cases hpre : p <+: a :: s
      · rw [findSub_eq_zero hpre] at hs
        exact absurd hs (by simp)
      · rw [findSub_eq_succ hpre, Option.map_eq_none_iff] at hs
        exact ⟨hpre, hs⟩
    -- an occurrence at the front would reach over the separator
    have hpre : ¬ p <+: (a :: s) ++ c :: t := by
      intro hp
      rcases Nat.lt_or_ge (a :: s).length p.length with hlt | hge
      · obtain ⟨r, hr⟩ := hp
        have hget : p[(a :: s).length]? = some c := by
          have h1 := congrArg (fun l => l[(a :: s).length]?) hr
          rw [List.getElem?_append_left hlt] at h1
          rw [h1]
          simp
        exact hc (List.mem_of_getElem? hget)
      · exact hnone.1 (List.prefix_of_prefix_length_le hp
          (List.prefix_append _ _) hge)
    rw [List.cons_append] at hpre ⊢
    rw [findSub_eq_succ hpre, ih hnone.2, Option.map_map]
    congr 1

/-! ## Words of two letters -/

/-- A two-letter word is found at the end of text that does not hold it. -/
theorem findSub_pair {a b : α} {l : List α} (t : List α) (hab : a ≠ b)
    (h : findSub [a, b] l = none) :
    findSub [a, b] (l ++ a :: b :: t) = some l.length := by
  induction l with
  | nil => exact findSub_append_self [a, b] t
  | cons x l ih =>
    have hnone : ¬ [a, b] <+: x :: l ∧ findSub [a, b] l = none := by
      by_cases hpre : [a, b] <+: x :: l
      · rw [findSub_eq_zero hpre] at h
        exact absurd h (by simp)
      · rw [findSub_eq_succ hpre, Option.map_eq_none_iff] at h
        exact ⟨hpre, h⟩
    have hpre : ¬ [a, b] <+: x :: (l ++ a :: b :: t) := by
      intro hp
      cases l with
      | nil =>
        have h2 := (List.cons_prefix_cons.mp hp).2
        exact hab (List.cons_prefix_cons.mp h2).1.symm
      | cons y l =>
        refine hnone.1 (List.prefix_of_prefix_length_le hp ?_ (by simp))
        exact List.prefix_append (x :: y :: l) (a :: b :: t)
    rw [List.cons_append, findSub_eq_succ hpre, ih hnone.2]
    rfl

/-- Text that has the second letter of a two-letter word once, and not behind
the first, does not hold the word. -/
theorem findSub_pair_eq_none_of_getLast {a b : α} {l r : List α} (hl : b ∉ l) (hr : b ∉ r)
    (hlast : l.getLast? ≠ some a) : findSub [a, b] (l ++ b :: r) = none := by
  rw [findSub_eq_none_iff]
  rintro ⟨u, v, huv⟩
  rw [show u ++ [a, b] ++ v = (u ++ [a]) ++ b :: v by simp] at huv
  have hsplit := ((List.append_cons_inj_of_notMem hl hr).mp huv.symm).1
  rw [hsplit] at hlast
  exact hlast (by simp)

theorem findSub_pair_eq_none {a b : α} {l : List α} (h : b ∉ l) :
    findSub [a, b] l = none := by
  rw [findSub_eq_none_iff]
  intro hi
  exact h (hi.subset (by simp))

end Search
