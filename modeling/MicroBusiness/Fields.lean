import Mathlib.Data.List.Basic
import Mathlib.Tactic.Cases

/-!
# Fields and records

A text is read in records, each ended by a terminator, and a record in fields,
the longest runs without a separator. Both are functions on lists over any
alphabet.

`Spaced sep ws s` is the other direction: the text `s` is written as the fields
`ws`, set apart by separators. A text so written is read as these fields
(`Spaced.fields_eq`), and every text is written as its fields (`spaced_fields`). A
separator cuts a text in two that are read one after the other
(`fields_append_cons`), so separators at its ends do not matter.
-/

namespace Fields

variable {α : Type*} {sep : α → Bool}

/-- The longest runs without a separator. -/
def fields (sep : α → Bool) : List α → List (List α)
  | [] => []
  | a :: s =>
    if sep a then fields sep s
    else if s.head?.all sep then [a] :: fields sep s
    else (fields sep s).modifyHead (a :: ·)

/-- The texts up to each terminator, and what is behind the last one unless it is
empty. -/
def records (sep : α → Bool) : List α → List (List α)
  | [] => []
  | a :: s =>
    if sep a then [] :: records sep s
    else
      match records sep s with
      | [] => [[a]]
      | r :: rs => (a :: r) :: rs

/-! ## Reading fields -/

@[simp] theorem fields_cons_of_sep {a : α} (ha : sep a) (s : List α) :
    fields sep (a :: s) = fields sep s := by
  rw [fields, if_pos ha]

theorem fields_singleton {a : α} (ha : sep a = false) : fields sep [a] = [[a]] := by
  simp [fields, ha]

theorem fields_cons_cons_of_sep {a b : α} (ha : sep a = false) (hb : sep b) (s : List α) :
    fields sep (a :: b :: s) = [a] :: fields sep (b :: s) := by
  rw [fields]
  simp [ha, hb]

theorem fields_cons_cons {a b : α} (ha : sep a = false) (hb : sep b = false) (s : List α) :
    fields sep (a :: b :: s) = (fields sep (b :: s)).modifyHead (a :: ·) := by
  rw [fields]
  simp [ha, hb]

theorem fields_cons_ne_nil {a : α} (ha : sep a = false) (s : List α) :
    fields sep (a :: s) ≠ [] := by
  induction s generalizing a with
  | nil =>
    rw [fields_singleton ha]
    exact List.cons_ne_nil _ _
  | cons b s ih =>
    cases hb : sep b with
    | true =>
      rw [fields_cons_cons_of_sep ha hb]
      exact List.cons_ne_nil _ _
    | false =>
      rw [fields_cons_cons ha hb, Ne, List.modifyHead_eq_nil_iff]
      exact ih hb

theorem fields_of_forall_sep {s : List α} (h : ∀ a ∈ s, sep a) : fields sep s = [] := by
  induction s with
  | nil => rfl
  | cons a s ih =>
    rw [fields_cons_of_sep (h a List.mem_cons_self)]
    exact ih (fun b hb => h b (List.mem_cons_of_mem a hb))

/-- **A separator cuts a text**: what is in front of it is read, and then what is
behind it. -/
theorem fields_append_cons {a : α} (ha : sep a) (s t : List α) :
    fields sep (s ++ a :: t) = fields sep s ++ fields sep t := by
  induction s with
  | nil => exact fields_cons_of_sep ha t
  | cons b s ih =>
    rw [List.cons_append]
    cases hb : sep b with
    | true => rw [fields_cons_of_sep hb, fields_cons_of_sep hb, ih]
    | false =>
      cases s with
      | nil =>
        rw [List.nil_append, fields_cons_cons_of_sep hb ha, fields_singleton hb,
          fields_cons_of_sep ha]
        rfl
      | cons c s =>
        rw [List.cons_append] at ih ⊢
        cases hc : sep c with
        | true =>
          rw [fields_cons_cons_of_sep hb hc, ih, fields_cons_cons_of_sep hb hc, List.cons_append]
        | false =>
          have happend : ∀ l : List (List α), l ≠ [] → (l ++ fields sep t).modifyHead (b :: ·)
              = l.modifyHead (b :: ·) ++ fields sep t := by
            intro l hl
            cases l with
            | nil => exact absurd rfl hl
            | cons w l => rfl
          rw [fields_cons_cons hb hc, ih, happend _ (fields_cons_ne_nil hc s),
            fields_cons_cons hb hc]

theorem fields_append_of_forall_sep {b : List α} (h : ∀ a ∈ b, sep a) (s : List α) :
    fields sep (s ++ b) = fields sep s := by
  cases b with
  | nil => rw [List.append_nil]
  | cons a b =>
    obtain ⟨ha, hb⟩ := List.forall_mem_cons.mp h
    rw [fields_append_cons ha, fields_of_forall_sep hb, List.append_nil]

theorem fields_append_of_forall_sep_left {b : List α} (h : ∀ a ∈ b, sep a) (s : List α) :
    fields sep (b ++ s) = fields sep s := by
  induction b with
  | nil => rfl
  | cons a b ih =>
    obtain ⟨ha, hb⟩ := List.forall_mem_cons.mp h
    rw [List.cons_append, fields_cons_of_sep ha, ih hb]

theorem fields_eq_singleton {w : List α} (hne : w ≠ []) (h : ∀ a ∈ w, sep a = false) :
    fields sep w = [w] := by
  induction w with
  | nil => exact absurd rfl hne
  | cons a w ih =>
    obtain ⟨ha, hw⟩ := List.forall_mem_cons.mp h
    cases w with
    | nil => exact fields_singleton ha
    | cons b w =>
      rw [fields_cons_cons ha (hw b List.mem_cons_self), ih (List.cons_ne_nil _ _) hw]
      rfl

/-- **Fields have no separators**, and are not empty. -/
theorem of_mem_fields {s w : List α} (hw : w ∈ fields sep s) :
    w ≠ [] ∧ ∀ a ∈ w, sep a = false ∧ a ∈ s := by
  induction s generalizing w with
  | nil => exact absurd hw List.not_mem_nil
  | cons b s ih =>
    have hmono : ∀ {v : List α}, (v ≠ [] ∧ ∀ a ∈ v, sep a = false ∧ a ∈ s) →
        v ≠ [] ∧ ∀ a ∈ v, sep a = false ∧ a ∈ b :: s :=
      fun h => ⟨h.1, fun a ha => ⟨(h.2 a ha).1, List.mem_cons_of_mem b (h.2 a ha).2⟩⟩
    rw [fields] at hw
    split at hw
    · exact hmono (ih hw)
    · next hb =>
      rw [Bool.not_eq_true] at hb
      have hhead : sep b = false ∧ b ∈ b :: s := ⟨hb, List.mem_cons_self⟩
      split at hw
      · rcases List.mem_cons.mp hw with rfl | hw
        · refine ⟨List.cons_ne_nil _ _, fun a ha => ?_⟩
          rw [List.mem_singleton.mp ha]
          exact hhead
        · exact hmono (ih hw)
      · cases hfields : fields sep s with
        | nil =>
          rw [hfields] at hw
          exact absurd hw List.not_mem_nil
        | cons v vs =>
          rw [hfields, List.modifyHead_cons] at hw
          rcases List.mem_cons.mp hw with rfl | hw
          · have hv := ih (hfields ▸ List.mem_cons_self)
            refine ⟨List.cons_ne_nil _ _, List.forall_mem_cons.mpr ⟨hhead, ?_⟩⟩
            exact (hmono hv).2
          · exact hmono (ih (hfields ▸ List.mem_cons_of_mem v hw))

/-! ## Writing fields -/

/-- **A text written as fields** that are set apart by separators. -/
inductive Spaced (sep : α → Bool) : List (List α) → List α → Prop
  | blank {b : List α} : (∀ a ∈ b, sep a) → Spaced sep [] b
  | last {b w : List α} : (∀ a ∈ b, sep a) → Spaced sep [w] (b ++ w)
  | cons {b w s : List α} {a : α} {ws : List (List α)} : (∀ a ∈ b, sep a) → sep a →
      Spaced sep ws s → Spaced sep (w :: ws) (b ++ (w ++ a :: s))

theorem Spaced.cons_of_sep {ws : List (List α)} {s : List α} (h : Spaced sep ws s) {a : α}
    (ha : sep a) : Spaced sep ws (a :: s) := by
  cases h with
  | blank hb => exact .blank (List.forall_mem_cons.mpr ⟨ha, hb⟩)
  | @last b w hb =>
    rw [← List.cons_append]
    exact .last (List.forall_mem_cons.mpr ⟨ha, hb⟩)
  | @cons b w s c ws hb hc hs =>
    rw [← List.cons_append]
    exact .cons (List.forall_mem_cons.mpr ⟨ha, hb⟩) hc hs

/-- A letter in front of a field belongs to it. -/
theorem Spaced.cons_of_not_sep {ws : List (List α)} {b : α} {s : List α}
    (h : Spaced sep ws (b :: s)) (hb : sep b = false) (a : α) :
    Spaced sep (ws.modifyHead (a :: ·)) (a :: b :: s) := by
  -- nothing stands in front of the first field
  have hnil : ∀ {front rest : List α}, (∀ c ∈ front, sep c) → b :: s = front ++ rest →
      front = [] := by
    intro front rest hfront heq
    cases front with
    | nil => rfl
    | cons c front =>
      obtain ⟨rfl, -⟩ := List.cons.inj heq
      cases hb.symm.trans (hfront b List.mem_cons_self)
  generalize hs : b :: s = t at h
  cases h with
  | blank hblank =>
    cases hb.symm.trans (hblank b (hs ▸ List.mem_cons_self))
  | @last front w hfront =>
    obtain rfl := hnil hfront hs
    exact .last (b := []) (List.forall_mem_nil _)
  | @cons front w t c ws hfront hc ht =>
    obtain rfl := hnil hfront hs
    exact .cons (b := []) (w := a :: w) (List.forall_mem_nil _) hc ht

/-- **Every text is written as its fields.** -/
theorem spaced_fields : ∀ s : List α, Spaced sep (fields sep s) s
  | [] => .blank (List.forall_mem_nil _)
  | [a] => by
    cases ha : sep a with
    | true =>
      rw [fields_cons_of_sep ha]
      exact (spaced_fields []).cons_of_sep ha
    | false =>
      rw [fields_singleton ha]
      exact .last (b := []) (List.forall_mem_nil _)
  | a :: b :: s => by
    cases ha : sep a with
    | true =>
      rw [fields_cons_of_sep ha]
      exact (spaced_fields (b :: s)).cons_of_sep ha
    | false =>
      cases hb : sep b with
      | true =>
        rw [fields_cons_cons_of_sep ha hb, fields_cons_of_sep hb]
        exact .cons (b := []) (w := [a]) (List.forall_mem_nil _) hb (spaced_fields s)
      | false =>
        rw [fields_cons_cons ha hb]
        exact (spaced_fields (b :: s)).cons_of_not_sep hb a

/-- **A text is read as the fields it is written as**, also if more separates
fields than what was used to write it. -/
theorem Spaced.fields_eq {sep' : α → Bool} {ws : List (List α)} {s : List α} (h : Spaced sep ws s)
    (hsep : ∀ a, sep a → sep' a) (hws : ∀ w ∈ ws, w ≠ [] ∧ ∀ a ∈ w, sep' a = false) :
    fields sep' s = ws := by
  induction h with
  | blank hb => exact fields_of_forall_sep (fun a ha => hsep a (hb a ha))
  | last hb =>
    obtain ⟨hne, hw⟩ := hws _ List.mem_cons_self
    rw [fields_append_of_forall_sep_left (fun a ha => hsep a (hb a ha)),
      fields_eq_singleton hne hw]
  | cons hb ha _ ih =>
    obtain ⟨⟨hne, hw⟩, hws⟩ := List.forall_mem_cons.mp hws
    rw [fields_append_of_forall_sep_left (fun a ha => hsep a (hb a ha)),
      fields_append_cons (hsep _ ha), fields_eq_singleton hne hw, ih hws]
    rfl

/-- What a text that is written as fields consists of. -/
theorem Spaced.of_mem {ws : List (List α)} {s : List α} (h : Spaced sep ws s) {a : α}
    (ha : a ∈ s) : sep a ∨ ∃ w ∈ ws, a ∈ w := by
  induction h with
  | blank hb => exact Or.inl (hb a ha)
  | @last b w hb =>
    rcases List.mem_append.mp ha with ha | ha
    · exact Or.inl (hb a ha)
    · exact Or.inr ⟨w, List.mem_cons_self, ha⟩
  | @cons b w s c ws hb hc _ ih =>
    rcases List.mem_append.mp ha with ha | ha
    · exact Or.inl (hb a ha)
    · rcases List.mem_append.mp ha with ha | ha
      · exact Or.inr ⟨w, List.mem_cons_self, ha⟩
      · rcases List.mem_cons.mp ha with rfl | ha
        · exact Or.inl hc
        · refine (ih ha).imp_right ?_
          rintro ⟨v, hv, hav⟩
          exact ⟨v, List.mem_cons_of_mem w hv, hav⟩

end Fields
