import MicroBusiness.Search
import Mathlib.Data.List.TakeWhile

/-!
# Inserting a line behind the first line of each message

A message passes on with a tag, a line of its own, inserted behind its first
line, and messages follow each other without a gap. The letter that ends a
line, the tag, and which lines may begin a message are parameters.

The text that passes on shows where the messages began: whoever cuts the
same text into pieces and passes these on in the same way gets the same
result only by cutting it into the same messages (`eq_of_insertLine_eq`).
This holds although a message may itself contain the tag as a line, and
although a piece may begin in the middle of a line. It needs three things:
the tag lacks a letter that every beginning line has, messages are whole
lines, and the first line of a message has no shorter ending that could
begin a message.
-/

namespace LineInsertion

open Search

variable {α : Type*} [DecidableEq α]

/-- The first line of a text, without the letter that ends it. -/
def firstLine (sep : α) (x : List α) : List α := x.takeWhile (· ≠ sep)

/-- A text with the tag inserted behind its first line, or in front if it
has no line end. -/
def insertLine (sep : α) (k x : List α) : List α :=
  match x.idxOf? sep with
  | some i => x.take (i + 1) ++ (k ++ sep :: x.drop (i + 1))
  | none => k ++ sep :: x

variable {sep : α} {k : List α}

theorem firstLine_append {l : List α} (r : List α) (h : sep ∉ l) :
    firstLine sep (l ++ sep :: r) = l := by
  have hall : ∀ b ∈ l, decide (b ≠ sep) = true := by
    intro b hb
    rw [decide_eq_true_eq]
    rintro rfl
    exact h hb
  unfold firstLine
  rw [List.takeWhile_append_of_pos hall, List.takeWhile_cons_of_neg (by simp), List.append_nil]

theorem firstLine_of_notMem {x : List α} (h : sep ∉ x) : firstLine sep x = x := by
  unfold firstLine
  rw [List.takeWhile_eq_self_iff]
  intro b hb
  rw [decide_eq_true_eq]
  rintro rfl
  exact h hb

theorem insertLine_append {l : List α} (r : List α) (h : sep ∉ l) :
    insertLine sep k (l ++ sep :: r) = l ++ sep :: (k ++ sep :: r) := by
  unfold insertLine
  rw [idxOf?_append_cons r h]
  dsimp only
  rw [← List.drop_drop, List.drop_left, List.take_append, List.take_of_length_le (by omega)]
  simp

theorem insertLine_of_notMem {x : List α} (h : sep ∉ x) :
    insertLine sep k x = k ++ sep :: x := by
  unfold insertLine
  rw [List.idxOf?_eq_none_iff.mpr h]

/-- Texts with the same first letter `c` behind different beginnings. -/
theorem append_cons_inj_of_first {c : α} {l l' s s' : List α} (hl : c ∉ l) (hl' : c ∉ l')
    (h : l ++ c :: s = l' ++ c :: s') : l = l' ∧ s = s' := by
  have hfirst := congrArg (firstLine c) h
  rw [firstLine_append s hl, firstLine_append s' hl'] at hfirst
  subst hfirst
  rw [List.append_cancel_left_eq, List.cons.injEq] at h
  exact ⟨rfl, h.2⟩

/-! ## Tags in a row -/

/-- The tag as a line, a number of times. -/
def tags (sep : α) (k : List α) (n : ℕ) : List α := (List.replicate n (k ++ [sep])).flatten

omit [DecidableEq α] in
theorem tags_zero : tags sep k 0 = [] := rfl

omit [DecidableEq α] in
theorem tags_succ_append (n : ℕ) (s : List α) :
    tags sep k (n + 1) ++ s = k ++ sep :: (tags sep k n ++ s) := by
  unfold tags
  rw [List.replicate_succ, List.flatten_cons]
  simp

omit [DecidableEq α] in
theorem tags_append_tag (n : ℕ) (s : List α) :
    tags sep k n ++ (k ++ sep :: s) = tags sep k (n + 1) ++ s := by
  induction n with
  | zero =>
    rw [tags_succ_append]
    rfl
  | succ n ih =>
    rw [tags_succ_append n, ih, tags_succ_append (n + 1)]

omit [DecidableEq α] in
theorem length_tags (n : ℕ) : (tags sep k n).length = n * (k.length + 1) := by
  unfold tags
  simp

/-- **Tags in front of a line that is not the tag**: as many as in front of
another such text, unless that one goes on with the tag. -/
theorem tags_append_cases (hk : sep ∉ k) {c d a b : List α} (hc : sep ∉ c) (hd : sep ∉ d)
    (hck : c ≠ k) {n m : ℕ}
    (h : tags sep k n ++ (d ++ sep :: a) = tags sep k m ++ (c ++ sep :: b)) :
    n = m ∧ d = c ∧ a = b
      ∨ d = k ∧ tags sep k (n + 1) ++ a = tags sep k m ++ (c ++ sep :: b) := by
  induction n generalizing m with
  | zero =>
    cases m with
    | zero => exact Or.inl ⟨rfl, append_cons_inj_of_first hd hc h⟩
    | succ m =>
      rw [tags_succ_append] at h
      obtain ⟨rfl, -⟩ := append_cons_inj_of_first hd hk h
      refine Or.inr ⟨rfl, ?_⟩
      rw [tags_succ_append, tags_succ_append]
      exact h
  | succ n ih =>
    rw [tags_succ_append] at h
    cases m with
    | zero =>
      obtain ⟨rfl, -⟩ := append_cons_inj_of_first hk hc h
      exact absurd rfl hck
    | succ m =>
      rw [tags_succ_append] at h
      obtain ⟨-, h⟩ := append_cons_inj_of_first hk hk h
      rcases ih h with ⟨rfl, hdc, hab⟩ | ⟨hdk, hrest⟩
      · exact Or.inl ⟨rfl, hdc, hab⟩
      · refine Or.inr ⟨hdk, ?_⟩
        rw [tags_succ_append (n + 1), tags_succ_append m, hrest]

/-- One line read on both sides, each with tags behind it: the tags can be
kept count of, since a line that is the tag has none behind it. -/
theorem tags_step (hk : sep ∉ k) {c a b : List α} (hc : sep ∉ c) {n m i j : ℕ}
    (hij : c = k → i = 0 ∧ j = 0)
    (h : tags sep k n ++ (c ++ sep :: (tags sep k i ++ a))
      = tags sep k m ++ (c ++ sep :: (tags sep k j ++ b))) :
    ∃ n' m', tags sep k n' ++ a = tags sep k m' ++ b ∧ (n' = m' → n = m ∧ i = j) := by
  by_cases hck : c = k
  · obtain ⟨rfl, rfl⟩ := hij hck
    subst hck
    rw [tags_append_tag, tags_append_tag] at h
    exact ⟨n + 1, m + 1, h, fun heq => ⟨Nat.succ.inj heq, rfl⟩⟩
  · rcases tags_append_cases hk hc hc hck h with ⟨hnm, -, hrest⟩ | ⟨hck', -⟩
    · exact ⟨i, j, hrest, fun heq => ⟨hnm, heq⟩⟩
    · exact absurd hck' hck

/-! ## Cutting a text into messages -/

/-- **A message**: its first line may begin a message, and no shorter ending
of that line may; behind its first line there are whole lines. -/
structure Message (sep : α) (begins : List α → Prop) (q : List α) : Prop where
  exists_line : ∃ l r, q = l ++ sep :: r ∧ sep ∉ l ∧ begins l
    ∧ (∀ u v, l = u ++ v → begins v → u = []) ∧ (r = [] ∨ r.getLast? = some sep)

omit [DecidableEq α] in
theorem eq_nil_of_getLast {h : List α} (hh : h = [] ∨ h.getLast? = some sep) (hsep : sep ∉ h) :
    h = [] := by
  rcases hh with hh | hh
  · exact hh
  · exact absurd (List.mem_of_getLast? hh) hsep

omit [DecidableEq α] in
theorem getLast_of_append {c r : List α} (h : (c ++ sep :: r).getLast? = some sep) :
    r = [] ∨ r.getLast? = some sep := by
  cases r with
  | nil => exact Or.inl rfl
  | cons b r =>
    rw [List.getLast?_append, List.getLast?_cons_cons] at h
    cases hr : (b :: r).getLast? with
    | none => simp at hr
    | some y =>
      rw [hr, Option.some_or] at h
      rw [h]
      exact Or.inr rfl

/-- **The next line** `c` of some text followed by pieces, what remains behind
it, and whether it ends in a piece, and so has a tag behind it. -/
inductive Next (sep : α) (begins : List α → Prop) :
    List α → List (List α) → List α → ℕ → List α → List (List α) → Prop
  | inside {c r : List α} {X : List (List α)} :
      sep ∉ c → Next sep begins (c ++ sep :: r) X c 0 r X
  | piece {l r r' : List α} {X : List (List α)} :
      sep ∉ r → sep ∉ l → begins l → Next sep begins r ((l ++ sep :: r') :: X) (r ++ l) 1 r' X

section Next

variable {begins : List α → Prop} {t : α} {r r' c : List α} {X X' : List (List α)} {i : ℕ}

omit [DecidableEq α] in
theorem Next.notMem (h : Next sep begins r X c i r' X') : sep ∉ c := by
  cases h with
  | inside hc => exact hc
  | piece hr hl _ =>
    rw [List.mem_append, not_or]
    exact ⟨hr, hl⟩

omit [DecidableEq α] in
/-- The text is the line, and what remains. -/
theorem Next.flatten (h : Next sep begins r X c i r' X') :
    r ++ X.flatten = c ++ sep :: (r' ++ X'.flatten) := by
  cases h with
  | inside hc => simp
  | piece hr hl _ => simp

/-- What passes on is the line, the tag if there is one, and what remains. -/
theorem Next.flatMap (h : Next sep begins r X c i r' X') :
    r ++ X.flatMap (insertLine sep k)
      = c ++ sep :: (tags sep k i ++ (r' ++ X'.flatMap (insertLine sep k))) := by
  cases h with
  | inside hc =>
    rw [tags_zero]
    simp
  | piece hr hl _ =>
    rw [List.flatMap_cons, insertLine_append r' hl, tags_succ_append, tags_zero]
    simp

omit [DecidableEq α] in
theorem Next.eq_zero (h : Next sep begins r X c i r' X') (hbegins : ∀ l, begins l → t ∈ l)
    (ht : t ∉ c) : i = 0 := by
  cases h with
  | inside hc => rfl
  | piece hr hl hb => exact absurd (List.mem_append_right r (hbegins _ hb)) ht

omit [DecidableEq α] in
theorem Next.length_lt (h : Next sep begins r X c i r' X') :
    (r' ++ X'.flatten).length + X'.length < (r ++ X.flatten).length + X.length := by
  rw [h.flatten]
  cases h with
  | inside hc =>
    simp only [List.length_append, List.length_cons]
    omega
  | piece hr hl _ =>
    simp only [List.length_append, List.length_cons]
    omega

/-- The next line of pieces that begin as messages do: unless the next piece
has no line end at all. -/
theorem exists_next_of_pieces (hX : ∀ x ∈ X, begins (firstLine sep x))
    (hmem : sep ∈ r ++ X.flatten) :
    (∃ c i r' X', Next sep begins r X c i r' X' ∧ ∀ x ∈ X', begins (firstLine sep x))
      ∨ sep ∉ r ∧ ∃ x X', X = x :: X' ∧ sep ∉ x := by
  by_cases hr : sep ∈ r
  · obtain ⟨c, r', rfl, hc⟩ := exists_eq_append_cons_of_mem hr
    exact Or.inl ⟨c, 0, r', X, .inside hc, hX⟩
  · cases X with
    | nil =>
      rw [List.flatten_nil, List.append_nil] at hmem
      exact absurd hmem hr
    | cons x X =>
      by_cases hx : sep ∈ x
      · obtain ⟨l, r', rfl, hl⟩ := exists_eq_append_cons_of_mem hx
        have hb := hX _ List.mem_cons_self
        rw [firstLine_append r' hl] at hb
        exact Or.inl ⟨r ++ l, 1, r', X, .piece hr hl hb,
          fun y hy => hX y (List.mem_cons_of_mem _ hy)⟩
      · exact Or.inr ⟨hr, x, X, rfl, hx⟩

omit [DecidableEq α] in
/-- The next line of messages. -/
theorem exists_next_of_messages (hr : r = [] ∨ r.getLast? = some sep)
    (hX : ∀ x ∈ X, Message sep begins x) (hne : r ++ X.flatten ≠ []) :
    ∃ c i r' X', Next sep begins r X c i r' X' ∧ (r' = [] ∨ r'.getLast? = some sep)
      ∧ ∀ x ∈ X', Message sep begins x := by
  by_cases hsep : sep ∈ r
  · obtain ⟨c, r', rfl, hc⟩ := exists_eq_append_cons_of_mem hsep
    rcases hr with hr | hr
    · exact absurd hr (by simp)
    · exact ⟨c, 0, r', X, .inside hc, getLast_of_append hr, hX⟩
  · have hnil := eq_nil_of_getLast hr hsep
    subst hnil
    cases X with
    | nil => exact absurd rfl hne
    | cons x X =>
      obtain ⟨l, r', rfl, hl, hb, -, hlast⟩ := (hX x List.mem_cons_self).exists_line
      exact ⟨l, 1, r', X, .piece hsep hl hb, hlast,
        fun y hy => hX y (List.mem_cons_of_mem _ hy)⟩

end Next

omit [DecidableEq α] in
theorem exists_eq_append_of_notMem {w s c z : List α} (hw : sep ∉ w)
    (h : w ++ s = c ++ sep :: z) : ∃ y, c = w ++ y := by
  rcases List.append_eq_append_iff.mp h with ⟨y, hc, -⟩ | ⟨y, rfl, hy⟩
  · exact ⟨y, hc⟩
  · cases y with
    | nil => exact ⟨[], by simp⟩
    | cons b y =>
      rw [List.cons_append, List.cons.injEq] at hy
      rw [← hy.1] at hw
      exact absurd (List.mem_append_right c List.mem_cons_self) hw

omit [DecidableEq α] in
theorem eq_nil_of_flatten_eq_nil {X : List (List α)} (h : ∀ x ∈ X, x ≠ [])
    (hflat : X.flatten = []) : X = [] := by
  cases X with
  | nil => rfl
  | cons x X =>
    rw [List.flatten_cons, List.append_eq_nil_iff] at hflat
    exact absurd hflat.1 (h x List.mem_cons_self)

section Main

variable {begins : List α → Prop} {t : α} {r h r' h' c : List α} {X Q X' Q' : List (List α)}
  {i j : ℕ}

/-- Where the next line is the same and has a tag behind it on both sides or
on neither, and what remains is the same, all is the same. -/
theorem Next.eq_of_eq (hx : Next sep begins r X c i r' X') (hq : Next sep begins h Q c j r' X')
    (hij : i = j) (hQ : ∀ q ∈ Q, Message sep begins q) (hh : h = [] ∨ h.getLast? = some sep) :
    r = h ∧ X = Q := by
  subst hij
  cases hx with
  | inside hc =>
    cases hq with
    | inside _ => exact ⟨rfl, rfl⟩
  | @piece l _ _ _ hr hl hb =>
    generalize hc : r ++ l = c at hq
    cases hq with
    | @piece l' _ _ _ hh' hl' hb' =>
      have hnil := eq_nil_of_getLast hh hh'
      subst hnil
      obtain ⟨l₀, r₀, hsplit, hl₀, -, hmin, -⟩ := (hQ _ List.mem_cons_self).exists_line
      obtain ⟨rfl, -⟩ := append_cons_inj_of_first hl' hl₀ hsplit
      -- the piece begins in the message's first line
      rw [List.nil_append] at hc
      have hrnil := hmin r l hc.symm hb
      subst hrnil
      rw [List.nil_append] at hc
      subst hc
      exact ⟨rfl, rfl⟩

omit [DecidableEq α] in
theorem Message.ne_nil {q : List α} (h : Message sep begins q) : q ≠ [] := by
  rintro rfl
  obtain ⟨l, r, hnil, -⟩ := h.exists_line
  exact absurd hnil (by simp)

theorem eq_of_nothing_left {n m : ℕ} (hX : ∀ x ∈ X, x ≠ []) (hQ : ∀ q ∈ Q, q ≠ [])
    (hrX : r ++ X.flatten = []) (hhQ : h ++ Q.flatten = [])
    (hT : tags sep k n ++ (r ++ X.flatMap (insertLine sep k))
      = tags sep k m ++ (h ++ Q.flatMap (insertLine sep k))) : n = m ∧ r = h ∧ X = Q := by
  rw [List.append_eq_nil_iff] at hrX hhQ
  obtain ⟨rfl, hXnil⟩ := hrX
  obtain ⟨rfl, hQnil⟩ := hhQ
  rw [eq_nil_of_flatten_eq_nil hX hXnil, eq_nil_of_flatten_eq_nil hQ hQnil] at hT ⊢
  have hlen := congrArg List.length hT
  simp only [List.flatMap_nil, List.append_nil, length_tags] at hlen
  exact ⟨Nat.eq_of_mul_eq_mul_right (Nat.succ_pos k.length) hlen, rfl, rfl⟩

/-- **Pieces and messages that pass on alike are alike**, also behind some
text of each and behind some tags. -/
theorem eq_of_insertLine_eq_aux (hk : sep ∉ k) (htk : t ∉ k) (hbegins : ∀ l, begins l → t ∈ l)
    (N : ℕ) {n m : ℕ} (hN : (r ++ X.flatten).length + X.length < N)
    (hX : ∀ x ∈ X, begins (firstLine sep x)) (hQ : ∀ q ∈ Q, Message sep begins q)
    (hh : h = [] ∨ h.getLast? = some sep) (hS : r ++ X.flatten = h ++ Q.flatten)
    (hT : tags sep k n ++ (r ++ X.flatMap (insertLine sep k))
      = tags sep k m ++ (h ++ Q.flatMap (insertLine sep k))) : n = m ∧ r = h ∧ X = Q := by
  induction N generalizing r h X Q n m with
  | zero => exact absurd hN (by omega)
  | succ N ih =>
    have hXne : ∀ x ∈ X, x ≠ [] := by
      rintro x hx rfl
      exact absurd (hbegins _ (hX [] hx)) List.not_mem_nil
    by_cases hne : h ++ Q.flatten = []
    · exact eq_of_nothing_left hXne (fun q hq => (hQ q hq).ne_nil) (hS.trans hne) hne hT
    · obtain ⟨c, j, h', Q', hq, hh', hQ'⟩ := exists_next_of_messages hh hQ hne
      have hmem : sep ∈ r ++ X.flatten := by
        rw [hS, hq.flatten]
        simp
      rw [hq.flatMap] at hT
      rcases exists_next_of_pieces hX hmem with ⟨d, i, r', X', hx, hX'⟩ | ⟨hr, x, X', rfl, hxsep⟩
      · -- both sides have a next line, and it is the same
        obtain ⟨rfl, hS'⟩ := append_cons_inj_of_first hx.notMem hq.notMem
          (hx.flatten.symm.trans (hS.trans hq.flatten))
        have hzero : d = k → i = 0 ∧ j = 0 := by
          rintro rfl
          exact ⟨hx.eq_zero hbegins htk, hq.eq_zero hbegins htk⟩
        rw [hx.flatMap] at hT
        obtain ⟨n', m', hrest, hnm⟩ := tags_step hk hx.notMem hzero hT
        have hlt := hx.length_lt
        obtain ⟨heq, rfl, rfl⟩ := ih (by omega) hX' hQ' hh' hS' hrest
        obtain ⟨hn, hij⟩ := hnm heq
        exact ⟨hn, hx.eq_of_eq hq hij hQ hh⟩
      · -- a piece without a line end passes on behind a tag, which is a line too much
        have ht := hbegins _ (hX x List.mem_cons_self)
        rw [firstLine_of_notMem hxsep] at ht
        have hline : (r ++ x) ++ X'.flatten = c ++ sep :: (h' ++ Q'.flatten) := by
          rw [← hq.flatten, ← hS, List.flatten_cons, List.append_assoc]
        obtain ⟨y, rfl⟩ := exists_eq_append_of_notMem
          (by rw [List.mem_append, not_or]; exact ⟨hr, hxsep⟩) hline
        have hck : r ++ x ++ y ≠ k := by
          rintro rfl
          exact htk (List.mem_append_left y (List.mem_append_right r ht))
        rw [List.flatMap_cons, insertLine_of_notMem hxsep, List.append_assoc, List.cons_append,
          ← List.append_assoc r] at hT
        have hrk : sep ∉ r ++ k := by
          rw [List.mem_append, not_or]
          exact ⟨hr, hk⟩
        rcases tags_append_cases hk hq.notMem hrk hck hT with ⟨-, hxy, -⟩ | ⟨hnil, hrest⟩
        · rw [List.append_assoc, List.append_cancel_left_eq] at hxy
          rw [hxy] at htk
          exact absurd (List.mem_append_left y ht) htk
        · -- then the piece is in front of whole lines, and has none
          rw [List.append_left_eq_self] at hnil
          subst hnil
          rw [← hq.flatMap] at hrest
          have hlt : (x ++ X'.flatten).length + X'.length < N := by
            simp only [List.nil_append, List.flatten_cons, List.length_cons] at hN
            omega
          obtain ⟨-, rfl, -⟩ := ih hlt (fun y hy => hX y (List.mem_cons_of_mem x hy)) hQ hh hS hrest
          exact absurd (eq_nil_of_getLast hh hxsep) (hXne x List.mem_cons_self)

/-- **The text that passes on shows where the messages began**: pieces of the
same text that pass on to the same text are the messages. -/
theorem eq_of_insertLine_eq (hk : sep ∉ k) (htk : t ∉ k) (hbegins : ∀ l, begins l → t ∈ l)
    (hX : ∀ x ∈ X, begins (firstLine sep x)) (hQ : ∀ q ∈ Q, Message sep begins q)
    (hS : X.flatten = Q.flatten)
    (hT : X.flatMap (insertLine sep k) = Q.flatMap (insertLine sep k)) : X = Q :=
  (eq_of_insertLine_eq_aux (r := []) (h := []) (n := 0) (m := 0) hk htk hbegins _
    (Nat.lt_succ_self _) hX hQ (Or.inl rfl) hS (congrArg (tags sep k 0 ++ ·) hT)).2.2

end Main

end LineInsertion
