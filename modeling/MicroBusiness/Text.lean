import MicroBusiness.Search
import Mathlib.Tactic.Ring
import Mathlib.Data.Int.Basic
import Mathlib.Data.List.TakeWhile

/-!
# Byte strings and the numbers in them

Both programs handle `std::string`s, that is strings of bytes. A text literal
of the source stands for its UTF-8 bytes (`bytes`); the ordered containers
`std::map` are extensional tree maps over the byte order (`StdMap`).

The rest of the module is the part of the C library the programs use on
text: `isspace`, the decimal rendering of a number, and the readings
`std::stoi` and `atoi` of a number, both of which take the longest prefix
that `strtol` accepts.

Positions in a string are natural numbers and a failed search is `none`. The
programs keep them in `int`s, which hold every position of a string shorter
than `2 ^ 31` bytes.
-/

namespace MicroBusiness

open Search

/-- A `std::string`: a sequence of bytes. -/
abbrev Bytes := List UInt8

/-- The bytes of a text literal. -/
def bytes (s : String) : Bytes := s.toList.flatMap String.utf8EncodeChar

/-- A `std::map`: a finite map iterated in the order of its keys. -/
abbrev StdMap (κ υ : Type) [Ord κ] := Std.ExtTreeMap κ υ compare

section StdMap

variable {κ υ : Type} [Ord κ] [Std.TransOrd κ] [Std.LawfulEqOrd κ] [DecidableEq κ]

instance [DecidableEq υ] : DecidableEq (StdMap κ υ) :=
  inferInstanceAs (DecidableEq (Std.ExtTreeMap κ υ compare))

/-- What an assignment `m[k] = v` leaves to read. -/
theorem getElem?_insert_ite (m : StdMap κ υ) (k a : κ) (v : υ) :
    (m.insert k v)[a]? = if k = a then some v else m[a]? := by
  rw [Std.ExtTreeMap.getElem?_insert]
  exact if_congr Std.LawfulEqCmp.compare_eq_iff_eq rfl rfl

/-- What `erase` leaves to read. -/
theorem getElem?_erase_ite (m : StdMap κ υ) (k a : κ) :
    (m.erase k)[a]? = if k = a then none else m[a]? := by
  rw [Std.ExtTreeMap.getElem?_erase]
  exact if_congr Std.LawfulEqCmp.compare_eq_iff_eq rfl rfl

theorem of_getElem?_insert {m : StdMap κ υ} {k a : κ} {v w : υ} (h : (m.insert k v)[a]? = some w) :
    k = a ∧ v = w ∨ k ≠ a ∧ m[a]? = some w := by
  rw [getElem?_insert_ite] at h
  split at h
  · next hk => exact Or.inl ⟨hk, Option.some.inj h⟩
  · next hk => exact Or.inr ⟨hk, h⟩

theorem getElem?_eq_none_of_insert {m : StdMap κ υ} {k a : κ} {v : υ}
    (h : (m.insert k v)[a]? = none) : m[a]? = none := by
  rw [getElem?_insert_ite] at h
  split at h
  · cases h
  · exact h

theorem getElem?_insert_eq_none_iff {m : StdMap κ υ} {k : κ} {w : υ} (h : m[k]? = some w) (v : υ)
    (a : κ) : (m.insert k v)[a]? = none ↔ m[a]? = none := by
  refine ⟨getElem?_eq_none_of_insert, fun ha => ?_⟩
  rw [getElem?_insert_ite, if_neg ?_, ha]
  rintro rfl
  cases h.symm.trans ha

/-- What is read after `erase` was there before, under another key. -/
theorem of_getElem?_erase {m : StdMap κ υ} {k a : κ} {w : υ} (h : (m.erase k)[a]? = some w) :
    k ≠ a ∧ m[a]? = some w := by
  rw [getElem?_erase_ite] at h
  split at h
  · cases h
  · next hk => exact ⟨hk, h⟩

omit [DecidableEq κ] in
/-- The keys after `insert`, which keeps a value that is there. -/
theorem contains_insertIfNew_iff {m : StdMap κ υ} {k a : κ} {v : υ} :
    (m.insertIfNew k v).contains a = true ↔ k = a ∨ m.contains a = true := by
  rw [Std.ExtTreeMap.contains_insertIfNew, Bool.or_eq_true, beq_iff_eq,
    Std.LawfulEqCmp.compare_eq_iff_eq]

omit [Std.LawfulEqOrd κ] [DecidableEq κ] in
theorem contains_iff_exists {m : StdMap κ υ} {k : κ} :
    m.contains k = true ↔ ∃ v, m[k]? = some v := by
  rw [← Std.ExtTreeMap.isSome_getElem?_eq_contains, Option.isSome_iff_exists]

/-- What `insert` leaves to read under a new key. -/
theorem getElem?_insertIfNew_of_none {m : StdMap κ υ} {k : κ} (h : m[k]? = none) (a : κ) (v : υ) :
    (m.insertIfNew k v)[a]? = if k = a then some v else m[a]? := by
  have hmem : k ∉ m := by
    rw [← Std.ExtTreeMap.isSome_getElem?_iff_mem, h]
    simp
  rw [Std.ExtTreeMap.getElem?_insertIfNew]
  refine if_congr ?_ rfl rfl
  rw [Std.LawfulEqCmp.compare_eq_iff_eq, and_iff_left hmem]

end StdMap

/-- The line end of HTTP, and the two bytes it is made of. -/
abbrev cr : UInt8 := 13

@[inherit_doc cr]
abbrev lf : UInt8 := 10

@[inherit_doc cr]
abbrev crlf : Bytes := [cr, lf]

abbrev blank : UInt8 := 32
abbrev colon : UInt8 := 58
abbrev slash : UInt8 := 47
abbrev question : UInt8 := 63
abbrev plus : UInt8 := 43
abbrev minus : UInt8 := 45

/-- The text in front of the value of a client header, which the proxy adds
to requests and looks for in responses. -/
def clientKey : Bytes := bytes "Client: "

/-- `isspace` in the C locale. -/
def isspace (b : UInt8) : Bool := b == 32 || (9 ≤ b && b ≤ 13)

/-- `s.substr(pos, n)` for a start inside the string. -/
def substr (s : Bytes) (pos n : ℕ) : Bytes := (s.drop pos).take n

/-- The value of a header line with the blanks at both ends cut off. -/
def trim (s : Bytes) : Bytes :=
  ((s.dropWhile isspace).reverse.dropWhile isspace).reverse

theorem trim_eq_self {s : Bytes} (h : ∀ b ∈ s, isspace b = false) :
    trim s = s := by
  have hd : ∀ l : Bytes, (∀ b ∈ l, isspace b = false) →
      l.dropWhile isspace = l := by
    intro l hl
    cases l with
    | nil => rfl
    | cons a l => rw [List.dropWhile_cons, hl a List.mem_cons_self]; rfl
  unfold trim
  rw [hd s h, hd s.reverse (fun b hb => h b (List.mem_reverse.mp hb)),
    List.reverse_reverse]

theorem trim_cons_blank (s : Bytes) : trim (blank :: s) = trim s := rfl

/-! ## Decimal numbers -/

/-- `std::to_string` and `%d` of a number that is not negative. -/
def decimal (n : ℕ) : Bytes := (Nat.toDigits 10 n).map Char.toUInt8

/-- Whether a byte is a decimal digit. -/
def isDigit (b : UInt8) : Bool := 48 ≤ b && b ≤ 57

/-- The number a string of decimal digits stands for. -/
def natOfDigits (ds : Bytes) : ℕ :=
  ds.foldl (fun n d => 10 * n + (d.toNat - 48)) 0

/-- `snprintf` into a buffer of `size` bytes, the last of which ends the
string. -/
def snprintf (size : ℕ) (s : Bytes) : Bytes := s.take (size - 1)

theorem snprintf_of_length_lt {size : ℕ} {s : Bytes} (h : s.length < size) :
    snprintf size s = s :=
  List.take_of_length_le (by omega)

theorem toNat_toUInt8_of_isDigit {c : Char} (h : c.isDigit) :
    c.toUInt8.toNat = c.toNat := by
  have hc : c.toNat ≤ 57 := by
    simp only [Char.isDigit, ge_iff_le, Bool.and_eq_true, decide_eq_true_eq] at h
    exact h.2
  have h2 : c.toUInt8.toNat = c.toNat % 256 := UInt32.toNat_toUInt8 c.val
  rw [h2]
  omega

theorem isDigit_of_mem_decimal {n : ℕ} {b : UInt8} (h : b ∈ decimal n) :
    isDigit b = true := by
  obtain ⟨c, hc, rfl⟩ := List.mem_map.mp h
  have hd := Nat.isDigit_of_mem_toDigits (by omega) (le_refl 10) hc
  have hn := toNat_toUInt8_of_isDigit hd
  simp only [Char.isDigit, ge_iff_le, Bool.and_eq_true, decide_eq_true_eq] at hd
  unfold isDigit
  rw [Bool.and_eq_true, decide_eq_true_eq, decide_eq_true_eq,
    UInt8.le_iff_toNat_le, UInt8.le_iff_toNat_le, hn]
  exact hd

theorem notMem_decimal {b : UInt8} (n : ℕ) (h : isDigit b = false) : b ∉ decimal n := by
  intro hm
  rw [isDigit_of_mem_decimal hm] at h
  exact absurd h (by decide)

theorem decimal_ne_nil (n : ℕ) : decimal n ≠ [] := by
  unfold decimal
  rw [ne_eq, List.map_eq_nil_iff]
  exact Nat.toDigits_ne_nil

/-- **Reading the rendering of a number gives the number back.** -/
theorem natOfDigits_decimal (n : ℕ) : natOfDigits (decimal n) = n := by
  have hfold : ∀ (cs : List Char) (k : ℕ), (∀ c ∈ cs, c.isDigit) →
      (cs.map Char.toUInt8).foldl (fun n d => 10 * n + (d.toNat - 48)) k
        = Nat.ofDigitChars 10 cs k := by
    intro cs
    induction cs with
    | nil => intro k _; rfl
    | cons c cs ih =>
      intro k hcs
      rw [List.map_cons, List.foldl_cons, ih _ (fun d hd => hcs d (List.mem_cons_of_mem c hd)),
        toNat_toUInt8_of_isDigit (hcs c List.mem_cons_self)]
      rfl
  unfold natOfDigits decimal
  rw [hfold _ 0 (fun c hc => Nat.isDigit_of_mem_toDigits (by omega) (le_refl 10) hc)]
  exact Nat.ofDigitChars_ten_toDigits

theorem isDigit_iff {b : UInt8} : isDigit b = true ↔ 48 ≤ b.toNat ∧ b.toNat ≤ 57 := by
  unfold isDigit
  rw [Bool.and_eq_true, decide_eq_true_eq, decide_eq_true_eq,
    UInt8.le_iff_toNat_le, UInt8.le_iff_toNat_le]
  rfl

theorem isspace_of_isDigit {b : UInt8} (h : isDigit b = true) :
    isspace b = false := by
  rw [isDigit_iff] at h
  have h32 : (32 : UInt8).toNat = 32 := rfl
  have h13 : (13 : UInt8).toNat = 13 := rfl
  unfold isspace
  simp only [Bool.or_eq_false_iff, beq_eq_false_iff_ne, ne_eq, Bool.and_eq_false_iff,
    decide_eq_false_iff_not, UInt8.le_iff_toNat_le, ← UInt8.toNat_inj, h32, h13]
  omega

/-! ## C strings -/

/-- The C string that some bytes begin with: what is in front of the first zero. -/
def cString (s : Bytes) : Bytes := s.takeWhile (· ≠ 0)

theorem cString_append {s : Bytes} (u : Bytes) (h : 0 ∉ s) : cString (s ++ u) = s ++ cString u := by
  unfold cString
  refine List.takeWhile_append_of_pos fun b hb => decide_eq_true ?_
  rintro rfl
  exact h hb

theorem cString_eq_self {s : Bytes} (h : 0 ∉ s) : cString s = s := by
  have happend := cString_append [] h
  rw [List.append_nil] at happend
  exact happend.trans (List.append_nil s)

theorem cString_append_cons {s : Bytes} (h : 0 ∉ s) (t : Bytes) : cString (s ++ 0 :: t) = s := by
  rw [cString_append _ h, cString, List.takeWhile_cons_of_neg (by decide), List.append_nil]

theorem notMem_cString (s : Bytes) : 0 ∉ cString s := by
  intro h
  have hne := List.mem_takeWhile_imp h
  simp at hne

theorem notMem_of_digits {ds : Bytes} (h : ∀ b ∈ ds, isDigit b = true) : 0 ∉ ds :=
  fun hmem => absurd (h 0 hmem) (by decide)

theorem exists_eq_cString_append {s : Bytes} (h : 0 ∈ s) : ∃ t, s = cString s ++ 0 :: t := by
  obtain ⟨u, t, rfl, hu⟩ := exists_eq_append_cons_of_mem h
  exact ⟨t, by rw [cString_append_cons hu]⟩

/-- **What a cut leaves of two strings in a row**: the first alone, if the zero is in it. -/
theorem cString_append_of_mem {s : Bytes} (h : 0 ∈ s) (t : Bytes) :
    cString (s ++ t) = cString s := by
  obtain ⟨u, hu⟩ := exists_eq_cString_append h
  rw [hu, List.append_assoc, List.cons_append, cString_append_cons (notMem_cString s),
    cString_append_cons (notMem_cString s)]

/-! ## `strtol`, `std::stoi` and `atoi` -/

/-- The ways a function of the programs can fail to return: exceptions,
undefined behaviour, a failed assertion, a loop that never ends. -/
inductive Fault
  /-- `std::invalid_argument`: no number to convert. -/
  | invalidArgument
  /-- `std::out_of_range`: a number too large for an `int`, or a `substr`
  behind the end. -/
  | outOfRange
  /-- The end iterator of a map is dereferenced. -/
  | endIterator
  /-- A null pointer is dereferenced. -/
  | nullPointer
  /-- An `assert` fails. -/
  | assertion
  /-- A loop goes round without changing anything. -/
  | endlessLoop
  deriving DecidableEq, Repr

/-- The optional sign in front of a number: whether it is a minus, and what
follows it. -/
def splitSign : Bytes → Bool × Bytes
  | 45 :: s => (true, s)
  | 43 :: s => (false, s)
  | s => (false, s)

/-- The number in the longest prefix `strtol` accepts: blanks, an optional
sign, digits. No digits, no number. -/
def strtol (s : Bytes) : Option ℤ :=
  let (negative, s) := splitSign (s.dropWhile isspace)
  let digits := s.takeWhile isDigit
  if digits = [] then none
  else some (if negative then -natOfDigits digits else natOfDigits digits)

/-- The values of a 32-bit `int`. -/
def IsInt (z : ℤ) : Prop := -2 ^ 31 ≤ z ∧ z < 2 ^ 31

instance : DecidablePred IsInt := fun _ => inferInstanceAs (Decidable (_ ∧ _))

/-- `std::stoi`. -/
def stoi (s : Bytes) : Except Fault ℤ :=
  match strtol s with
  | none => .error .invalidArgument
  | some z => if IsInt z then .ok z else .error .outOfRange

/-- `atoi`: what `strtol` returns, saturated to a `long`, cut to an `int`. -/
def atoi (s : Bytes) : ℤ :=
  match strtol s with
  | none => 0
  | some z => (max (-2 ^ 63) (min z (2 ^ 63 - 1))).bmod (2 ^ 32)

theorem splitSign_of_isDigit {d : UInt8} {s : Bytes} (hd : isDigit d = true) :
    splitSign (d :: s) = (false, d :: s) := by
  rw [isDigit_iff] at hd
  unfold splitSign
  split
  · next h =>
    rw [List.cons.injEq] at h
    rw [h.1] at hd
    exact absurd hd.1 (by decide)
  · next h =>
    rw [List.cons.injEq] at h
    rw [h.1] at hd
    exact absurd hd.1 (by decide)
  · rfl

/-- The text of an optional sign, which is a minus if it is `some true`. -/
def signText : Option Bool → Bytes
  | none => []
  | some true => [minus]
  | some false => [plus]

/-- The number that a sign and digits stand for. -/
def signed (sign : Option Bool) (n : ℕ) : ℤ := if sign = some true then -n else n

/-- **`strtol` reads a sign and digits**, and stops in front of what is no
digit. -/
theorem strtol_signed (sign : Option Bool) {ds : Bytes} (rest : Bytes) (hne : ds ≠ [])
    (hds : ∀ b ∈ ds, isDigit b = true) (hrest : rest.takeWhile isDigit = []) :
    strtol (signText sign ++ (ds ++ rest)) = some (signed sign (natOfDigits ds)) := by
  have htake : (ds ++ rest).takeWhile isDigit = ds := by
    rw [List.takeWhile_append_of_pos hds, hrest, List.append_nil]
  have hsplit : splitSign ((signText sign ++ (ds ++ rest)).dropWhile isspace)
      = (decide (sign = some true), ds ++ rest) := by
    match sign with
    | some true => rfl
    | some false => rfl
    | none =>
      obtain ⟨d, t, rfl⟩ := List.exists_cons_of_ne_nil hne
      have hd := hds d List.mem_cons_self
      rw [signText, List.nil_append, List.cons_append, List.dropWhile_cons,
        isspace_of_isDigit hd]
      exact splitSign_of_isDigit hd
  unfold strtol
  rw [hsplit]
  dsimp only
  rw [htake, if_neg hne]
  unfold signed
  simp only [decide_eq_true_eq]

theorem strtol_of_digits {ds : Bytes} (hne : ds ≠ [])
    (hds : ∀ b ∈ ds, isDigit b = true) : strtol ds = some (natOfDigits ds : ℤ) := by
  have h := strtol_signed none [] hne hds rfl
  rw [List.append_nil] at h
  exact h

theorem strtol_append {blanks : Bytes} (hblanks : ∀ b ∈ blanks, isspace b = true) (s : Bytes) :
    strtol (blanks ++ s) = strtol s := by
  unfold strtol
  rw [List.dropWhile_append_of_pos hblanks]

theorem exists_signText (s : Bytes) : ∃ sign, s = signText sign ++ (splitSign s).2 ∧
    (splitSign s).1 = decide (sign = some true) := by
  unfold splitSign
  split
  · exact ⟨some true, rfl, rfl⟩
  · exact ⟨some false, rfl, rfl⟩
  · exact ⟨none, rfl, rfl⟩

/-- **The texts that `std::stoi` accepts**: blanks, an optional sign and digits, with
anything but a digit behind them, where the number fits an `int`. -/
theorem exists_stoi_iff {s : Bytes} : (∃ n, stoi s = .ok n) ↔
    ∃ blanks sign ds rest, s = blanks ++ (signText sign ++ (ds ++ rest)) ∧
      (∀ b ∈ blanks, isspace b = true) ∧ ds ≠ [] ∧ (∀ b ∈ ds, isDigit b = true) ∧
      rest.takeWhile isDigit = [] ∧ IsInt (signed sign (natOfDigits ds)) := by
  constructor
  · rintro ⟨n, hn⟩
    obtain ⟨sign, hsplit, hnegative⟩ := exists_signText (s.dropWhile isspace)
    generalize hafter : (splitSign (s.dropWhile isspace)).2 = after at hsplit
    have hdigits : ∀ b ∈ after.takeWhile isDigit, isDigit b = true :=
      fun _ => List.mem_takeWhile_imp
    have hrest : (after.dropWhile isDigit).takeWhile isDigit = [] :=
      List.takeWhile_eq_nil_iff.mpr (List.dropWhile_get_zero_not _ _)
    have hs : s = s.takeWhile isspace ++ (signText sign ++
        (after.takeWhile isDigit ++ after.dropWhile isDigit)) := by
      rw [List.takeWhile_append_dropWhile, ← hsplit, List.takeWhile_append_dropWhile]
    have hblanks : ∀ b ∈ s.takeWhile isspace, isspace b = true := fun _ => List.mem_takeWhile_imp
    have hne : after.takeWhile isDigit ≠ [] := by
      intro hnil
      unfold stoi strtol at hn
      dsimp only at hn
      rw [hafter, if_pos hnil] at hn
      cases hn
    refine ⟨_, sign, _, _, hs, hblanks, hne, hdigits, hrest, ?_⟩
    by_contra hint
    unfold stoi at hn
    rw [hs, strtol_append hblanks, strtol_signed sign _ hne hdigits hrest] at hn
    dsimp only at hn
    rw [if_neg hint] at hn
    cases hn
  · rintro ⟨blanks, sign, ds, rest, rfl, hblanks, hne, hdigits, hrest, hint⟩
    refine ⟨signed sign (natOfDigits ds), ?_⟩
    unfold stoi
    rw [strtol_append hblanks, strtol_signed sign rest hne hdigits hrest]
    exact if_pos hint

/-- **`std::stoi` reads plain digits that fit an `int`.** -/
theorem stoi_of_digits {ds : Bytes} (hne : ds ≠ [])
    (hds : ∀ b ∈ ds, isDigit b = true) (hfit : natOfDigits ds < 2 ^ 31) :
    stoi ds = .ok (natOfDigits ds) := by
  unfold stoi
  rw [strtol_of_digits hne hds]
  exact if_pos ⟨by omega, by exact_mod_cast hfit⟩

/-- `%d` of a number: what a decimal column of a row holds. -/
def intText : ℤ → Bytes
  | .ofNat n => decimal n
  | .negSucc n => minus :: decimal (n + 1)

/-- **`strtol` reads the rendering of a number back.** -/
theorem strtol_intText (z : ℤ) : strtol (intText z) = some z := by
  have hdigits : ∀ n, ∀ b ∈ decimal n, isDigit b = true := fun n b => isDigit_of_mem_decimal
  cases z with
  | ofNat n =>
    rw [intText, strtol_of_digits (decimal_ne_nil n) (hdigits n), natOfDigits_decimal]
    rfl
  | negSucc n =>
    have h := strtol_signed (some true) [] (decimal_ne_nil (n + 1)) (hdigits (n + 1)) rfl
    rw [List.append_nil, natOfDigits_decimal] at h
    exact h

/-- The value of a balanced remainder is not above a number that is not
below its range. -/
theorem bmod_le_self {z : ℤ} (h : -2 ^ 31 ≤ z) : z.bmod (2 ^ 32) ≤ z := by
  rw [Int.bmod_def]
  norm_num at h ⊢
  split <;> omega

/-- The stock as `atoi` reads it is not above the stock. -/
theorem atoi_intText_le {z : ℤ} (h : -2 ^ 31 ≤ z) : atoi (intText z) ≤ z := by
  unfold atoi
  rw [strtol_intText]
  dsimp only
  rw [max_eq_right (by omega)]
  exact (bmod_le_self (by omega)).trans (min_le_left z _)

end MicroBusiness
