import MicroBusiness.Positions
import MicroBusiness.HttpRequest

/-!
# Query parsing undoes query encoding

`parse_query` runs over the query string with two `int`s, `beg` and `end`, that are
compared with `query_.size()` and with `string::npos`. The functions
`checkedParseQuery` and `checkedSetQuery` are the source with its `int`s; on a query
shorter than `2 ^ 31` bytes they compute what `parseQuery` and `setQuery` compute over
natural numbers, and the loop ends.

A list of parameters is written as `?key=value&key=value` (`encodeQuery`). Where
no key has an `=` and no value an `&`, reading the text gives the list back
(`queryParams_encodeQuery`): the next `=` is the one behind the key, the `&` after
it the one behind the value. What the map holds in the end is the last value of each
key.
-/

namespace MicroBusiness

open Search Positions

/-- What separates a key from its value, and a parameter from the next. -/
abbrev equals : UInt8 := 61

@[inherit_doc equals]
abbrev ampersand : UInt8 := 38

/-! ## The loop over `int`s -/

/-- The loop of `parse_query`, at most `fuel` times round. -/
def checkedParseQueryLoop (query : Bytes) :
    ℕ → ℤ → StdMap Bytes Bytes → Except Misuse (StdMap Bytes Bytes)
  | 0, _, _ => .error .endless
  | fuel + 1, beg, querys =>
    if toSize beg < query.length then do
      let endPos ← store (findFrom equals (toSize beg) query)
      if toSize endPos = npos then .ok querys
      else
        let key ← Positions.substr query (toSize beg) (toSize (wrap (endPos - beg)))
        let beg := wrap (endPos + 1)
        let endPos ← store (findFrom ampersand (toSize beg) query)
        if toSize endPos = npos then
          let value ← Positions.substr query (toSize beg) npos
          .ok (querys.insert key value)
        else
          let value ← Positions.substr query (toSize beg) (toSize (wrap (endPos - beg)))
          checkedParseQueryLoop query fuel (wrap (endPos + 1)) (querys.insert key value)
    else .ok querys

/-- `parse_query`. -/
def checkedParseQuery (query : Bytes) (querys : StdMap Bytes Bytes) :
    Except Misuse (StdMap Bytes Bytes) :=
  checkedParseQueryLoop query (query.length + 1) 1 querys

/-- `setQuery`. -/
def HttpRequest.checkedSetQuery (r : HttpRequest) (q : Bytes) : Except Misuse HttpRequest := do
  let querys ← checkedParseQuery q r.querys
  .ok { r with query := q, querys }

/-- **The loop stays inside the query, and ends**: what is left of the query
shrinks with each round. -/
theorem checkedParseQueryLoop_eq {query : Bytes} (hlen : query.length < 2 ^ 31) {beg fuel : ℕ}
    (hbeg : beg < 2 ^ 31) (hfuel : query.length - beg < fuel) (querys : StdMap Bytes Bytes) :
    checkedParseQueryLoop query fuel beg querys = .ok (parseQueryLoop query beg querys) := by
  obtain ⟨fuel, rfl⟩ := Nat.exists_eq_succ_of_ne_zero (Nat.ne_zero_of_lt hfuel)
  have hpos : ∀ c k i, findFrom c k query = some i → i < 2 ^ 31 := by
    intro c k i hi
    have hbounds := findFrom_bounds hi
    omega
  induction beg, querys using parseQueryLoop.induct query generalizing fuel with
  | case1 beg m hlt hkey =>
    rw [checkedParseQueryLoop, parseQueryLoop, toSize_natCast (by omega), if_pos hlt, if_pos hlt,
      store_eq (hpos _ _), ok_bind, hkey, if_pos toSize_stored_none]
  | case2 beg m hlt e hkey hval =>
    obtain ⟨hbe, he⟩ := findFrom_bounds hkey
    have hsub : (e : ℤ) - beg = ((e - beg : ℕ) : ℤ) := by omega
    rw [checkedParseQueryLoop, parseQueryLoop, toSize_natCast (by omega), if_pos hlt, if_pos hlt,
      store_eq (hpos _ _), ok_bind, hkey, if_neg (toSize_stored_some (by omega)), stored, hsub,
      toSize_wrap (by omega), substr_eq (by omega), ok_bind]
    dsimp only
    rw [toSize_wrap_succ (by omega), store_eq (hpos _ _), ok_bind, hval,
      if_pos toSize_stored_none, substr_npos (by omega) (by unfold npos; omega), ok_bind]
    rfl
  | case3 beg m hlt e hkey name e' hval ih =>
    obtain ⟨hbe, he⟩ := findFrom_bounds hkey
    obtain ⟨hee', he'⟩ := findFrom_bounds hval
    have hsub : (e : ℤ) - beg = ((e - beg : ℕ) : ℤ) := by omega
    have hsub' : (e' : ℤ) - ((e + 1 : ℕ) : ℤ) = ((e' - (e + 1) : ℕ) : ℤ) := by omega
    have hnext : wrap ((e : ℤ) + 1) = ((e + 1 : ℕ) : ℤ) := wrap_eq_self (by omega) (by omega)
    have hnext' : wrap ((e' : ℤ) + 1) = ((e' + 1 : ℕ) : ℤ) := wrap_eq_self (by omega) (by omega)
    obtain ⟨fuel, rfl⟩ : ∃ n, fuel = n + 1 := Nat.exists_eq_succ_of_ne_zero (by omega)
    have hrest := ih (by omega) fuel (by omega)
    rw [checkedParseQueryLoop, parseQueryLoop, toSize_natCast (by omega), if_pos hlt, if_pos hlt,
      store_eq (hpos _ _), ok_bind, hkey, if_neg (toSize_stored_some (by omega)), stored, hsub,
      toSize_wrap (by omega), substr_eq (by omega), ok_bind, hnext]
    dsimp only
    rw [toSize_natCast (by omega), store_eq (hpos _ _), ok_bind, hval,
      if_neg (toSize_stored_some (by omega)), stored, hsub', toSize_wrap (by omega),
      substr_eq (by omega), ok_bind, hnext']
    exact hrest
  | case4 beg m hlt =>
    rw [checkedParseQueryLoop, parseQueryLoop, toSize_natCast (by omega), if_neg hlt, if_neg hlt]

/-- **The query is set.** -/
theorem HttpRequest.checkedSetQuery_eq (r : HttpRequest) {q : Bytes} (hlen : q.length < 2 ^ 31) :
    r.checkedSetQuery q = .ok (r.setQuery q) := by
  unfold HttpRequest.checkedSetQuery checkedParseQuery HttpRequest.setQuery parseQuery
  rw [show (1 : ℤ) = ((1 : ℕ) : ℤ) from rfl,
    checkedParseQueryLoop_eq hlen (by omega) (by omega), ok_bind]

/-! ## Encoding -/

/-- A parameter as a query writes it. -/
def keyValue (p : Bytes × Bytes) : Bytes := p.1 ++ equals :: p.2

/-- A list of parameters as a query writes it. -/
def encodeQuery (params : List (Bytes × Bytes)) : Bytes :=
  question :: [ampersand].intercalate (params.map keyValue)

section ReadBack

variable (front : Bytes) {key value : Bytes}

/-- The key is what stands in front of the next `=`, and behind that begins the
value. -/
theorem queryParamsFrom_eq (hkey : equals ∉ key) (text : Bytes) :
    queryParamsFrom (front ++ (key ++ equals :: text)) front.length
      = match text.idxOf? ampersand with
        | none => [(key, text)]
        | some i => (key, text.take i)
          :: queryParamsFrom (front ++ (key ++ equals :: text))
            (front ++ (key ++ equals :: text.take (i + 1))).length := by
  -- where the next `=` stands, and the next `&` behind it
  have hkeyed : findFrom equals front.length (front ++ (key ++ equals :: text))
      = some (key.length + front.length) := by
    rw [findFrom_append, idxOf?_append_cons text hkey, Option.map_some]
  have hbegin : front ++ (key ++ equals :: text) = (front ++ (key ++ [equals])) ++ text := by simp
  have hlen : key.length + front.length + 1 = (front ++ (key ++ [equals])).length := by
    simp only [List.length_append, List.length_singleton]
    omega
  have hvalued : findFrom ampersand (key.length + front.length + 1)
      (front ++ (key ++ equals :: text))
        = (text.idxOf? ampersand).map (· + (key.length + front.length + 1)) := by
    rw [hlen, hbegin, findFrom_append]
  -- what is cut out between them
  have hname : substr (front ++ (key ++ equals :: text)) front.length
      (key.length + front.length - front.length) = key := by
    rw [Nat.add_sub_cancel, substr, List.drop_left, List.take_left]
  have hdrop : (front ++ (key ++ equals :: text)).drop (key.length + front.length + 1) = text := by
    rw [hlen, hbegin, List.drop_left]
  rw [queryParamsFrom, if_pos (by simp)]
  split
  · next hnone =>
    rw [hkeyed] at hnone
    cases hnone
  · next e he =>
    rw [hkeyed] at he
    cases he
    split
    · next hnone =>
      rw [hvalued, Option.map_eq_none_iff] at hnone
      rw [hnone, hname, hdrop]
    · next e' he' =>
      rw [hvalued] at he'
      obtain ⟨i, hi, rfl⟩ := Option.map_eq_some_iff.mp he'
      have hi' := lt_length_of_idxOf? hi
      have hnext : (front ++ (key ++ equals :: text.take (i + 1))).length
          = i + (key.length + front.length + 1) + 1 := by
        simp only [List.length_append, List.length_cons, List.length_take]
        omega
      rw [hi, hname, substr, hdrop, Nat.add_sub_cancel]
      dsimp only
      rw [hnext]

/-- **A list of parameters is read back**, from where it begins. -/
theorem queryParamsFrom_append {params : List (Bytes × Bytes)}
    (hkeys : ∀ p ∈ params, equals ∉ p.1) (hvalues : ∀ p ∈ params, ampersand ∉ p.2) :
    queryParamsFrom (front ++ [ampersand].intercalate (params.map keyValue)) front.length
      = params := by
  induction params generalizing front with
  | nil => rw [queryParamsFrom, if_neg (by simp [List.intercalate_nil])]
  | cons p params ih =>
    obtain ⟨key, value⟩ := p
    have hkey : equals ∉ key := hkeys _ List.mem_cons_self
    have hvalue : ampersand ∉ value := hvalues _ List.mem_cons_self
    have ih := fun front => ih front (fun q hq => hkeys q (List.mem_cons_of_mem _ hq))
      (fun q hq => hvalues q (List.mem_cons_of_mem _ hq))
    cases params with
    | nil =>
      rw [List.map_singleton, List.intercalate_singleton]
      show queryParamsFrom (front ++ (key ++ equals :: value)) front.length = _
      rw [queryParamsFrom_eq front hkey, List.idxOf?_eq_none_iff.mpr hvalue]
    | cons q params =>
      -- the value ends at the next ampersand, and the rest begins behind it
      have htext : [ampersand].intercalate (((key, value) :: q :: params).map keyValue)
          = key ++ equals :: (value ++ ampersand
            :: [ampersand].intercalate ((q :: params).map keyValue)) := by
        rw [List.map_cons, List.map_cons, List.intercalate_cons_cons]
        simp [keyValue]
      have hrest : front ++ (key ++ equals :: (value ++ ampersand
            :: [ampersand].intercalate ((q :: params).map keyValue)))
          = (front ++ (key ++ equals :: (value ++ [ampersand])))
            ++ [ampersand].intercalate ((q :: params).map keyValue) := by
        simp
      rw [htext, queryParamsFrom_eq front hkey, idxOf?_append_cons _ hvalue]
      dsimp only
      rw [List.take_left, List.take_length_add_append, List.take_succ_cons, List.take_zero, hrest,
        ih]

end ReadBack

/-- **Encoding is undone.** -/
theorem queryParams_encodeQuery {params : List (Bytes × Bytes)}
    (hkeys : ∀ p ∈ params, equals ∉ p.1) (hvalues : ∀ p ∈ params, ampersand ∉ p.2) :
    queryParams (encodeQuery params) = params :=
  queryParamsFrom_append [question] hkeys hvalues

/-- **The last value of a key is the one that stays.** -/
theorem getElem?_assign_empty (params : List (Bytes × Bytes)) (key : Bytes) :
    (assign ∅ params)[key]? = params.reverse.lookup key := by
  induction params with
  | nil => rfl
  | cons p params ih =>
    obtain ⟨key', value⟩ := p
    have hcons : assign ∅ ((key', value) :: params)
        = assign ((∅ : StdMap Bytes Bytes).insert key' value) params := rfl
    rw [hcons, getElem?_assign, ih, getElem?_insert_ite, List.reverse_cons, List.lookup_append,
      List.lookup_singleton]
    by_cases h : key' = key
    · simp [h]
    · simp [h, Ne.symm h]

/-- **Query parsing undoes query encoding.** A request without parameters whose query
is set to the encoding of a list, with no `=` in a key and no `&` in a value, holds
for each key of the list its last value, and nothing else. -/
theorem HttpRequest.checkedSetQuery_encodeQuery {r : HttpRequest} (hfresh : r.querys = ∅)
    {params : List (Bytes × Bytes)} (hkeys : ∀ p ∈ params, equals ∉ p.1)
    (hvalues : ∀ p ∈ params, ampersand ∉ p.2) (hlen : (encodeQuery params).length < 2 ^ 31) :
    ∃ querys, r.checkedSetQuery (encodeQuery params)
        = .ok { r with query := encodeQuery params, querys }
      ∧ ∀ key : Bytes, querys[key]? = params.reverse.lookup key := by
  refine ⟨assign ∅ params, ?_, getElem?_assign_empty params⟩
  rw [r.checkedSetQuery_eq hlen]
  unfold HttpRequest.setQuery
  rw [hfresh, parseQuery_eq_assign, queryParams_encodeQuery hkeys hvalues]

/-- An empty key, a value with an `=`, a repeated key and an empty value at the end. -/
theorem HttpRequest.checkedSetQuery_encodeQuery_repeated :
    ∃ querys, HttpRequest.checkedSetQuery {}
          (encodeQuery [([], bytes "a=b"), (bytes "num", bytes "1"), (bytes "num", [])])
        = .ok { query := encodeQuery [([], bytes "a=b"), (bytes "num", bytes "1"),
            (bytes "num", [])], querys }
      ∧ ∀ key : Bytes, querys[key]? = [([], bytes "a=b"), (bytes "num", bytes "1"),
          (bytes "num", [])].reverse.lookup key :=
  HttpRequest.checkedSetQuery_encodeQuery rfl (by decide +kernel) (by decide +kernel)
    (by decide +kernel)

end MicroBusiness
