import MicroBusiness.Text

/-!
# The request of the backend's HTTP library

`HttpRequest` is what the backend's parser fills in and what a handler reads:
method, version, path, query string, receive time, header map, and the map
of parsed query parameters that the repository adds to the library's class.

Two functions of the class treat that last map unlike the header map next
to it. `swap` exchanges every field but `querys`, and `getQuery` compares an
iterator of `querys` with the end of `headers`, so that a parameter that is
not there is read through an end iterator.

`parseQuery` runs over the query string by positions, which are `int`s in the
source and natural numbers here: it stands for the source where the query is shorter
than `2 ^ 31` bytes, and `MicroBusiness.QueryEncoding` has the function with its `int`s
next to it (`HttpRequest.checkedSetQuery_eq`). What it does to the
map it starts from is to overwrite it with the parameters of the query
(`getElem?_parseQuery`): the result holds the query's own parameters and,
where the query has none of that name, whatever was there before.
-/

namespace MicroBusiness

open Search

/-- A point in time, in microseconds. -/
abbrev Timestamp := ℤ

/-- `HttpRequest::Method`. -/
inductive Method
  | kInvalid | kGet | kPost | kHead | kPut | kDelete
  deriving DecidableEq, Repr

/-- `HttpRequest::Version`. -/
inductive Version
  | kUnknown | kHttp10 | kHttp11
  deriving DecidableEq, Repr

/-- `class HttpRequest`. -/
structure HttpRequest where
  method : Method := .kInvalid
  version : Version := .kUnknown
  path : Bytes := []
  query : Bytes := []
  receiveTime : Timestamp := 0
  headers : StdMap Bytes Bytes := ∅
  /-- The query parameters, by name. -/
  querys : StdMap Bytes Bytes := ∅
  deriving DecidableEq

/-- The method a token of the request line names. -/
def methodOf (m : Bytes) : Method :=
  if m = bytes "GET" then .kGet
  else if m = bytes "POST" then .kPost
  else if m = bytes "HEAD" then .kHead
  else if m = bytes "PUT" then .kPut
  else if m = bytes "DELETE" then .kDelete
  else .kInvalid

namespace HttpRequest

def setVersion (r : HttpRequest) (v : Version) : HttpRequest := { r with version := v }

/-- `setMethod` without its assertion that no method was set before, which
the caller makes. -/
def setMethod (r : HttpRequest) (m : Bytes) : Bool × HttpRequest :=
  (methodOf m ≠ .kInvalid, { r with method := methodOf m })

def setPath (r : HttpRequest) (p : Bytes) : HttpRequest := { r with path := p }

def setReceiveTime (r : HttpRequest) (t : Timestamp) : HttpRequest :=
  { r with receiveTime := t }

end HttpRequest

/-- The loop of `parse_query`: from the position `beg` on, one `key=value`
after the other, the value ending at the next `&` or with the string.

The source keeps the positions in `int`s, and here they are natural numbers. So this stands
for the source on queries shorter than `2 ^ 31` bytes, where the two come to the same
(`HttpRequest.checkedSetQuery_eq`). -/
def parseQueryLoop (query : Bytes) (beg : ℕ) (querys : StdMap Bytes Bytes) :
    StdMap Bytes Bytes :=
  if beg < query.length then
    match _hkey : findFrom 61 beg query with
    | none => querys
    | some e =>
      let key := substr query beg (e - beg)
      match _hval : findFrom 38 (e + 1) query with
      | none => querys.insert key (query.drop (e + 1))
      | some e' =>
        parseQueryLoop query (e' + 1) (querys.insert key (substr query (e + 1) (e' - (e + 1))))
  else querys
termination_by query.length - beg
decreasing_by
  have h1 := findFrom_bounds _hkey
  have h2 := findFrom_bounds _hval
  omega

/-- `parse_query`, which skips the `?` in front. -/
def parseQuery (query : Bytes) (querys : StdMap Bytes Bytes) : StdMap Bytes Bytes :=
  parseQueryLoop query 1 querys

namespace HttpRequest

/-- `setQuery`, for a query shorter than `2 ^ 31` bytes; `checkedSetQuery` is the one with the
`int`s of the source. -/
def setQuery (r : HttpRequest) (q : Bytes) : HttpRequest :=
  { r with query := q, querys := parseQuery q r.querys }

/-- `addHeader` on a line and the position of its colon: the name in front
of it, the value behind it without the blanks around it. -/
def addHeader (r : HttpRequest) (line : Bytes) (pos : ℕ) : HttpRequest :=
  { r with headers := r.headers.insert (line.take pos) (trim (line.drop (pos + 1))) }

/-- `getQuery`. The iterator `querys.find` returns is compared with the end
of `headers`: when the parameter is not there, it is the end of `querys`, it
passes the test, and it is dereferenced. -/
def getQuery (r : HttpRequest) (field : Bytes) : Except Fault Bytes :=
  match r.querys[field]? with
  | some value => .ok value
  | none => .error .endIterator

def getHeader (r : HttpRequest) (field : Bytes) : Bytes :=
  r.headers[field]?.getD []

/-- `swap`, which leaves out `querys`. -/
def swap (a b : HttpRequest) : HttpRequest × HttpRequest :=
  ({ b with querys := a.querys }, { a with querys := b.querys })

theorem getElem?_addHeader (r : HttpRequest) (line : Bytes) (pos : ℕ) (field : Bytes) :
    (r.addHeader line pos).headers[field]?
      = if line.take pos = field then some (trim (line.drop (pos + 1)))
        else r.headers[field]? :=
  getElem?_insert_ite r.headers _ _ _

end HttpRequest

/-! ## Query parsing overwrites -/

/-- Assign a list of parameters one after the other. -/
def assign (querys : StdMap Bytes Bytes) (params : List (Bytes × Bytes)) :
    StdMap Bytes Bytes :=
  params.foldl (fun m p => m.insert p.1 p.2) querys

/-- The parameters of the query from the position `beg` on, in order. -/
def queryParamsFrom (query : Bytes) (beg : ℕ) : List (Bytes × Bytes) :=
  if beg < query.length then
    match _hkey : findFrom 61 beg query with
    | none => []
    | some e =>
      match _hval : findFrom 38 (e + 1) query with
      | none => [(substr query beg (e - beg), query.drop (e + 1))]
      | some e' =>
        (substr query beg (e - beg), substr query (e + 1) (e' - (e + 1)))
          :: queryParamsFrom query (e' + 1)
  else []
termination_by query.length - beg
decreasing_by
  have h1 := findFrom_bounds _hkey
  have h2 := findFrom_bounds _hval
  omega

/-- The parameters of a query string, in order. -/
def queryParams (query : Bytes) : List (Bytes × Bytes) := queryParamsFrom query 1

/-- The loop of `parse_query` assigns the parameters one after the other. -/
theorem parseQueryLoop_eq_assign (query : Bytes) (beg : ℕ) (querys : StdMap Bytes Bytes) :
    parseQueryLoop query beg querys = assign querys (queryParamsFrom query beg) := by
  induction beg, querys using parseQueryLoop.induct query with
  | case1 beg m hlt hkey =>
    rw [parseQueryLoop, queryParamsFrom, if_pos hlt, if_pos hlt]
    split
    · rfl
    · next he => rw [hkey] at he; cases he
  | case2 beg m hlt e hkey hval =>
    rw [parseQueryLoop, queryParamsFrom, if_pos hlt, if_pos hlt]
    split
    · next he => rw [hkey] at he; cases he
    · next e₁ he =>
      rw [hkey, Option.some.injEq] at he
      subst he
      dsimp only
      split
      · rfl
      · next he' => rw [hval] at he'; cases he'
  | case3 beg m hlt e hkey name e' hval ih =>
    rw [parseQueryLoop, queryParamsFrom, if_pos hlt, if_pos hlt]
    split
    · next he => rw [hkey] at he; cases he
    · next e₁ he =>
      rw [hkey, Option.some.injEq] at he
      subst he
      dsimp only
      split
      · next he' => rw [hval] at he'; cases he'
      · next e₂ he' =>
        rw [hval, Option.some.injEq] at he'
        subst he'
        exact ih
  | case4 beg m hlt =>
    rw [parseQueryLoop, queryParamsFrom, if_neg hlt, if_neg hlt]
    rfl

theorem parseQuery_eq_assign (query : Bytes) (querys : StdMap Bytes Bytes) :
    parseQuery query querys = assign querys (queryParams query) :=
  parseQueryLoop_eq_assign query 1 querys

/-- **Assigning overwrites**: a name the list gives reads as it does from
the empty map, any other name as before. -/
theorem getElem?_assign (querys : StdMap Bytes Bytes) (params : List (Bytes × Bytes))
    (key : Bytes) :
    (assign querys params)[key]? = ((assign ∅ params)[key]?).or querys[key]? := by
  induction params generalizing querys with
  | nil => simp [assign]
  | cons p params ih =>
    have hcons : ∀ m : StdMap Bytes Bytes,
        assign m (p :: params) = assign (m.insert p.1 p.2) params := fun _ => rfl
    rw [hcons, hcons, ih (querys.insert p.1 p.2),
      ih ((∅ : StdMap Bytes Bytes).insert p.1 p.2), getElem?_insert_ite,
      getElem?_insert_ite]
    split <;> simp

theorem isSome_getElem?_assign_empty (params : List (Bytes × Bytes)) (key : Bytes) :
    ((assign ∅ params)[key]?).isSome ↔ key ∈ params.map Prod.fst := by
  induction params with
  | nil => simp [assign]
  | cons p params ih =>
    have hcons : assign ∅ (p :: params)
        = assign ((∅ : StdMap Bytes Bytes).insert p.1 p.2) params := rfl
    rw [hcons, getElem?_assign, Option.isSome_or, Bool.or_eq_true, ih,
      getElem?_insert_ite, List.map_cons, List.mem_cons]
    by_cases h : p.1 = key
    · simp [h]
    · simp [h, Ne.symm h]

end MicroBusiness
