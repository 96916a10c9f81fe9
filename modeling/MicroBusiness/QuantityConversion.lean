import MicroBusiness.HandlerAnswer
import MicroBusiness.ConnectionHistory

/-!
# The conversion of the quantity

`do_buy` takes the quantity of a purchase as the text `num`, and converts it by
`std::stoi` in the middle of its work on the database, once it has fetched the
row of the commodity. Nothing in front of that looks at the text: the proxy and
the two parsers pass on whatever it is. What `std::stoi` throws leaves
the handler, and nothing above it catches it.

The replies of the database are a function from calls to replies (`Replies`). For
each request with both parameters and each such outcome, `onRequest` returns
exactly if it does not come as far as the conversion, or the text is a number
that fits an `int` (`returns_iff`). Which texts those are is said without the
function by `exists_stoi_iff`: blanks, an optional sign and at least one digit at
their beginning, whatever comes behind, with a value that fits.
-/

namespace MicroBusiness

open Program

/-- **An outcome of the database**: what each call of a handler is replied. -/
abbrev Replies := (o : DbOp) → DbOp.Reply o

/-- No row has a null field. -/
def Replies.NonNull (reply : Replies) : Prop := ∀ o, NonNullReply ⟨o, reply o⟩

/-- The result and the row that `do_buy` fetches for a commodity, if it comes as
far. -/
def Replies.fetched (reply : Replies) (s : Server) (id : Bytes) : Option (MysqlRes × MysqlRow) :=
  if (reply (.query (reply .getConnection) (cString (Task.selectText s id))) : Bool) then none
  else
    (reply (.storeResult (reply .getConnection)) : Option MysqlRes).bind (fun result =>
      result.rows.head?.map (fun row => (result, row)))

section Returns

variable {json : JsonWriter} {s : Server} {req : HttpRequest} {resp : HttpResponse}
  {reply : Replies} {id num : Bytes}

theorem exits_returns (hreply : reply.NonNull) :
    Exits json s req resp (fun e => e.2 = reply e.1) (fun x => ∃ r, x = .ok r) where
  success := fun _ => ⟨_, rfl⟩
  error := fun _ => ⟨_, rfl⟩
  null := by
    refine Or.inr (fun e he => ?_)
    obtain ⟨o, r⟩ := e
    obtain rfl : r = reply o := he
    exact hreply o

theorem outcome_buySelect (conn : Conn) :
    (Task.buySelect json s req resp id num conn).outcome reply
      = if (reply (.query conn (cString (Task.selectText s id))) : Bool) then
          .ok (Task.networkError json s req resp)
        else (Task.buyStore json s req resp id num conn).outcome reply := by
  show (if (reply (.query conn (cString (Task.selectText s id))) : Bool) then _
    else _ : Handler _).outcome reply = _
  split <;> rfl

theorem outcome_buyStore (conn : Conn) :
    (Task.buyStore json s req resp id num conn).outcome reply
      = match (reply (.storeResult conn) : Option MysqlRes) with
        | none => .ok (Task.networkError json s req resp)
        | some result => (Task.buyFetch json s req resp id num conn result).outcome reply := by
  unfold Task.buyStore
  rw [Prog.outcome]
  cases (reply (.storeResult conn) : Option MysqlRes) <;> rfl

theorem outcome_buyFetch (conn : Conn) (result : MysqlRes) :
    (Task.buyFetch json s req resp id num conn result).outcome reply
      = match result.rows.head? with
        | none => .ok (Task.errorHandle json s resp .k400BadRequest (bytes "未找到商品")
          (req.getHeader (bytes "Client")))
        | some row => (Task.buyCompare json s req resp id num conn result row).outcome reply := by
  unfold Task.buyFetch
  rw [Prog.outcome]
  cases result.rows.head? <;> rfl

/-- **A purchase returns where it fetches no row.** -/
theorem exists_outcome_buyWith (hnone : reply.fetched s id = none) :
    ∃ r, (Task.buyWith json s req resp id num).outcome reply = .ok r := by
  show ∃ r, (Task.buySelect json s req resp id num (reply .getConnection)).outcome reply = .ok r
  unfold Replies.fetched at hnone
  rw [outcome_buySelect, outcome_buyStore]
  split at hnone
  · next hfailed =>
    rw [if_pos hfailed]
    exact ⟨_, rfl⟩
  · next hfailed =>
    rw [if_neg hfailed]
    cases hstored : (reply (.storeResult (reply .getConnection)) : Option MysqlRes) with
    | none => exact ⟨_, rfl⟩
    | some result =>
      rw [hstored, Option.bind_some, Option.map_eq_none_iff] at hnone
      dsimp only
      rw [outcome_buyFetch, hnone]
      exact ⟨_, rfl⟩

/-- **A purchase compares the row it fetches** with the quantity. -/
theorem outcome_buyWith {result : MysqlRes} {row : MysqlRow}
    (hsome : reply.fetched s id = some (result, row)) :
    (Task.buyWith json s req resp id num).outcome reply
      = (Task.buyCompare json s req resp id num (reply .getConnection) result row).outcome
        reply := by
  show (Task.buySelect json s req resp id num (reply .getConnection)).outcome reply = _
  unfold Replies.fetched at hsome
  rw [outcome_buySelect, outcome_buyStore]
  split at hsome
  · cases hsome
  · next hfailed =>
    obtain ⟨result', hstored, hrow⟩ := Option.bind_eq_some_iff.mp hsome
    obtain ⟨row', hhead, heq⟩ := Option.map_eq_some_iff.mp hrow
    cases heq
    rw [if_neg hfailed, hstored]
    dsimp only
    rw [outcome_buyFetch, hhead]

/-- The row that is fetched has no null field. -/
theorem Replies.NonNull.fetched (hreply : reply.NonNull) {result : MysqlRes} {row : MysqlRow}
    (hsome : reply.fetched s id = some (result, row)) : row.NonNull := by
  unfold Replies.fetched at hsome
  split at hsome
  · cases hsome
  · obtain ⟨result', hstored, hrow⟩ := Option.bind_eq_some_iff.mp hsome
    obtain ⟨row', hhead, heq⟩ := Option.map_eq_some_iff.mp hrow
    cases heq
    have hrows := hreply (.storeResult (reply .getConnection))
    rw [hstored] at hrows
    exact hrows row (List.mem_of_mem_head? hhead)

/-- **What is thrown by the conversion leaves the comparison.** -/
theorem outcome_buyCompare_of_error {conn : Conn} {result : MysqlRes} {row : MysqlRow}
    (hrow : row.NonNull) {e : Fault} (he : stoi num = .error e) :
    (Task.buyCompare json s req resp id num conn result row).outcome reply = .error e := by
  obtain ⟨stock, hstock⟩ := Option.isSome_iff_exists.mp hrow.2.2.1
  unfold Task.buyCompare
  rw [hstock, he]
  rfl

/-- **Exactly when a request with both parameters does not throw.** For every request
and every outcome of the database without null fields: `onRequest` returns if and
only if the request is no purchase, a parameter is empty, no row is fetched, or
`std::stoi` converts the quantity.

The last is a condition on the text `num` alone, spelled out by `exists_stoi_iff`.
The one in front of it is a condition on the replies to the select and to the
storing of its result. -/
theorem returns_iff (json : JsonWriter) (s : Server) (resp : HttpResponse)
    (hreply : reply.NonNull) (hid : req.getQuery (bytes "commodity_id") = .ok id)
    (hnum : req.getQuery (bytes "num") = .ok num) :
    (∃ r, (Task.onRequest json s req resp).outcome reply = .ok r)
      ↔ req.path ≠ s.buyPath ∨ id = [] ∨ num = [] ∨ reply.fetched s id = none
        ∨ ∃ n, stoi num = .ok n := by
  have hexits : AsksProperly s req → ¬ LeavesEarly s req →
      ∃ r, (Task.onRequest json s req resp).outcome reply = .ok r := fun hasks hearly =>
    Prog.wp_reply_iff.mp ((exits_returns hreply).onRequest hearly (Or.inl hasks))
  by_cases hpath : req.path = s.buyPath
  · -- a purchase: by its parameters, then by what is fetched
    by_cases hearly : id = [] ∨ num = []
    · have hleaves : LeavesEarly s req := by
        refine ⟨hpath, hearly.imp (fun h => ?_) (fun h => ⟨id, hid, ?_⟩)⟩
        · rw [hid, h]
        · rw [hnum, h]
      rw [onRequest_of_leavesEarly hleaves]
      exact iff_of_true ⟨resp, rfl⟩ (Or.inr (or_assoc.mp (Or.inl hearly)))
    · obtain ⟨hid', hnum'⟩ := not_or.mp hearly
      have hbuy : Task.onRequest json s req resp = Task.buyWith json s req resp id num := by
        unfold Task.onRequest Task.doBuy
        rw [if_pos hpath, hid, hnum]
        dsimp only
        rw [if_neg hid', if_neg hnum']
      rw [or_iff_right (not_not.mpr hpath), or_iff_right hid', or_iff_right hnum', hbuy]
      cases hfetched : reply.fetched s id with
      | none => exact iff_of_true (exists_outcome_buyWith hfetched) (Or.inl rfl)
      | some fetched =>
        obtain ⟨result, row⟩ := fetched
        rw [or_iff_right (by exact nofun)]
        cases hstoi : stoi num with
        | error e =>
          rw [outcome_buyWith hfetched,
            outcome_buyCompare_of_error (hreply.fetched hfetched) hstoi]
          exact iff_of_false nofun nofun
        | ok n =>
          refine iff_of_true ?_ ⟨n, rfl⟩
          rw [← hbuy]
          refine hexits (fun _ => ⟨id, num, n, hid, hid', hnum, hnum', hstoi⟩) ?_
          rintro ⟨-, hnil | ⟨id₁, -, hnil⟩⟩
          · cases hid.symm.trans hnil
            exact hid' rfl
          · cases hnum.symm.trans hnil
            exact hnum' rfl
  · exact iff_of_true (hexits (fun h => absurd h hpath) (fun h => hpath h.1)) (Or.inl hpath)

end Returns

/-! ## A quantity that is no number -/

/-- A purchase of so many. -/
def quantityText (num : String) : Bytes :=
  bytes "GET /10001/buy/?commodity_id=1&num=" ++ (bytes num ++ bytes " HTTP/1.1\r\n\r\n")

/-- The request the parser makes of it. -/
def quantityRequest (num : String) : HttpRequest where
  method := .kGet
  version := .kHttp11
  path := bytes "/10001/buy/"
  query := bytes "?commodity_id=1&num=" ++ bytes num
  querys := ((∅ : StdMap Bytes Bytes).insert (bytes "commodity_id") (bytes "1")).insert
    (bytes "num") (bytes num)

/-- A database that has the commodity. -/
def stocked : Replies
  | .getConnection => (0 : ℕ)
  | .query _ _ => false
  | .storeResult _ => some ⟨0, [⟨some (bytes "1"), some (bytes "soap"), some (bytes "5"),
      some (bytes "2"), some []⟩]⟩
  | .releaseConnection _ => ()
  | .lock => ()
  | .unlock => ()
  | .error _ => ()
  | .useResult _ => ()
  | .freeResult _ => ()

theorem stocked_nonNull : stocked.NonNull := by
  intro o
  cases o with
  | storeResult conn =>
    intro row hrow
    obtain rfl := List.mem_singleton.mp hrow
    exact ⟨rfl, rfl, rfl, rfl, rfl⟩
  | _ => trivial

/-- **A quantity without a digit leaves the handler as an exception.** -/
theorem not_returns_abc :
    handedBy (freshConnection, (quantityText "abc", 0)) = some (quantityRequest "abc")
      ∧ stocked.NonNull
      ∧ ¬ ∃ r, (Task.onRequest silentWriter server1 (quantityRequest "abc")
        { closeConnection := false }).outcome stocked = .ok r := by
  refine ⟨by decide +kernel, stocked_nonNull, ?_⟩
  have hthrown : (Task.onRequest silentWriter server1 (quantityRequest "abc")
      { closeConnection := false }).outcome stocked = .error .invalidArgument := by
    decide +kernel
  rw [hthrown]
  exact nofun

/-- A quantity that is a number does not. -/
theorem returns_two :
    (∃ r, (Task.onRequest silentWriter server1 (quantityRequest "2")
        { closeConnection := false }).outcome stocked = .ok r)
      ↔ (quantityRequest "2").path ≠ server1.buyPath ∨ bytes "1" = [] ∨ bytes "2" = []
        ∨ stocked.fetched server1 (bytes "1") = none ∨ ∃ n, stoi (bytes "2") = .ok n :=
  returns_iff silentWriter server1 { closeConnection := false } stocked_nonNull
    (by decide +kernel) (by decide +kernel)

end MicroBusiness
