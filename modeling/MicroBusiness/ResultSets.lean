import MicroBusiness.Resources
import MicroBusiness.ConnectionUse
import MicroBusiness.QuantityConversion
import MicroBusiness.Transition

/-!
# The result sets of the handlers

`mysql_store_result` allocates a result set, and `mysql_free_result` gives it back.
`do_show` frees the set it has stored. `do_buy` does so only behind a success: where no
row is found, where the stock is too small, and where the update fails it returns
in front of `mysql_free_result`.

A server process completes one request after the other. What its requests have done to
result sets is a log of uses (`Resources`), and the log is balanced after each of them
exactly if no purchase has been refused behind its select (`results_balanced_iff`).
-/

namespace MicroBusiness

open Program Resources Transition

/-- What a call does to a result set. -/
def usesOf : DbEvent → List (Use ℕ)
  | ⟨.storeResult _, some result⟩ => [.acquire result.handle]
  | ⟨.useResult result, _⟩ => [.touch result.handle]
  | ⟨.freeResult result, _⟩ => [.release result.handle]
  | _ => []

/-- What a request does to result sets, with these replies. -/
def Execution.uses (json : JsonWriter) (s : Server) (reply : Replies) (e : Execution) :
    List (Use ℕ) :=
  ((e.prog json s).events reply).flatMap usesOf

/-- **A request that is completed**: its handler returns, the result set it has stored was
not allocated before, and its uses of result sets come behind the ones of the requests
before it. -/
structure Completed (json : JsonWriter) (s : Server) (log : List (Use ℕ))
    (request : Execution × Replies) (log' : List (Use ℕ)) : Prop where
  returns : ((request.1.prog json s).outcome request.2).isOk = true
  fresh : ∀ h, .acquire h ∈ request.1.uses json s request.2 → h ∉ held log
  log : log' = log ++ request.1.uses json s request.2

/-! ## Purchases that are refused -/

/-- The result set that a purchase stores, if its select goes through. -/
def Replies.stored (reply : Replies) (s : Server) (id : Bytes) : Option MysqlRes :=
  if (reply (.query (reply .getConnection) (cString (Task.selectText s id))) : Bool) then none
  else reply (.storeResult (reply .getConnection))

/-- **A purchase that is refused behind its select**: no row is found, fewer are in stock
than are asked for, or the update fails. -/
inductive Declined (reply : Replies) (s : Server) (id num : Bytes) (result : MysqlRes) : Prop
  | noRow (hrow : result.rows.head? = none)
  | outOfStock {row : MysqlRow} {stock : Bytes} {n : ℤ} (hrow : result.rows.head? = some row)
    (hstock : row.num = some stock) (hn : stoi num = .ok n) (hless : n > atoi stock)
  | notUpdated {row : MysqlRow} {stock : Bytes} {n : ℤ} (hrow : result.rows.head? = some row)
    (hstock : row.num = some stock) (hn : stoi num = .ok n) (hle : ¬ n > atoi stock)
    (hfailed : reply (.query (reply .getConnection) (cString (Task.updateText s num id))) = true)

/-- **A request that leaves a result set behind**: a purchase with both parameters that
stores a result set and is refused then. -/
def Leaks (s : Server) (reply : Replies) : Execution → Prop
  | .buy req _ => ∃ id num result, req.getQuery (bytes "commodity_id") = .ok id ∧ id ≠ []
      ∧ req.getQuery (bytes "num") = .ok num ∧ num ≠ [] ∧ reply.stored s id = some result
      ∧ Declined reply s id num result
  | .show _ _ => False

section Leaks

variable {s : Server} {reply : Replies} {req : HttpRequest} {resp : HttpResponse} {id num : Bytes}

theorem Replies.stored_of_failed
    (h : (reply (.query (reply .getConnection) (cString (Task.selectText s id))) : Bool) = true) :
    reply.stored s id = none :=
  if_pos h

theorem Replies.stored_of_asked
    (h : ¬ (reply (.query (reply .getConnection) (cString (Task.selectText s id))) : Bool) = true) :
    reply.stored s id = reply (.storeResult (reply .getConnection)) :=
  if_neg h

theorem leaks_buy_iff (hid : req.getQuery (bytes "commodity_id") = .ok id) (hid' : id ≠ [])
    (hnum : req.getQuery (bytes "num") = .ok num) (hnum' : num ≠ []) :
    Leaks s reply (.buy req resp) ↔ ∃ result, reply.stored s id = some result
      ∧ Declined reply s id num result := by
  constructor
  · rintro ⟨id₁, num₁, result, hid₁, -, hnum₁, -, hdeclined⟩
    cases hid.symm.trans hid₁
    cases hnum.symm.trans hnum₁
    exact ⟨result, hdeclined⟩
  · rintro ⟨result, hdeclined⟩
    exact ⟨id, num, result, hid, hid', hnum, hnum', hdeclined⟩

end Leaks

/-! ## What a handler leaves allocated -/

/-- **A program settles its result sets**: if it returns, the log is balanced, unless the
request leaves a result set behind. -/
abbrev Settles (reply : Replies) (leaks : Prop) (p : Handler HttpResponse)
    (log : List (Use ℕ)) : Prop :=
  p.Wp (fun log e log' => e.2 = reply e.1 ∧ log' = log ++ usesOf e)
    (fun x log => x.isOk = true → (Balanced log ↔ ¬ leaks)) log

section Settles

variable {json : JsonWriter} {s : Server} {req : HttpRequest} {resp : HttpResponse}
  {reply : Replies} {leaks : Prop} {id num : Bytes} {conn : Conn} {log : List (Use ℕ)}

theorem settles_op {o : DbOp} {k : DbOp.Reply o → Handler HttpResponse}
    (h : Settles reply leaks (k (reply o)) (log ++ usesOf ⟨o, reply o⟩)) :
    Settles reply leaks (.op o k) log := by
  rintro r _ ⟨hr, rfl⟩
  obtain rfl : r = reply o := hr
  exact h

theorem settles_quiet {o : DbOp} {k : DbOp.Reply o → Handler HttpResponse}
    (ho : usesOf ⟨o, reply o⟩ = []) (h : Settles reply leaks (k (reply o)) log) :
    Settles reply leaks (.op o k) log := by
  refine settles_op ?_
  rw [ho, List.append_nil]
  exact h

theorem settles_ret {r : HttpResponse} (hclean : Clean log []) (hleaks : ¬ leaks) :
    Settles reply leaks (.ret r) log :=
  fun _ => iff_of_true (balanced_iff_clean.mpr hclean) hleaks

theorem settles_ret_leak {r : HttpResponse} {h : ℕ} (hclean : Clean log [h]) (hleaks : leaks) :
    Settles reply leaks (.ret r) log :=
  fun _ => iff_of_false hclean.not_balanced (not_not.mpr hleaks)

theorem settles_fail {e : Fault} : Settles reply leaks (.fail e) log := nofun

theorem settles_useResult {result : MysqlRes} {k : Unit → Handler HttpResponse}
    (hclean : Clean log [result.handle])
    (h : ∀ log, Clean log [result.handle] → Settles reply leaks (k ()) log) :
    Settles reply leaks (.op (.useResult result) k) log :=
  settles_op (h _ (hclean.concat (List.mem_singleton_self result.handle)))

theorem settles_freeResult {result : MysqlRes} {k : Unit → Handler HttpResponse}
    (hclean : Clean log [result.handle])
    (h : ∀ log, Clean log [] → Settles reply leaks (k ()) log) :
    Settles reply leaks (.op (.freeResult result) k) log := by
  have hfreed := hclean.concat (u := .release result.handle) (List.mem_singleton_self _)
  rw [heldAfter, List.erase_cons_head] at hfreed
  exact settles_op (h _ hfreed)

/-- The end of a purchase frees its result set. -/
theorem settles_buyFinish {n : ℤ} {result : MysqlRes} {row : MysqlRow}
    (hclean : Clean log [result.handle]) (hleaks : ¬ leaks) :
    Settles reply leaks (Task.buyFinish json s req resp n result row) log := by
  unfold Task.buyFinish
  dsimp only
  cases row.price with
  | none =>
    split
    · exact settles_quiet rfl (settles_useResult hclean fun _ _ => settles_fail)
    · exact settles_useResult hclean fun _ _ => settles_fail
  | some price =>
    split
    · refine settles_quiet rfl (settles_useResult hclean fun _ hclean => ?_)
      exact settles_freeResult hclean fun _ hclean => settles_ret hclean hleaks
    · refine settles_useResult hclean fun _ hclean => ?_
      exact settles_freeResult hclean fun _ hclean =>
        settles_quiet rfl (settles_ret hclean hleaks)

/-- A purchase that has found a row keeps its result set if it is declined. -/
theorem settles_buyCompare {result : MysqlRes} {row : MysqlRow}
    (hclean : Clean log [result.handle]) (hrow : result.rows.head? = some row)
    (hleaks : leaks ↔ Declined reply s id num result) :
    Settles reply leaks
      (Task.buyCompare json s req resp id num (reply .getConnection) result row) log := by
  unfold Task.buyCompare
  cases hstock : row.num with
  | none => exact settles_fail
  | some stock =>
    dsimp only
    cases hn : stoi num with
    | error e => exact settles_quiet rfl settles_fail
    | ok n =>
      dsimp only
      split
      · next hless =>
        refine settles_quiet rfl (settles_ret_leak hclean (hleaks.mpr ?_))
        exact .outOfStock hrow hstock hn hless
      next hle =>
      unfold Task.buyUpdate
      refine settles_quiet rfl ?_
      split
      · next hfailed =>
        refine settles_quiet rfl (settles_quiet rfl (settles_ret_leak hclean (hleaks.mpr ?_)))
        exact .notUpdated hrow hstock hn hle hfailed
      · next hupdated =>
        refine settles_buyFinish hclean fun hleak => ?_
        cases hleaks.mp hleak with
        | noRow hnone => cases hrow.symm.trans hnone
        | outOfStock hrow' hstock' hn' hless =>
          cases hrow.symm.trans hrow'
          cases hstock.symm.trans hstock'
          cases hn.symm.trans hn'
          exact hle hless
        | notUpdated _ _ _ _ hfailed => exact hupdated hfailed

/-- A purchase with both parameters keeps the result set it stores if it is declined. -/
theorem settles_buyWith (hclean : Clean log [])
    (hleaks : leaks ↔ ∃ result, reply.stored s id = some result
      ∧ Declined reply s id num result) :
    Settles reply leaks (Task.buyWith json s req resp id num) log := by
  have hunstored : reply.stored s id = none → ¬ leaks := by
    intro hnone hleak
    obtain ⟨result, hresult, -⟩ := hleaks.mp hleak
    cases hnone.symm.trans hresult
  unfold Task.buyWith
  refine settles_quiet rfl (settles_quiet rfl (settles_quiet rfl ?_))
  unfold Task.buySelect
  refine settles_quiet rfl ?_
  split
  · next hfailed =>
    have hnone := Replies.stored_of_failed hfailed
    exact settles_quiet rfl (settles_quiet rfl (settles_ret hclean (hunstored hnone)))
  next hasked =>
  have hstored := Replies.stored_of_asked hasked
  unfold Task.buyStore
  cases hreply : (reply (.storeResult (reply .getConnection)) : Option MysqlRes) with
  | none =>
    refine settles_quiet (by rw [hreply]; rfl) ?_
    rw [hreply]
    have hnone := hstored.trans hreply
    exact settles_quiet rfl (settles_quiet rfl (settles_ret hclean (hunstored hnone)))
  | some result =>
    have hacquired := hclean.concat (u := .acquire result.handle) List.not_mem_nil
    refine settles_op ?_
    rw [hreply]
    have hdeclined : leaks ↔ Declined reply s id num result := by
      rw [hleaks, hstored, hreply]
      simp
    unfold Task.buyFetch
    refine settles_useResult hacquired fun log hclean => ?_
    cases hrow : result.rows.head? with
    | none => exact settles_quiet rfl (settles_ret_leak hclean (hdeclined.mpr (.noRow hrow)))
    | some row => exact settles_buyCompare hclean hrow hdeclined

/-- **A purchase leaves a result set behind exactly if it is declined.** -/
theorem settles_doBuy (hclean : Clean log []) :
    Settles reply (Leaks s reply (.buy req resp)) (Task.doBuy json s req resp) log := by
  unfold Task.doBuy
  cases hid : req.getQuery (bytes "commodity_id") with
  | error e => exact settles_fail
  | ok id =>
    dsimp only
    by_cases hid' : id = []
    · rw [if_pos hid']
      refine settles_ret hclean ?_
      rintro ⟨id₁, -, -, hid₁, hne, -⟩
      cases hid.symm.trans hid₁
      exact hne hid'
    rw [if_neg hid']
    cases hnum : req.getQuery (bytes "num") with
    | error e => exact settles_fail
    | ok num =>
      dsimp only
      by_cases hnum' : num = []
      · rw [if_pos hnum']
        refine settles_ret hclean ?_
        rintro ⟨-, num₁, -, -, -, hnum₁, hne, -⟩
        cases hnum.symm.trans hnum₁
        exact hne hnum'
      rw [if_neg hnum']
      exact settles_buyWith hclean (leaks_buy_iff hid hid' hnum hnum')

theorem settles_showItems {result : MysqlRes} {k : List Json → Handler HttpResponse}
    (hk : ∀ items log, Clean log [result.handle] → Settles reply leaks (k items) log)
    (rows : List MysqlRow) (items : List Json) (hclean : Clean log [result.handle]) :
    Settles reply leaks (Task.showItems result k rows items) log := by
  induction rows generalizing items log with
  | nil => exact settles_useResult hclean fun log hclean => hk items log hclean
  | cons row rows ih =>
    refine settles_useResult hclean fun log hclean => ?_
    cases Task.rowItem row with
    | error e => exact settles_fail
    | ok item => exact ih _ hclean

/-- **`do_show` frees the result set it has stored.** -/
theorem settles_doShow (hclean : Clean log []) (hleaks : ¬ leaks) :
    Settles reply leaks (Task.doShow json s req resp) log := by
  unfold Task.doShow
  refine settles_quiet rfl (settles_quiet rfl (settles_quiet rfl ?_))
  split
  · exact settles_ret hclean hleaks
  unfold Task.showStore
  cases hstored : (reply (.storeResult (reply .getConnection)) : Option MysqlRes) with
  | none =>
    refine settles_quiet (by rw [hstored]; rfl) ?_
    rw [hstored]
    exact settles_quiet rfl (settles_ret hclean hleaks)
  | some result =>
    have hacquired := hclean.concat (u := .acquire result.handle) List.not_mem_nil
    refine settles_op ?_
    rw [hstored]
    refine settles_useResult hacquired fun log hclean => ?_
    refine settles_showItems (fun items log hclean => ?_) result.rows [] hclean
    exact settles_freeResult hclean fun _ hclean => settles_ret hclean hleaks

/-- **What an execution leaves allocated.** -/
theorem settles_prog (e : Execution) (hclean : Clean log []) :
    Settles reply (Leaks s reply e) (e.prog json s) log := by
  cases e with
  | buy req resp => exact settles_doBuy hclean
  | «show» req resp => exact settles_doShow hclean id

end Settles

/-! ## All requests of a server -/

section Completed

variable {json : JsonWriter} {s : Server} {log log' : List (Use ℕ)}
  {request : Execution × Replies}

/-- **A completed request leaves a balanced log balanced exactly if it leaves nothing
behind.** -/
theorem Completed.balanced_iff (h : Completed json s log request log') (hlog : Balanced log) :
    Balanced log' ↔ ¬ Leaks s request.2 request.1 := by
  have hsettles := Prog.wp_events_iff.mp
    (settles_prog request.1 (balanced_iff_clean.mp hlog)) h.returns
  rw [List.foldl_append_eq_append] at hsettles
  rw [h.log]
  exact hsettles

/-- **Exactly when the result sets are balanced.** Over every sequence of completed
purchases and shows, with whatever parameters and whatever outcomes of the database: the
log is balanced behind each of them if and only if none of them is a purchase that
stores a result set and is declined then. -/
theorem results_balanced_iff {steps : List (List (Use ℕ) × (Execution × Replies))}
    (h : Run (Completed json s) [] steps log) :
    ((∀ x ∈ steps, Balanced x.1) ∧ Balanced log)
      ↔ Meets (fun _ request => ¬ Leaks s request.2 request.1) steps :=
  h.forall_iff_meets (fun _ _ _ (_ : True) _ => trivial)
    (fun _ _ _ _ hbalanced hstep => hstep.balanced_iff hbalanced) trivial
    (balanced_iff_clean.mpr clean_nil)

end Completed

/-- A purchase of a commodity of which five are in stock. -/
def stockedPurchase (num : String) : Execution × Replies :=
  (.buy (quantityRequest num) { closeConnection := false }, stocked)

/-- What it does to result sets. -/
def purchaseUses (num : String) : List (Use ℕ) :=
  (stockedPurchase num).1.uses silentWriter server1 (stockedPurchase num).2

theorem completed_stockedPurchase {num : String} {log : List (Use ℕ)} (hlog : held log = [])
    (h : (((stockedPurchase num).1.prog silentWriter server1).outcome stocked).isOk = true) :
    Completed silentWriter server1 log (stockedPurchase num) (log ++ purchaseUses num) :=
  ⟨h, fun _ _ => by rw [hlog]; exact List.not_mem_nil, rfl⟩

/-- A purchase of two, and then one of nine. -/
theorem results_balanced_twoNine :
    ((∀ x ∈ [(([] : List (Use ℕ)), stockedPurchase "2"), (purchaseUses "2", stockedPurchase "9")],
        Balanced x.1) ∧ Balanced (purchaseUses "2" ++ purchaseUses "9"))
      ↔ Meets (fun (_ : List (Use ℕ)) request => ¬ Leaks server1 request.2 request.1)
        [([], stockedPurchase "2"), (purchaseUses "2", stockedPurchase "9")] :=
  results_balanced_iff
    (.cons (completed_stockedPurchase rfl (by decide +kernel))
      (.cons (completed_stockedPurchase (by decide +kernel) (by decide +kernel)) (.nil _)))

/-- **A purchase of more than there is leaves its result set behind.** -/
theorem not_results_balanced_nine :
    ¬ ∀ steps log, Run (Completed silentWriter server1) [] steps log → Balanced log := by
  intro h
  have hcompleted := @completed_stockedPurchase "9" [] rfl (by decide +kernel)
  have hbalanced := h _ _ (.cons hcompleted (.nil _))
  exact absurd (hbalanced.released 0) (by decide +kernel)

end MicroBusiness
