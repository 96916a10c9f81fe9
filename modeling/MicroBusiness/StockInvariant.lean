import MicroBusiness.CommodityTable
import MicroBusiness.Threads

/-!
# Purchases that run at the same time

Any number of executions of `do_buy` for one commodity, in any interleaving
of their calls. Each compares and updates under `conn_mutex`, so it is guarded
by the mutex (`guarded_doBuy`) and keeps the balance of the table: the stock
is never negative, and what it has lost is what the executed updates say
(`stock_balanced`). This rests on the mutex alone; which of the pool's
connections the executions work on does not matter here.
-/

namespace MicroBusiness

open Program Transition

/-- **An order of a plain quantity**: decimal digits that fit an `int`. -/
structure PlainOrder extends Order where
  isDigit : ∀ b ∈ num, isDigit b = true
  fits : natOfDigits num < 2 ^ 31

section Balance

variable {ι : Type} [DecidableEq ι]

/-- The quantity texts of the updates that the execution `i` of a handler got through. -/
def Shop.executed (shop : Shop ι) (i : ι) : List Bytes :=
  (shop.log.filter (fun e => e.1 = i)).map Prod.snd

/-- What all executed updates together are about. -/
def Shop.sold (shop : Shop ι) : ℤ := (shop.log.map (fun e => (natOfDigits e.2 : ℤ))).sum

omit [DecidableEq ι] in
/-- **The table is balanced**: the stock is not negative, and what it lost is
what was sold. -/
def Balanced (start : ℤ) (shop : Shop ι) : Prop :=
  0 ≤ shop.stock ∧ start - shop.stock = shop.sold

/-- **The answer of a purchase fits its updates**: a success has been
deducted exactly once, anything else not at all. -/
def Settled (num : Bytes) (x : Except Fault HttpResponse) (executed : List Bytes) : Prop :=
  (Succeeds x → executed = [num]) ∧ (¬ Succeeds x → executed = [])

variable {s : Server} {item : Commodity} {id : Bytes} {i : ι} {shop shop' : Shop ι}

theorem ShopStep.executed_of_ne {e : DbEvent} (h : ShopStep s item id i shop e shop') {j : ι}
    (hj : j ≠ i) : shop'.executed j = shop.executed j := by
  cases h with
  | update _ _ c _ =>
    unfold Shop.executed
    rw [List.filter_append, List.map_append, List.filter_cons_of_neg (by
      simpa only [decide_eq_true_eq] using fun h => hj h.symm)]
    exact List.append_nil _
  | _ => rfl

end Balance

section Guarded

variable {ι : Type} [DecidableEq ι] {json : JsonWriter} {s : Server} {item : Commodity}
  {req : HttpRequest} {resp : HttpResponse} {id num : Bytes} {i : ι} {conn : Conn}
  {start : ℤ} {shop : Shop ι}

variable (s item id i start num) in
/-- What is left of a purchase is guarded by `conn_mutex`, from what is known. -/
abbrev BuysGuarded (p : Handler HttpResponse) (k : Knowledge (List Bytes) (Shop ι)) : Prop :=
  p.Guarded DbOp.lock DbOp.unlock (ShopStep s item id i) (Balanced start)
    (fun shop => shop.executed i) (Settled num) k

theorem guarded_inside_of_step {o : DbOp} {k : DbOp.Reply o → Handler HttpResponse}
    (ho : o ≠ .unlock) (h : ∀ r shop', ShopStep s item id i shop ⟨o, r⟩ shop' →
      Balanced start shop' ∧ BuysGuarded s item id num i start (k r) (.inside shop')) :
    BuysGuarded s item id num i start (.op o k) (.inside shop) :=
  (Prog.guarded_inside ho).mpr h

theorem guarded_inside_of_not_isQuery {o : DbOp} {k : DbOp.Reply o → Handler HttpResponse}
    (hq : ¬ o.IsQuery) (ho : o ≠ .unlock) (hinv : Balanced start shop)
    (h : ∀ r, BuysGuarded s item id num i start (k r) (.inside shop)) :
    BuysGuarded s item id num i start (.op o k) (.inside shop) := by
  refine guarded_inside_of_step ho fun r shop' hstep => ?_
  rw [hstep.eq_of_not_isQuery hq]
  exact ⟨hinv, h r⟩

theorem guarded_outside_of_not_isQuery {o : DbOp} {k : DbOp.Reply o → Handler HttpResponse}
    {executed : List Bytes} (hq : ¬ o.IsQuery) (ho : o ≠ .lock)
    (h : ∀ r, BuysGuarded s item id num i start (k r) (.outside executed)) :
    BuysGuarded s item id num i start (.op o k) (.outside executed) :=
  (Prog.guarded_outside ho).mpr fun r _ _ hstep => ⟨hstep.eq_of_not_isQuery hq, h r⟩

theorem guarded_unlock_ret {r : HttpResponse} (hr : r.statusCode ≠ .k200Ok)
    (hexecuted : shop.executed i = []) :
    BuysGuarded s item id num i start (.op .unlock fun _ => .ret r) (.inside shop) := by
  refine Prog.guarded_unlock.mpr fun _ => ?_
  exact ⟨fun h => absurd h hr, fun _ => hexecuted⟩

theorem guarded_networkError (hinv : Balanced start shop) (hexecuted : shop.executed i = []) :
    BuysGuarded s item id num i start (.op (.error conn) fun _ =>
      .op .unlock fun _ => .ret (Task.networkError json s req resp)) (.inside shop) :=
  guarded_inside_of_not_isQuery not_false (fun h => nomatch h) hinv fun _ =>
    guarded_unlock_ret (fun h => nomatch h) hexecuted

/-- The answer after the update, of which the mutex is given back before or
behind. -/
theorem guarded_buyFinish {n : ℤ} {result : MysqlRes} (stock : ℤ) (hinv : Balanced start shop)
    (hexecuted : shop.executed i = [num]) :
    BuysGuarded s item id num i start
      (Task.buyFinish json s req resp n result (item.row stock)) (.inside shop) := by
  have hsettled : ∀ r : HttpResponse, r.statusCode = .k200Ok →
      Settled num (.ok r) (shop.executed i) :=
    fun r hr => ⟨fun _ => hexecuted, fun h => absurd hr h⟩
  unfold Task.buyFinish
  dsimp only [Commodity.row]
  split
  · refine Prog.guarded_unlock.mpr fun _ => ?_
    refine guarded_outside_of_not_isQuery not_false (fun h => nomatch h) fun _ => ?_
    exact guarded_outside_of_not_isQuery not_false (fun h => nomatch h) fun _ =>
      hsettled _ rfl
  · refine guarded_inside_of_not_isQuery not_false (fun h => nomatch h) hinv fun _ => ?_
    refine guarded_inside_of_not_isQuery not_false (fun h => nomatch h) hinv fun _ => ?_
    exact Prog.guarded_unlock.mpr fun _ => hsettled _ rfl

theorem executed_update (stock : ℤ) (pending : Conn → Option MysqlRow) :
    (Shop.mk stock pending (shop.log ++ [(i, num)])).executed i = shop.executed i ++ [num] := by
  have hmine : [(i, num)].filter (fun e => e.1 = i) = [(i, num)] :=
    List.filter_cons_of_pos (decide_eq_true rfl)
  unfold Shop.executed
  rw [List.filter_append, List.map_append, hmine]
  rfl

omit [DecidableEq ι] in
/-- An update of a quantity that is there keeps the table balanced. -/
theorem Balanced.update (h : Balanced start shop) (hle : natOfDigits num ≤ shop.stock)
    (pending : Conn → Option MysqlRow) (i : ι) :
    Balanced start
      (Shop.mk (shop.stock - natOfDigits num) pending (shop.log ++ [(i, num)])) := by
  obtain ⟨-, hsold⟩ := h
  refine ⟨Int.sub_nonneg_of_le hle, ?_⟩
  unfold Shop.sold at hsold ⊢
  rw [List.map_append, List.sum_append, ← hsold, List.map_singleton, List.sum_singleton]
  ring

/-- **The comparison and the update** of plain digits: what is asked for is
there, and is what the update takes. -/
theorem guarded_buyCompare {result : MysqlRes} {stock : ℤ} (hstock : shop.stock = stock)
    (hdigits : ∀ b ∈ num, isDigit b = true)
    (hne : num ≠ []) (hfits : natOfDigits num < 2 ^ 31) (hinv : Balanced start shop)
    (hexecuted : shop.executed i = []) :
    BuysGuarded s item id num i start
      (Task.buyCompare json s req resp id num conn result (item.row stock)) (.inside shop) := by
  subst hstock
  unfold Task.buyCompare
  rw [stoi_of_digits hne hdigits hfits]
  dsimp only [Commodity.row]
  split
  · exact guarded_unlock_ret (fun h => nomatch h) hexecuted
  next hle =>
  have hle : natOfDigits num ≤ shop.stock :=
    (not_lt.mp hle).trans (atoi_intText_le (hinv.1.trans' (by norm_num)))
  unfold Task.buyUpdate
  refine guarded_inside_of_step (fun h => nomatch h) fun failed shop' hstep => ?_
  rcases hstep.of_update with ⟨rfl, rfl⟩ | ⟨rfl, c, hc, rfl⟩
  · exact ⟨hinv, guarded_networkError hinv hexecuted⟩
  · have htext := hc.text_eq hdigits
    have htaken : c.takenFrom shop.stock = shop.stock - natOfDigits num := by
      rw [c.takenFrom_of_digits (htext.symm ▸ hdigits), htext]
    rw [htaken, htext]
    have hinv' := hinv.update hle shop.pending i
    refine ⟨hinv', guarded_buyFinish shop.stock hinv' ?_⟩
    rw [executed_update, hexecuted]
    rfl

/-- **The purchase under the mutex**: the row it fetches is the one of the
select it made, with the stock as it still is. -/
theorem guarded_buySelect (hdigits : ∀ b ∈ num, isDigit b = true) (hne : num ≠ [])
    (hfits : natOfDigits num < 2 ^ 31) (hinv : Balanced start shop)
    (hexecuted : shop.executed i = []) :
    BuysGuarded s item id num i start (Task.buySelect json s req resp id num conn)
      (.inside shop) := by
  unfold Task.buySelect
  refine guarded_inside_of_step (fun h => nomatch h) fun failed shop' hstep => ?_
  rcases hstep.of_select with ⟨rfl, rfl⟩ | ⟨rfl, rfl⟩
  · exact ⟨hinv, guarded_networkError hinv hexecuted⟩
  refine ⟨hinv, ?_⟩
  show BuysGuarded s item id num i start (Task.buyStore json s req resp id num conn) _
  refine guarded_inside_of_step (fun h => nomatch h) fun result shop' hstep => ?_
  rcases hstep.of_storeResult with ⟨rfl, rfl⟩ | ⟨handle, row, hrow, rfl, rfl⟩
  · exact ⟨hinv, guarded_networkError hinv hexecuted⟩
  refine ⟨hinv, ?_⟩
  dsimp only at hrow
  rw [Function.update_self, Option.some.injEq] at hrow
  subst hrow
  refine guarded_inside_of_not_isQuery not_false (fun h => nomatch h) hinv fun _ => ?_
  show BuysGuarded s item id num i start (Task.buyCompare json s req resp id num conn
    ⟨handle, [item.row shop.stock]⟩ (item.row shop.stock)) _
  exact guarded_buyCompare rfl hdigits hne hfits hinv hexecuted

/-- **`do_buy` of a plain order is guarded by `conn_mutex`.** -/
theorem guarded_doBuy (order : PlainOrder) :
    BuysGuarded s item order.id order.num i start (Task.doBuy json s order.req resp)
      (.outside []) := by
  rw [order.doBuy_eq]
  unfold Task.buyWith
  refine guarded_outside_of_not_isQuery not_false (fun h => nomatch h) fun conn => ?_
  refine guarded_outside_of_not_isQuery not_false (fun h => nomatch h) fun _ => ?_
  exact Prog.guarded_lock.mpr fun _ shop hinv hexecuted =>
    guarded_buySelect order.isDigit order.num_ne_nil order.fits hinv hexecuted

end Guarded

/-! ## All purchases of a commodity -/

section StockBalanced

variable {ι : Type} [DecidableEq ι] (json : JsonWriter) (s : Server) (item : Commodity)
  (orders : ι → PlainOrder) (resp : ι → HttpResponse)

/-- The executions of `do_buy` for the orders, before they begin, on a table
no update of theirs was executed on. -/
def buyers (stock : ℤ) (pending : Conn → Option MysqlRow) :
    Threads ι DbOp DbOp.Reply Fault HttpResponse (Option ι × Shop ι) where
  shared := (none, ⟨stock, pending, []⟩)
  prog i := Task.doBuy json s (orders i).req (resp i)

/-- A call of one of the executions, on the table and on `conn_mutex`. -/
abbrev PurchaseStep :=
  Threads.Step (ε := Fault) (α := HttpResponse) (Mutex.Exec DbOp.lock DbOp.unlock
    (fun i : ι => ShopStep s item (orders i).id i))

/-- **No oversell and no lost update**: in every interleaving of purchases of a
commodity, the stock is never negative, it has lost exactly what the executed
updates are about, and an execution that has ended executed its update once
if it answered success, and none else. -/
theorem stock_balanced {stock : ℤ} (hstock : 0 ≤ stock) (pending : Conn → Option MysqlRow)
    {steps : List (Threads ι DbOp DbOp.Reply Fault HttpResponse (Option ι × Shop ι) ×
      (ι × DbEvent))}
    {th : Threads ι DbOp DbOp.Reply Fault HttpResponse (Option ι × Shop ι)}
    (h : Run (PurchaseStep s item orders) (buyers json s orders resp stock pending) steps th) :
    0 ≤ th.shared.2.stock ∧ stock - th.shared.2.stock = th.shared.2.sold ∧
      ∀ i x, (th.prog i).result = some x →
        (Succeeds x → th.shared.2.executed i = [(orders i).num]) ∧
        (¬ Succeeds x → th.shared.2.executed i = []) := by
  have hkept : Kept DbOp.lock DbOp.unlock (fun i => ShopStep s item (orders i).id i)
      (Balanced stock) (fun i shop => shop.executed i) (fun i => Settled (orders i).num) th := by
    refine Kept.run (fun i j shop e shop' hstep hj => hstep.executed_of_ne hj) h ⟨?_, fun i => ?_⟩
    · exact ⟨hstock, Int.sub_self stock⟩
    · exact guarded_doBuy (orders i)
  exact ⟨hkept.invariant.1, hkept.invariant.2, fun i x hx => hkept.of_result hx⟩

end StockBalanced

/-! ## Two orders at once -/

/-- The order of `/10002/buy/?commodity_id=1&num=2`. -/
def twoPieces : PlainOrder where
  req := ({} : HttpRequest).setQuery (bytes "?commodity_id=1&num=2")
  id := bytes "1"
  num := bytes "2"
  getQuery_id := by decide +kernel
  getQuery_num := by decide +kernel
  id_ne_nil := lipstick_id_ne_nil
  num_ne_nil := by decide
  isDigit := by decide +kernel
  fits := by decide

/-- The order twice, for a stock of three. -/
def twoBuyers : Threads Bool DbOp DbOp.Reply Fault HttpResponse (Option Bool × Shop Bool) :=
  buyers silentWriter server2 (fun _ => twoPieces) (fun _ => { closeConnection := false }) 3
    fun _ => none

/-- One of the two begins, and the other one is served. -/
theorem twoBuyers_run : ∃ steps th,
    Run (PurchaseStep server2 lipstick (fun _ => twoPieces)) twoBuyers steps th ∧
      ∃ x, (th.prog true).result = some x ∧ Succeeds x := by
  have hstart : twoBuyers = ⟨(none, ⟨3, fun _ => none, []⟩), fun _ => Task.buyWith silentWriter
      server2 twoPieces.req { closeConnection := false } twoPieces.id twoPieces.num⟩ := by
    unfold twoBuyers buyers
    simp only [twoPieces.doBuy_eq]
  have hcompare : ∀ result, Task.buyCompare silentWriter server2 twoPieces.req
      { closeConnection := false } twoPieces.id twoPieces.num 0 result (lipstick.row 3)
        = Task.buyUpdate silentWriter server2 twoPieces.req { closeConnection := false }
          twoPieces.id twoPieces.num 0 2 result (lipstick.row 3) := by
    intro result
    have hstoi : stoi twoPieces.num = .ok 2 := by decide +kernel
    unfold Task.buyCompare
    dsimp only [Commodity.row]
    rw [hstoi]
    exact if_neg (by decide +kernel)
  rw [hstart]
  refine ⟨_, _,
    .cons (.call (i := false) rfl (.other nofun nofun (.getConnection _ 0))) <|
    .cons (.call (i := true) rfl (.other nofun nofun (.getConnection _ 0))) <|
    .cons (.call (i := true) rfl (.other nofun nofun (.releaseConnection _ 0))) <|
    .cons (.call (i := true) rfl (.lock _ ())) <|
    .cons (.call (i := true) rfl (.other nofun nofun (.select _ 0 rfl))) <|
    .cons (.call (i := true) rfl (.other nofun nofun (.store _ 0 0 rfl))) <|
    .cons (.call (i := true) rfl (.other nofun nofun (.useResult _ _))) <|
    .cons (.call (i := true) (hcompare _) (.other nofun nofun
      (.update _ 0 ⟨⟨none, bytes "2", by decide, by decide +kernel⟩, []⟩
        (Or.inl (by decide +kernel))))) <|
    .cons (.call (i := true) rfl (.unlock _ ())) <|
    .cons (.call (i := true) rfl (.other nofun nofun (.useResult _ _))) <|
    .cons (.call (i := true) rfl (.other nofun nofun (.freeResult _ _))) <|
    .nil _, _, rfl, rfl⟩

/-- The one that was served has executed its update, and the table is
balanced. -/
theorem stock_balanced_twoBuyers : ∃ steps th,
    Run (PurchaseStep server2 lipstick (fun _ => twoPieces)) twoBuyers steps th ∧
      th.shared.2.executed true = [bytes "2"] ∧ 0 ≤ th.shared.2.stock ∧
      3 - th.shared.2.stock = th.shared.2.sold := by
  obtain ⟨steps, th, hrun, x, hx, hsucceeds⟩ := twoBuyers_run
  obtain ⟨hstock, hsold, hsettled⟩ := stock_balanced silentWriter server2 lipstick
    (fun _ => twoPieces) (fun _ => { closeConnection := false }) (by decide) (fun _ => none) hrun
  exact ⟨steps, th, hrun, (hsettled true x hx).1 hsucceeds, hstock, hsold⟩

end MicroBusiness
