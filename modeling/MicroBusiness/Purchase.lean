import MicroBusiness.CommodityTable

/-!
# What a purchase charges and what it takes

`do_buy` reads the quantity text twice: `std::stoi` gives the number that is
compared with the stock and that the price is computed from, and MySQL
evaluates the text, as far as it gets it, as part of an update. `exec_buyWith`
says what a purchase does to the stock in terms of the two readings, and
`chargesWhatItTakes_iff` when they agree: MySQL reads the text as a chain of
literals that `std::stoi` reads a positive number from and whose further
literals cancel out, or it is nothing that MySQL accepts, or it is rejected
before the update.

Nothing is assumed of the text. It may have a zero byte in it, which ends both
readings (`ReadAs`), and the same is said of the id.
-/

namespace MicroBusiness

open Program

section Outcome

variable {ι : Type} {json : JsonWriter} {s : Server} {item : Commodity} {req : HttpRequest}
  {resp : HttpResponse} {id num : Bytes} {i : ι} {conn : Conn} {shop : Shop ι}

/-- **The outcomes of a purchase** of the execution `i` in a given table: it does not
answer success and leaves the stock, or it answers success, and the text is read
as a chain of literals whose first is not above the stock as `atoi` reads it. -/
def Purchased (i : ι) (id num : Bytes) (shop : Shop ι) (x : Except Fault HttpResponse)
    (shop' : Shop ι) : Prop :=
  (¬ Succeeds x ∧ shop'.stock = shop.stock ∧ shop'.log = shop.log) ∨
    (Succeeds x ∧ ∃ c : Chain, ReadAs id num c ∧ shop'.log = shop.log ++ [(i, c.text)] ∧
      IsInt c.first.value ∧ c.first.value ≤ atoi (intText shop.stock) ∧
      shop'.stock = c.takenFrom shop.stock)

theorem wp_op_of_not_isQuery {post : Except Fault HttpResponse → Shop ι → Prop} {o : DbOp}
    {k : DbOp.Reply o → Handler HttpResponse} (ho : ¬ o.IsQuery)
    (h : ∀ r, (k r).Wp (ShopStep s item id i) post shop) :
    (Prog.op o k).Wp (ShopStep s item id i) post shop := by
  intro r shop' hstep
  rw [hstep.eq_of_not_isQuery ho]
  exact h r

theorem not_succeeds_networkError :
    ¬ Succeeds (.ok (Task.networkError json s req resp)) := by
  intro h
  cases h

theorem wp_buyFinish {post : Except Fault HttpResponse → Shop ι → Prop} {n : ℤ}
    {result : MysqlRes} (stock : ℤ) (h : ∀ x, Succeeds x → post x shop) :
    (Task.buyFinish json s req resp n result (item.row stock)).Wp (ShopStep s item id i) post
      shop := by
  unfold Task.buyFinish
  dsimp only [Commodity.row]
  split
  · refine wp_op_of_not_isQuery not_false fun _ => ?_
    refine wp_op_of_not_isQuery not_false fun _ => ?_
    exact wp_op_of_not_isQuery not_false fun _ => h _ rfl
  · refine wp_op_of_not_isQuery not_false fun _ => ?_
    refine wp_op_of_not_isQuery not_false fun _ => ?_
    exact wp_op_of_not_isQuery not_false fun _ => h _ rfl

/-- **The comparison and the update**: only a text whose number is not above
the stock, and that MySQL reads as a chain of literals, gets through. -/
theorem wp_buyCompare {result : MysqlRes} {pending : Conn → Option MysqlRow} :
    (Task.buyCompare json s req resp id num conn result (item.row shop.stock)).Wp
      (ShopStep s item id i) (Purchased i id num shop) { shop with pending := pending } := by
  unfold Task.buyCompare
  dsimp only [Commodity.row]
  cases hnum : stoi num with
  | error e =>
    dsimp only
    exact wp_op_of_not_isQuery not_false fun _ => Or.inl ⟨not_false, rfl, rfl⟩
  | ok n =>
    dsimp only
    split
    · exact wp_op_of_not_isQuery not_false fun _ => Or.inl ⟨(fun h => nomatch h), rfl, rfl⟩
    next hle =>
    unfold Task.buyUpdate
    intro failed shop' hstep
    rcases hstep.of_update with ⟨rfl, rfl⟩ | ⟨rfl, c, hc, rfl⟩
    · refine wp_op_of_not_isQuery not_false fun _ => ?_
      exact wp_op_of_not_isQuery not_false fun _ =>
        Or.inl ⟨not_succeeds_networkError, rfl, rfl⟩
    · -- the number compared is the first literal of the chain
      rw [hc.stoi_eq] at hnum
      split at hnum
      · next hfits =>
        cases hnum
        exact wp_buyFinish shop.stock fun x hx =>
          Or.inr ⟨hx, c, hc, rfl, hfits, not_lt.mp hle, rfl⟩
      · cases hnum

/-- The purchase under the mutex. -/
theorem wp_buySelect :
    (Task.buySelect json s req resp id num conn).Wp (ShopStep s item id i)
      (Purchased i id num shop) shop := by
  unfold Task.buySelect
  intro failed shop' hstep
  rcases hstep.of_select with ⟨rfl, rfl⟩ | ⟨rfl, rfl⟩
  · refine wp_op_of_not_isQuery not_false fun _ => ?_
    exact wp_op_of_not_isQuery not_false fun _ =>
      Or.inl ⟨not_succeeds_networkError, rfl, rfl⟩
  show (Task.buyStore json s req resp id num conn).Wp _ _ _
  intro result shop' hstep
  rcases hstep.of_storeResult with ⟨rfl, rfl⟩ | ⟨handle, row, hrow, rfl, rfl⟩
  · refine wp_op_of_not_isQuery not_false fun _ => ?_
    exact wp_op_of_not_isQuery not_false fun _ =>
      Or.inl ⟨not_succeeds_networkError, rfl, rfl⟩
  dsimp only at hrow
  rw [Function.update_self, Option.some.injEq] at hrow
  subst hrow
  unfold Task.buyFetch
  exact wp_op_of_not_isQuery not_false fun _ => wp_buyCompare

/-- **What a purchase does to the stock.** -/
theorem exec_buyWith {x : Except Fault HttpResponse} {shop' : Shop ι}
    (h : (Task.buyWith json s req resp id num).Exec (ShopStep s item id i) shop x shop') :
    Purchased i id num shop x shop' := by
  refine Prog.wp_iff.mp ?_ x shop' h
  unfold Task.buyWith
  refine wp_op_of_not_isQuery not_false fun conn => ?_
  refine wp_op_of_not_isQuery not_false fun _ => ?_
  exact wp_op_of_not_isQuery not_false fun _ => wp_buySelect

end Outcome

section Success

variable {ι : Type} {json : JsonWriter} {s : Server} {item : Commodity} {req : HttpRequest}
  {resp : HttpResponse} {id num : Bytes} {i : ι} {shop : Shop ι}

theorem exec_buyFinish (n : ℤ) (result : MysqlRes) (stock : ℤ) :
    ∃ x, Succeeds x ∧ ∀ shop : Shop ι,
      (Task.buyFinish json s req resp n result (item.row stock)).Exec (ShopStep s item id i)
        shop x shop := by
  unfold Task.buyFinish
  dsimp only [Commodity.row]
  split
  · refine ⟨_, ?_, fun shop => .op (.unlock shop) (.op (.useResult shop result)
      (.op (.freeResult shop result) (.ret _ shop)))⟩
    exact rfl
  · refine ⟨_, ?_, fun shop => .op (.useResult shop result) (.op (.freeResult shop result)
      (.op (.unlock shop) (.ret _ shop)))⟩
    exact rfl

/-- **A chain whose first literal is not above the stock can be bought**: no
call has to fail. -/
theorem exists_exec_buyWith (c : Chain) (hnum : ReadAs id num c) (hfits : IsInt c.first.value)
    (hle : c.first.value ≤ atoi (intText shop.stock)) :
    ∃ x shop', (Task.buyWith json s req resp id num).Exec (ShopStep s item id i) shop x shop' ∧
      Succeeds x ∧ shop'.stock = c.takenFrom shop.stock := by
  have hstoi : stoi num = .ok c.first.value := by
    rw [hnum.stoi_eq, if_pos hfits]
  have hcompare : Task.buyCompare json s req resp id num 0 ⟨0, [item.row shop.stock]⟩
      (item.row shop.stock) = Task.buyUpdate json s req resp id num 0 c.first.value
        ⟨0, [item.row shop.stock]⟩ (item.row shop.stock) := by
    unfold Task.buyCompare
    dsimp only [Commodity.row]
    rw [hstoi]
    exact if_neg (not_lt.mpr hle)
  have hpending : Function.update shop.pending 0 (some (item.row shop.stock)) 0
      = some (item.row shop.stock) := Function.update_self _ _ _
  obtain ⟨x, hx, hfinish⟩ : ∃ x, Succeeds x ∧ ∀ shop' : Shop ι,
      (Task.buyFinish json s req resp c.first.value ⟨0, [item.row shop.stock]⟩
        (item.row shop.stock)).Exec (ShopStep s item id i) shop' x shop' :=
    exec_buyFinish _ _ _
  have hbuy : ∀ shop' : Shop ι, shop'.stock = shop.stock → ∃ shop'',
      (Task.buyCompare json s req resp id num 0 ⟨0, [item.row shop.stock]⟩
        (item.row shop.stock)).Exec (ShopStep s item id i) shop' x shop'' ∧
      shop''.stock = c.takenFrom shop.stock := by
    intro shop' hstock
    rw [hcompare, ← hstock]
    rw [← hstock] at hfinish
    exact ⟨_, .op (.update shop' 0 c (updates_iff.mpr hnum)) (hfinish _), rfl⟩
  obtain ⟨shop', hexec, hstock⟩ := hbuy
    { shop with pending := Function.update (Function.update shop.pending 0 _) 0 none } rfl
  refine ⟨x, shop', ?_, hx, hstock⟩
  exact .op (.getConnection shop 0) (.op (.releaseConnection shop 0) (.op (.lock shop)
    (.op (.select shop 0 rfl) (.op (.store _ 0 0 hpending) (.op (.useResult _ _) hexec)))))

end Success

/-- **A purchase charges what it takes**: if it answers success, the number
that `std::stoi` reads from its text, which the price is computed from, is
between one and the stock and is what the stock is lowered by, and else the
stock stays. -/
def ChargesWhatItTakes (json : JsonWriter) (s : Server) (item : Commodity) (order : Order)
    (stock : ℤ) : Prop :=
  ∀ (resp : HttpResponse) (shop shop' : Shop Unit) (x : Except Fault HttpResponse),
    shop.stock = stock →
    (Task.doBuy json s order.req resp).Exec (ShopStep s item order.id ()) shop x shop' →
    (Succeeds x → ∃ q, stoi order.num = .ok q ∧ 1 ≤ q ∧ q ≤ stock ∧ shop'.stock = stock - q) ∧
      (¬ Succeeds x → shop'.stock = stock)

/-- **The two readings agree on the quantity text**: if MySQL reads it as a chain of
literals whose first literal fits an `int` and is not above the stock as `atoi`
reads it, then this literal is positive and not above the stock, and the other
literals cancel out. -/
def ReadingsAgree (id num : Bytes) (stock : ℤ) : Prop :=
  ∀ c : Chain, ReadAs id num c → IsInt c.first.value →
    c.first.value ≤ atoi (intText stock) →
    1 ≤ c.first.value ∧ c.first.value ≤ stock ∧ c.others = 0

/-- **On plain digits the two readings agree**, unless they say zero. -/
theorem readingsAgree_of_digits (id : Bytes) {num : Bytes} {stock : ℤ}
    (hdigits : ∀ b ∈ num, isDigit b = true) (hpos : 0 < natOfDigits num)
    (hstock : -2 ^ 31 ≤ stock) : ReadingsAgree id num stock := by
  intro c hnum hfits hle
  have htext := hnum.text_eq hdigits
  have hfirst : c.first.value = natOfDigits num := by
    have hread := c.strtol_append (t := []) rfl
    have hne : num ≠ [] := by
      rintro rfl
      exact absurd hpos (lt_irrefl 0)
    rw [List.append_nil, htext, strtol_of_digits hne hdigits, Option.some.injEq] at hread
    exact hread.symm
  -- one literal of digits is the whole chain
  have htaken := c.takenFrom_of_digits (htext.symm ▸ hdigits) 0
  rw [c.takenFrom_eq, htext] at htaken
  exact ⟨by omega, hle.trans (atoi_intText_le hstock), by omega⟩

theorem exists_exec_doBuy (json : JsonWriter) (s : Server) (item : Commodity) (order : Order)
    (resp : HttpResponse) (shop : Shop Unit) {c : Chain} (hnum : ReadAs order.id order.num c)
    (hfits : IsInt c.first.value) (hle : c.first.value ≤ atoi (intText shop.stock)) :
    ∃ x shop', (Task.doBuy json s order.req resp).Exec (ShopStep s item order.id ()) shop x shop' ∧
      Succeeds x ∧ shop'.stock = c.takenFrom shop.stock := by
  rw [order.doBuy_eq]
  exact exists_exec_buyWith c hnum hfits hle

/-- **A purchase charges what it takes exactly when the two readings of its
quantity agree.** Where they do not, a run in which no call fails answers success
and takes something else; where they do, every run that answers success has taken
the first literal of the chain, since the others cancel out. -/
theorem chargesWhatItTakes_iff (json : JsonWriter) (s : Server) (item : Commodity)
    (order : Order) (stock : ℤ) :
    ChargesWhatItTakes json s item order stock ↔ ReadingsAgree order.id order.num stock := by
  constructor
  · intro h c hnum hfits hle
    obtain ⟨x, shop', hexec, hx, hstock⟩ := exists_exec_doBuy json s item order
      { closeConnection := false } { stock := stock } hnum hfits hle
    obtain ⟨q, hq, hpos, hlestock, htaken⟩ := (h _ _ _ _ rfl hexec).1 hx
    rw [hnum.stoi_eq, if_pos hfits, Except.ok.injEq] at hq
    subst hq
    rw [hstock, c.takenFrom_eq] at htaken
    dsimp only at htaken
    exact ⟨hpos, hlestock, by omega⟩
  · intro h resp shop shop' x hshop hexec
    subst hshop
    rw [order.doBuy_eq] at hexec
    rcases exec_buyWith hexec with ⟨hx, hstock, -⟩ | ⟨hx, c, hnum, -, hfits, hle, hstock⟩
    · exact ⟨fun h => absurd h hx, fun _ => hstock⟩
    · obtain ⟨hpos, hlestock, hothers⟩ := h c hnum hfits hle
      refine ⟨fun _ => ⟨c.first.value, ?_, hpos, hlestock, ?_⟩, fun h => absurd hx h⟩
      · rw [hnum.stoi_eq, if_pos hfits]
      · rw [hstock, c.takenFrom_eq, hothers, add_zero]

/-! ## A negative quantity -/

/-- The order of `/10001/buy/?commodity_id=1&num=-5`. -/
def minusFive : Order where
  req := ({} : HttpRequest).setQuery (bytes "?commodity_id=1&num=-5")
  id := bytes "1"
  num := bytes "-5"
  getQuery_id := by decide +kernel
  getQuery_num := by decide +kernel
  id_ne_nil := lipstick_id_ne_nil
  num_ne_nil := by decide

/-- The text of the order as a chain. -/
def minusFiveChain : Chain := ⟨⟨some true, bytes "5", by decide, by decide +kernel⟩, []⟩

/-- **A purchase of minus five of a commodity is answered with success**, and
the stock grows. -/
theorem not_chargesWhatItTakes_minusFive :
    ¬ ChargesWhatItTakes silentWriter server1 lipstick minusFive 3 := by
  intro h
  have hread : ReadAs minusFive.id minusFive.num minusFiveChain := Or.inl (by decide)
  obtain ⟨x, shop', hexec, hx, -⟩ := exists_exec_doBuy silentWriter server1 lipstick minusFive
    { closeConnection := false } { stock := 3 } hread (by decide +kernel) (by decide +kernel)
  obtain ⟨q, hq, hpos, -⟩ := (h _ _ _ _ rfl hexec).1 hx
  have hstoi : stoi minusFive.num = .ok (-5) := by decide +kernel
  rw [hstoi] at hq
  cases hq
  exact absurd hpos (by decide)

end MicroBusiness
