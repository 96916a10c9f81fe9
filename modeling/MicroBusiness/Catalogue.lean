import MicroBusiness.ConnectionUse
import MicroBusiness.StockInvariant
import Mathlib.Algebra.BigOperators.Ring.Finset

/-!
# The table of a shop

The whole table of a server. What MySQL does to it is a relation over all its
rows, with a stock for each number that is a key (`StoreStep`). A condition on
a number selects one row or none, so an update takes from one stock
(`Shelf.taken_of_mem`).

What the shop is for is said apart, without calls: a market, in which a
purchase or a look at the shelf is one step (`MarketStep`), stocks are natural
numbers, and nothing is sold that is not there. What is in stock and what the
customers have bought is at any time what was there at the beginning
(`SoldFrom.step`).
-/

namespace MicroBusiness

open Program Transition

/-! ## The table -/

/-- **The rows of a table** without the stocks: the numbers by which the column
`id` is compared, in the order of a select. The column is a key. -/
structure Shelf where
  numbers : List ℕ
  nodup : numbers.Nodup
  item : ℕ → Commodity

namespace Shelf

variable (shelf : Shelf)

/-- The rows of some numbers, with their stocks. -/
def rows (stock : ℕ → ℤ) (numbers : List ℕ) : List MysqlRow :=
  numbers.map fun n => (shelf.item n).row (stock n)

/-- The numbers that meet the condition `id=⟨digits⟩`. -/
def selected (id : Bytes) : List ℕ := shelf.numbers.filter fun n => n = natOfDigits id

/-- The stocks behind an update that takes a quantity from each row it
selects. -/
def taken (id num : Bytes) (stock : ℕ → ℤ) : ℕ → ℤ :=
  fun n => if n ∈ shelf.selected id then stock n - natOfDigits num else stock n

variable {shelf} {id : Bytes}

theorem selected_of_mem (h : natOfDigits id ∈ shelf.numbers) :
    shelf.selected id = [natOfDigits id] := by
  unfold selected
  rw [List.filter_eq, List.count_eq_one_of_mem shelf.nodup h]
  rfl

theorem selected_of_notMem (h : natOfDigits id ∉ shelf.numbers) : shelf.selected id = [] := by
  unfold selected
  rw [List.filter_eq, List.count_eq_zero_of_not_mem h]
  rfl

/-- **An update takes from the stock of one commodity**, if its number is
there. -/
theorem taken_of_mem (h : natOfDigits id ∈ shelf.numbers) (num : Bytes) (stock : ℕ → ℤ) :
    shelf.taken id num stock
      = Function.update stock (natOfDigits id) (stock (natOfDigits id) - natOfDigits num) := by
  funext n
  unfold taken
  simp only [selected_of_mem h, List.mem_singleton]
  by_cases hn : n = natOfDigits id
  · rw [if_pos hn, hn, Function.update_self]
  · rw [if_neg hn, Function.update_of_ne hn]

end Shelf

/-- The text of the select of `do_show`. -/
abbrev showText (s : Server) : Bytes := bytes "select * from " ++ s.table

/-- **The database**: the stocks, for each connection the rows that were
selected on it and not stored yet, and how many calls have failed. -/
structure Store where
  stock : ℕ → ℤ
  pending : Conn → Option (List MysqlRow) := fun _ => none
  failures : ℕ := 0

/-- The database behind a call that has failed. -/
def Store.fail (store : Store) : Store := { store with failures := store.failures + 1 }

/-- The database behind a select on a connection that found these rows. -/
def Store.select (store : Store) (conn : Conn) (rows : List MysqlRow) : Store :=
  { store with pending := Function.update store.pending conn (some rows) }

/-- **What a call does to the database.** A query or the storing of a result may fail, and
then it is counted and has no other effect. The parameters of the texts are decimal
digits. -/
inductive StoreStep (s : Server) (shelf : Shelf) : Store → DbEvent → Store → Prop
  | queryFailed (store : Store) (conn : Conn) (text : Bytes) :
    StoreStep s shelf store ⟨.query conn text, true⟩ store.fail
  | select {text id : Bytes} (store : Store) (conn : Conn) (hid : ∀ b ∈ id, isDigit b = true)
    (htext : text = Task.selectText s id) :
    StoreStep s shelf store ⟨.query conn text, false⟩
      (store.select conn (shelf.rows store.stock (shelf.selected id)))
  | selectAll {text : Bytes} (store : Store) (conn : Conn) (htext : text = showText s) :
    StoreStep s shelf store ⟨.query conn text, false⟩
      (store.select conn (shelf.rows store.stock shelf.numbers))
  | update {text num id : Bytes} (store : Store) (conn : Conn)
    (hnum : ∀ b ∈ num, isDigit b = true) (hid : ∀ b ∈ id, isDigit b = true)
    (htext : text = Task.updateText s num id) :
    StoreStep s shelf store ⟨.query conn text, false⟩
      { store with stock := shelf.taken id num store.stock }
  | storeFailed (store : Store) (conn : Conn) :
    StoreStep s shelf store ⟨.storeResult conn, none⟩ store.fail
  | store {rows : List MysqlRow} (store : Store) (conn : Conn) (handle : ℕ)
    (hrows : store.pending conn = some rows) :
    StoreStep s shelf store ⟨.storeResult conn, some ⟨handle, rows⟩⟩
      { store with pending := Function.update store.pending conn none }
  | other {e : DbEvent} (store : Store) (he : ¬ e.1.IsQuery) : StoreStep s shelf store e store

section StoreStep

variable {s : Server} {shelf : Shelf} {store store' : Store} {conn : Conn} {failed : Bool}
  {id num : Bytes}

theorem Task.selectText_ne_updateText (s : Server) (id num id' : Bytes) :
    Task.selectText s id ≠ Task.updateText s num id' := by
  intro h
  cases congrArg List.head? h

theorem cString_updateText_of_digits (s : Server) (hnum : ∀ b ∈ num, isDigit b = true)
    (hid : ∀ b ∈ id, isDigit b = true) :
    cString (Task.updateText s num id) = Task.updateText s num id := by
  rw [cString_updateText, if_neg (notMem_of_digits hnum), cString_eq_self (notMem_of_digits hid),
    updateText_eq]

/-- The texts of a select and of an update differ in their first letter, and
both from the one of `do_show`. -/
theorem showText_ne (s : Server) (num id : Bytes) :
    showText s ≠ Task.selectText s id ∧ showText s ≠ Task.updateText s num id := by
  constructor
  · intro h
    cases congrArg List.head? h
  · intro h
    cases congrArg List.head? h

/-- **The text of an update tells its parameters**, if they are digits. -/
theorem updateText_inj {num' id' : Bytes} (hnum : ∀ b ∈ num, isDigit b = true)
    (hnum' : ∀ b ∈ num', isDigit b = true)
    (h : Task.updateText s num id = Task.updateText s num' id') : num = num' ∧ id = id' := by
  have hcut : ∀ num id : Bytes, (∀ b ∈ num, isDigit b = true) →
      (num ++ (bytes " WHERE id=" ++ id)).takeWhile isDigit = num := by
    intro num id hnum
    rw [List.takeWhile_append_of_pos hnum]
    exact List.append_nil num
  unfold Task.updateText at h
  simp only [List.append_assoc, List.append_cancel_left_eq] at h
  have hnums := congrArg (List.takeWhile isDigit) h
  rw [hcut num id hnum, hcut num' id' hnum'] at hnums
  subst hnums
  rw [List.append_cancel_left_eq, List.append_cancel_left_eq] at h
  exact ⟨rfl, h⟩

/-- **What the select of `do_buy` can do**: fail, or find the rows with the
number. -/
theorem StoreStep.of_select (hid : ∀ b ∈ id, isDigit b = true)
    (h : StoreStep s shelf store
      ⟨.query conn (cString (Task.selectText s id)), failed⟩ store') :
    (failed = true ∧ store' = store.fail) ∨ (failed = false ∧ store' =
      store.select conn (shelf.rows store.stock (shelf.selected id))) := by
  rw [cString_selectText, cString_eq_self (notMem_of_digits hid)] at h
  cases h with
  | queryFailed => exact Or.inl ⟨rfl, rfl⟩
  | @select _ id' _ _ _ htext =>
    obtain rfl : id = id' := List.append_cancel_left htext
    exact Or.inr ⟨rfl, rfl⟩
  | selectAll _ _ htext => exact absurd htext.symm (showText_ne s [] id).1
  | update _ _ _ _ htext => exact absurd htext (Task.selectText_ne_updateText s _ _ _)
  | other _ he => exact absurd trivial he

/-- **What the select of `do_show` can do**: fail, or find all rows. -/
theorem StoreStep.of_selectAll
    (h : StoreStep s shelf store ⟨.query conn (showText s), failed⟩ store') :
    (failed = true ∧ store' = store.fail) ∨ (failed = false ∧ store' =
      store.select conn (shelf.rows store.stock shelf.numbers)) := by
  cases h with
  | queryFailed => exact Or.inl ⟨rfl, rfl⟩
  | select _ _ _ htext => exact absurd htext (showText_ne s [] _).1
  | selectAll => exact Or.inr ⟨rfl, rfl⟩
  | update _ _ _ _ htext => exact absurd htext (showText_ne s _ _).2
  | other _ he => exact absurd trivial he

/-- **What the update can do**: fail, or take the quantity. -/
theorem StoreStep.of_update (hnum : ∀ b ∈ num, isDigit b = true)
    (hid : ∀ b ∈ id, isDigit b = true)
    (h : StoreStep s shelf store
      ⟨.query conn (cString (Task.updateText s num id)), failed⟩ store') :
    (failed = true ∧ store' = store.fail) ∨
      (failed = false ∧ store' = { store with stock := shelf.taken id num store.stock }) := by
  rw [cString_updateText_of_digits s hnum hid] at h
  cases h with
  | queryFailed => exact Or.inl ⟨rfl, rfl⟩
  | select _ _ _ htext => exact absurd htext.symm (Task.selectText_ne_updateText s _ _ _)
  | selectAll _ _ htext => exact absurd htext.symm (showText_ne s num id).2
  | update _ _ hnum' _ htext =>
    obtain ⟨rfl, rfl⟩ := updateText_inj hnum hnum' htext
    exact Or.inr ⟨rfl, rfl⟩
  | other _ he => exact absurd trivial he

/-- **What storing a result can do**: fail, or deliver the rows that are
pending. -/
theorem StoreStep.of_storeResult {result : Option MysqlRes}
    (h : StoreStep s shelf store ⟨.storeResult conn, result⟩ store') :
    (result = none ∧ store' = store.fail) ∨ ∃ handle rows, store.pending conn = some rows ∧
      result = some ⟨handle, rows⟩ ∧
      store' = { store with pending := Function.update store.pending conn none } := by
  cases h with
  | storeFailed => exact Or.inl ⟨rfl, rfl⟩
  | @store rows _ _ handle hrows => exact Or.inr ⟨handle, rows, hrows, rfl, rfl⟩
  | other _ he => exact absurd trivial he

theorem StoreStep.eq_of_not_isQuery {e : DbEvent} (h : StoreStep s shelf store e store')
    (he : ¬ e.1.IsQuery) : store' = store := by
  cases h with
  | other => rfl
  | _ => exact absurd trivial he

/-- Only an update changes a stock, and only storing a result or a query on it
what is pending on a connection. -/
theorem StoreStep.pending_eq {e : DbEvent} (h : StoreStep s shelf store e store')
    (he : e.1.conn ≠ some conn) : store'.pending conn = store.pending conn := by
  have hne : ∀ {conn' : Conn}, some conn' ≠ some conn → conn ≠ conn' :=
    fun h h' => h (congrArg some h'.symm)
  cases h with
  | select => exact Function.update_of_ne (hne he) _ _
  | selectAll => exact Function.update_of_ne (hne he) _ _
  | store => exact Function.update_of_ne (hne he) _ _
  | _ => rfl

end StoreStep

/-! ## The market -/

/-- What a customer wants. -/
inductive Wish
  | buy (n quantity : ℕ)
  | look
  | other

section Wish

variable (json : JsonWriter) (s : Server) (shelf : Shelf) (resp : HttpResponse) (client : Bytes)

/-- **A purchase in one step**: the answer, and the stocks behind it. -/
def Shelf.sell (n quantity : ℕ) (stock : ℕ → ℕ) : HttpResponse × (ℕ → ℕ) :=
  if n ∉ shelf.numbers then
    (Task.errorHandle json s resp .k400BadRequest (bytes "未找到商品") client, stock)
  else if stock n < quantity then
    (Task.errorHandle json s resp .k400BadRequest (bytes "商品数量不足") client, stock)
  else
    (Task.sucessHandle json resp .k200Ok (bytes "OK")
      (.object [(bytes "price", .product quantity (shelf.item n).price)]) client,
      Function.update stock n (stock n - quantity))

/-- **A look at the shelf**: all rows, or the fault of one with a null field. -/
def Shelf.exhibit (stock : ℕ → ℕ) : Except Fault HttpResponse :=
  ((shelf.rows (fun n => stock n) shelf.numbers).mapM Task.rowItem).map fun items =>
    Task.sucessHandle json resp .k200Ok (bytes "OK") (.array items) client

/-- What a wish is answered, and the stocks behind it. -/
def Shelf.grant (stock : ℕ → ℕ) : Wish → Except Fault HttpResponse × (ℕ → ℕ)
  | .buy n quantity =>
    (.ok (shelf.sell json s resp client n quantity stock).1,
      (shelf.sell json s resp client n quantity stock).2)
  | .look => (shelf.exhibit json resp client stock, stock)
  | .other =>
    (.ok (Task.errorHandle json s resp .k400BadRequest (bytes "Not Found!") client), stock)

/-- What a wish is answered when the database fails. -/
def turnedAway : HttpResponse :=
  Task.errorHandle json s resp .kUnknown (bytes "网络出错") client

variable {json s shelf resp client} {n quantity : ℕ} {stock : ℕ → ℕ}

theorem Shelf.sell_of_notMem (h : n ∉ shelf.numbers) :
    shelf.sell json s resp client n quantity stock
      = (Task.errorHandle json s resp .k400BadRequest (bytes "未找到商品") client, stock) :=
  if_pos h

theorem Shelf.sell_of_lt (h : n ∈ shelf.numbers) (hlt : stock n < quantity) :
    shelf.sell json s resp client n quantity stock
      = (Task.errorHandle json s resp .k400BadRequest (bytes "商品数量不足") client, stock) :=
  (if_neg (not_not.mpr h)).trans (if_pos hlt)

theorem Shelf.sell_of_le (h : n ∈ shelf.numbers) (hle : quantity ≤ stock n) :
    shelf.sell json s resp client n quantity stock
      = (Task.sucessHandle json resp .k200Ok (bytes "OK")
        (.object [(bytes "price", .product quantity (shelf.item n).price)]) client,
        Function.update stock n (stock n - quantity)) :=
  (if_neg (not_not.mpr h)).trans (if_neg (not_lt.mpr hle))

theorem Shelf.grant_of_sell {r : HttpResponse} {stock' : ℕ → ℕ}
    (h : shelf.sell json s resp client n quantity stock = (r, stock')) :
    shelf.grant json s resp client stock (.buy n quantity) = (.ok r, stock') := by
  unfold Shelf.grant
  dsimp only
  rw [h]

/-- **What a wish has brought** of the commodity with this number, by the answer, if there
is one. -/
def Wish.bought (n : ℕ) : Option (Except Fault HttpResponse) → Wish → ℕ
  | some (.ok r), .buy n' quantity =>
    if r.statusCode = .k200Ok ∧ n' = n then quantity else 0
  | _, _ => 0

theorem Wish.bought_none (n : ℕ) (w : Wish) : w.bought n none = 0 := rfl

theorem Wish.bought_of_ne {w : Wish} {r : HttpResponse} (h : r.statusCode ≠ .k200Ok) (n : ℕ) :
    w.bought n (some (.ok r)) = 0 := by
  cases w with
  | buy n' quantity => exact if_neg fun hr => h hr.1
  | look => rfl
  | other => rfl

theorem Wish.bought_turnedAway (n : ℕ) (w : Wish) :
    w.bought n (some (.ok (turnedAway json s resp client))) = 0 :=
  Wish.bought_of_ne (by exact fun h => nomatch h) n

theorem Wish.bought_look (n : ℕ) (x : Option (Except Fault HttpResponse)) :
    Wish.look.bought n x = 0 := by
  match x with
  | none => rfl
  | some (.ok _) => rfl
  | some (.error _) => rfl

variable (json s shelf resp client stock) in
/-- **What a wish has brought, the stocks have lost.** -/
theorem Shelf.bought_grant (n : ℕ) (w : Wish) :
    (shelf.grant json s resp client stock w).2 n
      + w.bought n (some (shelf.grant json s resp client stock w).1) = stock n := by
  cases w with
  | look => exact congrArg (stock n + ·) (Wish.bought_look n _)
  | other => rfl
  | buy n' quantity =>
    have hrefused : ∀ r : HttpResponse, r.statusCode ≠ .k200Ok →
        stock n + (Wish.buy n' quantity).bought n (some (.ok r)) = stock n :=
      fun r hr => congrArg (stock n + ·) (Wish.bought_of_ne hr n)
    unfold Shelf.grant
    dsimp only
    by_cases hmem : n' ∈ shelf.numbers
    · rcases Nat.lt_or_ge (stock n') quantity with hlt | hle
      · rw [Shelf.sell_of_lt hmem hlt]
        exact hrefused _ fun h => nomatch h
      · rw [Shelf.sell_of_le hmem hle]
        dsimp only [Wish.bought]
        by_cases hn : n' = n
        · subst hn
          rw [if_pos ⟨rfl, rfl⟩, Function.update_self]
          exact Nat.sub_add_cancel hle
        · rw [if_neg fun h => hn h.2, Function.update_of_ne (fun h => hn h.symm)]
          rfl
    · rw [Shelf.sell_of_notMem hmem]
      exact hrefused _ fun h => nomatch h

end Wish

/-- **A purchase** of a commodity by its number: both parameters are decimal
digits. -/
structure ShelfOrder extends PlainOrder where
  id_isDigit : ∀ b ∈ id, MicroBusiness.isDigit b = true

/-- Who comes to the shop, with the response that is to be filled in. -/
inductive Customer
  | buys (order : ShelfOrder) (resp : HttpResponse)
  | looks (req : HttpRequest) (resp : HttpResponse)

namespace Customer

/-- The execution of a handler that serves a customer. -/
def execution : Customer → Execution
  | buys order resp => .buy order.req resp
  | looks req resp => .show req resp

def req : Customer → HttpRequest
  | buys order _ => order.req
  | looks req _ => req

def resp : Customer → HttpResponse
  | buys _ resp => resp
  | looks _ resp => resp

def wish : Customer → Wish
  | buys order _ => .buy (natOfDigits order.id) (natOfDigits order.num)
  | looks _ _ => .look

/-- The address in the request of a customer. -/
def client (c : Customer) : Bytes := c.req.getHeader (bytes "Client")

end Customer

/-- **The market**: what is in stock of each commodity, the answers that were given, and
how often a customer was turned away. -/
structure Market (ι : Type) where
  stock : ℕ → ℕ
  answers : ι → Option (Except Fault HttpResponse) := fun _ => none
  failures : ℕ := 0

/-- What a customer is answered by the market, and the stocks behind it. -/
def Customer.serve (json : JsonWriter) (s : Server) (shelf : Shelf) (stock : ℕ → ℕ)
    (c : Customer) : Except Fault HttpResponse × (ℕ → ℕ) :=
  shelf.grant json s c.resp c.client stock c.wish

/-- **A step of the market**: a customer who was not answered yet is served, or
turned away, which is counted. One who only looks may also be turned away, once, with the
answer under way. -/
inductive MarketStep {ι : Type} [DecidableEq ι] (json : JsonWriter) (s : Server) (shelf : Shelf)
    (customers : ι → Customer) (i : ι) : Market ι → Market ι → Prop
  | serve (m : Market ι) (hnew : m.answers i = none) :
    MarketStep json s shelf customers i m
      { m with
        stock := ((customers i).serve json s shelf m.stock).2
        answers := Function.update m.answers i
          (some ((customers i).serve json s shelf m.stock).1) }
  | turnAway (m : Market ι)
    (hnew : ∀ r, m.answers i = some r → (customers i).wish = .look ∧
      r ≠ .ok (turnedAway json s (customers i).resp (customers i).client)) :
    MarketStep json s shelf customers i m
      { m with
        answers := Function.update m.answers i
          (some (.ok (turnedAway json s (customers i).resp (customers i).client)))
        failures := m.failures + 1 }

/-! ## What the customers are told they have bought -/

section Sales

variable {ι : Type} [DecidableEq ι] [Fintype ι] {json : JsonWriter} {s : Server} {shelf : Shelf}
  {customers : ι → Customer} {i : ι} {m m' : Market ι} {stock : ℕ → ℕ}

/-- **The market is accounted for**: what is in stock and what was bought is
what was there at the beginning. -/
def SoldFrom (customers : ι → Customer) (stock : ℕ → ℕ) (m : Market ι) : Prop :=
  ∀ n, m.stock n + ∑ i, (customers i).wish.bought n (m.answers i) = stock n

variable (customers) in
/-- A new answer of one customer changes what was bought in one place. -/
theorem sum_bought_update (n : ℕ) (answers : ι → Option (Except Fault HttpResponse)) (i : ι)
    (x : Option (Except Fault HttpResponse)) :
    (∑ j, (customers j).wish.bought n (Function.update answers i x j))
        + (customers i).wish.bought n (answers i)
      = (∑ j, (customers j).wish.bought n (answers j)) + (customers i).wish.bought n x := by
  have hpairs : (fun j => (j, Function.update answers i x j))
      = Function.update (fun j => (j, answers j)) i (i, x) := by
    funext j
    by_cases hj : j = i
    · subst hj
      rw [Function.update_self, Function.update_self]
    · rw [Function.update_of_ne hj, Function.update_of_ne hj]
  have h := sum_update_add (fun p : ι × Option (Except Fault HttpResponse) =>
    (customers p.1).wish.bought n p.2) (fun j => (j, answers j)) i (i, x)
  rw [← hpairs] at h
  exact h

/-- **A step of the market keeps the account.** -/
theorem SoldFrom.step (h : SoldFrom customers stock m)
    (hstep : MarketStep json s shelf customers i m m') : SoldFrom customers stock m' := by
  intro n
  rw [← h n]
  cases hstep with
  | serve hnew =>
    have hsum := sum_bought_update customers n m.answers i
      (some ((customers i).serve json s shelf m.stock).1)
    have hgrant : ((customers i).serve json s shelf m.stock).2 n
        + (customers i).wish.bought n (some ((customers i).serve json s shelf m.stock).1)
          = m.stock n :=
      Shelf.bought_grant json s shelf _ _ m.stock n _
    rw [hnew, Wish.bought_none] at hsum
    dsimp only
    omega
  | turnAway hnew =>
    have hsum := sum_bought_update customers n m.answers i
      (some (.ok (turnedAway json s (customers i).resp (customers i).client)))
    have hbefore : (customers i).wish.bought n (m.answers i) = 0 := by
      match hanswer : m.answers i with
      | none => rfl
      | some r =>
        rw [(hnew r hanswer).1]
        exact Wish.bought_look n _
    rw [hbefore, Wish.bought_turnedAway] at hsum
    dsimp only
    omega

end Sales

end MicroBusiness
