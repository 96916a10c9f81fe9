import MicroBusiness.Catalogue
import MicroBusiness.Interference
import Mathlib.Algebra.Order.BigOperators.Group.Finset
import Mathlib.Data.Fintype.BigOperators

/-!
# A shop and its customers

Any number of executions of `do_buy` and `do_show` at the same time, on the
table, the pool of connections, and `conn_mutex`. They refine the market of the
table, as long as none of them takes a connection that another one still works
on: a purchase is sold at its update or refused while it has the mutex, and a
look at the shelf takes place at its select, without the mutex. A call that the
database fails turns the customer of its execution away, and nothing else does:
the market counts those it has turned away, the database the calls that have
failed, and the two are the same at every moment (`Mirrors`).

The executions are those of customers (`Customer`). One who buys sends an id and
a quantity that are one decimal digit or more, the quantity below `2 ^ 31`; one
who looks sends anything. The stocks fit the `int` column at the beginning. What
`do_buy` does with other texts is not a purchase of a number of pieces at all:
`std::stoi` may throw, and the text that is pasted into the update may be an
expression that it does not read.

* `accompanied_of_run`: a run of the executions is accompanied by one of the
  market, and who has ended has the answer that the market gave at one moment
  in between.
* `sold_of_run`: so no stock is ever negative, and all that the customers were
  told they have bought was there.
-/

namespace MicroBusiness

open Program Transition

/-! ## What an execution relies on -/

/-- What the executions share: `conn_mutex`, the pool, and the database. -/
abbrev Premises (ι : Type) := Option ι × (PoolUse ι × Store)

section Premises

variable {ι : Type} [DecidableEq ι]

/-- A call on the pool and on the database. -/
def PremisesStep (s : Server) (shelf : Shelf) (i : ι) (x : PoolUse ι × Store) (e : DbEvent)
    (y : PoolUse ι × Store) : Prop :=
  PoolStep i x.1 e y.1 ∧ StoreStep s shelf x.2 e y.2

/-- A call on what the executions share. -/
abbrev PremisesExec (s : Server) (shelf : Shelf) : ι → Premises ι → DbEvent → Premises ι → Prop :=
  Mutex.Exec DbOp.lock DbOp.unlock (PremisesStep s shelf)

omit [DecidableEq ι] in
/-- A result that is stored is the one of the execution's own query. -/
def OwnResult (i : ι) (x : Premises ι) (e : DbEvent) : Prop :=
  ∀ conn, e.1 = .storeResult conn → x.2.1.lastQuery conn = some i

omit [DecidableEq ι] in
/-- **What an execution relies on the others for**: they give no answer in its
place, leave the result of its last query on a connection, and leave mutex and
stocks while it has the mutex. -/
structure LeftAlone (i : ι) (x y : Premises ι × Market ι) : Prop where
  answers : y.2.answers i = x.2.answers i
  pending : ∀ conn, y.1.2.1.lastQuery conn = some i →
    x.1.2.1.lastQuery conn = some i ∧ y.1.2.2.pending conn = x.1.2.2.pending conn
  stock : x.1.1 = some i → y.1.1 = some i ∧ y.1.2.2.stock = x.1.2.2.stock

/-- The executions rely on being left alone. -/
def leftAlone : Rely ι (Premises ι × Market ι) where
  rel := LeftAlone
  refl _ _ := ⟨rfl, fun _ h => ⟨h, rfl⟩, fun h => ⟨h, rfl⟩⟩
  trans h h' :=
    { answers := h'.answers.trans h.answers
      pending := fun conn hconn =>
        let ⟨hlast, heq⟩ := h'.pending conn hconn
        let ⟨hlast, heq'⟩ := h.pending conn hlast
        ⟨hlast, heq.trans heq'⟩
      stock := fun howner =>
        let ⟨howner, heq⟩ := h.stock howner
        let ⟨howner, heq'⟩ := h'.stock howner
        ⟨howner, heq'.trans heq⟩ }

omit [DecidableEq ι] in
/-- **The market mirrors the table**: it has the same stocks, which fit the column, and has
turned customers away as often as a call has failed. -/
structure Mirrors (x : Premises ι × Market ι) : Prop where
  stock : ∀ n, x.1.2.2.stock n = x.2.stock n ∧ x.2.stock n < 2 ^ 31
  failures : x.1.2.2.failures = x.2.failures

variable {s : Server} {shelf : Shelf} {i j : ι} {x y : Premises ι} {e : DbEvent}

/-- A call that is not on the mutex leaves it, and works on the pool and on the
database. -/
theorem PremisesExec.of_ne (h : PremisesExec s shelf i x e y) (hlock : e.1 ≠ .lock)
    (hunlock : e.1 ≠ .unlock) : y.1 = x.1 ∧ PremisesStep s shelf i x.2 e y.2 := by
  cases h with
  | lock => exact absurd rfl hlock
  | unlock => exact absurd rfl hunlock
  | other _ _ hexec => exact ⟨rfl, hexec⟩

theorem premisesExec_of_steps {owner : Option ι} {pool pool' : PoolUse ι} {store store' : Store}
    (hlock : e.1 ≠ .lock) (hunlock : e.1 ≠ .unlock) (hpool : PoolStep i pool e pool')
    (hstore : StoreStep s shelf store e store') :
    PremisesExec s shelf i (owner, pool, store) e (owner, pool', store') :=
  .other hlock hunlock ⟨hpool, hstore⟩

theorem PremisesExec.of_isQuery (h : PremisesExec s shelf i x e y) (he : e.1.IsQuery) :
    y.1 = x.1 ∧ PremisesStep s shelf i x.2 e y.2 :=
  h.of_ne (fun ho => by rw [ho] at he; exact he) (fun ho => by rw [ho] at he; exact he)

/-- **A connection behind a call**: the last query on it is the one of the
execution that called, or nothing has changed there. -/
theorem PremisesStep.lastQuery_or {x y : PoolUse ι × Store} (h : PremisesStep s shelf i x e y)
    (hown : ∀ conn, e.1 = .storeResult conn → x.1.lastQuery conn = some i) (conn : Conn) :
    y.1.lastQuery conn = some i ∨
      (y.1.lastQuery conn = x.1.lastQuery conn ∧ y.2.pending conn = x.2.pending conn) := by
  obtain ⟨hpool, hstore⟩ := h
  by_cases hon : e.1.conn = some conn
  · obtain ⟨pool, store⟩ := x
    obtain ⟨pool', store'⟩ := y
    cases hpool with
    | query conn' text failed =>
      obtain rfl : conn' = conn := Option.some.inj hon
      exact Or.inl (Function.update_self _ _ _)
    | storeResult conn' result =>
      obtain rfl : conn' = conn := Option.some.inj hon
      exact Or.inl (hown _ rfl)
    | error conn' =>
      refine Or.inr ⟨rfl, ?_⟩
      rw [show store' = store from hstore.eq_of_not_isQuery not_false]
    | _ => cases hon
  · exact Or.inr ⟨hpool.lastQuery_of_conn_ne hon, hstore.pending_eq hon⟩

theorem PremisesExec.owner_of_lock {r : DbOp.Reply .lock}
    (h : PremisesExec s shelf i x ⟨.lock, r⟩ y) : y.1 = some i := by
  obtain ⟨owner, x⟩ := x
  obtain ⟨owner', y⟩ := y
  cases h with
  | lock => rfl
  | other hlock => exact absurd rfl hlock

/-- A call that is no query leaves the stocks, and the last queries with what
is pending. -/
theorem PremisesExec.of_not_isQuery (h : PremisesExec s shelf i x e y) (he : ¬ e.1.IsQuery) :
    y.2.2 = x.2.2 ∧ y.2.1.lastQuery = x.2.1.lastQuery := by
  cases h with
  | lock => exact ⟨rfl, rfl⟩
  | unlock => exact ⟨rfl, rfl⟩
  | @other owner st st' _ _ _ hstep =>
    refine ⟨hstep.2.eq_of_not_isQuery he, ?_⟩
    obtain ⟨pool, store⟩ := st
    obtain ⟨pool', store'⟩ := st'
    cases hstep.1 with
    | query => exact absurd trivial he
    | _ => rfl

/-- **An execution leaves the others alone**, if it changes stocks with the mutex
only. -/
theorem leftAlone_of_exec {m m' : Market ι} (hexec : PremisesExec s shelf i x e y)
    (hown : OwnResult i x e) (hanswers : m'.answers j = m.answers j)
    (hstock : x.1 = some i ∨ y.2.2.stock = x.2.2.stock) (hj : j ≠ i) :
    LeftAlone j (x, m) (y, m') := by
  cases hexec with
  | lock st r => exact ⟨hanswers, fun _ h => ⟨h, rfl⟩, fun h => nomatch h⟩
  | unlock st r =>
    refine ⟨hanswers, fun _ h => ⟨h, rfl⟩, fun h => ?_⟩
    exact absurd (Option.some.inj h).symm hj
  | @other owner st st' _ hlock hunlock hstep =>
    refine ⟨hanswers, fun conn hconn => ?_, fun howner => ⟨howner, ?_⟩⟩
    · rcases hstep.lastQuery_or hown conn with hmine | ⟨hlast, hpending⟩
      · exact absurd (Option.some.inj (hconn.symm.trans hmine)) hj
      · exact ⟨hlast.symm.trans hconn, hpending⟩
    · rcases hstock with hstock | hstock
      · exact absurd (Option.some.inj (howner.symm.trans hstock)) hj
      · exact hstock

end Premises

/-! ## The executions serve their customers -/

section Attends

variable {ι : Type} [DecidableEq ι] (json : JsonWriter) (s : Server) (shelf : Shelf)
  (customers : ι → Customer) (i : ι)

/-- **What is left of an execution attends to its customer**: it refines the market
and ends in the answer that the market has given. -/
abbrev Attends (p : Handler HttpResponse) (x : Premises ι × Market ι) : Prop :=
  p.Refines (PremisesExec s shelf) (MarketStep json s shelf customers) OwnResult leftAlone
    Mirrors i (fun r x => x.2.answers i = some r) x

/-- An execution that has the mutex, and whose customer was not answered. -/
structure Engaged (x : Premises ι × Market ι) : Prop where
  owner : x.1.1 = some i
  new : x.2.answers i = none

variable {json s shelf customers i} {p : Handler HttpResponse} {x y : Premises ι × Market ι}
  {z : Premises ι} {e : DbEvent} {o : DbOp} {k : DbOp.Reply o → Handler HttpResponse}

omit [DecidableEq ι] in
theorem Engaged.of_rely (h : Engaged i x) (hy : LeftAlone i x y) : Engaged i y :=
  ⟨(hy.stock h.owner).1, hy.answers.trans h.new⟩

theorem attends_ret {r : HttpResponse} (hx : x.2.answers i = some (.ok r)) :
    Attends json s shelf customers i (.ret r) x :=
  fun _ hy => hy.answers.trans hx

theorem attends_fail {fault : Fault} (hx : x.2.answers i = some (.error fault)) :
    Attends json s shelf customers i (.fail fault) x :=
  fun _ hy => hy.answers.trans hx

/-! ### What the market does at a call -/

theorem exists_stay (hm : Mirrors y) (hown : OwnResult i y.1 e)
    (hexec : PremisesExec s shelf i y.1 e z) (hstock : z.2.2.stock = y.1.2.2.stock)
    (hfailures : z.2.2.failures = y.1.2.2.failures)
    (hp : Attends json s shelf customers i p (z, y.2)) :
    ∃ m, Relation.ReflGen (MarketStep json s shelf customers i) y.2 m ∧ Mirrors (z, m) ∧
      (∀ j, j ≠ i → leftAlone.rel j y (z, m)) ∧ Attends json s shelf customers i p (z, m) := by
  refine ⟨y.2, .refl, ⟨fun n => ?_, hfailures.trans hm.failures⟩, fun j hj => ?_, hp⟩
  · dsimp only
    rw [hstock]
    exact hm.stock n
  · exact leftAlone_of_exec hexec hown rfl (Or.inr hstock) hj

/-- **A call that fails**: the market turns the customer away. -/
theorem exists_turnAway (hnew : ∀ r, y.2.answers i = some r → (customers i).wish = .look ∧
      r ≠ .ok (turnedAway json s (customers i).resp (customers i).client))
    (hm : Mirrors y) (hown : OwnResult i y.1 e) (hexec : PremisesExec s shelf i y.1 e z)
    (hfails : z.2.2 = y.1.2.2.fail)
    (hp : ∀ m : Market ι,
      m.answers i = some (.ok (turnedAway json s (customers i).resp (customers i).client)) →
      Attends json s shelf customers i p (z, m)) :
    ∃ m, Relation.ReflGen (MarketStep json s shelf customers i) y.2 m ∧ Mirrors (z, m) ∧
      (∀ j, j ≠ i → leftAlone.rel j y (z, m)) ∧ Attends json s shelf customers i p (z, m) := by
  have hstock : z.2.2.stock = y.1.2.2.stock := by rw [hfails]; rfl
  refine ⟨_, .single (.turnAway y.2 hnew), ⟨fun n => ?_, ?_⟩, fun j hj => ?_, hp _ ?_⟩
  · dsimp only
    rw [hstock]
    exact hm.stock n
  · dsimp only
    rw [hfails, ← hm.failures]
    rfl
  · exact leftAlone_of_exec hexec hown (Function.update_of_ne hj _ _) (Or.inr hstock) hj
  · exact Function.update_self _ _ _

omit [DecidableEq ι] in
/-- Who was not answered yet may be turned away. -/
theorem Engaged.mayTurnAway (h : Engaged i x) : ∀ r, x.2.answers i = some r →
    (customers i).wish = .look ∧
      r ≠ .ok (turnedAway json s (customers i).resp (customers i).client) := by
  intro r hr
  rw [h.new] at hr
  cases hr

theorem exists_serve (hnew : y.2.answers i = none) (hown : OwnResult i y.1 e)
    (hexec : PremisesExec s shelf i y.1 e z)
    (hstock : y.1.1 = some i ∨ z.2.2.stock = y.1.2.2.stock)
    (hfailures : z.2.2.failures = y.2.failures)
    (hm : ∀ n, z.2.2.stock n = ((customers i).serve json s shelf y.2.stock).2 n ∧
      ((customers i).serve json s shelf y.2.stock).2 n < 2 ^ 31)
    (hp : ∀ m : Market ι,
      m.answers i = some ((customers i).serve json s shelf y.2.stock).1 →
      Attends json s shelf customers i p (z, m)) :
    ∃ m, Relation.ReflGen (MarketStep json s shelf customers i) y.2 m ∧ Mirrors (z, m) ∧
      (∀ j, j ≠ i → leftAlone.rel j y (z, m)) ∧ Attends json s shelf customers i p (z, m) := by
  refine ⟨_, .single (.serve y.2 hnew), ⟨hm, hfailures⟩, fun j hj => ?_, hp _ ?_⟩
  · exact leftAlone_of_exec hexec hown (Function.update_of_ne hj _ _) hstock hj
  · exact Function.update_self _ _ _

/-! ### Calls that are no queries -/

/-- **A call that neither asks the database nor works on the mutex is passed
over.** -/
theorem attends_quiet (ho : ¬ o.IsQuery) (hlock : o ≠ .lock) (hunlock : o ≠ .unlock)
    (h : ∀ r, Attends json s shelf customers i (k r) x) :
    Attends json s shelf customers i (.op o k) x := by
  intro y hy hm r z hown hexec
  obtain ⟨hstore, hlast⟩ := hexec.of_not_isQuery ho
  refine exists_stay hm hown hexec (congrArg Store.stock hstore)
    (congrArg Store.failures hstore) ?_
  refine (h r).of_rely (leftAlone.trans hy ⟨rfl, fun conn hconn => ?_, fun howner => ?_⟩)
  · dsimp only at hconn ⊢
    rw [hlast] at hconn
    exact ⟨hconn, by rw [hstore]⟩
  · exact ⟨(hexec.of_ne hlock hunlock).1.trans howner, congrArg Store.stock hstore⟩

/-- **Behind the answer** nothing matters any more. -/
theorem attends_answered {a : Except Fault HttpResponse} (ho : ¬ o.IsQuery)
    (h : ∀ r y, y.2.answers i = some a → Attends json s shelf customers i (k r) y)
    (hx : x.2.answers i = some a) : Attends json s shelf customers i (.op o k) x := by
  intro y hy hm r z hown hexec
  obtain ⟨hstore, -⟩ := hexec.of_not_isQuery ho
  exact exists_stay hm hown hexec (congrArg Store.stock hstore)
    (congrArg Store.failures hstore) (h r _ (hy.answers.trans hx))

end Attends

/-! ### A purchase -/

section Buys

variable {ι : Type} [DecidableEq ι] {json : JsonWriter} {s : Server} {shelf : Shelf}
  {customers : ι → Customer} {i : ι} {order : ShelfOrder} {resp : HttpResponse} {conn : Conn}
  {x : Premises ι × Market ι}

/-- The stocks behind a sale mirror those behind the update. -/
theorem mirrors_sell {client : Bytes} {stock : ℕ → ℤ} {stock' : ℕ → ℕ}
    (hm : ∀ n, stock n = stock' n ∧ stock' n < 2 ^ 31)
    (hmem : natOfDigits order.id ∈ shelf.numbers)
    (hle : natOfDigits order.num ≤ stock' (natOfDigits order.id)) (n : ℕ) :
    let sale := shelf.sell json s resp client (natOfDigits order.id) (natOfDigits order.num) stock'
    shelf.taken order.id order.num stock n = sale.2 n ∧ sale.2 n < 2 ^ 31 := by
  dsimp only
  rw [Shelf.sell_of_le hmem hle, Shelf.taken_of_mem hmem]
  dsimp only
  by_cases hn : n = natOfDigits order.id
  · subst hn
    rw [Function.update_self, Function.update_self, (hm _).1]
    have := (hm (natOfDigits order.id)).2
    omega
  · rw [Function.update_of_ne hn, Function.update_of_ne hn]
    exact hm n

theorem attends_buyFinish {n : ℤ} {result : MysqlRes} {item : Commodity} (stock : ℤ)
    (hx : x.2.answers i = some (.ok (Task.sucessHandle json resp .k200Ok (bytes "OK")
      (.object [(bytes "price", .product n item.price)])
      (order.req.getHeader (bytes "Client"))))) :
    Attends json s shelf customers i
      (Task.buyFinish json s order.req resp n result (item.row stock)) x := by
  unfold Task.buyFinish
  dsimp only [Commodity.row]
  split
  · refine attends_answered not_false (fun _ y hy => ?_) hx
    refine attends_answered not_false (fun _ y hy => ?_) hy
    exact attends_answered not_false (fun _ y hy => attends_ret hy) hy
  · refine attends_answered not_false (fun _ y hy => ?_) hx
    refine attends_answered not_false (fun _ y hy => ?_) hy
    exact attends_answered not_false (fun _ y hy => attends_ret hy) hy

theorem attends_networkError {r : HttpResponse} (hx : x.2.answers i = some (.ok r)) :
    Attends json s shelf customers i (.op (.error conn) fun _ => .op .unlock fun _ => .ret r)
      x := by
  refine attends_answered not_false (fun _ y hy => ?_) hx
  exact attends_answered not_false (fun _ y hy => attends_ret hy) hy

/-- **The update of a purchase**: the market sells. -/
theorem attends_buyUpdate (hi : customers i = .buys order resp) (hx : Engaged i x)
    (hmem : natOfDigits order.id ∈ shelf.numbers)
    (hle : natOfDigits order.num ≤ x.1.2.2.stock (natOfDigits order.id)) {result : MysqlRes}
    (stock : ℤ) : Attends json s shelf customers i
      (Task.buyUpdate json s order.req resp order.id order.num conn (natOfDigits order.num)
        result ((shelf.item (natOfDigits order.id)).row stock)) x := by
  intro y hy hm failed z hown hexec
  have hengaged := hx.of_rely hy
  obtain ⟨-, -, hstore⟩ := hexec.of_isQuery trivial
  rcases hstore.of_update order.isDigit order.id_isDigit with ⟨rfl, heq⟩ | ⟨rfl, heq⟩
  · refine exists_turnAway hengaged.mayTurnAway hm hown hexec heq ?_
    intro m ha
    rw [hi] at ha
    exact attends_networkError ha
  · rw [← (hy.stock hx.owner).2, (hm.stock _).1] at hle
    have hle := Int.ofNat_le.mp hle
    refine exists_serve hengaged.new hown hexec (Or.inl hengaged.owner) ?_ ?_ ?_
    · rw [heq]
      exact hm.failures
    · rw [hi, heq]
      exact mirrors_sell hm.stock hmem hle
    · intro m ha
      rw [hi] at ha
      have hserve : (Customer.buys order resp).serve json s shelf y.2.stock = _ :=
        Shelf.grant_of_sell (Shelf.sell_of_le hmem hle)
      rw [hserve] at ha
      exact attends_buyFinish stock ha

/-- **A purchase that is refused**: the market refuses it when the mutex is
given back. -/
theorem attends_refusal (hi : customers i = .buys order resp) (hx : Engaged i x)
    {r : HttpResponse} (hsell : ∀ stock : ℕ → ℕ, (∀ n, x.1.2.2.stock n = stock n) →
      shelf.sell json s resp (order.req.getHeader (bytes "Client")) (natOfDigits order.id)
        (natOfDigits order.num) stock = (r, stock)) :
    Attends json s shelf customers i (.op .unlock fun _ => .ret r) x := by
  intro y hy hm _ z hown hexec
  have hengaged := hx.of_rely hy
  have hstore := (hexec.of_not_isQuery not_false).1
  have hstock := congrArg Store.stock hstore
  have hserve : (customers i).serve json s shelf y.2.stock = (.ok r, y.2.stock) := by
    rw [hi]
    exact Shelf.grant_of_sell
      (hsell y.2.stock fun n => by rw [← (hy.stock hx.owner).2, (hm.stock n).1])
  refine exists_serve hengaged.new hown hexec (Or.inl hengaged.owner)
    ((congrArg Store.failures hstore).trans hm.failures) (fun n => ?_) fun m ha => ?_
  · rw [hstock, hserve]
    exact hm.stock n
  · rw [hserve] at ha
    exact attends_ret ha

theorem atoi_intText_of_lt {n : ℕ} (h : n < 2 ^ 31) : atoi (intText n) = n := by
  unfold atoi
  rw [strtol_intText]
  dsimp only
  rw [max_eq_right (by omega), min_eq_left (by omega)]
  exact Int.bmod_eq_of_le (by omega) (by omega)

/-- **The comparison of a purchase** with the row of the stock as it is. -/
theorem attends_buyCompare (hi : customers i = .buys order resp) (hx : Engaged i x)
    (hm : Mirrors x) (hmem : natOfDigits order.id ∈ shelf.numbers) {result : MysqlRes}
    {stock : ℤ} (hstock : stock = x.1.2.2.stock (natOfDigits order.id)) :
    Attends json s shelf customers i
      (Task.buyCompare json s order.req resp order.id order.num conn result
        ((shelf.item (natOfDigits order.id)).row stock)) x := by
  unfold Task.buyCompare
  rw [stoi_of_digits order.num_ne_nil order.isDigit order.fits]
  dsimp only [Commodity.row]
  obtain ⟨hmirror, hfits⟩ := hm.stock (natOfDigits order.id)
  have hread : atoi (intText stock) = x.2.stock (natOfDigits order.id) := by
    rw [hstock, hmirror, atoi_intText_of_lt hfits]
  rw [hread]
  split
  next hless =>
    refine attends_refusal hi hx fun st hst => Shelf.sell_of_lt hmem ?_
    have := hst (natOfDigits order.id)
    omega
  next hle =>
    refine attends_buyUpdate hi hx hmem ?_ stock
    omega

/-- **A purchase with its result**: the rows with the number, if any. -/
theorem attends_buyFetch (hi : customers i = .buys order resp) (hx : Engaged i x)
    (hm : Mirrors x) {handle : ℕ} :
    Attends json s shelf customers i
      (Task.buyFetch json s order.req resp order.id order.num conn
        ⟨handle, shelf.rows x.1.2.2.stock (shelf.selected order.id)⟩) x := by
  unfold Task.buyFetch
  refine attends_quiet not_false (fun h => nomatch h) (fun h => nomatch h) fun _ => ?_
  by_cases hmem : natOfDigits order.id ∈ shelf.numbers
  · rw [Shelf.selected_of_mem hmem]
    exact attends_buyCompare hi hx hm hmem rfl
  · rw [Shelf.selected_of_notMem hmem]
    exact attends_refusal hi hx fun stock _ => Shelf.sell_of_notMem hmem

/-- **A purchase with its select sent**: what is pending on its connection, if
its query is the last one there, are the rows of the stocks as they are. -/
theorem attends_buyStore (hi : customers i = .buys order resp) (hx : Engaged i x)
    (hpending : x.1.2.1.lastQuery conn = some i → x.1.2.2.pending conn
      = some (shelf.rows x.1.2.2.stock (shelf.selected order.id))) :
    Attends json s shelf customers i
      (Task.buyStore json s order.req resp order.id order.num conn) x := by
  intro y hy hm result z hown hexec
  have hengaged := hx.of_rely hy
  obtain ⟨howner, -, hstore⟩ := hexec.of_isQuery trivial
  obtain ⟨hlast, hsame⟩ := hy.pending conn (hown conn rfl)
  rcases hstore.of_storeResult with ⟨rfl, heq⟩ | ⟨handle, rows, hrows, rfl, heq⟩
  · refine exists_turnAway hengaged.mayTurnAway hm hown hexec heq ?_
    intro m ha
    rw [hi] at ha
    exact attends_networkError ha
  · have hstock : z.2.2.stock = y.1.2.2.stock := by rw [heq]
    obtain rfl : rows = shelf.rows z.2.2.stock (shelf.selected order.id) := by
      rw [hsame, hpending hlast, Option.some.injEq] at hrows
      rw [← hrows, hstock, (hy.stock hx.owner).2]
    have hfailures : z.2.2.failures = y.1.2.2.failures := by rw [heq]
    refine exists_stay hm hown hexec hstock hfailures (attends_buyFetch hi ?_ ⟨fun n => ?_, ?_⟩)
    · exact ⟨howner.trans hengaged.owner, hengaged.new⟩
    · dsimp only
      rw [hstock]
      exact hm.stock n
    · exact hfailures.trans hm.failures

/-- **A purchase under the mutex.** -/
theorem attends_buySelect (hi : customers i = .buys order resp) (hx : Engaged i x) :
    Attends json s shelf customers i
      (Task.buySelect json s order.req resp order.id order.num conn) x := by
  intro y hy hm failed z hown hexec
  have hengaged := hx.of_rely hy
  obtain ⟨howner, -, hstore⟩ := hexec.of_isQuery trivial
  rcases hstore.of_select order.id_isDigit with ⟨rfl, heq⟩ | ⟨rfl, heq⟩
  · refine exists_turnAway hengaged.mayTurnAway hm hown hexec heq ?_
    intro m ha
    rw [hi] at ha
    exact attends_networkError ha
  · have hstock : z.2.2.stock = y.1.2.2.stock := by rw [heq]; rfl
    refine exists_stay hm hown hexec hstock (by rw [heq]; rfl)
      (attends_buyStore hi ?_ fun _ => ?_)
    · exact ⟨howner.trans hengaged.owner, hengaged.new⟩
    · dsimp only
      rw [heq]
      exact Function.update_self _ _ _

/-- **`do_buy` attends to a customer who buys.** -/
theorem attends_doBuy (hi : customers i = .buys order resp) (hnew : x.2.answers i = none) :
    Attends json s shelf customers i (Task.doBuy json s order.req resp) x := by
  rw [order.doBuy_eq]
  unfold Task.buyWith
  refine attends_quiet not_false (fun h => nomatch h) (fun h => nomatch h) fun conn => ?_
  refine attends_quiet not_false (fun h => nomatch h) (fun h => nomatch h) fun _ => ?_
  intro y hy hm _ z hown hexec
  have hstore := (hexec.of_not_isQuery not_false).1
  refine exists_stay hm hown hexec (congrArg Store.stock hstore)
    (congrArg Store.failures hstore) (attends_buySelect hi ?_)
  exact ⟨hexec.owner_of_lock, hy.answers.trans hnew⟩

end Buys

/-! ### A look at the shelf -/

section Looks

variable {ι : Type} [DecidableEq ι] {json : JsonWriter} {s : Server} {shelf : Shelf}
  {customers : ι → Customer} {i : ι} {req : HttpRequest} {resp : HttpResponse} {conn : Conn}
  {x : Premises ι × Market ι}

/-- What `do_show` answers for these rows, behind items it has made. -/
def shown (json : JsonWriter) (req : HttpRequest) (resp : HttpResponse) (rows : List MysqlRow)
    (items : List Json) : Except Fault HttpResponse :=
  (rows.mapM Task.rowItem).map fun more =>
    Task.sucessHandle json resp .k200Ok (bytes "OK") (.array (items ++ more))
      (req.getHeader (bytes "Client"))

theorem shown_nil (items : List Json) : shown json req resp [] items
    = .ok (Task.sucessHandle json resp .k200Ok (bytes "OK") (.array items)
      (req.getHeader (bytes "Client"))) := by
  show Except.ok (Task.sucessHandle json resp .k200Ok _ (.array (items ++ [])) _) = _
  rw [List.append_nil]

theorem shown_cons_error {row : MysqlRow} {fault : Fault} (h : Task.rowItem row = .error fault)
    (rows : List MysqlRow) (items : List Json) :
    shown json req resp (row :: rows) items = .error fault := by
  unfold shown
  rw [List.mapM_cons, h]
  rfl

theorem shown_cons_ok {row : MysqlRow} {item : Json} (h : Task.rowItem row = .ok item)
    (rows : List MysqlRow) (items : List Json) :
    shown json req resp (row :: rows) items = shown json req resp rows (items ++ [item]) := by
  unfold shown
  rw [List.mapM_cons, h]
  show Except.map _ ((Except.ok item).bind fun b => (rows.mapM Task.rowItem).bind _) = _
  cases rows.mapM Task.rowItem with
  | error fault => rfl
  | ok more =>
    show Except.ok (Task.sucessHandle json resp .k200Ok _ (.array (items ++ (item :: more))) _) = _
    rw [List.append_cons]
    rfl

theorem shown_ne_turnedAway {rows : List MysqlRow} {items : List Json} {client : Bytes} :
    shown json req resp rows items ≠ .ok (turnedAway json s resp client) := by
  unfold shown
  cases rows.mapM Task.rowItem with
  | error fault => exact fun h => nomatch h
  | ok more =>
    intro h
    cases congrArg HttpResponse.statusCode (Except.ok.inj h)

/-- **The loop over the rows** comes to the answer. -/
theorem attends_showItems {result : MysqlRes} (rows : List MysqlRow) (items : List Json)
    (hx : x.2.answers i = some (shown json req resp rows items)) :
    Attends json s shelf customers i
      (Task.showItems result (Task.showFinish json req resp result) rows items) x := by
  induction rows generalizing items x with
  | nil =>
    rw [shown_nil] at hx
    refine attends_answered not_false (fun _ y hy => ?_) hx
    exact attends_answered not_false (fun _ y hy => attends_ret hy) hy
  | cons row rows ih =>
    refine attends_answered not_false (fun _ y hy => ?_) hx
    cases hrow : Task.rowItem row with
    | error fault =>
      rw [shown_cons_error hrow] at hy
      exact attends_fail hy
    | ok item =>
      rw [shown_cons_ok hrow] at hy
      exact ih _ hy

/-- **A look with its select sent**: what is pending on the connection, if its
query is the last one there, are the rows of its answer. -/
theorem attends_showStore (hi : customers i = .looks req resp) {rows : List MysqlRow}
    (hx : x.2.answers i = some (shown json req resp rows []))
    (hpending : x.1.2.1.lastQuery conn = some i → x.1.2.2.pending conn = some rows) :
    Attends json s shelf customers i (Task.showStore json s req resp conn) x := by
  intro y hy hm result z hown hexec
  obtain ⟨-, -, hstore⟩ := hexec.of_isQuery trivial
  obtain ⟨hlast, hsame⟩ := hy.pending conn (hown conn rfl)
  rcases hstore.of_storeResult with ⟨rfl, heq⟩ | ⟨handle, rows', hrows, rfl, heq⟩
  · -- turned away with the answer under way
    refine exists_turnAway (fun r hr => ?_) hm hown hexec heq fun m ha => ?_
    · rw [hy.answers.trans hx, Option.some.injEq] at hr
      rw [hi, ← hr]
      exact ⟨rfl, shown_ne_turnedAway⟩
    · rw [hi] at ha
      exact attends_answered not_false (fun _ y hy => attends_ret hy) ha
  · obtain rfl : rows' = rows := by
      rw [hsame, hpending hlast, Option.some.injEq] at hrows
      exact hrows.symm
    refine exists_stay hm hown hexec (by rw [heq]) (by rw [heq]) ?_
    refine attends_answered not_false (fun _ y hy => ?_) (hy.answers.trans hx)
    exact attends_showItems _ [] hy

/-- **`do_show` attends to a customer who looks**: the answer is the one of the
moment of its select. -/
theorem attends_doShow (hi : customers i = .looks req resp) (hnew : x.2.answers i = none) :
    Attends json s shelf customers i (Task.doShow json s req resp) x := by
  unfold Task.doShow
  refine attends_quiet not_false (fun h => nomatch h) (fun h => nomatch h) fun conn => ?_
  refine attends_quiet not_false (fun h => nomatch h) (fun h => nomatch h) fun _ => ?_
  intro y hy hm failed z hown hexec
  obtain ⟨-, -, hstore⟩ := hexec.of_isQuery trivial
  have hnew := hy.answers.trans hnew
  rcases hstore.of_selectAll with ⟨rfl, heq⟩ | ⟨rfl, heq⟩
  · refine exists_turnAway (fun r hr => nomatch hnew.symm.trans hr) hm hown hexec heq
      fun m ha => ?_
    rw [hi] at ha
    exact attends_ret ha
  · have hstock : z.2.2.stock = y.1.2.2.stock := by rw [heq]; rfl
    refine exists_serve hnew hown hexec (Or.inr hstock) ?_ (fun n => ?_) fun m ha => ?_
    · rw [heq]
      exact hm.failures
    · rw [hstock, hi]
      exact hm.stock n
    · have hrows : y.1.2.2.stock = fun n => (y.2.stock n : ℤ) := funext fun n => (hm.stock n).1
      have hanswer : m.answers i
          = some (shown json req resp (shelf.rows y.1.2.2.stock shelf.numbers) []) := by
        rw [ha, hi, hrows]
        rfl
      refine attends_showStore hi hanswer fun _ => ?_
      dsimp only
      rw [heq]
      exact Function.update_self _ _ _

end Looks

/-! ## Every run is one of the market -/

section Shopping

variable {ι : Type} [DecidableEq ι]

/-- Executions in progress, on the mutex, the pool, and the database. -/
abbrev Shopping (ι : Type) := Threads ι DbOp DbOp.Reply Fault HttpResponse (Premises ι)

/-- A call of one of the executions. -/
abbrev ShoppingStep (s : Server) (shelf : Shelf) :
    Shopping ι → ι × DbEvent → Shopping ι → Prop :=
  Threads.Step (PremisesExec s shelf)

omit [DecidableEq ι] in
/-- The executions, as far as the pool is concerned. -/
def Shopping.onPool (th : Shopping ι) : Handlers ι := ⟨(th.shared.1, th.shared.2.1), th.prog⟩

variable (json : JsonWriter) (s : Server) (shelf : Shelf) (customers : ι → Customer)

omit [DecidableEq ι] in
/-- The executions that serve the customers before they begin, on a pool of
connections and with these stocks. -/
def openShop (connList : List Conn) (stock : ℕ → ℕ) : Shopping ι where
  shared := (none, { connList := connList }, { stock := fun n => stock n })
  prog i := (customers i).execution.prog json s

variable {json s shelf customers}

/-- A call is one on the pool. -/
theorem ShoppingStep.onPool {th th' : Shopping ι} {label : ι × DbEvent}
    (h : ShoppingStep s shelf th label th') : HandlerStep th.onPool label th'.onPool := by
  cases h with
  | call hprog hexec =>
    refine .call hprog ?_
    cases hexec with
    | lock x r => exact .lock _ _
    | unlock x r => exact .unlock _ _
    | other hlock hunlock hstep => exact .other hlock hunlock hstep.1

/-- **Executions that take no connection in use store their own results.** -/
theorem ownResult_of_run {connList : List Conn} {stock : ℕ → ℕ}
    {steps : List (Shopping ι × (ι × DbEvent))} {th : Shopping ι}
    (hrun : Run (ShoppingStep s shelf) (openShop json s customers connList stock) steps th)
    (hunused : Meets (fun th label => TakesUnused th.onPool label) steps) :
    Meets (fun th label => OwnResult label.1 th.shared label.2) steps := by
  have hstart : Orderly (openShop json s customers connList stock).onPool :=
    orderly_handlers json s (fun i => (customers i).execution) connList
  have hstep : ∀ (th : Shopping ι) label th', Orderly th.onPool → TakesUnused th.onPool label →
      ShoppingStep s shelf th label th' →
      Orderly th'.onPool ∧ OwnResult label.1 th.shared label.2 := by
    intro th label th' horderly hunused hstep
    refine ⟨horderly.step hstep.onPool hunused, fun conn hstore => ?_⟩
    obtain ⟨i, o, r⟩ := label
    obtain ⟨k, hprog, -, -⟩ := hstep.onPool.cases
    dsimp only at hstore
    subst hstore
    exact horderly.fetchesOwn i conn k hprog
  exact (hrun.invariant_meets hstep hunused hstart).2

omit [DecidableEq ι] in
/-- **The executions agree with the market**: the table has its stocks, as many calls have
failed as customers were turned away, and who has ended has its answer. -/
structure Concurs (x : Shopping ι × Market ι) : Prop where
  stock : ∀ n, x.1.shared.2.2.stock n = x.2.stock n
  failures : x.1.shared.2.2.failures = x.2.failures
  answers : ∀ i r, (x.1.prog i).result = some r → x.2.answers i = some r

variable (json s shelf customers) in
/-- The executions serve their customers from here on. -/
abbrev AllAttend (x : Shopping ι × Market ι) : Prop :=
  Refining (PremisesExec s shelf) (MarketStep json s shelf customers) OwnResult leftAlone
    Mirrors (fun i r x => x.2.answers i = some r) x

theorem concurs_of_allAttend {x : Shopping ι × Market ι}
    (h : AllAttend json s shelf customers x) : Concurs x :=
  ⟨fun n => (h.invariant.stock n).1, h.invariant.failures, fun _ _ hr => h.of_result hr⟩

theorem allAttend_openShop (connList : List Conn) {stock : ℕ → ℕ}
    (hstock : ∀ n, stock n < 2 ^ 31) : AllAttend json s shelf customers
      (openShop json s customers connList stock, { stock := stock }) := by
  refine ⟨⟨fun n => ⟨rfl, hstock n⟩, rfl⟩, fun i => ?_⟩
  show Attends json s shelf customers i ((customers i).execution.prog json s) _
  match hi : customers i with
  | .buys order resp => exact attends_doBuy hi rfl
  | .looks req resp => exact attends_doShow hi rfl

/-- **Purchases and looks at the shelf take place one after the other**: in
every interleaving of executions on the table, in which none takes a
connection that another one still works on, each call is accompanied by at most
one step of the market, in which the customer of that execution is served or
turned away, the table always has the stocks of the market, and an execution
that has ended has the answer of the market.

Nobody is turned away for nothing: after each call the market has turned away as
many customers as calls have failed. As a call goes with at most one step, and a
step turns at most one customer away, each failed call turns away the customer of
its own execution, and a call that goes through turns away none. -/
theorem accompanied_of_run {connList : List Conn} {stock : ℕ → ℕ}
    (hstock : ∀ n, stock n < 2 ^ 31) {steps : List (Shopping ι × (ι × DbEvent))}
    {th : Shopping ι}
    (hrun : Run (ShoppingStep s shelf) (openShop json s customers connList stock) steps th)
    (hunused : Meets (fun th label => TakesUnused th.onPool label) steps) :
    ∃ steps' m, Run (Accompanied (PremisesExec s shelf) (MarketStep json s shelf customers))
        (openShop json s customers connList stock, { stock := stock }) steps' (th, m) ∧
      steps'.map (fun x => (x.1.1, x.2)) = steps ∧
      Concurs (th, m) ∧ Meets (fun x _ => Concurs x) steps' := by
  obtain ⟨steps', m, hrun', hmap, hend, hmeets⟩ :=
    (allAttend_openShop connList hstock).run hrun (ownResult_of_run hrun hunused)
  exact ⟨steps', m, hrun', hmap, concurs_of_allAttend hend,
    fun x hx => concurs_of_allAttend (hmeets x hx)⟩

end Shopping

/-! ## What the customers are told they have bought -/

section Sales

variable {ι : Type} [DecidableEq ι] [Fintype ι] {json : JsonWriter} {s : Server} {shelf : Shelf}
  {customers : ι → Customer} {stock : ℕ → ℕ}

theorem soldFrom_of_run {th th' : Shopping ι} {m : Market ι}
    {steps : List ((Shopping ι × Market ι) × (ι × DbEvent))}
    (h : Run (Accompanied (PremisesExec s shelf) (MarketStep json s shelf customers))
      (th, { stock := stock }) steps (th', m)) : SoldFrom customers stock m := by
  have hstep : ∀ (x : Shopping ι × Market ι) label (y : Shopping ι × Market ι),
      SoldFrom customers stock x.2 → True →
      Accompanied (PremisesExec s shelf) (MarketStep json s shelf customers) x label y →
      SoldFrom customers stock y.2 := by
    intro x label y hx _ hstep
    rcases (Relation.reflGen_iff _ _ _).mp hstep.2 with heq | hmarket
    · rw [heq]
      exact hx
    · exact hx.step hmarket
  refine h.invariant hstep (fun _ _ => trivial) fun n => ?_
  exact congrArg (stock n + ·) (Finset.sum_eq_zero fun i _ => rfl)

/-- **Nothing is sold twice or that is not there**: in every interleaving of
executions, in which none takes a connection that another one still works on,
no stock is negative, all that the customers were told they have bought was in
stock at the beginning, and when all executions have ended it is what the
stocks have lost.

Until then a stock may have lost more than has been told: the update of a purchase
comes before its execution ends. What a customer was told is read off the response:
one with the status 200 to a wish to buy `n` pieces has sold `n`. -/
theorem sold_of_run (hstock : ∀ n, stock n < 2 ^ 31) {connList : List Conn}
    {steps : List (Shopping ι × (ι × DbEvent))} {th : Shopping ι}
    (hrun : Run (ShoppingStep s shelf) (openShop json s customers connList stock) steps th)
    (hunused : Meets (fun th label => TakesUnused th.onPool label) steps) (n : ℕ) :
    0 ≤ th.shared.2.2.stock n ∧
      th.shared.2.2.stock n + ∑ i, ((customers i).wish.bought n (th.prog i).result : ℤ) ≤ stock n ∧
      ((∀ i, (th.prog i).result ≠ none) →
        th.shared.2.2.stock n + ∑ i, ((customers i).wish.bought n (th.prog i).result : ℤ)
          = stock n) := by
  obtain ⟨steps', m, hrun', -, hend, -⟩ :=
    (allAttend_openShop connList hstock).run hrun (ownResult_of_run hrun hunused)
  obtain ⟨htable, -, hanswers⟩ := concurs_of_allAttend hend
  have hsold : SoldFrom customers stock m := soldFrom_of_run hrun'
  have htold : ∀ i, (customers i).wish.bought n (th.prog i).result
      ≤ (customers i).wish.bought n (m.answers i) := by
    intro i
    match hresult : (th.prog i).result with
    | none => exact Nat.zero_le _
    | some r => rw [hanswers i r hresult]
  rw [show th.shared.2.2.stock n = m.stock n from htable n, ← hsold n]
  push_cast
  refine ⟨Int.natCast_nonneg _, ?_, fun hall => ?_⟩
  · have := Finset.sum_le_sum fun i (_ : i ∈ Finset.univ) => htold i
    exact_mod_cast Nat.add_le_add_left this _
  · have hsame : ∀ i, (th.prog i).result = m.answers i := by
      intro i
      obtain ⟨r, hr⟩ := Option.ne_none_iff_exists'.mp (hall i)
      rw [hr, hanswers i r hr]
    simp only [hsame]

end Sales

/-! ## An execution alone -/

section Alone

variable {ι : Type} [DecidableEq ι] {json : JsonWriter} {s : Server} {shelf : Shelf} {i : ι}
  {customers : ι → Customer} {x y : Premises ι} {e : DbEvent} {r : Except Fault HttpResponse}

/-- A call is one on the pool, with the mutex or without. -/
theorem PremisesExec.poolStep (h : PremisesExec s shelf i x e y) :
    PoolStep i x.2.1 e y.2.1 := by
  cases h with
  | lock => exact .lock _
  | unlock => exact .unlock _
  | other _ _ hstep => exact hstep.1

/-- **An execution that runs alone stores its own results.** -/
theorem exec_own {p : Handler HttpResponse} (h : p.Exec (PremisesExec s shelf i) x r y)
    {phase : Phase} (hphase : phase.got = x.2.1.got i) (huses : UsesPool p phase)
    (hlast : ∀ conn, x.2.1.got i = some conn → phase.asked = true →
      x.2.1.lastQuery conn = some i) :
    p.Exec (fun x e y => OwnResult i x e ∧ PremisesExec s shelf i x e y) x r y := by
  induction h generalizing phase with
  | ret a x => exact .ret a x
  | fail fault x => exact .fail fault x
  | @op o k reply x y z r hexec _ ih =>
    obtain ⟨hallowed, huses⟩ := huses
    have hpool := hexec.poolStep
    refine .op ⟨fun conn hstore => ?_, hexec⟩
      (ih (hpool.got_self hphase hallowed) (huses reply) fun conn hgot hasked => ?_)
    · dsimp only at hstore
      subst hstore
      match phase, hallowed with
      | .returned _ _, ⟨rfl, hasked⟩ => exact hlast conn hphase.symm hasked
    · exact hpool.lastQuery_self hphase hallowed hasked hgot (hlast conn)

/-- Where the market can come to with one customer: nobody was answered, or the customer
was served, or was turned away once. -/
theorem MarketStep.of_reflTransGen {stock : ℕ → ℕ} {failures : ℕ} {m : Market ι}
    (h : Relation.ReflTransGen (MarketStep json s shelf customers i)
      { stock := stock, failures := failures } m) :
    (m.answers i = none ∧ m.stock = stock ∧ m.failures = failures) ∨
      (m.answers i = some ((customers i).serve json s shelf stock).1 ∧
        m.stock = ((customers i).serve json s shelf stock).2 ∧ m.failures = failures) ∨
      (m.answers i = some (.ok (turnedAway json s (customers i).resp (customers i).client)) ∧
        m.stock = stock ∧ m.failures = failures + 1) := by
  induction h with
  | refl => exact Or.inl ⟨rfl, rfl, rfl⟩
  | tail _ hstep ih =>
    cases hstep with
    | serve hnew =>
      rcases ih with ⟨-, rfl, hfailures⟩ | ⟨hanswer, -⟩ | ⟨hanswer, -⟩
      · exact Or.inr (Or.inl ⟨Function.update_self _ _ _, rfl, hfailures⟩)
      · exact nomatch hnew.symm.trans hanswer
      · exact nomatch hnew.symm.trans hanswer
    | turnAway hnew =>
      rcases ih with ⟨-, hstock, hfailures⟩ | ⟨hanswer, hstock, hfailures⟩ | ⟨hanswer, -⟩
      · exact Or.inr (Or.inr ⟨Function.update_self _ _ _, hstock, congrArg (· + 1) hfailures⟩)
      · -- one who looks takes nothing
        refine Or.inr (Or.inr ⟨Function.update_self _ _ _, hstock.trans ?_,
          congrArg (· + 1) hfailures⟩)
        unfold Customer.serve
        rw [(hnew _ hanswer).1]
        rfl
      · exact absurd rfl (hnew _ hanswer).2

/-- **An execution that runs alone** serves its customer by the stocks, or one of its calls
fails and the customer is turned away. -/
theorem served_of_exec {c : Customer} {connList : List Conn} {store : Store} {stock : ℕ → ℕ}
    (hstock : ∀ n, store.stock n = stock n ∧ stock n < 2 ^ 31) {y : Premises Unit}
    (h : (c.execution.prog json s).Exec (PremisesExec s shelf ())
      (none, { connList := connList }, store) r y) :
    ∃ stock' : ℕ → ℕ, (∀ n, y.2.2.stock n = stock' n ∧ stock' n < 2 ^ 31) ∧
      (((r, stock') = c.serve json s shelf stock ∧ y.2.2.failures = store.failures) ∨
        ((r, stock') = (.ok (turnedAway json s c.resp c.client), stock) ∧
          y.2.2.failures = store.failures + 1)) := by
  have hattends : Attends json s shelf (fun _ => c) () (c.execution.prog json s)
      ((none, { connList := connList }, store),
        { stock := stock, failures := store.failures }) := by
    cases c with
    | buys order resp => exact attends_doBuy rfl rfl
    | looks req resp => exact attends_doShow rfl rfl
  obtain ⟨m, hsteps, hmirrors, hanswer⟩ := hattends.of_exec ⟨hstock, rfl⟩
    (exec_own h rfl (c.execution.usesPool json s) fun _ hgot => nomatch hgot)
  refine ⟨m.stock, hmirrors.stock, ?_⟩
  rw [hmirrors.failures]
  rcases MarketStep.of_reflTransGen hsteps with
    ⟨hnone, -⟩ | ⟨hserved, hm, hfailures⟩ | ⟨haway, hm, hfailures⟩
  · exact nomatch hnone.symm.trans hanswer
  · rw [hm, Option.some.inj (hanswer.symm.trans hserved)]
    exact Or.inl ⟨rfl, hfailures⟩
  · rw [hm, Option.some.inj (hanswer.symm.trans haway)]
    exact Or.inr ⟨rfl, hfailures⟩

section Sells

variable {order : ShelfOrder} {resp : HttpResponse} {conn : Conn} {conns : List Conn}
  {pool : PoolUse ι} {store : Store} {stock : ℕ → ℕ}

/-- The comparison of a purchase, if the update does not fail. -/
theorem exists_exec_buyCompare (hmem : natOfDigits order.id ∈ shelf.numbers)
    (hfits : stock (natOfDigits order.id) < 2 ^ 31) (result : MysqlRes) :
    ∃ y, (Task.buyCompare json s order.req resp order.id order.num conn result
        ((shelf.item (natOfDigits order.id)).row (stock (natOfDigits order.id)))).Exec
        (PremisesExec s shelf i) (some i, pool, store)
        (.ok (shelf.sell json s resp (order.req.getHeader (bytes "Client"))
          (natOfDigits order.id) (natOfDigits order.num) stock).1) y ∧
      y.2.1.connList = pool.connList ∧ y.2.2.failures = store.failures := by
  unfold Task.buyCompare
  rw [stoi_of_digits order.num_ne_nil order.isDigit order.fits]
  dsimp only [Commodity.row]
  rw [atoi_intText_of_lt hfits]
  split
  next hlt =>
    rw [Shelf.sell_of_lt hmem (Int.ofNat_lt.mp hlt)]
    exact ⟨_, .op (.unlock _ ()) (.ret _ _), rfl, rfl⟩
  next hle =>
    rw [Shelf.sell_of_le hmem (Int.ofNat_le.mp (not_lt.mp hle))]
    unfold Task.buyUpdate Task.buyFinish
    rw [cString_updateText_of_digits s order.isDigit order.id_isDigit]
    dsimp only
    cases s.guardEndsEarly with
    | true =>
      exact ⟨_,
        .op (r := false) (premisesExec_of_steps nofun nofun (.query _ conn _ false)
          (.update _ conn order.isDigit order.id_isDigit rfl)) <|
        .op (.unlock _ ()) <|
        .op (r := ()) (premisesExec_of_steps nofun nofun (.useResult _ _) (.other _ nofun)) <|
        .op (r := ()) (premisesExec_of_steps nofun nofun (.freeResult _ _) (.other _ nofun)) <|
        .ret _ _, rfl, rfl⟩
    | false =>
      exact ⟨_,
        .op (r := false) (premisesExec_of_steps nofun nofun (.query _ conn _ false)
          (.update _ conn order.isDigit order.id_isDigit rfl)) <|
        .op (r := ()) (premisesExec_of_steps nofun nofun (.useResult _ _) (.other _ nofun)) <|
        .op (r := ()) (premisesExec_of_steps nofun nofun (.freeResult _ _) (.other _ nofun)) <|
        .op (.unlock _ ()) <| .ret _ _, rfl, rfl⟩

/-- **A purchase that runs alone, and none of whose calls fails**, comes to the answer of the
market, and leaves its connection where it was. -/
theorem exists_exec_sell (order : ShelfOrder) (resp : HttpResponse)
    (hstock : ∀ n, store.stock n = stock n ∧ stock n < 2 ^ 31)
    (hback : pool.connList = conns ++ [conn]) :
    ∃ y, (Task.doBuy json s order.req resp).Exec (PremisesExec s shelf i) (none, pool, store)
        (.ok (shelf.sell json s resp (order.req.getHeader (bytes "Client"))
          (natOfDigits order.id) (natOfDigits order.num) stock).1) y ∧
      y.2.1.connList = pool.connList ∧ y.2.2.failures = store.failures := by
  have hselect : cString (Task.selectText s order.id) = Task.selectText s order.id := by
    rw [cString_selectText, cString_eq_self (notMem_of_digits order.id_isDigit)]
  have hrows : shelf.rows store.stock = shelf.rows fun n => (stock n : ℤ) :=
    congrArg shelf.rows (funext fun n => (hstock n).1)
  -- the result is fetched, and the rest is the comparison, or there is no row
  obtain ⟨y, hfetch, hy⟩ : ∃ y, (Task.buyFetch json s order.req resp order.id order.num conn
      ⟨0, shelf.rows store.stock (shelf.selected order.id)⟩).Exec (PremisesExec s shelf i)
      (some i, { pool with
          connList := conns ++ [conn]
          got := Function.update pool.got i (some conn)
          lastQuery := Function.update pool.lastQuery conn (some i) },
        { store with pending := Function.update (Function.update store.pending conn
            (some (shelf.rows store.stock (shelf.selected order.id)))) conn none })
      (.ok (shelf.sell json s resp (order.req.getHeader (bytes "Client"))
        (natOfDigits order.id) (natOfDigits order.num) stock).1) y ∧
      y.2.1.connList = conns ++ [conn] ∧ y.2.2.failures = store.failures := by
    unfold Task.buyFetch
    rw [hrows]
    by_cases hmem : natOfDigits order.id ∈ shelf.numbers
    · rw [Shelf.selected_of_mem hmem]
      exact (exists_exec_buyCompare hmem (hstock _).2 _).imp fun y h =>
        ⟨.op (r := ()) (premisesExec_of_steps nofun nofun (.useResult _ _)
          (.other _ nofun)) h.1, h.2⟩
    · rw [Shelf.selected_of_notMem hmem, Shelf.sell_of_notMem hmem]
      exact ⟨_, .op (r := ()) (premisesExec_of_steps nofun nofun (.useResult _ _)
        (.other _ nofun)) <| .op (.unlock _ ()) (.ret _ _), rfl, rfl⟩
  rw [order.doBuy_eq]
  unfold Task.buyWith Task.buySelect
  rw [hselect]
  rw [← hback] at hy
  exact ⟨y,
    .op (r := conn) (premisesExec_of_steps nofun nofun
      (.getConnection _ conns conn hback) (.other _ nofun)) <|
    .op (r := ()) (premisesExec_of_steps nofun nofun
      (.releaseConnection _ conn) (.other _ nofun)) <|
    .op (.lock _ ()) <|
    .op (r := false) (premisesExec_of_steps nofun nofun
      (.query _ conn _ false) (.select _ conn order.id_isDigit rfl)) <|
    .op (r := some ⟨0, shelf.rows store.stock (shelf.selected order.id)⟩)
      (premisesExec_of_steps nofun nofun (.storeResult _ conn _)
        (.store _ conn 0 (Function.update_self _ _ _))) hfetch, hy⟩

end Sells

end Alone

/-! ## A purchase and a look at once -/

/-- A table of one commodity. -/
def oneWine : Shelf := ⟨[1], by decide, fun _ => lipstick⟩

/-- The purchase of two pieces of it. -/
def twoWines : ShelfOrder where
  toPlainOrder := twoPieces
  id_isDigit := by decide +kernel

/-- One who buys, and one who looks. -/
def twoCustomers : Bool → Customer
  | true => .buys twoWines { closeConnection := false }
  | false => .looks {} { closeConnection := false }

/-- The two with three pieces in stock, on a pool of two connections. -/
def twoShoppers : Shopping Bool := openShop silentWriter server2 twoCustomers [0, 1] fun _ => 3

/-- The select of the one who looks comes between the select and the update of
the one who buys. -/
theorem twoShoppers_run : ∃ steps th, Run (ShoppingStep server2 oneWine) twoShoppers steps th ∧
    Meets (fun th label => TakesUnused th.onPool label) steps ∧
    ∃ x, (th.prog true).result = some x ∧ Succeeds x := by
  have hstart : twoShoppers = ⟨(none, { connList := [0, 1] }, { stock := fun _ => 3 }),
      Function.update (fun _ => Task.doShow silentWriter server2 {} { closeConnection := false })
        true (Task.buyWith silentWriter server2 twoWines.req { closeConnection := false }
          twoWines.id twoWines.num)⟩ := by
    unfold twoShoppers openShop
    congr
    funext b
    cases b with
    | false => rfl
    | true => exact twoWines.doBuy_eq _ _ _
  have hrow : oneWine.rows (fun _ => 3) (oneWine.selected twoWines.id) = [lipstick.row 3] := by
    decide +kernel
  have hcompare : ∀ result, Task.buyCompare silentWriter server2 twoWines.req
      { closeConnection := false } twoWines.id twoWines.num 1 result (lipstick.row 3)
        = Task.buyUpdate silentWriter server2 twoWines.req { closeConnection := false }
          twoWines.id twoWines.num 1 2 result (lipstick.row 3) := by
    intro result
    have hstoi : stoi twoWines.num = .ok 2 := by decide +kernel
    unfold Task.buyCompare
    dsimp only [Commodity.row]
    rw [hstoi]
    exact if_neg (by decide +kernel)
  rw [hstart]
  refine ⟨_, _,
    .cons (.call (i := true) (r := (1 : Conn)) rfl (premisesExec_of_steps nofun nofun
      (.getConnection _ [0] 1 rfl) (.other _ nofun))) <|
    .cons (.call (i := false) (r := (0 : Conn)) rfl (premisesExec_of_steps nofun nofun
      (.getConnection _ [] 0 rfl) (.other _ nofun))) <|
    .cons (.call (i := true) (r := ()) rfl (premisesExec_of_steps nofun nofun
      (.releaseConnection _ 1) (.other _ nofun))) <|
    .cons (.call (i := true) rfl (.lock _ ())) <|
    .cons (.call (i := true) (r := false) rfl (premisesExec_of_steps nofun nofun
      (.query _ 1 _ false) (.select _ 1 twoWines.id_isDigit (by decide +kernel)))) <|
    .cons (.call (i := false) (r := ()) rfl (premisesExec_of_steps nofun nofun
      (.releaseConnection _ 0) (.other _ nofun))) <|
    .cons (.call (i := false) (r := false) rfl (premisesExec_of_steps nofun nofun
      (.query _ 0 _ false) (.selectAll _ 0 rfl))) <|
    .cons (.call (i := true) (r := some ⟨0, [lipstick.row 3]⟩) rfl
      (premisesExec_of_steps nofun nofun
        (.storeResult _ 1 _) (.store _ 1 0 (congrArg some hrow)))) <|
    .cons (.call (i := true) (r := ()) rfl (premisesExec_of_steps nofun nofun
      (.useResult _ _) (.other _ nofun))) <|
    .cons (.call (i := true) (r := false) (hcompare _) (premisesExec_of_steps nofun nofun
      (.query _ 1 _ false)
      (.update _ 1 twoWines.isDigit twoWines.id_isDigit (by decide +kernel)))) <|
    .cons (.call (i := true) rfl (.unlock _ ())) <|
    .cons (.call (i := true) (r := ()) rfl (premisesExec_of_steps nofun nofun
      (.useResult _ _) (.other _ nofun))) <|
    .cons (.call (i := true) (r := ()) rfl (premisesExec_of_steps nofun nofun
      (.freeResult _ _) (.other _ nofun))) <|
    .nil _, meets_cons.mpr ⟨?_, meets_cons.mpr ⟨?_, ?_⟩⟩, _, rfl, rfl⟩
  · intro _ conn _ i huse
    cases huse.1
  · -- what the first one has got is not what the second one takes
    intro _ conn hback i huse
    obtain rfl : (0 : Conn) = conn := Option.some.inj hback
    cases i with
    | false => cases huse.1
    | true => cases huse.1
  · intro x hx hget
    simp only [List.mem_cons, List.not_mem_nil, or_false] at hx
    rcases hx with rfl | rfl | rfl | rfl | rfl | rfl | rfl | rfl | rfl | rfl | rfl
    all_goals cases hget

/-- The answer of the one who buys is the one of the market. -/
theorem accompanied_twoShoppers : ∃ steps th m x,
    Run (ShoppingStep server2 oneWine) twoShoppers steps th ∧
      (th.prog true).result = some x ∧ Succeeds x ∧ m.answers true = some x ∧ Concurs (th, m) := by
  obtain ⟨steps, th, hrun, hunused, x, hx, hsucceeds⟩ := twoShoppers_run
  obtain ⟨-, m, -, -, hconcurs, -⟩ := accompanied_of_run (fun _ => by decide) hrun hunused
  exact ⟨steps, th, m, x, hrun, hx, hsucceeds, hconcurs.answers true x hx, hconcurs⟩

/-- At most one piece is left, with the purchase answered. -/
theorem sold_twoShoppers : ∃ steps th, Run (ShoppingStep server2 oneWine) twoShoppers steps th ∧
    0 ≤ th.shared.2.2.stock 1 ∧ th.shared.2.2.stock 1 ≤ 1 := by
  obtain ⟨steps, th, hrun, hunused, x, hx, hsucceeds⟩ := twoShoppers_run
  obtain ⟨hnonneg, hsold, -⟩ := sold_of_run (fun _ => by decide) hrun hunused 1
  have htwo : (twoCustomers true).wish.bought 1 (th.prog true).result = 2 := by
    rw [hx]
    match x, hsucceeds with
    | .ok r, hr => exact (if_pos ⟨hr, by decide +kernel⟩).trans (by decide +kernel)
  rw [Fintype.sum_bool, htwo] at hsold
  push_cast at hsold
  exact ⟨steps, th, hrun, hnonneg, by omega⟩

end MicroBusiness
