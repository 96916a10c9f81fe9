import MicroBusiness.Task
import MicroBusiness.Threads
import Mathlib.Algebra.Order.BigOperators.Group.Finset

/-!
# The pool of database connections

`connection_pool`: a list of connections and a semaphore that counts them.
`GetConnection` waits for the semaphore, reads the back of the list and pops
it, in three steps and without the mutex that `ReleaseConnection` holds for
its `push_back`. Any number of callers take these steps in any order
(`PoolCallStep`).

* The semaphore never lets more calls at the list than it has connections
  (`Counted`), so `back()` always finds one.
* No connection is lost or handed out twice as long as each `pop_back()`
  removes the connection that its call has read (`poolSafe_of_run`).
* `not_poolSafe_twoReads`: two calls that read `back()` before either pops
  get the same connection.
-/

namespace MicroBusiness

open Transition

/-- `class connection_pool`: the list and the value of the semaphore. -/
structure ConnectionPool where
  connList : List Conn := []
  reserve : ℕ := 0

/-- `connection_pool::init`, on what the MySQL library replies to each
attempt to connect: `none` where it fails. -/
def ConnectionPool.init : List (Option Conn) → ConnectionPool → Bool × ConnectionPool
  | [], pool => (true, pool)
  | none :: _, pool => (false, pool)
  | some conn :: replies, pool =>
    init replies { connList := pool.connList ++ [conn], reserve := pool.reserve + 1 }

theorem ConnectionPool.init_map_some (conns : List Conn) (pool : ConnectionPool) :
    init (conns.map some) pool
      = (true, ⟨pool.connList ++ conns, pool.reserve + conns.length⟩) := by
  induction conns generalizing pool with
  | nil => rw [List.append_nil]; rfl
  | cons conn conns ih =>
    rw [List.map_cons, init, ih, List.append_assoc, List.length_cons, Nat.add_assoc,
      Nat.add_comm 1]
    rfl

/-! ## Callers and their steps -/

/-- Where a caller stands: in no call of the pool, or in one of its two
functions in front of one of their steps. -/
inductive PoolCall
  | idle
  /-- `GetConnection`, before `reserve.wait()`. -/
  | atWait
  /-- `GetConnection`, before `connList.back()`. -/
  | atBack
  /-- `GetConnection`, before `connList.pop_back()`, with what was read. -/
  | atPopBack (conn : Conn)
  /-- `ReleaseConnection`, before the locked `push_back`. -/
  | atPushBack (conn : Conn)
  /-- `ReleaseConnection`, before `reserve.post()`. -/
  | atPost

/-- A caller: the connections it has got and not released, and where it
stands. -/
structure Caller where
  held : List Conn := []
  call : PoolCall := .idle

/-- The steps of a caller. -/
inductive PoolAction
  | getConnection
  | wait
  | back
  | popBack
  | releaseConnection (conn : Conn)
  | pushBack
  | post

/-- The pool and its callers. -/
structure PoolState (ι : Type) where
  pool : ConnectionPool
  callers : ι → Caller

/-- **A step of a caller alone**, with what it does to the pool. Callers
release only what they hold. -/
inductive CallerStep : ConnectionPool → Caller → PoolAction → ConnectionPool → Caller → Prop
  | getConnection (pool : ConnectionPool) (held : List Conn) :
    CallerStep pool ⟨held, .idle⟩ .getConnection pool ⟨held, .atWait⟩
  | wait (conns : List Conn) (n : ℕ) (held : List Conn) :
    CallerStep ⟨conns, n + 1⟩ ⟨held, .atWait⟩ .wait ⟨conns, n⟩ ⟨held, .atBack⟩
  | back (conns : List Conn) (conn : Conn) (n : ℕ) (held : List Conn) :
    CallerStep ⟨conns ++ [conn], n⟩ ⟨held, .atBack⟩ .back ⟨conns ++ [conn], n⟩
      ⟨held, .atPopBack conn⟩
  | popBack (conns : List Conn) (last conn : Conn) (n : ℕ) (held : List Conn) :
    CallerStep ⟨conns ++ [last], n⟩ ⟨held, .atPopBack conn⟩ .popBack ⟨conns, n⟩
      ⟨conn :: held, .idle⟩
  | releaseConnection (pool : ConnectionPool) (held : List Conn) (conn : Conn)
    (hheld : conn ∈ held) :
    CallerStep pool ⟨held, .idle⟩ (.releaseConnection conn) pool
      ⟨held.erase conn, .atPushBack conn⟩
  | pushBack (conns : List Conn) (conn : Conn) (n : ℕ) (held : List Conn) :
    CallerStep ⟨conns, n⟩ ⟨held, .atPushBack conn⟩ .pushBack ⟨conns ++ [conn], n⟩ ⟨held, .atPost⟩
  | post (conns : List Conn) (n : ℕ) (held : List Conn) :
    CallerStep ⟨conns, n⟩ ⟨held, .atPost⟩ .post ⟨conns, n + 1⟩ ⟨held, .idle⟩

/-- A step of one of the callers. -/
inductive PoolCallStep {ι : Type} [DecidableEq ι] :
    PoolState ι → ι × PoolAction → PoolState ι → Prop
  | step {pool pool' : ConnectionPool} {callers : ι → Caller} {i : ι} {action : PoolAction}
    {caller : Caller} (hstep : CallerStep pool (callers i) action pool' caller) :
    PoolCallStep ⟨pool, callers⟩ (i, action) ⟨pool', Function.update callers i caller⟩

/-- The pool behind `init` with its connections, and callers that have not
begun. -/
def PoolState.initial (ι : Type) (conns : List Conn) : PoolState ι where
  pool := (ConnectionPool.init (conns.map some) {}).2
  callers _ := {}

/-! ## The semaphore counts -/

/-- Whether the call of a caller stands between its step on the semaphore and its step on
the list, in either order: there the semaphore counts one less than the list has. -/
def PoolCall.claims : PoolCall → ℕ
  | .atBack => 1
  | .atPopBack _ => 1
  | .atPost => 1
  | _ => 0

/-- What a step changes at the semaphore, it changes at the list or in the
claim of its caller. -/
theorem CallerStep.claims_eq {pool pool' : ConnectionPool} {caller caller' : Caller}
    {action : PoolAction} (h : CallerStep pool caller action pool' caller') :
    pool'.reserve + caller'.call.claims + pool.connList.length
      = pool.reserve + caller.call.claims + pool'.connList.length := by
  cases h with
  | popBack =>
    rw [List.length_append, List.length_singleton]
    dsimp only [PoolCall.claims]
    omega
  | pushBack =>
    rw [List.length_append, List.length_singleton]
    dsimp only [PoolCall.claims]
    omega
  | _ => rfl

section Counted

variable {ι : Type} [DecidableEq ι] [Fintype ι] {st st' : PoolState ι} {label : ι × PoolAction}

omit [DecidableEq ι] in
/-- **The semaphore and the calls at the list together count the list.** -/
def Counted (st : PoolState ι) : Prop :=
  st.pool.reserve + ∑ i, (st.callers i).call.claims = st.pool.connList.length

/-- A step keeps the count. -/
theorem Counted.step (h : Counted st) (hstep : PoolCallStep st label st') : Counted st' := by
  cases hstep with
  | @step pool pool' callers i action caller hstep =>
  have hclaims := hstep.claims_eq
  have hsum := Program.sum_update_add (fun c => c.call.claims) callers i caller
  unfold Counted at h ⊢
  dsimp only at h ⊢
  omega

omit [DecidableEq ι] in
/-- **A call in front of `back()` finds a connection.** -/
theorem Counted.connList_ne_nil (h : Counted st) {i : ι} (hi : (st.callers i).call = .atBack) :
    st.pool.connList ≠ [] := by
  intro hnil
  unfold Counted at h
  rw [hnil, List.length_nil, Nat.add_eq_zero_iff, Finset.sum_eq_zero_iff] at h
  have hclaims := h.2 i (Finset.mem_univ i)
  rw [hi] at hclaims
  cases hclaims

end Counted

/-! ## No connection is lost or handed out twice -/

/-- The connections a caller has: those it holds, and the one it is about to
give back. -/
def Caller.owned : Caller → Multiset Conn
  | ⟨held, .atPushBack conn⟩ => conn ::ₘ held
  | ⟨held, _⟩ => held

/-- The `pop_back()` of a call removes the connection that the call has
read. -/
def PopsWhatItRead {ι : Type} (st : PoolState ι) (label : ι × PoolAction) : Prop :=
  label.2 = .popBack → ∀ conn, (st.callers label.1).call = .atPopBack conn →
    st.pool.connList.getLast? = some conn

/-- **A step of a caller moves connections between it and the list**, if its `pop_back()`
removes what it has read. -/
theorem CallerStep.owned_eq {pool pool' : ConnectionPool} {caller caller' : Caller}
    {action : PoolAction} (h : CallerStep pool caller action pool' caller')
    (hpop : action = .popBack → ∀ conn, caller.call = .atPopBack conn →
      pool.connList.getLast? = some conn) :
    (pool'.connList : Multiset Conn) + caller'.owned = pool.connList + caller.owned := by
  cases h with
  | popBack conns last conn n held =>
    have hlast := hpop rfl conn rfl
    rw [List.getLast?_concat, Option.some.injEq] at hlast
    rw [hlast, ← Multiset.coe_add, add_assoc]
    rfl
  | pushBack conns conn n held =>
    rw [← Multiset.coe_add, add_assoc]
    rfl
  | releaseConnection pool held conn hheld =>
    show _ + conn ::ₘ (held.erase conn : Multiset Conn) = _ + (held : Multiset Conn)
    rw [← Multiset.coe_erase, Multiset.cons_erase hheld]
  | _ => rfl

section PoolSafe

variable {ι : Type} [DecidableEq ι] [Fintype ι] {conns : List Conn} {st st' : PoolState ι}
  {label : ι × PoolAction}

omit [DecidableEq ι] in
/-- **The connections are conserved**: the list and the callers have them
all. -/
def Conserved (conns : List Conn) (st : PoolState ι) : Prop :=
  (st.pool.connList : Multiset Conn) + ∑ i, (st.callers i).owned = conns

/-- A step whose `pop_back()` removes what was read conserves the
connections. -/
theorem Conserved.step (h : Conserved conns st) (hstep : PoolCallStep st label st')
    (hpop : PopsWhatItRead st label) : Conserved conns st' := by
  cases hstep with
  | @step pool pool' callers i action caller hstep =>
  have howned := hstep.owned_eq hpop
  have hsum := Program.sum_update_add Caller.owned callers i caller
  refine Eq.trans (add_right_cancel (b := (callers i).owned) ?_) h
  calc (pool'.connList : Multiset Conn) + (∑ j, (Function.update callers i caller j).owned)
        + (callers i).owned
      = pool'.connList + ((∑ j, (callers j).owned) + caller.owned) := by rw [add_assoc, hsum]
    _ = pool'.connList + caller.owned + ∑ j, (callers j).owned := by
        rw [add_comm (∑ j, (callers j).owned), add_assoc]
    _ = pool.connList + (callers i).owned + ∑ j, (callers j).owned := by rw [howned]
    _ = pool.connList + (∑ j, (callers j).owned) + (callers i).owned := add_right_comm _ _ _

omit [DecidableEq ι] in
/-- Two callers that hold a connection are one, if it is there only once. -/
theorem Conserved.eq_of_mem_held (h : Conserved conns st) (hconns : conns.Nodup) {i j : ι}
    {conn : Conn} (hi : conn ∈ (st.callers i).held) (hj : conn ∈ (st.callers j).held) :
    i = j := by
  classical
  by_contra hne
  have howned : ∀ k, conn ∈ (st.callers k).held → 1 ≤ (st.callers k).owned.count conn := by
    intro k hk
    rw [Multiset.one_le_count_iff_mem]
    match hcaller : st.callers k with
    | ⟨held, call⟩ =>
      rw [hcaller] at hk
      cases call with
      | atPushBack => exact Multiset.mem_cons_of_mem (Multiset.mem_coe.mpr hk)
      | _ => exact hk
  have hcount : ∑ k, (st.callers k).owned.count conn ≤ 1 := by
    have h := congrArg (Multiset.count conn) h
    rw [Multiset.count_add, Multiset.count_sum', Multiset.coe_count,
      Multiset.coe_count] at h
    have hle := List.nodup_iff_count_le_one.mp hconns conn
    omega
  have hpair := Finset.sum_le_sum_of_subset (f := fun k => (st.callers k).owned.count conn)
    (Finset.subset_univ {i, j})
  rw [Finset.sum_pair hne] at hpair
  have := howned i hi
  have := howned j hj
  omega

/-- **The pool is safe**: no connection is held by two callers, `back()` is
not read on an empty list, and where no call is in progress the list and the
callers have the connections of the pool, each once. -/
structure PoolSafe (conns : List Conn) (st : PoolState ι) : Prop where
  unshared : ∀ i j conn, conn ∈ (st.callers i).held → conn ∈ (st.callers j).held → i = j
  back : ∀ i, (st.callers i).call = .atBack → st.pool.connList ≠ []
  whole : (∀ i, (st.callers i).call = .idle) →
    (st.pool.connList : Multiset Conn) + ∑ i, ((st.callers i).held : Multiset Conn) = conns

omit [DecidableEq ι] in
theorem Conserved.poolSafe (h : Conserved conns st) (hconns : conns.Nodup) (hcounted : Counted st) :
    PoolSafe conns st where
  unshared _ _ _ hi hj := h.eq_of_mem_held hconns hi hj
  back _ hi := hcounted.connList_ne_nil hi
  whole hidle := by
    have howned : ∀ i, (st.callers i).owned = ((st.callers i).held : Multiset Conn) := by
      intro i
      have hi := hidle i
      match hcaller : st.callers i with
      | ⟨held, call⟩ =>
        rw [hcaller] at hi
        cases hi
        rfl
    rw [← h, Finset.sum_congr rfl (fun i _ => howned i)]

omit [DecidableEq ι] in
theorem initial_conserved (conns : List Conn) :
    Conserved conns (PoolState.initial ι conns) ∧ Counted (PoolState.initial ι conns) := by
  unfold Conserved Counted PoolState.initial
  rw [ConnectionPool.init_map_some]
  constructor
  · show (conns : Multiset Conn) + ∑ _i : ι, (0 : Multiset Conn) = conns
    rw [Finset.sum_const_zero, add_zero]
  · show 0 + conns.length + ∑ _i : ι, 0 = conns.length
    rw [Finset.sum_const_zero, Nat.add_zero, Nat.zero_add]

/-- **Pool conservation**: in every run in which each `pop_back()` removes the
connection that its call has read, the pool is safe.

The condition is on the state in front of a `pop_back()` only. It can fail because
`GetConnection` does not hold the mutex of the pool: two calls may both read the back
before either removes it, and then one connection has two callers and another one has
none. That nobody reads the back of an empty list does not need the condition, it is a
matter of the semaphore (`Counted`). -/
theorem poolSafe_of_run (hconns : conns.Nodup) {steps : List (PoolState ι × (ι × PoolAction))}
    (hrun : Run PoolCallStep (PoolState.initial ι conns) steps st)
    (hpop : Meets PopsWhatItRead steps) : PoolSafe conns st := by
  have hinv : Conserved conns st ∧ Counted st :=
    hrun.invariant (fun s e _ (h : Conserved conns s ∧ Counted s) (hpop : PopsWhatItRead s e)
      hstep => ⟨h.1.step hstep hpop, h.2.step hstep⟩) hpop (initial_conserved conns)
  exact hinv.1.poolSafe hconns hinv.2

end PoolSafe

/-! ## Two callers -/

/-- Two callers on a pool of two connections. -/
abbrev twoCallers : PoolState Bool := .initial Bool [0, 1]

/-- One caller gets a connection and gives it back, then the other one gets
it. -/
theorem twoCallers_inTurn : ∃ steps st, Run PoolCallStep twoCallers steps st ∧
    Meets PopsWhatItRead steps ∧ (st.callers true).held = [] ∧ (st.callers false).held = [1] := by
  refine ⟨_, _,
    .cons (.step (i := true) (.getConnection _ _)) <|
    .cons (.step (i := true) (.wait [0, 1] 1 [])) <|
    .cons (.step (i := true) (.back [0] 1 1 [])) <|
    .cons (.step (i := true) (.popBack [0] 1 1 1 [])) <|
    .cons (.step (i := true) (.releaseConnection _ [1] 1 List.mem_cons_self)) <|
    .cons (.step (i := true) (.pushBack [0] 1 1 [])) <|
    .cons (.step (i := true) (.post [0, 1] 1 [])) <|
    .cons (.step (i := false) (.getConnection _ _)) <|
    .cons (.step (i := false) (.wait [0, 1] 1 [])) <|
    .cons (.step (i := false) (.back [0] 1 1 [])) <|
    .cons (.step (i := false) (.popBack [0] 1 1 1 [])) <|
    .nil _, ?_, rfl, rfl⟩
  intro x hx hpop conn hcall
  simp only [List.mem_cons, List.not_mem_nil, or_false] at hx
  rcases hx with rfl | rfl | rfl | rfl | rfl | rfl | rfl | rfl | rfl | rfl | rfl
  all_goals first
    | (cases hpop; done)
    | exact congrArg some (PoolCall.atPopBack.inj hcall)

/-- In that run the pool is safe. -/
theorem poolSafe_inTurn : ∃ steps st, Run PoolCallStep twoCallers steps st ∧
    (st.callers false).held = [1] ∧ PoolSafe [0, 1] st := by
  obtain ⟨steps, st, hrun, hpop, -, hheld⟩ := twoCallers_inTurn
  exact ⟨steps, st, hrun, hheld, poolSafe_of_run (by decide) hrun hpop⟩

/-- **Two callers that read the back of the list before either pops it** get
the same connection, and the other one is lost. -/
theorem not_poolSafe_twoReads : ∃ steps st, Run PoolCallStep twoCallers steps st ∧
    ¬ PoolSafe [0, 1] st := by
  refine ⟨_, _,
    .cons (.step (i := true) (.getConnection _ _)) <|
    .cons (.step (i := true) (.wait [0, 1] 1 [])) <|
    .cons (.step (i := true) (.back [0] 1 1 [])) <|
    .cons (.step (i := false) (.getConnection _ _)) <|
    .cons (.step (i := false) (.wait [0, 1] 0 [])) <|
    .cons (.step (i := false) (.back [0] 1 0 [])) <|
    .cons (.step (i := true) (.popBack [0] 1 1 0 [])) <|
    .cons (.step (i := false) (.popBack [] 0 1 0 [])) <|
    .nil _, ?_⟩
  intro hsafe
  have h : true = false := hsafe.unshared true false 1 List.mem_cons_self List.mem_cons_self
  cases h

end MicroBusiness
