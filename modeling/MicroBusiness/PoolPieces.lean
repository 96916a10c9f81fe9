import MicroBusiness.Atomicity
import MicroBusiness.ConnectionPool
import MicroBusiness.Linearizability

/-!
# Executions on the pool as it is

`ConnectionUse` and `Linearizability` take a connection from the pool, and give
it back, at once. `GetConnection` and `ReleaseConnection` do it in several steps
(`CallerStep`), between which the other executions take theirs, on the pool, the
mutex, and the database. Here the executions of `do_buy` and `do_show` call them
in these steps.

What the database is does not matter for this: it may be any state, which is
changed by the queries and by storing a result in any way (`OnDatabase`). So the
executions are any executions, whatever their requests ask for. The shop of
`Linearizability` is the case of a table (`shoppingStep_iff`).

A connection is taken at `pop_back()`, and given back at `push_back`. As long as
each `pop_back()` removes what its call has read, no one sees more of a call than
this one step, and what the executions do is what they do with calls at once
(`calledAtOnce_of_run`).
-/

namespace MicroBusiness

open Program Transition

/-! ## Executions on a database -/

section OnDatabase

variable {ι σ : Type} [DecidableEq ι]

/-- What executions share: `conn_mutex`, the pool, and a database. -/
abbrev Shared (ι σ : Type) := Option ι × (PoolUse ι × σ)

/-- **A call on the pool and on a database**, which is asked by the queries and when a
result is stored only. -/
structure OnDatabase (db : σ → DbEvent → σ → Prop) (i : ι) (x : PoolUse ι × σ) (e : DbEvent)
    (y : PoolUse ι × σ) : Prop where
  pool : PoolStep i x.1 e y.1
  asked : e.1.IsQuery → db x.2 e y.2
  notAsked : ¬ e.1.IsQuery → y.2 = x.2

/-- A call on what the executions share. -/
abbrev SharedExec (db : σ → DbEvent → σ → Prop) :
    ι → Shared ι σ → DbEvent → Shared ι σ → Prop :=
  Mutex.Exec DbOp.lock DbOp.unlock (OnDatabase db)

/-- Executions in progress, on the mutex, the pool, and a database. -/
abbrev Executions (ι σ : Type) := Threads ι DbOp DbOp.Reply Fault HttpResponse (Shared ι σ)

/-- A call of one of the executions. -/
abbrev ExecutionsStep (db : σ → DbEvent → σ → Prop) :
    Executions ι σ → ι × DbEvent → Executions ι σ → Prop :=
  Threads.Step (SharedExec db)

omit [DecidableEq ι] in
/-- The executions, as far as the pool is concerned. -/
def Executions.onPool (th : Executions ι σ) : Handlers ι :=
  ⟨(th.shared.1, th.shared.2.1), th.prog⟩

omit [DecidableEq ι] in
/-- The executions before they begin, on a pool of connections and a database. -/
def executionsOn (json : JsonWriter) (s : Server) (executions : ι → Execution)
    (connList : List Conn) (database : σ) : Executions ι σ where
  shared := (none, { connList := connList }, database)
  prog i := (executions i).prog json s

variable {db : σ → DbEvent → σ → Prop} {i : ι} {x y : Shared ι σ} {e : DbEvent}

/-- A call is one on the pool, with the mutex or without. -/
theorem SharedExec.poolStep (h : SharedExec db i x e y) : PoolStep i x.2.1 e y.2.1 := by
  cases h with
  | lock => exact .lock _
  | unlock => exact .unlock _
  | other _ _ hstep => exact hstep.pool

/-- **The calls of the shop** are those on a database that is a table. -/
theorem shoppingStep_iff {s : Server} {shelf : Shelf} {th th' : Shopping ι}
    {label : ι × DbEvent} :
    ShoppingStep s shelf th label th' ↔ ExecutionsStep (StoreStep s shelf) th label th' := by
  have hcalls : ∀ (i : ι) (x y : PoolUse ι × Store) (e : DbEvent),
      PremisesStep s shelf i x e y ↔ OnDatabase (StoreStep s shelf) i x e y := by
    intro i x y e
    constructor
    · rintro ⟨hpool, hstore⟩
      exact ⟨hpool, fun _ => hstore, hstore.eq_of_not_isQuery⟩
    · rintro ⟨hpool, hasked, hnot⟩
      refine ⟨hpool, ?_⟩
      by_cases he : e.1.IsQuery
      · exact hasked he
      · rw [hnot he]
        exact .other _ he
  have hexec : PremisesStep (ι := ι) s shelf = OnDatabase (StoreStep s shelf) := by
    funext i x e y
    exact propext (hcalls i x y e)
  unfold ShoppingStep ExecutionsStep PremisesExec SharedExec
  rw [hexec]

end OnDatabase

/-! ## Calls of the pool in steps -/

section PieceStep

variable {ι σ : Type} [DecidableEq ι]

/-- The pool behind what the executions share: its list, and the value of its
semaphore. -/
def poolOf (x : Shared ι σ × ℕ) : ConnectionPool := ⟨x.1.2.1.connList, x.2⟩

/-- Another list for the pool. -/
def Shared.setConnList (x : Shared ι σ) (conns : List Conn) : Shared ι σ :=
  (x.1, { x.2.1 with connList := conns }, x.2.2)

/-- What an execution has got. -/
def Shared.setGot (x : Shared ι σ) (i : ι) (conn : Conn) : Shared ι σ :=
  (x.1, { x.2.1 with got := Function.update x.2.1.got i (some conn) }, x.2.2)

/-- **The steps of a call** of the execution `i`, on what the executions share and
the value of the semaphore: those of `GetConnection` and `ReleaseConnection`,
and any other call at once. -/
inductive PieceStep (db : σ → DbEvent → σ → Prop) (i : ι) :
    (o : DbOp) → (Shared ι σ × ℕ) × PoolCall → Option PoolAction →
      (Shared ι σ × ℕ) × (PoolCall ⊕ o.Reply) → Prop
  | getConnection (x : Shared ι σ × ℕ) :
    PieceStep db i .getConnection (x, .idle) (some .getConnection) (x, .inl .atWait)
  | wait (x : Shared ι σ) (n : ℕ) :
    PieceStep db i .getConnection ((x, n + 1), .atWait) (some .wait) ((x, n), .inl .atBack)
  | back (x : Shared ι σ × ℕ) (conns : List Conn) (conn : Conn)
    (hback : x.1.2.1.connList = conns ++ [conn]) :
    PieceStep db i .getConnection (x, .atBack) (some .back) (x, .inl (.atPopBack conn))
  | popBack (x : Shared ι σ) (n : ℕ) (conn : Conn) (conns : List Conn) (last : Conn)
    (hback : x.2.1.connList = conns ++ [last]) :
    PieceStep db i .getConnection ((x, n), .atPopBack conn) (some .popBack)
      (((x.setConnList conns).setGot i conn, n), .inr conn)
  | releaseConnection (x : Shared ι σ × ℕ) (conn : Conn) :
    PieceStep db i (.releaseConnection conn) (x, .idle) (some (.releaseConnection conn))
      (x, .inl (.atPushBack conn))
  | pushBack (x : Shared ι σ) (n : ℕ) (conn : Conn) :
    PieceStep db i (.releaseConnection conn) ((x, n), .atPushBack conn) (some .pushBack)
      ((x.setConnList (x.2.1.connList ++ [conn]), n), .inl .atPost)
  | post (x : Shared ι σ) (n : ℕ) (conn : Conn) :
    PieceStep db i (.releaseConnection conn) ((x, n), .atPost) (some .post)
      ((x, n + 1), .inr ())
  | other {o : DbOp} {r : o.Reply} {x y : Shared ι σ} (n : ℕ) (hget : o ≠ .getConnection)
    (hrelease : ∀ conn, o ≠ .releaseConnection conn)
    (hexec : SharedExec db i x ⟨o, r⟩ y) :
    PieceStep db i o ((x, n), .idle) none ((y, n), .inr r)

variable {db : σ → DbEvent → σ → Prop} {i : ι}

/-- Where the call of a caller stands behind a step. -/
def callAfter {o : DbOp} : PoolCall ⊕ o.Reply → PoolCall := Sum.elim id fun _ => .idle

/-- **The steps on the pool are those of a caller.** -/
theorem PieceStep.callerStep {o : DbOp} {x y : Shared ι σ × ℕ} {c : PoolCall} {a : PoolAction}
    {res : PoolCall ⊕ o.Reply} (h : PieceStep db i o (x, c) (some a) (y, res)) :
    ∃ held held', CallerStep (poolOf x) ⟨held, c⟩ a (poolOf y) ⟨held', callAfter res⟩ := by
  unfold poolOf
  cases h with
  | getConnection => exact ⟨[], [], .getConnection _ _⟩
  | wait x n => exact ⟨[], [], .wait _ _ _⟩
  | back _ conns conn hback =>
    rw [hback]
    exact ⟨[], [], .back _ _ _ _⟩
  | popBack x n conn conns last hback =>
    rw [hback]
    exact ⟨[], [conn], .popBack _ _ _ _ _⟩
  | releaseConnection _ conn =>
    exact ⟨[conn], [conn].erase conn, .releaseConnection _ _ _ List.mem_cons_self⟩
  | pushBack x n conn => exact ⟨[], [], .pushBack _ _ _ _⟩
  | post x n conn => exact ⟨[], [], .post _ _ _⟩

theorem PoolStep.connList_eq {pool pool' : PoolUse ι} {e : DbEvent} (h : PoolStep i pool e pool')
    (hget : e.1 ≠ .getConnection) (hrelease : ∀ conn, e.1 ≠ .releaseConnection conn) :
    pool'.connList = pool.connList := by
  cases h with
  | getConnection => exact absurd rfl hget
  | releaseConnection conn => exact absurd rfl (hrelease conn)
  | _ => rfl

theorem PieceStep.poolOf_eq {o : DbOp} {x y : Shared ι σ × ℕ} {c : PoolCall}
    {res : PoolCall ⊕ o.Reply} (h : PieceStep db i o (x, c) none (y, res)) :
    poolOf y = poolOf x ∧ c = .idle ∧ callAfter res = .idle := by
  cases h with
  | other n hget hrelease hexec =>
    refine ⟨?_, rfl, rfl⟩
    have hlist := hexec.poolStep.connList_eq hget hrelease
    unfold poolOf
    rw [hlist]

variable (db) in
/-- The calls in steps. A connection is given back when it has been pushed. -/
def poolPieces : Pieces ι DbOp DbOp.Reply (Shared ι σ × ℕ) PoolCall (Option PoolAction) where
  start := .idle
  step := PieceStep db
  decided
    | .releaseConnection _, .atPost => some ()
    | _, _ => none
  decided_start o := by cases o <;> rfl

end PieceStep

/-! ## Executions that call in steps -/

section PieceShop

variable {ι σ : Type} [DecidableEq ι]

/-- Executions that call the pool in steps. -/
abbrev PieceShop (ι σ : Type) :=
  Piecemeal ι DbOp DbOp.Reply Fault HttpResponse (Shared ι σ × ℕ) PoolCall

/-- What is seen of them from outside the pool. -/
abbrev PieceShop.atOnce (db : σ → DbEvent → σ → Prop) (x : PieceShop ι σ) : Executions ι σ :=
  x.atomic (poolPieces db) Prod.fst

/-- The `pop_back()` of a call removes the connection that the call has
read. -/
def PopsOwn (x : PieceShop ι σ) (label : ι × Option PoolAction) : Prop :=
  label.2 = some .popBack → ∀ conn, x.call label.1 = .atPopBack conn →
    x.shared.1.2.1.connList.getLast? = some conn

/-- A `pop_back()` takes no connection that an execution has in use. -/
def PopsUnused (db : σ → DbEvent → σ → Prop) (x : PieceShop ι σ)
    (label : ι × Option PoolAction) : Prop :=
  label.2 = some .popBack → ∀ conn, x.shared.1.2.1.connList.getLast? = some conn →
    ∀ j, ¬ InUse (Executions.onPool (x.atOnce db)) j conn

variable {db : σ → DbEvent → σ → Prop}

/-- **Calls of the pool look as if they were made at once**, if each `pop_back()`
removes what its call has read. -/
theorem poolPieces_atomic : (poolPieces db).Atomic Prod.fst (SharedExec db)
    (fun (th : Executions ι σ) label => TakesUnused th.onPool label)
    (fun (x : PieceShop ι σ) label => PopsOwn x label ∧ PopsUnused db x label) := by
  intro x i o k a t res hprog hgood hstep
  generalize hshared : x.shared = shared at hstep
  generalize hcall : x.call i = call at hstep
  cases (hstep : PieceStep db i o (shared, call) a (t, res)) with
  | getConnection => exact Or.inl ⟨rfl, rfl⟩
  | wait => exact Or.inl ⟨rfl, rfl⟩
  | back => exact Or.inl ⟨rfl, rfl⟩
  | popBack y n conn conns last hback =>
    have hown := hgood.1 rfl conn hcall
    rw [hshared] at hown
    dsimp only at hown
    rw [hback, List.getLast?_concat] at hown
    obtain rfl : last = conn := Option.some.inj hown
    refine Or.inr ⟨rfl, last, rfl, ?_, fun _ conn hconn => hgood.2 rfl conn hconn⟩
    exact .other nofun nofun ⟨.getConnection _ conns last hback, nofun, fun _ => rfl⟩
  | releaseConnection => exact Or.inl ⟨rfl, rfl⟩
  | pushBack y n conn =>
    refine Or.inr ⟨rfl, (), rfl, ?_, nofun⟩
    exact .other nofun nofun ⟨.releaseConnection _ conn, nofun, fun _ => rfl⟩
  | post => exact Or.inl ⟨rfl, rfl⟩
  | @other _ r y z n hget hrelease hexec =>
    have hnone : (poolPieces db).decided o (.idle : PoolCall) = none :=
      (@poolPieces ι σ _ db).decided_start o
    exact Or.inr ⟨hnone, r, rfl, hexec, fun h => absurd h hget⟩

/-! ## The semaphore counts -/

section Counts

variable [Fintype ι] {x y : PieceShop ι σ} {label : ι × Option PoolAction}

omit [DecidableEq ι] in
/-- **The semaphore and the calls at the list together count the list.** -/
def Counts (x : PieceShop ι σ) : Prop :=
  (poolOf x.shared).reserve + ∑ i, (x.call i).claims = (poolOf x.shared).connList.length

omit [Fintype ι] in
/-- A step changes the call of one execution, and the pool as this call does. -/
theorem pieces_cases (h : Piecemeal.Step (poolPieces db) x label y) :
    ∃ c, y.call = Function.update x.call label.1 c ∧
      (poolOf y.shared).reserve + c.claims + (poolOf x.shared).connList.length
        = (poolOf x.shared).reserve + (x.call label.1).claims
          + (poolOf y.shared).connList.length := by
  have hpiece : ∀ {i : ι} {o : DbOp} {a : Option PoolAction} {t : Shared ι σ × ℕ}
      {res : PoolCall ⊕ o.Reply}, PieceStep db i o (x.shared, x.call i) a (t, res) →
      (poolOf t).reserve + (callAfter res).claims + (poolOf x.shared).connList.length
        = (poolOf x.shared).reserve + (x.call i).claims + (poolOf t).connList.length := by
    intro i o a t res hstep
    cases a with
    | none =>
      obtain ⟨hpool, hcall, hafter⟩ := hstep.poolOf_eq
      rw [hpool, hcall, hafter]
    | some a =>
      obtain ⟨held, held', hcaller⟩ := hstep.callerStep
      exact hcaller.claims_eq
  cases h with
  | goOn _ hstep => exact ⟨_, rfl, hpiece hstep⟩
  | «return» _ hstep => exact ⟨_, rfl, hpiece hstep⟩

/-- A step keeps the count. -/
theorem Counts.step (h : Counts x) (hstep : Piecemeal.Step (poolPieces db) x label y) :
    Counts y := by
  obtain ⟨c, hcall, hclaims⟩ := pieces_cases hstep
  have hsum := sum_update_add PoolCall.claims x.call label.1 c
  unfold Counts at h ⊢
  rw [hcall]
  omega

omit [DecidableEq ι] in
/-- **A call in front of `back()` finds a connection.** -/
theorem Counts.connList_ne_nil (h : Counts x) {i : ι} (hi : x.call i = .atBack) :
    x.shared.1.2.1.connList ≠ [] := by
  intro hnil
  unfold Counts poolOf at h
  rw [hnil, List.length_nil, Nat.add_eq_zero_iff, Finset.sum_eq_zero_iff] at h
  have hclaims := h.2 i (Finset.mem_univ i)
  rw [hi] at hclaims
  cases hclaims

end Counts

/-! ## Runs -/

section Runs

variable {json : JsonWriter} {s : Server} {executions : ι → Execution} {connList : List Conn}
  {database : σ}

omit [DecidableEq ι] in
/-- The executions before they begin, on a pool behind `init`, and a database. -/
def openPieces (json : JsonWriter) (s : Server) (executions : ι → Execution)
    (connList : List Conn) (database : σ) : PieceShop ι σ where
  shared := ((none, { connList := (ConnectionPool.init (connList.map some) {}).2.connList },
    database), (ConnectionPool.init (connList.map some) {}).2.reserve)
  prog i := (executions i).prog json s
  call _ := .idle

theorem atOnce_openPieces : (openPieces json s executions connList database).atOnce db
    = executionsOn json s executions connList database := by
  unfold PieceShop.atOnce Piecemeal.atomic openPieces executionsOn
  rw [ConnectionPool.init_map_some]
  dsimp only
  congr 1
  funext i
  exact (poolPieces db).rest_start _

omit [DecidableEq ι] in
theorem counts_openPieces [Fintype ι] :
    Counts (openPieces json s executions connList database) := by
  unfold Counts openPieces poolOf
  rw [ConnectionPool.init_map_some]
  show 0 + connList.length + ∑ _i : ι, 0 = connList.length
  rw [Finset.sum_const_zero, Nat.add_zero, Nat.zero_add]

/-- **Executions on the pool as it is do what they do with calls at once**, on any database: in
every interleaving of their calls and of the steps of `GetConnection` and
`ReleaseConnection`, in which each `pop_back()` removes what its call has read,
and none takes a connection that another execution still works on, what has
been done is what is done by calls that are made at once, each in a step of its
call, in the order of time; an execution that has ended has the same result; and
no call reads the back of an empty list. -/
theorem calledAtOnce_of_run [Fintype ι] {steps : List (PieceShop ι σ × (ι × Option PoolAction))}
    {x : PieceShop ι σ}
    (hrun : Run (Piecemeal.Step (poolPieces db)) (openPieces json s executions connList database)
      steps x)
    (hown : Meets PopsOwn steps) (hunused : Meets (PopsUnused db) steps) :
    (∃ steps', Run (ExecutionsStep db) (executionsOn json s executions connList database) steps'
          (x.atOnce db)
        ∧ Meets (fun th label => TakesUnused th.onPool label) steps'
        ∧ (steps'.map fun y => (y.1, y.2.1)).Sublist
          (steps.map fun y => (y.1.atOnce db, y.2.1)))
      ∧ (∀ i r, (x.prog i).result = some r → ((x.atOnce db).prog i).result = some r)
      ∧ ∀ i, x.call i = .atBack → x.shared.1.2.1.connList ≠ [] := by
  refine ⟨?_, fun i r hr => ?_, fun i hi => ?_⟩
  · obtain ⟨steps', hrun', hmeets, hsub⟩ :=
      poolPieces_atomic.run hrun fun y hy => ⟨hown y hy, hunused y hy⟩
    rw [show (openPieces json s executions connList database).atomic (poolPieces db) Prod.fst
      = _ from atOnce_openPieces] at hrun'
    exact ⟨steps', hrun', hmeets, hsub⟩
  · show ((poolPieces db).rest (x.call i) (x.prog i)).result = some r
    match hprog : x.prog i with
    | .ret a =>
      rw [hprog] at hr
      exact hr
    | .fail e =>
      rw [hprog] at hr
      exact hr
    | .op o k =>
      rw [hprog] at hr
      cases hr
  · have hcounts : Counts x :=
      hrun.invariant (fun _ _ _ (h : Counts _) (_ : True) hstep => h.step hstep)
        (fun _ _ => trivial) counts_openPieces
    exact hcounts.connList_ne_nil hi

end Runs

end PieceShop

/-! ## Two who look -/

/-- Two who look at a table, on a pool of two connections. -/
def twoLookers : PieceShop Bool Store :=
  openPieces silentWriter server2 (fun _ => .show {} { closeConnection := false }) [0, 1]
    { stock := fun _ => 3 }

/-- One of them waits for the semaphore before the other one has its connection,
and gets its own before the other one has given it back. -/
theorem twoLookers_run : ∃ steps x,
    Run (Piecemeal.Step (poolPieces (StoreStep server2 oneWine))) twoLookers steps x ∧
      Meets PopsOwn steps ∧
      Meets (PopsUnused (StoreStep server2 oneWine)) steps ∧
      x.shared.1.2.1.got = fun i => some (if i then (1 : Conn) else 0) := by
  refine ⟨_, _,
    .cons (.goOn (i := true) rfl (.getConnection _)) <|
    .cons (.goOn (i := false) rfl (.getConnection _)) <|
    .cons (.goOn (i := true) rfl (.wait _ 1)) <|
    .cons (.goOn (i := false) rfl (.wait _ 0)) <|
    .cons (.goOn (i := true) rfl (.back _ [0] 1 rfl)) <|
    .cons (.return (i := true) rfl (.popBack _ _ 1 [0] 1 rfl)) <|
    .cons (.goOn (i := false) rfl (.back _ [] 0 rfl)) <|
    .cons (.goOn (i := true) rfl (.releaseConnection _ 1)) <|
    .cons (.return (i := false) rfl (.popBack _ _ 0 [] 0 rfl)) <|
    .cons (.goOn (i := true) rfl (.pushBack _ _ 1)) <|
    .cons (.return (i := true) rfl (.post _ _ 1)) <|
    .nil _, ?_, ?_, ?_⟩
  · intro x hx hpop conn hcall
    simp only [List.mem_cons, List.not_mem_nil, or_false] at hx
    rcases hx with rfl | rfl | rfl | rfl | rfl | rfl | rfl | rfl | rfl | rfl | rfl
    all_goals first
      | (cases hpop; done)
      | exact congrArg some (PoolCall.atPopBack.inj hcall)
  · intro x hx hpop conn hback j huse
    have hgot := huse.1
    simp only [List.mem_cons, List.not_mem_nil, or_false] at hx
    rcases hx with rfl | rfl | rfl | rfl | rfl | rfl | rfl | rfl | rfl | rfl | rfl
    all_goals first
      | (cases hpop; done)
      | cases hgot
      | skip
    -- the second one takes what is left beside the connection of the first one
    obtain rfl : (0 : Conn) = conn := Option.some.inj hback
    cases j with
    | false => cases hgot
    | true => cases hgot
  · funext i
    cases i with
    | false => rfl
    | true => rfl

/-- The calls at once come in the same order. -/
theorem calledAtOnce_twoLookers : ∃ steps x steps',
    Run (Piecemeal.Step (poolPieces (StoreStep server2 oneWine))) twoLookers steps x ∧
      Run (ExecutionsStep (StoreStep server2 oneWine))
        (executionsOn silentWriter server2 (fun _ => .show {} { closeConnection := false }) [0, 1]
          { stock := fun _ => 3 }) steps' (PieceShop.atOnce (StoreStep server2 oneWine) x) ∧
      (steps'.map fun y => (y.1, y.2.1)).Sublist
        (steps.map fun y => (PieceShop.atOnce (StoreStep server2 oneWine) y.1, y.2.1)) := by
  obtain ⟨steps, x, hrun, hown, hunused, -⟩ := twoLookers_run
  obtain ⟨⟨steps', hrun', -, hsub⟩, -, -⟩ := calledAtOnce_of_run hrun hown hunused
  exact ⟨steps, x, steps', hrun, hrun', hsub⟩

end MicroBusiness
