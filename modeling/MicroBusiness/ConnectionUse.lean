import MicroBusiness.Task
import MicroBusiness.Threads

/-!
# Who uses a connection to the database

Executions of `do_buy` and `do_show` that run at the same time on one pool of
connections, whose `GetConnection` and `ReleaseConnection` are taken as
atomic here. `connectionRAII(&conn, sql_conn_pool)` is a temporary, so an
execution gives its connection back before it works on it, and the pool hands
out the connection that was given back last.

What a handler does with the pool is a protocol (`UsesPool`): it obtains one
connection, gives it back at once, and works on it from then on, storing a result
only behind a query. As long as no execution takes a connection that another one
still works on, no two executions work on the same connection, and each fetches
the results of its own queries (`Orderly.step`). When that is so is a matter of the
schedule, and is told in `MicroBusiness.ConnectionTurns`.
-/

namespace MicroBusiness

open Program Transition

/-- The connection a handler's call works on. -/
def DbOp.conn : DbOp → Option Conn
  | .query conn _ => some conn
  | .storeResult conn => some conn
  | .error conn => some conn
  | _ => none

/-- The pool and the use of its connections: the list of the pool, the
connection each execution has obtained, and the execution whose query was the
last one on a connection. -/
structure PoolUse (ι : Type) where
  connList : List Conn
  got : ι → Option Conn := fun _ => none
  lastQuery : Conn → Option ι := fun _ => none

/-- **What the calls of the execution `i` do to the pool and the connections.** A
connection is taken from the back of the list, and given back there. -/
inductive PoolStep {ι : Type} [DecidableEq ι] (i : ι) : PoolUse ι → DbEvent → PoolUse ι → Prop
  | getConnection (pool : PoolUse ι) (conns : List Conn) (conn : Conn)
    (hback : pool.connList = conns ++ [conn]) :
    PoolStep i pool ⟨.getConnection, conn⟩
      { pool with connList := conns, got := Function.update pool.got i (some conn) }
  | releaseConnection (pool : PoolUse ι) (conn : Conn) :
    PoolStep i pool ⟨.releaseConnection conn, ()⟩
      { pool with connList := pool.connList ++ [conn] }
  | query (pool : PoolUse ι) (conn : Conn) (text : Bytes) (failed : Bool) :
    PoolStep i pool ⟨.query conn text, failed⟩
      { pool with lastQuery := Function.update pool.lastQuery conn (some i) }
  | storeResult (pool : PoolUse ι) (conn : Conn) (result : Option MysqlRes) :
    PoolStep i pool ⟨.storeResult conn, result⟩ pool
  | error (pool : PoolUse ι) (conn : Conn) : PoolStep i pool ⟨.error conn, ()⟩ pool
  | useResult (pool : PoolUse ι) (result : MysqlRes) : PoolStep i pool ⟨.useResult result, ()⟩ pool
  | freeResult (pool : PoolUse ι) (result : MysqlRes) :
    PoolStep i pool ⟨.freeResult result, ()⟩ pool
  | lock (pool : PoolUse ι) : PoolStep i pool ⟨.lock, ()⟩ pool
  | unlock (pool : PoolUse ι) : PoolStep i pool ⟨.unlock, ()⟩ pool

/-! ## The calls of a handler -/

/-- **How far a handler has come with the pool**: it has no connection yet, it has one
and not given it back, or it has given it back, and may have sent a query on it. -/
inductive Phase
  | idle
  | held (conn : Conn)
  | returned (conn : Conn) (asked : Bool)

/-- The connection that was obtained. -/
def Phase.got : Phase → Option Conn
  | .idle => none
  | .held conn => some conn
  | .returned conn _ => some conn

/-- Whether a query was sent. -/
def Phase.asked : Phase → Bool
  | .returned _ asked => asked
  | _ => false

/-- The calls a handler makes: it obtains a connection, gives it back, and works on no
other. It stores a result only behind a query. -/
def Allowed : Phase → DbOp → Prop
  | .idle, .getConnection => True
  | .held conn, .releaseConnection conn' => conn' = conn
  | .returned conn _, .query conn' _ => conn' = conn
  | .returned conn asked, .storeResult conn' => conn' = conn ∧ asked = true
  | .returned conn _, .error conn' => conn' = conn
  | .returned _ _, .lock => True
  | .returned _ _, .unlock => True
  | .returned _ _, .useResult _ => True
  | .returned _ _, .freeResult _ => True
  | _, _ => False

/-- The use of the pool behind a call. -/
def phaseAfter : Phase → DbEvent → Phase
  | _, ⟨.getConnection, conn⟩ => .held conn
  | _, ⟨.releaseConnection conn, _⟩ => .returned conn false
  | _, ⟨.query conn _, _⟩ => .returned conn true
  | phase, _ => phase

/-- What a handler does with the pool. -/
abbrev UsesPool (p : Handler HttpResponse) (phase : Phase) : Prop :=
  p.Follows Allowed phaseAfter phase

section UsesPool

variable {json : JsonWriter} {s : Server} {req : HttpRequest} {resp : HttpResponse}
  {id num : Bytes} {conn : Conn}

theorem usesPool_buyFinish {n : ℤ} {result : MysqlRes} {row : MysqlRow} {asked : Bool} :
    UsesPool (Task.buyFinish json s req resp n result row) (.returned conn asked) := by
  unfold Task.buyFinish
  dsimp only
  cases row.price with
  | none =>
    split
    · exact ⟨trivial, fun _ => ⟨trivial, fun _ => trivial⟩⟩
    · exact ⟨trivial, fun _ => trivial⟩
  | some price =>
    split
    · exact ⟨trivial, fun _ => ⟨trivial, fun _ => ⟨trivial, fun _ => trivial⟩⟩⟩
    · exact ⟨trivial, fun _ => ⟨trivial, fun _ => ⟨trivial, fun _ => trivial⟩⟩⟩

theorem usesPool_buyCompare {result : MysqlRes} {row : MysqlRow} {asked : Bool} :
    UsesPool (Task.buyCompare json s req resp id num conn result row) (.returned conn asked) := by
  unfold Task.buyCompare
  split
  · trivial
  split
  · exact ⟨trivial, fun _ => trivial⟩
  split
  · exact ⟨trivial, fun _ => trivial⟩
  unfold Task.buyUpdate
  refine ⟨rfl, fun failed => ?_⟩
  dsimp only
  split
  · exact ⟨rfl, fun _ => ⟨trivial, fun _ => trivial⟩⟩
  · exact usesPool_buyFinish

theorem usesPool_doBuy : UsesPool (Task.doBuy json s req resp) .idle := by
  unfold Task.doBuy
  split
  · trivial
  split
  · trivial
  split
  · trivial
  split
  · trivial
  unfold Task.buyWith
  refine ⟨trivial, fun conn => ⟨rfl, fun _ => ⟨trivial, fun _ => ?_⟩⟩⟩
  unfold Task.buySelect
  refine ⟨rfl, fun failed => ?_⟩
  dsimp only
  split
  · exact ⟨rfl, fun _ => ⟨trivial, fun _ => trivial⟩⟩
  unfold Task.buyStore
  refine ⟨⟨rfl, rfl⟩, fun result => ?_⟩
  dsimp only
  split
  · exact ⟨rfl, fun _ => ⟨trivial, fun _ => trivial⟩⟩
  unfold Task.buyFetch
  refine ⟨trivial, fun _ => ?_⟩
  dsimp only
  split
  · exact ⟨trivial, fun _ => trivial⟩
  · exact usesPool_buyCompare

theorem usesPool_showItems {result : MysqlRes} {k : List Json → Handler HttpResponse}
    {asked : Bool} (hk : ∀ items, UsesPool (k items) (.returned conn asked)) (rows : List MysqlRow)
    (items : List Json) :
    UsesPool (Task.showItems result k rows items) (.returned conn asked) := by
  induction rows generalizing items with
  | nil => exact ⟨trivial, fun _ => hk items⟩
  | cons row rows ih =>
    refine ⟨trivial, fun _ => ?_⟩
    dsimp only
    split
    · trivial
    · exact ih _

theorem usesPool_showFinish {result : MysqlRes} {items : List Json} {asked : Bool} :
    UsesPool (Task.showFinish json req resp result items) (.returned conn asked) :=
  ⟨trivial, fun _ => trivial⟩

theorem usesPool_doShow : UsesPool (Task.doShow json s req resp) .idle := by
  unfold Task.doShow
  refine ⟨trivial, fun conn => ⟨rfl, fun _ => ⟨rfl, fun failed => ?_⟩⟩⟩
  dsimp only
  split
  · trivial
  unfold Task.showStore
  refine ⟨⟨rfl, rfl⟩, fun result => ?_⟩
  dsimp only
  split
  · exact ⟨rfl, fun _ => trivial⟩
  · exact ⟨trivial, fun _ => usesPool_showItems (fun _ => usesPool_showFinish) _ _⟩

end UsesPool

/-! ## Executions that run at the same time -/

/-- An execution of a handler: which one, the request, and the response it
fills in. -/
inductive Execution
  | buy (req : HttpRequest) (resp : HttpResponse)
  | show (req : HttpRequest) (resp : HttpResponse)

/-- The program of an execution. -/
def Execution.prog (json : JsonWriter) (s : Server) : Execution → Handler HttpResponse
  | .buy req resp => Task.doBuy json s req resp
  | .show req resp => Task.doShow json s req resp

theorem Execution.usesPool (json : JsonWriter) (s : Server) (e : Execution) :
    UsesPool (e.prog json s) .idle := by
  cases e with
  | buy req resp => exact usesPool_doBuy
  | «show» req resp => exact usesPool_doShow

section Exclusive

variable {ι : Type} [DecidableEq ι]

/-- Executions in progress, on `conn_mutex` and on the pool. -/
abbrev Handlers (ι : Type) := Threads ι DbOp DbOp.Reply Fault HttpResponse (Option ι × PoolUse ι)

/-- A call of one of the executions. -/
abbrev HandlerStep : Handlers ι → ι × DbEvent → Handlers ι → Prop :=
  Threads.Step (Mutex.Exec DbOp.lock DbOp.unlock PoolStep)

/-- The executions before they begin, on a pool of connections. -/
def handlers (json : JsonWriter) (s : Server) (executions : ι → Execution)
    (connList : List Conn) : Handlers ι where
  shared := (none, { connList := connList })
  prog i := (executions i).prog json s

/-- **An execution has a connection in use**: it has obtained it, and may
still work on it. -/
def InUse (h : Handlers ι) (i : ι) (conn : Conn) : Prop :=
  h.shared.2.got i = some conn ∧ (h.prog i).MayCall (fun o => o.conn = some conn)

/-- No two executions have the same connection in use. -/
def Exclusive (h : Handlers ι) : Prop :=
  ∀ i j conn, InUse h i conn → InUse h j conn → i = j

/-- A result that is about to be stored is the one of the execution's own
query. -/
def FetchesOwn (h : Handlers ι) : Prop :=
  ∀ i conn k, h.prog i = .op (.storeResult conn) k → h.shared.2.lastQuery conn = some i

/-- A step does not take a connection that is in use: where it takes one, no
execution has the connection at the back of the list in use. -/
def TakesUnused (h : Handlers ι) (label : ι × DbEvent) : Prop :=
  label.2.1 = .getConnection →
    ∀ conn, h.shared.2.connList.getLast? = some conn → ∀ j, ¬ InUse h j conn

/-- The invariant: every execution follows its protocol with the pool, the
last query on the connection it has in use is its own, and no two executions
have the same connection in use. -/
structure Orderly (h : Handlers ι) : Prop where
  usesPool (i : ι) : ∃ phase : Phase, phase.got = h.shared.2.got i ∧ UsesPool (h.prog i) phase ∧
    (phase.asked = true → ∀ conn, InUse h i conn → h.shared.2.lastQuery conn = some i)
  exclusive : Exclusive h

omit [DecidableEq ι] in
theorem Orderly.fetchesOwn {h : Handlers ι} (horderly : Orderly h) : FetchesOwn h := by
  intro i conn k hprog
  obtain ⟨phase, hgot, huses, hlast⟩ := horderly.usesPool i
  rw [hprog] at huses
  match phase, huses with
  | .returned _ _, ⟨⟨rfl, hasked⟩, _⟩ =>
    refine hlast hasked conn ⟨hgot.symm, ?_⟩
    rw [hprog]
    exact Or.inl rfl

/-- **What a step of the executions is**: the next call of one of them, on
the pool. -/
theorem HandlerStep.cases {h h' : Handlers ι} {i : ι} {e : DbEvent}
    (hstep : HandlerStep h (i, e) h') : ∃ k, h.prog i = .op e.1 k ∧
      h'.prog = Function.update h.prog i (k e.2) ∧ PoolStep i h.shared.2 e h'.shared.2 := by
  cases hstep with
  | call hprog hexec =>
    refine ⟨_, hprog, rfl, hexec.exec _ _ (fun s r => ?_) (fun s r => ?_)⟩
    · exact .lock s
    · exact .unlock s

variable {h h' : Handlers ι} {i j : ι} {e : DbEvent} {conn : Conn}

/-! ### What a call does to the pool -/

section PoolStep

variable {pool pool' : PoolUse ι} {phase : Phase}

theorem PoolStep.got_of_ne (hpool : PoolStep i pool e pool') (hj : j ≠ i) :
    pool'.got j = pool.got j := by
  cases hpool with
  | getConnection => exact Function.update_of_ne hj _ _
  | _ => rfl

theorem PoolStep.got_eq (hpool : PoolStep i pool e pool') (hget : e.1 ≠ .getConnection) :
    pool'.got = pool.got := by
  cases hpool with
  | getConnection => exact absurd rfl hget
  | _ => rfl

theorem PoolStep.of_getConnection (hpool : PoolStep i pool ⟨.getConnection, conn⟩ pool') :
    ∃ conns, pool.connList = conns ++ [conn] ∧ pool'.got i = some conn := by
  cases hpool with
  | getConnection conns conn hback => exact ⟨conns, hback, Function.update_self _ _ _⟩

theorem PoolStep.got_self (hpool : PoolStep i pool e pool') (hphase : phase.got = pool.got i)
    (hallowed : Allowed phase e.1) : (phaseAfter phase e).got = pool'.got i := by
  cases hpool with
  | getConnection =>
    dsimp only
    rw [Function.update_self]
    rfl
  | releaseConnection conn =>
    match phase, hallowed with
    | .held _, rfl => exact hphase
  | query conn =>
    match phase, hallowed with
    | .returned _ _, rfl => exact hphase
  | _ => exact hphase

theorem PoolStep.of_got (hpool : PoolStep i pool e pool') (hgot : pool'.got i = some conn) :
    (e.1 = .getConnection ∧ pool.connList.getLast? = some conn) ∨ pool.got i = some conn := by
  cases hpool with
  | getConnection conns conn' hback =>
    dsimp only at hgot
    rw [Function.update_self, Option.some.injEq] at hgot
    refine Or.inl ⟨rfl, ?_⟩
    rw [hback, List.getLast?_concat, hgot]
  | _ => exact Or.inr hgot

theorem PoolStep.lastQuery_of_conn_ne (hpool : PoolStep i pool e pool')
    (hconn : e.1.conn ≠ some conn) : pool'.lastQuery conn = pool.lastQuery conn := by
  cases hpool with
  | query conn' _ _ => exact Function.update_of_ne (fun h => hconn (by rw [h]; rfl)) _ _
  | _ => rfl

/-- An execution that has sent a query on its connection sent the last one,
if it did before. -/
theorem PoolStep.lastQuery_self (hpool : PoolStep i pool e pool')
    (hphase : phase.got = pool.got i) (hallowed : Allowed phase e.1)
    (hasked : (phaseAfter phase e).asked = true) (hgot : pool'.got i = some conn)
    (hlast : pool.got i = some conn → phase.asked = true → pool.lastQuery conn = some i) :
    pool'.lastQuery conn = some i := by
  cases hpool with
  | getConnection => exact absurd hasked Bool.false_ne_true
  | releaseConnection => exact absurd hasked Bool.false_ne_true
  | query conn' _ _ =>
    match phase, hallowed with
    | .returned _ _, rfl =>
      have hconn : conn' = conn := Option.some.inj (hphase.trans hgot)
      rw [hconn]
      exact Function.update_self _ _ _
  | _ => exact hlast hgot hasked

end PoolStep

theorem Allowed.got_eq {phase : Phase} {o : DbOp} (hallowed : Allowed phase o)
    (hconn : o.conn = some conn) : phase.got = some conn := by
  match phase, o, hallowed, hconn with
  | .returned _ _, .query _ _, rfl, hconn => exact hconn
  | .returned _ _, .storeResult _, ⟨rfl, _⟩, hconn => exact hconn
  | .returned _ _, .error _, rfl, hconn => exact hconn

/-! ### Steps of the executions -/

theorem inUse_iff_of_ne (hstep : HandlerStep h (i, e) h') (hj : j ≠ i) :
    InUse h' j conn ↔ InUse h j conn := by
  obtain ⟨k, -, hprog', hpool⟩ := hstep.cases
  unfold InUse
  rw [hprog', Function.update_of_ne hj, hpool.got_of_ne hj]

theorem mayCall_of_step {kind : DbOp → Prop} (hstep : HandlerStep h (i, e) h')
    (hcall : (h'.prog i).MayCall kind) : (h.prog i).MayCall kind := by
  obtain ⟨k, hprog, hprog', -⟩ := hstep.cases
  rw [hprog', Function.update_self] at hcall
  rw [hprog]
  exact Or.inr ⟨e.2, hcall⟩

theorem InUse.of_step (hstep : HandlerStep h (i, e) h') (huse : InUse h' i conn) :
    (e.1 = .getConnection ∧ h.shared.2.connList.getLast? = some conn) ∨ InUse h i conn := by
  obtain ⟨k, -, -, hpool⟩ := hstep.cases
  rcases hpool.of_got huse.1 with htaken | hgot
  · exact Or.inl htaken
  · exact Or.inr ⟨hgot, mayCall_of_step hstep huse.2⟩

/-- **A step that takes no connection in use leaves every connection with one
user.** -/
theorem Exclusive.step (hexclusive : Exclusive h) (hstep : HandlerStep h (i, e) h')
    (hunused : TakesUnused h (i, e)) : Exclusive h' := by
  -- the execution that steps, and any other
  have hother : ∀ j conn, InUse h' i conn → InUse h' j conn → i = j := by
    intro j conn hi hj
    by_contra hne
    have hj := (inUse_iff_of_ne hstep (fun h => hne h.symm)).mp hj
    rcases hi.of_step hstep with ⟨hget, hback⟩ | hi
    · exact hunused hget conn hback j hj
    · exact hne (hexclusive i j conn hi hj)
  intro a b conn ha hb
  by_cases hai : a = i
  · subst hai
    exact hother b conn ha hb
  by_cases hbi : b = i
  · subst hbi
    exact (hother a conn hb ha).symm
  · exact hexclusive a b conn ((inUse_iff_of_ne hstep hai).mp ha)
      ((inUse_iff_of_ne hstep hbi).mp hb)

/-- **A step that takes no connection in use keeps the executions orderly.** -/
theorem Orderly.step (horderly : Orderly h) (hstep : HandlerStep h (i, e) h')
    (hunused : TakesUnused h (i, e)) : Orderly h' := by
  refine ⟨fun j => ?_, horderly.exclusive.step hstep hunused⟩
  obtain ⟨k, hprog, hprog', hpool⟩ := hstep.cases
  obtain ⟨phase, hphase, huses, hlast⟩ := horderly.usesPool i
  rw [hprog] at huses
  obtain ⟨hallowed, huses⟩ := huses
  by_cases hj : j = i
  · subst hj
    refine ⟨phaseAfter phase e, hpool.got_self hphase hallowed, ?_, ?_⟩
    · rw [hprog', Function.update_self]
      exact huses e.2
    · intro hasked conn huse
      exact hpool.lastQuery_self hphase hallowed hasked huse.1 fun hgot hasked =>
        hlast hasked conn ⟨hgot, mayCall_of_step hstep huse.2⟩
  · obtain ⟨phase', hphase', huses', hlast'⟩ := horderly.usesPool j
    refine ⟨phase', hphase'.trans (hpool.got_of_ne hj).symm, ?_, ?_⟩
    · rw [hprog', Function.update_of_ne hj]
      exact huses'
    · intro hasked conn huse
      have huse := (inUse_iff_of_ne hstep hj).mp huse
      rw [hpool.lastQuery_of_conn_ne, hlast' hasked conn huse]
      -- a query on the connection would make its execution a second user
      intro hconn
      refine hj (horderly.exclusive j i conn huse ⟨hphase.symm.trans (hallowed.got_eq hconn), ?_⟩)
      rw [hprog]
      exact Or.inl hconn

omit [DecidableEq ι] in
theorem orderly_handlers (json : JsonWriter) (s : Server) (executions : ι → Execution)
    (connList : List Conn) : Orderly (handlers json s executions connList) := by
  refine ⟨fun i => ⟨.idle, rfl, (executions i).usesPool json s, fun h => nomatch h⟩, ?_⟩
  intro i j conn hi
  cases hi.1

theorem orderly_of_run (json : JsonWriter) (s : Server) (executions : ι → Execution)
    (connList : List Conn) {steps : List (Handlers ι × (ι × DbEvent))} {h : Handlers ι}
    (hrun : Run HandlerStep (handlers json s executions connList) steps h)
    (hunused : Meets TakesUnused steps) : Orderly h :=
  hrun.invariant (fun _ _ _ horderly hunused hstep => horderly.step hstep hunused) hunused
    (orderly_handlers json s executions connList)

end Exclusive

end MicroBusiness
