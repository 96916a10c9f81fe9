import MicroBusiness.ConnectionUse
import MicroBusiness.Termination

/-!
# Handlers that run to their end

The handlers wait in two places: for a connection of the pool, and for `conn_mutex`. An
execution that waits holds nothing that another one could wait for: the temporary
`connectionRAII` has given the connection back before the mutex is asked for, and with
the mutex no connection is asked for. It `Obeys` that discipline (`Held.Allows`), on
every path through `do_buy` and `do_show`.

So executions do not block each other for good: where no step is possible any more, all
of them have ended, unless one of them has read through a null pointer, which ends the
process. This takes one connection in the pool, and one is enough
(`handlers_complete_iff`). The pool that `init` leaves behind may well hold none, since
`main` does not look at what it returns.
-/

namespace MicroBusiness

open Program Transition

/-- What an execution holds. -/
inductive Held
  | nothing
  | connection (conn : Conn)
  | mutex
  deriving DecidableEq

namespace Held

/-- **What may be called with what is held**: what has to be waited for only with empty
hands. -/
def Allows : Held → DbOp → Prop
  | held, .getConnection => held = nothing
  | held, .releaseConnection conn => held = connection conn
  | held, .lock => held = nothing
  | held, .unlock => held = mutex
  | _, _ => True

/-- What is held behind a call. -/
def after : Held → DbEvent → Held
  | _, ⟨.getConnection, conn⟩ => connection conn
  | _, ⟨.releaseConnection _, _⟩ => nothing
  | _, ⟨.lock, _⟩ => mutex
  | _, ⟨.unlock, _⟩ => nothing
  | held, _ => held

/-- **How an execution may end**: with empty hands, or with the mutex if it has read
through a null pointer. -/
def Done (x : Except Fault HttpResponse) (held : Held) : Prop :=
  held = nothing ∨ held = mutex ∧ x = .error .nullPointer

/-- How many connections are held. -/
def conns : Held → ℕ
  | connection _ => 1
  | _ => 0

theorem conns_nothing : nothing.conns = 0 := rfl

end Held

/-! ## What the handlers hold -/

/-- A handler, and what it holds. -/
abbrev Disciplined (p : Handler HttpResponse) (held : Held) : Prop :=
  p.Obeys Held.Allows Held.after Held.Done held

section Disciplined

variable {json : JsonWriter} {s : Server} {req : HttpRequest} {resp : HttpResponse}
  {id num : Bytes} {conn : Conn}

theorem disciplined_unlock {p : Handler HttpResponse} (h : Disciplined p .nothing) :
    Disciplined (.op .unlock fun _ => p) .mutex :=
  ⟨rfl, fun _ => h⟩

theorem disciplined_networkError :
    Disciplined (.op (.error conn) fun _ =>
      .op .unlock fun _ => .ret (Task.networkError json s req resp)) .mutex :=
  ⟨trivial, fun _ => disciplined_unlock (Or.inl rfl)⟩

theorem disciplined_buyFinish {n : ℤ} {result : MysqlRes} {row : MysqlRow} :
    Disciplined (Task.buyFinish json s req resp n result row) .mutex := by
  unfold Task.buyFinish
  dsimp only
  cases row.price with
  | none =>
    split
    · exact disciplined_unlock ⟨trivial, fun _ => Or.inl rfl⟩
    · -- the null price is read with the mutex
      exact ⟨trivial, fun _ => Or.inr ⟨rfl, rfl⟩⟩
  | some price =>
    split
    · exact disciplined_unlock ⟨trivial, fun _ => ⟨trivial, fun _ => Or.inl rfl⟩⟩
    · exact ⟨trivial, fun _ => ⟨trivial, fun _ => disciplined_unlock (Or.inl rfl)⟩⟩

theorem disciplined_buyCompare {result : MysqlRes} {row : MysqlRow} :
    Disciplined (Task.buyCompare json s req resp id num conn result row) .mutex := by
  unfold Task.buyCompare
  split
  · exact Or.inr ⟨rfl, rfl⟩
  split
  · exact disciplined_unlock (Or.inl rfl)
  split
  · exact disciplined_unlock (Or.inl rfl)
  unfold Task.buyUpdate
  refine ⟨trivial, fun failed => ?_⟩
  dsimp only
  split
  · exact disciplined_networkError
  · exact disciplined_buyFinish

/-- **`do_buy` waits only with empty hands.** -/
theorem disciplined_doBuy : Disciplined (Task.doBuy json s req resp) .nothing := by
  unfold Task.doBuy
  split
  · exact Or.inl rfl
  split
  · exact Or.inl rfl
  split
  · exact Or.inl rfl
  split
  · exact Or.inl rfl
  unfold Task.buyWith
  refine ⟨rfl, fun conn => ⟨rfl, fun _ => ⟨rfl, fun _ => ?_⟩⟩⟩
  unfold Task.buySelect
  refine ⟨trivial, fun failed => ?_⟩
  dsimp only
  split
  · exact disciplined_networkError
  unfold Task.buyStore
  refine ⟨trivial, fun result => ?_⟩
  dsimp only
  split
  · exact disciplined_networkError
  unfold Task.buyFetch
  refine ⟨trivial, fun _ => ?_⟩
  dsimp only
  split
  · exact disciplined_unlock (Or.inl rfl)
  · exact disciplined_buyCompare

theorem disciplined_showItems {result : MysqlRes} {k : List Json → Handler HttpResponse}
    (hk : ∀ items, Disciplined (k items) .nothing) (rows : List MysqlRow) (items : List Json) :
    Disciplined (Task.showItems result k rows items) .nothing := by
  induction rows generalizing items with
  | nil => exact ⟨trivial, fun _ => hk items⟩
  | cons row rows ih =>
    refine ⟨trivial, fun _ => ?_⟩
    dsimp only
    split
    · exact Or.inl rfl
    · exact ih _

theorem disciplined_showFinish {result : MysqlRes} {items : List Json} :
    Disciplined (Task.showFinish json req resp result items) .nothing :=
  ⟨trivial, fun _ => Or.inl rfl⟩

/-- **`do_show` waits only with empty hands.** -/
theorem disciplined_doShow : Disciplined (Task.doShow json s req resp) .nothing := by
  unfold Task.doShow
  refine ⟨rfl, fun conn => ⟨rfl, fun _ => ⟨trivial, fun failed => ?_⟩⟩⟩
  dsimp only
  split
  · exact Or.inl rfl
  unfold Task.showStore
  refine ⟨trivial, fun result => ?_⟩
  dsimp only
  split
  · exact ⟨trivial, fun _ => Or.inl rfl⟩
  · exact ⟨trivial, fun _ => disciplined_showItems (fun _ => disciplined_showFinish) _ _⟩

end Disciplined

/-- The first call of an execution that makes one asks for a connection. -/
theorem Execution.eq_getConnection {json : JsonWriter} {s : Server} {e : Execution} {o : DbOp}
    {k : DbOp.Reply o → Handler HttpResponse} (h : e.prog json s = .op o k) :
    o = .getConnection := by
  cases e with
  | buy req resp =>
    unfold Execution.prog Task.doBuy at h
    dsimp only at h
    split at h
    · cases h
    split at h
    · cases h
    split at h
    · cases h
    split at h
    · cases h
    · cases h
      rfl
  | «show» req resp =>
    cases h
    rfl

theorem Execution.disciplined (json : JsonWriter) (s : Server) (e : Execution) :
    Disciplined (e.prog json s) .nothing := by
  cases e with
  | buy req resp => exact disciplined_doBuy
  | «show» req resp => exact disciplined_doShow

/-! ## Where nothing goes on -/

section Completion

variable {ι : Type} [DecidableEq ι] [Fintype ι]

/-- **What all executions hold together**: each obeys the discipline with what it holds,
the mutex is held by the one that has it, and every connection is held or in the pool. -/
structure Accounted (n : ℕ) (h : Handlers ι) (held : ι → Held) : Prop where
  disciplined : ∀ i, Disciplined (h.prog i) (held i)
  mutex : ∀ i, h.shared.1 = some i ↔ held i = .mutex
  conns : h.shared.2.connList.length + ∑ i, (held i).conns = n

omit [DecidableEq ι] in
theorem accounted_handlers (json : JsonWriter) (s : Server) (executions : ι → Execution)
    (connList : List Conn) :
    Accounted connList.length (handlers json s executions connList) (fun _ => .nothing) where
  disciplined i := (executions i).disciplined json s
  mutex _ := iff_of_false nofun nofun
  conns := by
    show connList.length + ∑ _i : ι, 0 = connList.length
    rw [Finset.sum_const_zero, Nat.add_zero]

variable {n : ℕ} {h h' : Handlers ι} {held : ι → Held}

/-- The accounts change for the execution that takes a step: the mutex is passed on by it
only, and the connections it takes are those that the pool has less. -/
theorem Accounted.of_update (h₀ : Accounted n h held) {i : ι} {shared : Option ι × PoolUse ι}
    {p : Handler HttpResponse} {mine : Held} (hp : Disciplined p mine)
    (hself : shared.1 = some i ↔ mine = .mutex)
    (hothers : ∀ j, j ≠ i → (shared.1 = some j ↔ held j = .mutex))
    (hlist : shared.2.connList.length + mine.conns
      = h.shared.2.connList.length + (held i).conns) :
    Accounted n ⟨shared, Function.update h.prog i p⟩ (Function.update held i mine) where
  disciplined j := by
    dsimp only
    by_cases hj : j = i
    · subst hj
      rw [Function.update_self, Function.update_self]
      exact hp
    · rw [Function.update_of_ne hj, Function.update_of_ne hj]
      exact h₀.disciplined j
  mutex := (Function.forall_update_iff held fun j mine =>
    shared.1 = some j ↔ mine = Held.mutex).mpr ⟨hself, hothers⟩
  conns := by
    have hcount := sum_update_add Held.conns held i mine
    have hconns := h₀.conns
    dsimp only
    omega

/-- **A step keeps the accounts.** -/
theorem Accounted.step (h₀ : Accounted n h held) {i : ι} {e : DbEvent}
    (hstep : HandlerStep h (i, e) h') :
    Accounted n h' (Function.update held i ((held i).after e)) := by
  cases hstep with
  | @call shared shared' prog i o k r hprog hexec =>
  have hi := h₀.disciplined i
  dsimp only at hi
  rw [hprog] at hi
  obtain ⟨hallowed, hleft⟩ := hi
  have hmutex := h₀.mutex
  have hne : ∀ j, j ≠ i → some i ≠ some j := fun j hj h => hj (Option.some.inj h).symm
  cases hexec with
  | lock s r =>
    have hheld : held i = .nothing := hallowed
    refine h₀.of_update (hleft r) (iff_of_true rfl rfl) (fun j hj => ?_) (by rw [hheld]; rfl)
    exact iff_of_false (hne j hj) fun hheld => nomatch (hmutex j).mpr hheld
  | unlock s r =>
    have hheld : held i = .mutex := hallowed
    refine h₀.of_update (hleft r) (iff_of_false nofun nofun) (fun j hj => ?_) (by rw [hheld]; rfl)
    exact iff_of_false nofun fun hheld => hne j hj ((hmutex j).mpr hheld)
  | @other owner s t _ hlock hunlock hpool =>
    cases hpool with
    | getConnection conns conn hback =>
      have hheld : held i = .nothing := hallowed
      refine h₀.of_update (hleft conn) (iff_of_false (fun h => ?_) nofun) (fun j _ => hmutex j) ?_
      · exact absurd ((hmutex i).mp h) (by rw [hheld]; exact nofun)
      · dsimp only
        rw [hback, List.length_append, hheld]
        rfl
    | releaseConnection conn =>
      have hheld : held i = .connection conn := hallowed
      refine h₀.of_update (hleft ()) (iff_of_false (fun h => ?_) nofun) (fun j _ => hmutex j) ?_
      · exact absurd ((hmutex i).mp h) (by rw [hheld]; exact nofun)
      · dsimp only
        rw [List.length_append, hheld]
        rfl
    | lock => exact absurd rfl hlock
    | unlock => exact absurd rfl hunlock
    | _ => exact h₀.of_update (hleft _) (hmutex i) (fun j _ => hmutex j) rfl

/-- **The accounts over a run.** -/
theorem accounted_of_run {json : JsonWriter} {s : Server} {executions : ι → Execution}
    {connList : List Conn} {steps : List (Handlers ι × (ι × DbEvent))}
    (hrun : Run HandlerStep (handlers json s executions connList) steps h) :
    ∃ held, Accounted connList.length h held := by
  have hstep : ∀ (h : Handlers ι) (label : ι × DbEvent) (h' : Handlers ι),
      (∃ held, Accounted connList.length h held) → True → HandlerStep h label h' →
      ∃ held, Accounted connList.length h' held :=
    fun _ _ _ ⟨_, hheld⟩ _ hstep => ⟨_, hheld.step hstep⟩
  exact hrun.invariant hstep (fun _ _ => trivial)
    ⟨_, accounted_handlers json s executions connList⟩

/-- **The executions have ended**, or the one that has the mutex has read through a null
pointer. -/
def Ended (h : Handlers ι) : Prop :=
  (∀ i, (h.prog i).result.isSome) ∨
    ∃ i, h.shared.1 = some i ∧ (h.prog i).result = some (.error .nullPointer)

/-- The executions cannot go on. -/
abbrev Blocked (h : Handlers ι) : Prop :=
  Threads.Stuck (Mutex.Exec DbOp.lock DbOp.unlock PoolStep) h

omit [Fintype ι] in
theorem not_blocked {i : ι} {o : DbOp} {k : DbOp.Reply o → Handler HttpResponse}
    (hi : h.prog i = .op o k) (r : DbOp.Reply o) {shared : Option ι × PoolUse ι}
    (hexec : Mutex.Exec DbOp.lock DbOp.unlock PoolStep i h.shared ⟨o, r⟩ shared) : ¬ Blocked h :=
  fun hblocked => hblocked _ _ (.call hi hexec)

omit [Fintype ι] in
theorem not_blocked_of_poolStep {i : ι} {o : DbOp} {k : DbOp.Reply o → Handler HttpResponse}
    (hi : h.prog i = .op o k) (hlock : o ≠ .lock) (hunlock : o ≠ .unlock) (r : DbOp.Reply o)
    {pool : PoolUse ι} (hpool : PoolStep i h.shared.2 ⟨o, r⟩ pool) : ¬ Blocked h :=
  not_blocked hi r (.other hlock hunlock hpool : Mutex.Exec DbOp.lock DbOp.unlock PoolStep i
    (h.shared.1, h.shared.2) ⟨o, r⟩ (h.shared.1, pool))

/-- **Only a connection and the mutex are waited for**, and with empty hands. -/
theorem Accounted.waits (h₀ : Accounted n h held) (hblocked : Blocked h) {i : ι} {o : DbOp}
    {k : DbOp.Reply o → Handler HttpResponse} (hi : h.prog i = .op o k) :
    held i = .nothing ∧ (o = .getConnection ∨ o = .lock) := by
  have hdisciplined := h₀.disciplined i
  rw [hi] at hdisciplined
  obtain ⟨hallowed, -⟩ := hdisciplined
  have hgoes : ∀ (r : DbOp.Reply o) (pool : PoolUse ι), o ≠ .lock → o ≠ .unlock →
      ¬ PoolStep i h.shared.2 ⟨o, r⟩ pool := fun r pool hlock hunlock hpool =>
    not_blocked_of_poolStep hi hlock hunlock r hpool hblocked
  cases o with
  | getConnection => exact ⟨hallowed, .inl rfl⟩
  | lock => exact ⟨hallowed, .inr rfl⟩
  | unlock =>
    -- the execution that unlocks has the mutex
    have howner := (h₀.mutex i).mpr hallowed
    have hshared : h.shared = (some i, h.shared.2) := Prod.ext howner rfl
    exact absurd hblocked (not_blocked hi () (by rw [hshared]; exact .unlock _ _))
  | releaseConnection conn => exact (hgoes () _ nofun nofun (.releaseConnection _ conn)).elim
  | query conn text => exact (hgoes true _ nofun nofun (.query _ conn text true)).elim
  | storeResult conn => exact (hgoes none _ nofun nofun (.storeResult _ conn none)).elim
  | error conn => exact (hgoes () _ nofun nofun (.error _ conn)).elim
  | useResult result => exact (hgoes () _ nofun nofun (.useResult _ result)).elim
  | freeResult result => exact (hgoes () _ nofun nofun (.freeResult _ result)).elim

/-- Where the executions cannot go on they hold nothing, unless the one that has the mutex
has read through a null pointer. -/
theorem Accounted.held_eq_nothing (h₀ : Accounted n h held) (hblocked : Blocked h)
    (hnull : ∀ i, h.shared.1 = some i → (h.prog i).result ≠ some (.error .nullPointer)) (i : ι) :
    held i = .nothing := by
  have hi := h₀.disciplined i
  cases hprog : h.prog i with
  | ret a =>
    rw [hprog] at hi
    exact hi.resolve_right fun h => nomatch h.2
  | fail e =>
    rw [hprog] at hi
    refine hi.resolve_right fun ⟨hheld, hx⟩ => hnull i ((h₀.mutex i).mpr hheld) ?_
    rw [hprog, Prog.result, hx]
  | op o k => exact (h₀.waits hblocked hprog).1

/-- **Executions do not block each other for good**, if there is a connection. -/
theorem Accounted.ended (h₀ : Accounted n h held) (hn : 0 < n) (hblocked : Blocked h) :
    Ended h := by
  by_cases hnull : ∃ i, h.shared.1 = some i ∧ (h.prog i).result = some (.error .nullPointer)
  · exact .inr hnull
  push Not at hnull
  have hnothing := h₀.held_eq_nothing hblocked hnull
  refine .inl fun i => ?_
  match hprog : h.prog i with
  | .ret a => rfl
  | .fail e => rfl
  | .op o k =>
    exfalso
    rcases (h₀.waits hblocked hprog).2 with rfl | rfl
    · -- nobody holds a connection, so the pool has them all
      have hlength : h.shared.2.connList.length = n := by
        have hconns := h₀.conns
        simp only [hnothing, Held.conns_nothing, Finset.sum_const_zero] at hconns
        exact hconns
      obtain ⟨conns, conn, hback⟩ := (List.eq_nil_or_concat' h.shared.2.connList).resolve_left
        (List.ne_nil_of_length_pos (hlength ▸ hn))
      exact not_blocked_of_poolStep hprog nofun nofun conn
        (.getConnection _ conns conn hback) hblocked
    · -- nobody has the mutex
      have hfree : h.shared.1 = none := by
        rw [Option.eq_none_iff_forall_ne_some]
        intro j hj
        have hheld := (h₀.mutex j).mp hj
        rw [hnothing j] at hheld
        cases hheld
      have hshared : h.shared = (none, h.shared.2) := Prod.ext hfree rfl
      exact not_blocked hprog () (by rw [hshared]; exact .lock _ _) hblocked

/-- **Executions complete**: they do not make calls forever, and where they cannot go on
they have ended. -/
structure Completes (h : Handlers ι) : Prop where
  finite : ∀ run : ℕ → Handlers ι, run 0 = h →
    ∃ m, ∀ label, ¬ HandlerStep (run m) label (run (m + 1))
  ended : ∀ steps h', Run HandlerStep h steps h' → Blocked h' → Ended h'

omit [Fintype ι] in
theorem blocked_handlers_nil (json : JsonWriter) (s : Server) (executions : ι → Execution) :
    Blocked (handlers json s executions []) := by
  rintro ⟨i, o, r⟩ h' hstep
  obtain ⟨k, hi, -, hpool⟩ := HandlerStep.cases hstep
  obtain rfl := Execution.eq_getConnection hi
  generalize h'.shared.2 = pool' at hpool
  cases hpool with
  | getConnection conns conn hback =>
    exact absurd hback (List.append_ne_nil_of_right_ne_nil _ (List.cons_ne_nil _ _)).symm

/-- **The handlers complete exactly if the pool has a connection**, or if no execution
asks for one.

To complete is to come to an end in every interleaving, whatever is replied: no run of
calls goes on forever, and where no call is possible any more all have ended, unless
the execution that has the mutex has read through a null pointer. The first half needs
no condition, as a handler is a finite program. For the second, an execution waits
for nothing that another waiting one holds: a connection is given back before the
mutex is asked for or a query sent, so one connection is enough for any number. -/
theorem completes_handlers_iff (json : JsonWriter) (s : Server) (executions : ι → Execution)
    (connList : List Conn) :
    Completes (handlers json s executions connList)
      ↔ (connList = [] → ∀ i, ((executions i).prog json s).result.isSome) := by
  constructor
  · rintro ⟨-, hended⟩ rfl i
    rcases hended [] _ (.nil _) (blocked_handlers_nil json s executions) with hall | ⟨j, hj, -⟩
    · exact hall i
    · cases hj
  · intro hasks
    have hwf := Threads.wellFounded_step (ε := Fault) (α := HttpResponse)
      (Mutex.Exec DbOp.lock DbOp.unlock (PoolStep (ι := ι)))
    refine ⟨fun run _ => ?_, fun steps h' hrun hblocked => ?_⟩
    · have : IsWellFounded (Handlers ι) fun h' h => ∃ label, HandlerStep h label h' := ⟨hwf⟩
      obtain ⟨m, hm⟩ := WellFounded.not_rel_apply_succ
        (r := fun h' h : Handlers ι => ∃ label, HandlerStep h label h') run
      exact ⟨m, fun label hstep => hm ⟨label, hstep⟩⟩
    · by_cases hconns : connList = []
      · subst hconns
        cases hrun with
        | nil => exact .inl (hasks rfl)
        | cons hstep => exact absurd hstep (blocked_handlers_nil json s executions _ _)
      · obtain ⟨held, hheld⟩ := accounted_of_run hrun
        exact hheld.ended (List.length_pos_of_ne_nil hconns) hblocked

end Completion

end MicroBusiness
