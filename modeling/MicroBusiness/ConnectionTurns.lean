import MicroBusiness.ConnectionUse

/-!
# Whose turn it is

When does an execution take a connection that another one still works on? The pool
is a stack: a connection that is given back is on top, and is the next one to be
handed out. And an execution gives its connection back before it works on it. So
whether two executions get into each other's way is a matter of the order in which
they go through their `connectionRAII` statements and come to their last calls, and
can be told from this order alone, without a look at the connections.

For a run, write down the executions that have given a connection back, the last one
on top; whenever an execution obtains a connection, the one on top is taken off
(`givenBack`). What is left are the executions whose connections lie in the pool. The
executions keep **in turn** if whoever is on top when a connection is obtained has made
its last call on a connection (`InTurn`).

`exclusive_iff_inTurn` says that this is it: over a run, no two executions ever have
the same connection in use, and each fetches the result of its own query, exactly if
they keep in turn. Two overlapping executions of `do_show` suffice to go wrong
(`not_exclusive_twoShows`).

The direction from the order to the connections rests on an invariant about both
(`Leased`, `Vacated`): the list of the pool is what nobody has obtained yet, and on top
of it the connections of the executions that were written down, each of which nobody
else works on any more. In the other direction, an execution that has just obtained a
connection is going to send a query on it (`mayCall_of_waiting`), so it has it in use
together with whoever is not done.
-/

namespace MicroBusiness

open Program Transition

section Turns

variable {ι : Type} [DecidableEq ι]

/-! ## The order of a run -/

/-- **Who has given back what lies in the pool**, the last one at the end, behind a
step. -/
def givenBack (givers : List ι) (label : ι × DbEvent) : List ι :=
  match label.2 with
  | ⟨.getConnection, _⟩ => givers.dropLast
  | ⟨.releaseConnection _, _⟩ => givers ++ [label.1]
  | _ => givers

/-- An execution may still work on a connection. -/
def Working (h : Handlers ι) (i : ι) : Prop := (h.prog i).MayCall (fun o => o.conn ≠ none)

/-- The step is in turn: if it obtains a connection, the last one to give back a
connection that still lies in the pool, if any, has made its last call on a
connection. -/
def TakesTurn (givers : List ι) (h : Handlers ι) (label : ι × DbEvent) : Prop :=
  label.2.1 = .getConnection → ∀ i, givers.getLast? = some i → ¬ Working h i

/-- **The executions keep in turn**, from a point of a run on: every step is in turn. -/
def InTurn : List ι → List (Handlers ι × (ι × DbEvent)) → Prop :=
  Along (fun givers x => givenBack givers x.2) TakesTurn

/-! ## Who has which connection -/

/-- **The leases of the pool.** No connection is in the list twice, or in the list and
with an execution that has not given it back, or with two of these. And the list is what
nobody has obtained, with the connections of those behind it that have given them
back. -/
structure Leased (pool : PoolUse ι) (givers : List ι) (phase : ι → Phase) : Prop where
  got : ∀ i, (phase i).got = pool.got i
  nodup : pool.connList.Nodup
  held : ∀ i conn, phase i = .held conn →
    conn ∉ pool.connList ∧ ∀ j, phase j = .held conn → j = i
  returned : ∀ i ∈ givers, ∃ conn asked, phase i = .returned conn asked
  connList : ∃ unused, pool.connList = unused ++ givers.filterMap pool.got
    ∧ ∀ conn ∈ unused, ∀ i, pool.got i ≠ some conn

/-- An execution has a connection that it has not given back, or that lies in the
pool. -/
def Lends (givers : List ι) (phase : ι → Phase) (i : ι) : Prop :=
  (∃ conn, phase i = .held conn) ∨ i ∈ givers

section Leased

variable {pool pool' : PoolUse ι} {givers : List ι} {phase : ι → Phase} {i j : ι} {e : DbEvent}
  {conn : Conn}

/-- Where the list and the connections of the executions stay, the leases do. -/
theorem Leased.of_eq (hleased : Leased pool givers phase) {asked asked' : Bool}
    (hphase : phase i = .returned conn asked) (hlist : pool'.connList = pool.connList)
    (hgot : pool'.got = pool.got) :
    Leased pool' givers (Function.update phase i (.returned conn asked')) := by
  have hheld : ∀ {j c}, Function.update phase i (.returned conn asked') j = .held c →
      phase j = .held c := by
    intro j c hj
    by_cases hji : j = i
    · rw [hji, Function.update_self] at hj
      cases hj
    · rwa [Function.update_of_ne hji] at hj
  refine ⟨fun j => ?_, by rw [hlist]; exact hleased.nodup, fun j c hj => ?_, fun j hj => ?_, ?_⟩
  · rw [hgot, ← hleased.got j]
    by_cases hji : j = i
    · rw [hji, Function.update_self, hphase]
      rfl
    · rw [Function.update_of_ne hji]
  · obtain ⟨hmem, honce⟩ := hleased.held j c (hheld hj)
    exact ⟨by rwa [hlist], fun l hl => honce l (hheld hl)⟩
  · by_cases hji : j = i
    · exact ⟨conn, asked', by rw [hji, Function.update_self]⟩
    · rw [Function.update_of_ne hji]
      exact hleased.returned j hj
  · rw [hlist, hgot]
    exact hleased.connList

omit [DecidableEq ι] in
/-- Without the connection on top, the list is what nobody has obtained, with the
connections of those who are still written down when the last one is struck off. -/
theorem Leased.connList_dropLast {conns : List Conn} (hleased : Leased pool givers phase)
    (hback : pool.connList = conns ++ [conn]) :
    ∃ unused, conns = unused ++ givers.dropLast.filterMap pool.got
      ∧ ∀ conn ∈ unused, ∀ i, pool.got i ≠ some conn := by
  obtain ⟨unused, hlist, hunused⟩ := hleased.connList
  rw [hback] at hlist
  rcases List.eq_nil_or_concat' givers with rfl | ⟨givers, giver, rfl⟩
  · -- nobody has obtained the connection on top
    rw [List.filterMap_nil, List.append_nil] at hlist
    exact ⟨conns, (List.append_nil _).symm, fun c hc =>
      hunused c (hlist ▸ List.mem_append_left _ hc)⟩
  · obtain ⟨c, asked, hgiven⟩ := hleased.returned giver (by simp)
    have hgot : pool.got giver = some c := by rw [← hleased.got giver, hgiven]; rfl
    rw [List.filterMap_append, List.filterMap_cons_some hgot, List.filterMap_nil,
      ← List.append_assoc] at hlist
    obtain ⟨hlist, -⟩ := List.append_inj' hlist rfl
    rw [List.dropLast_concat]
    exact ⟨unused, hlist, hunused⟩

/-- An execution that is given a connection: the one on top of the pool. -/
theorem Leased.getConnection {conns : List Conn} (hleased : Leased pool givers phase)
    (hphase : phase i = .idle) (hback : pool.connList = conns ++ [conn]) :
    Leased { pool with connList := conns, got := Function.update pool.got i (some conn) }
      givers.dropLast (Function.update phase i (.held conn)) := by
  have hnodup : (conns ++ [conn]).Nodup := hback ▸ hleased.nodup
  have hconn : conn ∉ conns := fun h => by
    have := List.disjoint_of_nodup_append hnodup h
    simp at this
  -- who has a connection that is not given back has not the one on top
  have hheld : ∀ {j c}, phase j = .held c → j ≠ i ∧ c ≠ conn ∧ c ∉ conns := by
    intro j c hj
    refine ⟨fun h => ?_, fun h => ?_, fun h => ?_⟩
    · rw [h, hphase] at hj
      cases hj
    · refine (hleased.held j c hj).1 ?_
      rw [hback, h]
      exact List.mem_append_right _ (List.mem_singleton_self _)
    · refine (hleased.held j c hj).1 ?_
      rw [hback]
      exact List.mem_append_left _ h
  have hgiver : ∀ j ∈ givers, j ≠ i := by
    rintro j hj rfl
    obtain ⟨c, asked, hj⟩ := hleased.returned j hj
    rw [hphase] at hj
    cases hj
  refine ⟨fun j => ?_, (List.nodup_append.mp hnodup).1, fun j c hj => ?_, fun j hj => ?_, ?_⟩
  · dsimp only
    by_cases hji : j = i
    · rw [hji, Function.update_self, Function.update_self]
      rfl
    · rw [Function.update_of_ne hji, Function.update_of_ne hji]
      exact hleased.got j
  · by_cases hji : j = i
    · rw [hji, Function.update_self] at hj
      cases hj
      refine ⟨hconn, fun l hl => ?_⟩
      by_contra hli
      rw [Function.update_of_ne (fun h => hli (h.trans hji.symm))] at hl
      exact (hheld hl).2.1 rfl
    · rw [Function.update_of_ne hji] at hj
      refine ⟨(hheld hj).2.2, fun l hl => ?_⟩
      by_cases hli : l = i
      · rw [hli, Function.update_self] at hl
        cases hl
        exact absurd rfl (hheld hj).2.1
      · rw [Function.update_of_ne hli] at hl
        exact (hleased.held j c hj).2 l hl
  · have hmem := List.mem_of_mem_dropLast hj
    obtain ⟨c, asked, hj⟩ := hleased.returned j hmem
    exact ⟨c, asked, by rwa [Function.update_of_ne (hgiver j hmem)]⟩
  · obtain ⟨unused, hlist, hunused⟩ := hleased.connList_dropLast hback
    have hgot : ∀ j, j ≠ i → Function.update pool.got i (some conn) j = pool.got j :=
      fun j hji => Function.update_of_ne hji _ _
    refine ⟨unused, hlist.trans (congrArg _ (List.filterMap_congr fun j hj => ?_)), ?_⟩
    · exact (hgot j (hgiver j (List.mem_of_mem_dropLast hj))).symm
    · intro c hc l
      dsimp only
      by_cases hli : l = i
      · rw [hli, Function.update_self]
        rintro ⟨⟩
        refine hconn ?_
        rw [hlist]
        exact List.mem_append_left _ hc
      · rw [hgot l hli]
        exact hunused c hc l

/-- An execution that gives its connection back: the connection comes on top. -/
theorem Leased.releaseConnection (hleased : Leased pool givers phase)
    (hphase : phase i = .held conn) :
    Leased { pool with connList := pool.connList ++ [conn] } (givers ++ [i])
      (Function.update phase i (.returned conn false)) := by
  obtain ⟨hconn, honce⟩ := hleased.held i conn hphase
  -- who still has a connection is somebody else
  have hheld : ∀ {j c}, Function.update phase i (.returned conn false) j = .held c →
      j ≠ i ∧ phase j = .held c := by
    intro j c hj
    by_cases hji : j = i
    · rw [hji, Function.update_self] at hj
      cases hj
    · rw [Function.update_of_ne hji] at hj
      exact ⟨hji, hj⟩
  refine ⟨fun j => ?_, ?_, fun j c hj => ?_, fun j hj => ?_, ?_⟩
  · rw [← hleased.got j]
    by_cases hji : j = i
    · rw [hji, Function.update_self, hphase]
      rfl
    · rw [Function.update_of_ne hji]
  · exact List.nodup_append.mpr ⟨hleased.nodup, List.nodup_singleton _, fun a ha b hb => by
      rw [List.mem_singleton.mp hb]
      rintro rfl
      exact hconn ha⟩
  · obtain ⟨hji, hj⟩ := hheld hj
    refine ⟨fun h => ?_, fun l hl => (hleased.held j c hj).2 l (hheld hl).2⟩
    rcases List.mem_append.mp h with h | h
    · exact (hleased.held j c hj).1 h
    · rw [List.mem_singleton.mp h] at hj
      exact hji (honce j hj)
  · by_cases hji : j = i
    · exact ⟨conn, false, by rw [hji, Function.update_self]⟩
    · rw [Function.update_of_ne hji]
      rcases List.mem_append.mp hj with hj | hj
      · exact hleased.returned j hj
      · exact absurd (List.mem_singleton.mp hj) hji
  · -- the connection comes behind those of the others that were given back
    obtain ⟨unused, hlist, hunused⟩ := hleased.connList
    have hgot : pool.got i = some conn := by rw [← hleased.got i, hphase]; rfl
    refine ⟨unused, ?_, hunused⟩
    rw [List.filterMap_append, List.filterMap_cons_some hgot, List.filterMap_nil,
      ← List.append_assoc, ← hlist]

/-- **The leases after a call**, as the protocol allows it. -/
theorem Leased.step (hleased : Leased pool givers phase) (hpool : PoolStep i pool e pool')
    (hallowed : Allowed (phase i) e.1) :
    Leased pool' (givenBack givers (i, e)) (Function.update phase i (phaseAfter (phase i) e)) := by
  cases hphase : phase i with
  | idle =>
    rw [hphase] at hallowed
    cases hpool with
    | getConnection conns conn hback => exact hleased.getConnection hphase hback
    | _ => exact hallowed.elim
  | held conn =>
    rw [hphase] at hallowed
    cases hpool with
    | releaseConnection =>
      cases hallowed
      exact hleased.releaseConnection hphase
    | _ => exact hallowed.elim
  | returned conn asked =>
    rw [hphase] at hallowed
    cases hpool with
    | query =>
      cases hallowed
      exact hleased.of_eq hphase rfl rfl
    | getConnection => exact hallowed.elim
    | releaseConnection => exact hallowed.elim
    | _ => exact hleased.of_eq hphase rfl rfl

omit [DecidableEq ι] in
/-- Who has not given its connection back is the only one to have it, of those that have
given theirs back too. -/
theorem Leased.got_ne (hleased : Leased pool givers phase) (hi : phase i = .held conn)
    (hj : Lends givers phase j) (hne : j ≠ i) : pool.got j ≠ some conn := by
  intro hgot
  rw [← hleased.got j] at hgot
  obtain ⟨hconn, honce⟩ := hleased.held i conn hi
  rcases hj with ⟨c, hj⟩ | hj
  · rw [hj] at hgot
    cases hgot
    exact hne (honce j hj)
  · -- its connection lies in the pool
    obtain ⟨unused, hlist, -⟩ := hleased.connList
    refine hconn ?_
    rw [hlist]
    rw [hleased.got j] at hgot
    exact List.mem_append_right _ (List.mem_filterMap.mpr ⟨j, hj, hgot⟩)

omit [DecidableEq ι] in
/-- The connection on top of the pool is the one of the last execution to give one back
that still lies there, or nobody has obtained it before. -/
theorem Leased.back {conns : List Conn} (hleased : Leased pool givers phase)
    (hback : pool.connList = conns ++ [conn]) :
    (givers = [] ∧ ∀ j, pool.got j ≠ some conn)
      ∨ ∃ j, givers.getLast? = some j ∧ pool.got j = some conn := by
  obtain ⟨unused, hlist, hunused⟩ := hleased.connList
  rw [hback] at hlist
  rcases List.eq_nil_or_concat' givers with rfl | ⟨givers, giver, rfl⟩
  · rw [List.filterMap_nil, List.append_nil] at hlist
    exact Or.inl ⟨rfl, hunused conn (hlist ▸ List.mem_append_right _ (List.mem_singleton_self _))⟩
  · obtain ⟨c, asked, hgiven⟩ := hleased.returned giver (by simp)
    have hgot : pool.got giver = some c := by rw [← hleased.got giver, hgiven]; rfl
    rw [List.filterMap_append, List.filterMap_cons_some hgot, List.filterMap_nil,
      ← List.append_assoc] at hlist
    obtain ⟨-, hconn⟩ := List.append_inj' hlist rfl
    cases hconn
    exact Or.inr ⟨giver, List.getLast?_concat, hgot⟩

omit [DecidableEq ι] in
theorem mem_or_eq_of_mem_givenBack (hj : j ∈ givenBack givers (i, e)) : j ∈ givers ∨ j = i := by
  obtain ⟨o, r⟩ := e
  cases o with
  | getConnection => exact Or.inl (List.mem_of_mem_dropLast hj)
  | releaseConnection conn =>
    rcases List.mem_append.mp hj with hj | hj
    · exact Or.inl hj
    · exact Or.inr (List.mem_singleton.mp hj)
  | _ => exact Or.inl hj

/-- Behind a call, who has a connection that is not given back or lies in the pool is the
one that obtained it with this call, or was such before. -/
theorem Lends.of_step (hallowed : Allowed (phase i) e.1)
    (hlends : Lends (givenBack givers (i, e))
      (Function.update phase i (phaseAfter (phase i) e)) j) :
    (e.1 = .getConnection ∧ j = i) ∨ Lends givers phase j := by
  by_cases hji : j = i
  · subst hji
    cases hphase : phase j with
    | idle =>
      rw [hphase] at hallowed
      match e, hallowed with
      | ⟨.getConnection, _⟩, _ => exact Or.inl ⟨rfl, rfl⟩
    | held conn => exact Or.inr (Or.inl ⟨conn, hphase⟩)
    | returned conn asked =>
      -- it works on its connection, and who has given back what stays
      rw [hphase] at hallowed hlends
      rw [Lends, Function.update_self] at hlends
      match e, hallowed, hlends with
      | ⟨.query _ _, _⟩, _, .inr hj => exact Or.inr (Or.inr hj)
      | ⟨.storeResult _, _⟩, _, .inr hj => exact Or.inr (Or.inr hj)
      | ⟨.error _, _⟩, _, .inr hj => exact Or.inr (Or.inr hj)
      | ⟨.lock, _⟩, _, .inr hj => exact Or.inr (Or.inr hj)
      | ⟨.unlock, _⟩, _, .inr hj => exact Or.inr (Or.inr hj)
      | ⟨.useResult _, _⟩, _, .inr hj => exact Or.inr (Or.inr hj)
      | ⟨.freeResult _, _⟩, _, .inr hj => exact Or.inr (Or.inr hj)
  · rw [Lends, Function.update_of_ne hji] at hlends
    rcases hlends with hheld | hj
    · exact Or.inr (Or.inl hheld)
    · exact Or.inr (Or.inr ((mem_or_eq_of_mem_givenBack hj).resolve_right hji))

end Leased

/-! ## The executions -/

/-- Nobody else still works on the connection of an execution. -/
def Alone (h : Handlers ι) (i : ι) : Prop :=
  ∀ j, j ≠ i → h.shared.2.got j = h.shared.2.got i → ¬ Working h j

/-- **Executions under way**: each one follows its protocol, and is as it began as long
as it has no connection. -/
structure Underway (json : JsonWriter) (s : Server) (executions : ι → Execution)
    (h : Handlers ι) (givers : List ι) (phase : ι → Phase) : Prop where
  leased : Leased h.shared.2 givers phase
  usesPool : ∀ i, UsesPool (h.prog i) (phase i)
  waiting : ∀ i, phase i = .idle → h.prog i = (executions i).prog json s

/-- **Whoever had a connection before is done with it**, for the connections that are not
given back and for those in the pool. -/
def Vacated (h : Handlers ι) (givers : List ι) (phase : ι → Phase) : Prop :=
  ∀ i, Lends givers phase i → Alone h i

/-- **What is carried along a run**: which execution has which connection, that whoever had
one before is done with it, and that the executions are orderly. -/
def TurnsKept (json : JsonWriter) (s : Server) (executions : ι → Execution) (givers : List ι)
    (h : Handlers ι) : Prop :=
  ∃ phase, Underway json s executions h givers phase ∧ Vacated h givers phase ∧ Orderly h

variable {json : JsonWriter} {s : Server} {executions : ι → Execution} {h h' : Handlers ι}
  {givers : List ι} {phase : ι → Phase} {i j : ι} {e : DbEvent} {conn : Conn}

omit [DecidableEq ι] in
/-- A program that may work on a connection at all may work on the one it has. -/
theorem mayCall_of_usesPool {p : Handler HttpResponse} {φ : Phase} (huses : UsesPool p φ)
    (hgot : φ.got = some conn) (hworks : p.MayCall (fun o => o.conn ≠ none)) :
    p.MayCall (fun o => o.conn = some conn) := by
  induction p generalizing φ with
  | ret a => exact hworks
  | fail e => exact hworks
  | op o k ih =>
    obtain ⟨hallowed, huses⟩ := huses
    rcases hworks with hconn | ⟨r, hworks⟩
    · obtain ⟨conn', hconn⟩ := Option.ne_none_iff_exists'.mp hconn
      refine Or.inl (hconn.trans ?_)
      rw [← hallowed.got_eq hconn, hgot]
    · refine Or.inr ⟨r, ih r (huses r) ?_ hworks⟩
      -- the connection stays, as no other one is obtained
      match φ, o, hallowed, hgot with
      | .held _, .releaseConnection _, rfl, hgot => exact hgot
      | .returned _ _, .query _ _, rfl, hgot => exact hgot
      | .returned _ _, .storeResult _, _, hgot => exact hgot
      | .returned _ _, .error _, _, hgot => exact hgot
      | .returned _ _, .lock, _, hgot => exact hgot
      | .returned _ _, .unlock, _, hgot => exact hgot
      | .returned _ _, .useResult _, _, hgot => exact hgot
      | .returned _ _, .freeResult _, _, hgot => exact hgot

/-- **An execution that obtains a connection is going to work on it.** -/
theorem mayCall_of_waiting {x : Execution} {k : Conn → Handler HttpResponse}
    (hprog : x.prog json s = .op .getConnection k)
    (conn : Conn) : (k conn).MayCall (fun o => o.conn = some conn) := by
  cases x with
  | buy req resp =>
    change Task.doBuy json s req resp = _ at hprog
    unfold Task.doBuy at hprog
    split at hprog
    · cases hprog
    split at hprog
    · cases hprog
    split at hprog
    · cases hprog
    split at hprog
    · cases hprog
    -- gives it back, locks, and sends its first query
    cases hprog
    exact Or.inr ⟨(), Or.inr ⟨(), Or.inl rfl⟩⟩
  | «show» req resp =>
    cases hprog
    exact Or.inr ⟨(), Or.inl rfl⟩

omit [DecidableEq ι] in
/-- Who has a connection in use works on it. -/
theorem InUse.working (huse : InUse h i conn) : Working h i :=
  huse.2.mono fun _ hconn => by rw [hconn]; exact Option.some_ne_none conn

omit [DecidableEq ι] in
/-- Who works has its connection in use. -/
theorem Underway.inUse (hunderway : Underway json s executions h givers phase)
    (hgot : h.shared.2.got i = some conn) (hworks : Working h i) : InUse h i conn :=
  ⟨hgot, mayCall_of_usesPool (hunderway.usesPool i) ((hunderway.leased.got i).trans hgot) hworks⟩

/-! ## One step -/

theorem phaseAfter_ne_idle {φ : Phase} (hallowed : Allowed φ e.1) : phaseAfter φ e ≠ .idle := by
  match φ, e, hallowed with
  | .idle, ⟨.getConnection, _⟩, _ => exact Phase.noConfusion
  | .held _, ⟨.releaseConnection _, _⟩, _ => exact Phase.noConfusion
  | .returned _ _, ⟨.query _ _, _⟩, _ => exact Phase.noConfusion
  | .returned _ _, ⟨.storeResult _, _⟩, _ => exact Phase.noConfusion
  | .returned _ _, ⟨.error _, _⟩, _ => exact Phase.noConfusion
  | .returned _ _, ⟨.lock, _⟩, _ => exact Phase.noConfusion
  | .returned _ _, ⟨.unlock, _⟩, _ => exact Phase.noConfusion
  | .returned _ _, ⟨.useResult _, _⟩, _ => exact Phase.noConfusion
  | .returned _ _, ⟨.freeResult _, _⟩, _ => exact Phase.noConfusion

/-- Executions under way stay so. -/
theorem Underway.step (hunderway : Underway json s executions h givers phase)
    (hstep : HandlerStep h (i, e) h') :
    Underway json s executions h' (givenBack givers (i, e))
      (Function.update phase i (phaseAfter (phase i) e)) := by
  obtain ⟨k, hprog, hprog', hpool⟩ := hstep.cases
  have huses := hunderway.usesPool i
  rw [hprog] at huses
  obtain ⟨hallowed, huses⟩ := huses
  refine ⟨hunderway.leased.step hpool hallowed, fun j => ?_, fun j hj => ?_⟩
  · rw [hprog']
    by_cases hji : j = i
    · rw [hji, Function.update_self, Function.update_self]
      exact huses e.2
    · rw [Function.update_of_ne hji, Function.update_of_ne hji]
      exact hunderway.usesPool j
  · by_cases hji : j = i
    · -- behind its first call it has a connection
      rw [hji, Function.update_self] at hj
      exact (phaseAfter_ne_idle hallowed hj).elim
    · rw [Function.update_of_ne hji] at hj
      rw [hprog', Function.update_of_ne hji]
      exact hunderway.waiting j hj

/-- The protocol allows each call once an execution is under way. -/
theorem Underway.allowed (hunderway : Underway json s executions h givers phase)
    (hstep : HandlerStep h (i, e) h') : Allowed (phase i) e.1 := by
  obtain ⟨k, hprog, -, -⟩ := hstep.cases
  have huses := hunderway.usesPool i
  rw [hprog] at huses
  exact huses.1

theorem Working.of_step (hstep : HandlerStep h (i, e) h') (hworks : Working h' j) :
    Working h j := by
  by_cases hji : j = i
  · subst hji
    exact mayCall_of_step hstep hworks
  · obtain ⟨k, -, hprog', -⟩ := hstep.cases
    rwa [Working, hprog', Function.update_of_ne hji] at hworks

/-- **An execution that obtains a connection**: it takes the one on top of the pool, had
none before, and has it in use from now on. -/
theorem Underway.takes (hunderway : Underway json s executions h givers phase)
    (hstep : HandlerStep h (i, e) h') (hget : e.1 = .getConnection) :
    ∃ conns conn, h.shared.2.connList = conns ++ [conn] ∧ h.shared.2.got i = none
      ∧ phaseAfter (phase i) e = .held conn ∧ InUse h' i conn := by
  have hallowed := hunderway.allowed hstep
  obtain ⟨o, r⟩ := e
  cases hget
  obtain ⟨k, hprog, hprog', hpool⟩ := hstep.cases
  obtain ⟨conns, hback, hgot⟩ := hpool.of_getConnection
  cases hphase : phase i with
  | idle =>
    refine ⟨conns, r, hback, ?_, rfl, hgot, ?_⟩
    · rw [← hunderway.leased.got i, hphase]
      rfl
    · rw [hprog', Function.update_self]
      exact mayCall_of_waiting ((hunderway.waiting i hphase).symm.trans hprog) r
  | held => rw [hphase] at hallowed; exact hallowed.elim
  | returned => rw [hphase] at hallowed; exact hallowed.elim

/-- **A step in turn takes no connection in use.** -/
theorem Underway.takesUnused (hunderway : Underway json s executions h givers phase)
    (hvacated : Vacated h givers phase) (hstep : HandlerStep h (i, e) h')
    (hturn : TakesTurn givers h (i, e)) : TakesUnused h (i, e) := by
  intro hget conn hlast j huse
  obtain ⟨conns, conn', hback, -⟩ := hunderway.takes hstep hget
  obtain rfl : conn' = conn := by
    rw [hback, List.getLast?_concat] at hlast
    exact Option.some.inj hlast
  rcases hunderway.leased.back hback with ⟨-, hnone⟩ | ⟨giver, hgiver, hgot⟩
  · exact hnone j huse.1
  by_cases hj : j = giver
  · rw [hj] at huse
    exact hturn hget giver hgiver huse.working
  · -- whoever had the connection before the last giver is done with it
    have halone := hvacated giver (Or.inr (List.mem_of_getLast? hgiver))
    exact halone j hj (huse.1.trans hgot.symm) huse.working

/-- **A step out of turn makes two users of a connection.** -/
theorem Underway.takesTurn (hunderway : Underway json s executions h givers phase)
    (hstep : HandlerStep h (i, e) h') (hexclusive' : Exclusive h') :
    TakesTurn givers h (i, e) := by
  intro hget j hlast hworks
  obtain ⟨conns, conn, hback, hnone, -, huse⟩ := hunderway.takes hstep hget
  rcases hunderway.leased.back hback with ⟨rfl, -⟩ | ⟨giver, hgiver, hgot⟩
  · cases hlast
  obtain rfl : giver = j := Option.some.inj (hgiver.symm.trans hlast)
  have hne : giver ≠ i := by
    rintro rfl
    rw [hnone] at hgot
    cases hgot
  have huse' := (inUse_iff_of_ne hstep hne).mpr (hunderway.inUse hgot hworks)
  exact hne (hexclusive' giver i conn huse' huse)

/-- **Where no connection has two users, whoever had a connection before is done with
it**, if that was so before the step. -/
theorem Vacated.step (hvacated : Vacated h givers phase)
    (hunderway : Underway json s executions h givers phase) (hstep : HandlerStep h (i, e) h')
    (hexclusive' : Exclusive h') :
    Vacated h' (givenBack givers (i, e)) (Function.update phase i (phaseAfter (phase i) e)) := by
  intro l hl j hjl hgot hworks
  have hunderway' := hunderway.step hstep
  have hbefore := hl.of_step (hunderway.allowed hstep)
  obtain ⟨k, -, -, hpool⟩ := hstep.cases
  by_cases hget : e.1 = .getConnection
  · obtain ⟨conns, conn, -, -, hheld, huse⟩ := hunderway.takes hstep hget
    by_cases hli : l = i
    · -- it has obtained its connection with this step, and works on it
      rw [hli] at hgot hjl
      exact hjl (hexclusive' j i conn (hunderway'.inUse (hgot.trans huse.1) hworks) huse)
    · have hji : j ≠ i := by
        rintro rfl
        have hphase : Function.update phase j (phaseAfter (phase j) e) j = .held conn := by
          rw [Function.update_self, hheld]
        exact hunderway'.leased.got_ne hphase hl hli (hgot.symm.trans huse.1)
      rw [hpool.got_of_ne hji, hpool.got_of_ne hli] at hgot
      have hl := hbefore.resolve_left fun h => hli h.2
      exact hvacated l hl j hjl hgot (hworks.of_step hstep)
  · rw [hpool.got_eq hget] at hgot
    have hl := hbefore.resolve_left fun h => hget h.1
    exact hvacated l hl j hjl hgot (hworks.of_step hstep)

/-! ## A run -/

omit [DecidableEq ι] in
theorem underway_handlers (json : JsonWriter) (s : Server) (executions : ι → Execution)
    {connList : List Conn} (hnodup : connList.Nodup) :
    Underway json s executions (handlers json s executions connList) [] (fun _ => .idle) where
  leased :=
    { got := fun _ => rfl
      nodup := hnodup
      held := fun _ _ h => Phase.noConfusion h
      returned := fun _ h => absurd h List.not_mem_nil
      connList := ⟨connList, (List.append_nil _).symm, fun _ _ _ h => by cases h⟩ }
  usesPool := fun i => (executions i).usesPool json s
  waiting := fun _ _ => rfl

omit [DecidableEq ι] in
theorem inOrder_handlers (json : JsonWriter) (s : Server) (executions : ι → Execution)
    {connList : List Conn} (hnodup : connList.Nodup) :
    TurnsKept json s executions [] (handlers json s executions connList) := by
  refine ⟨_, underway_handlers json s executions hnodup, ?_,
    orderly_handlers json s executions connList⟩
  rintro i (⟨conn, hheld⟩ | hi)
  · cases hheld
  · exact absurd hi List.not_mem_nil

/-- **A connection has one user exactly as long as the executions keep in turn**: in a run
of any number of executions on a pool of distinct connections, no two of them ever have
the same connection in use, and each stores the result of its own query, if and only if
whenever one of them obtains a connection, the last one to give back a connection that
still lies in the pool, if any, has made its last call on a connection. -/
theorem exclusive_iff_inTurn (json : JsonWriter) (s : Server) (executions : ι → Execution)
    {connList : List Conn} (hnodup : connList.Nodup)
    {steps : List (Handlers ι × (ι × DbEvent))} {h : Handlers ι}
    (hrun : Run HandlerStep (handlers json s executions connList) steps h) :
    ((∀ x ∈ steps, Exclusive x.1 ∧ FetchesOwn x.1) ∧ Exclusive h ∧ FetchesOwn h)
      ↔ InTurn [] steps := by
  have hinv : ∀ givers h x h', TurnsKept json s executions givers h →
      Exclusive h ∧ FetchesOwn h → HandlerStep h x h' → Exclusive h' ∧ FetchesOwn h' →
      TurnsKept json s executions (givenBack givers x) h' := by
    rintro givers h ⟨i, e⟩ h' ⟨phase, hunderway, hvacated, horderly⟩ - hstep ⟨hexclusive', -⟩
    have hturn := hunderway.takesTurn hstep hexclusive'
    exact ⟨_, hunderway.step hstep, hvacated.step hunderway hstep hexclusive',
      horderly.step hstep (hunderway.takesUnused hvacated hstep hturn)⟩
  have hstep : ∀ givers h x h', TurnsKept json s executions givers h →
      Exclusive h ∧ FetchesOwn h → HandlerStep h x h' →
      ((Exclusive h' ∧ FetchesOwn h') ↔ TakesTurn givers h x) := by
    rintro givers h ⟨i, e⟩ h' ⟨phase, hunderway, hvacated, horderly⟩ - hstep
    constructor
    · rintro ⟨hexclusive', -⟩
      exact hunderway.takesTurn hstep hexclusive'
    · intro hturn
      have horderly' := horderly.step hstep (hunderway.takesUnused hvacated hstep hturn)
      exact ⟨horderly'.exclusive, horderly'.fetchesOwn⟩
  have hstart := inOrder_handlers json s executions hnodup
  obtain ⟨-, -, -, horderly⟩ := hstart
  exact hrun.forall_iff_along hinv hstep (inOrder_handlers json s executions hnodup)
    ⟨horderly.exclusive, horderly.fetchesOwn⟩

end Turns

/-! ## Two executions of `do_show` -/

/-- Two executions of `do_show` on a pool of one connection. -/
def twoShows : Handlers Bool :=
  handlers silentWriter server1 (fun _ => .show {} { closeConnection := false }) [0]

/-- One after the other: the second one takes the connection when the first
one has stored its result. -/
theorem twoShows_inTurn : ∃ steps h, Run HandlerStep twoShows steps h ∧
    InTurn [] steps ∧ InUse h false 0 := by
  refine ⟨_, _,
    .cons (.call (i := true) rfl (.other nofun nofun (.getConnection _ [] 0 rfl))) <|
    .cons (.call (i := true) rfl (.other nofun nofun (.releaseConnection _ 0))) <|
    .cons (.call (i := true) rfl (.other nofun nofun (.query _ 0 _ false))) <|
    .cons (.call (i := true) rfl (.other nofun nofun (.storeResult _ 0 (some ⟨0, []⟩)))) <|
    .cons (.call (i := false) rfl (.other nofun nofun (.getConnection _ [] 0 rfl))) <|
    .nil _, ?_, ⟨rfl, Or.inr ⟨(), Or.inl rfl⟩⟩⟩
  refine ⟨fun _ _ h => ?_, nofun, nofun, nofun, fun _ i hi => ?_, trivial⟩
  · cases h
  · cases hi
    -- the loop over the rows is all that is left of the first one
    rintro (h | ⟨_, h | ⟨_, h | ⟨_, h⟩⟩⟩)
    · exact h rfl
    · exact h rfl
    · exact h rfl
    · exact h

/-- Two executions in turn use their connection exclusively. -/
theorem exclusive_inTurn : ∃ steps h, Run HandlerStep twoShows steps h ∧ InUse h false 0 ∧
    (∀ x ∈ steps, Exclusive x.1 ∧ FetchesOwn x.1) ∧ Exclusive h ∧ FetchesOwn h := by
  obtain ⟨steps, h, hrun, hturn, huse⟩ := twoShows_inTurn
  exact ⟨steps, h, hrun, huse,
    (exclusive_iff_inTurn silentWriter server1 _ (List.nodup_singleton 0) hrun).mpr hturn⟩

/-- **Two that overlap**: the connection of the first one is given back before
it is used, the second one takes it, and its query is the last one when the
first one stores its result. -/
theorem not_exclusive_twoShows : ∃ steps h, Run HandlerStep twoShows steps h ∧
    ¬ Exclusive h ∧ ¬ FetchesOwn h := by
  refine ⟨_, _,
    .cons (.call (i := true) rfl (.other nofun nofun (.getConnection _ [] 0 rfl))) <|
    .cons (.call (i := true) rfl (.other nofun nofun (.releaseConnection _ 0))) <|
    .cons (.call (i := true) rfl (.other nofun nofun (.query _ 0 _ false))) <|
    .cons (.call (i := false) rfl (.other nofun nofun (.getConnection _ [] 0 rfl))) <|
    .cons (.call (i := false) rfl (.other nofun nofun (.releaseConnection _ 0))) <|
    .cons (.call (i := false) rfl (.other nofun nofun (.query _ 0 _ false))) <|
    .nil _, ?_, ?_⟩
  · intro hexclusive
    have h : true = false := hexclusive true false 0 ⟨rfl, Or.inl rfl⟩ ⟨rfl, Or.inl rfl⟩
    cases h
  · intro hfetches
    have h := hfetches true 0 _ rfl
    cases h

end MicroBusiness
