import MicroBusiness.Delivery
import MicroBusiness.Linearizability

/-!
# The shop behind the proxy

The whole system: clients, the proxy, the backends, and their databases. A
backend that receives a request has its handler run on the pool, the mutex, and
the database of the backend. It is taken to run in one go, which is what
`accompanied_of_run` allows.

What the system is for is said without sockets, parsers, and SQL: a trading
post (`TradingPost`), in which customers ask a shop for a commodity or for a
look, wait in a queue in front of it, and are answered in the order of the
queue. `traded_of_run` says that the system is a trading post: what a client is
written at last is the response to what its request has said, by the stocks of
the moment when the backend received it, and nothing is sold that is not there.

A shop of the trading post may also turn a customer away, and it counts how often
it does. That is no freedom: the databases count the calls that have failed, and
the trading post has turned away exactly as many (`Keeps.failures`). A server that
turns everybody away while its database works does not refine it.

The results assume what is said once here. The system begins between two requests
(`System.Ready`). The requests are proper (`Traffic.Proper`), and each says something
to its backend (`Exchange.Means`): it buys, with an id and a quantity that are decimal
digits, the quantity below `2 ^ 31`, or it looks, or it has a path that the server does
not know. Targets are routed by positions that are natural numbers, which they are in
the source below `2 ^ 31` bytes.
-/

namespace MicroBusiness

open Program Transition

/-! ## What a request says -/

/-- The request of an exchange as it is parsed afresh. -/
def Exchange.fresh (x : Exchange) : HttpRequest := x.request.readInto {} x.receiveTime

/-- **What a request says to a server**: to buy a commodity, by two parameters
that are decimal digits, to look at the commodities, or anything else. -/
inductive Exchange.Means (s : Server) (x : Exchange) : Wish → Prop
  | buy {id num : Bytes} (hpath : x.fresh.path = s.buyPath)
    (hid : x.fresh.getQuery (bytes "commodity_id") = .ok id)
    (hnum : x.fresh.getQuery (bytes "num") = .ok num) (hid_ne : id ≠ []) (hnum_ne : num ≠ [])
    (hid_digit : ∀ b ∈ id, isDigit b = true) (hnum_digit : ∀ b ∈ num, isDigit b = true)
    (hfits : natOfDigits num < 2 ^ 31) : Means s x (.buy (natOfDigits id) (natOfDigits num))
  | look (hbuy : x.fresh.path ≠ s.buyPath) (hshow : x.fresh.path = s.showPath) : Means s x .look
  | other (hbuy : x.fresh.path ≠ s.buyPath) (hshow : x.fresh.path ≠ s.showPath) :
    Means s x .other

section Means

variable {json : JsonWriter} {s : Server} {shelf : Shelf} {x : Exchange} {w : Wish}
  {addr : InetAddress} {leftover : StdMap Bytes Bytes}

/-- The backend parses the request with the path, and with the parameters that
the request has by itself. -/
theorem Exchange.parsed_eq (x : Exchange) (addr : InetAddress) (leftover : StdMap Bytes Bytes) :
    (x.parsed addr leftover).path = x.fresh.path ∧
      ∀ field value, x.fresh.getQuery field = .ok value →
        (x.parsed addr leftover).getQuery field = .ok value := by
  obtain ⟨headers, hread⟩ :=
    x.request.readInto_withClient addr { querys := leftover } x.receiveTime
  unfold Exchange.parsed
  rw [hread, RequestText.readInto_leftover]
  exact ⟨rfl, fun _ _ h =>
    RequestText.getQuery_over (x.request.over_empty_readInto x.receiveTime) leftover h⟩

/-- **What a request says is granted**, by the stocks, when its handler runs
alone, or one of its calls fails and the client is turned away. -/
theorem Exchange.Means.granted (hmeans : x.Means s w) (hplain : x.request.Plain)
    {resp : HttpResponse} {connList : List Conn} {store : Store} {stock : ℕ → ℕ}
    (hstock : ∀ n, store.stock n = stock n ∧ stock n < 2 ^ 31) {r : Except Fault HttpResponse}
    {y : Premises Unit}
    (h : (Task.onRequest json s (x.parsed addr leftover) resp).Exec (PremisesExec s shelf ())
      (none, { connList := connList }, store) r y) :
    ∃ stock' : ℕ → ℕ, (∀ n, y.2.2.stock n = stock' n ∧ stock' n < 2 ^ 31) ∧
      (((r, stock') = shelf.grant json s resp addr.ipPort stock w ∧
          y.2.2.failures = store.failures) ∨
        ((r, stock') = (.ok (turnedAway json s resp addr.ipPort), stock) ∧
          y.2.2.failures = store.failures + 1)) := by
  obtain ⟨hpath, hquery⟩ := x.parsed_eq addr leftover
  have hclient : (x.parsed addr leftover).getHeader (bytes "Client") = addr.ipPort :=
    hplain.getHeader_client addr _ _
  unfold Task.onRequest at h
  rw [hpath] at h
  rw [← hclient]
  cases hmeans with
  | @buy id num hbuy hid hnum hid_ne hnum_ne hid_digit hnum_digit hfits =>
    rw [if_pos hbuy] at h
    exact served_of_exec (c := .buys ⟨⟨⟨x.parsed addr leftover, id, num, hquery _ _ hid,
      hquery _ _ hnum, hid_ne, hnum_ne⟩, hnum_digit, hfits⟩, hid_digit⟩ resp) hstock h
  | look hbuy hshow =>
    rw [if_neg hbuy, if_pos hshow] at h
    exact served_of_exec (c := .looks (x.parsed addr leftover) resp) hstock h
  | other hbuy hshow =>
    rw [if_neg hbuy, if_neg hshow] at h
    cases h with
    | ret => exact ⟨stock, hstock, Or.inl ⟨rfl, rfl⟩⟩

end Means

/-! ## A table without null fields -/

section NonNull

variable {s : Server} {shelf : Shelf} {store store' : Store} {e : DbEvent}

/-- No commodity has a null field. -/
def Shelf.NonNull (shelf : Shelf) : Prop := ∀ n stock, ((shelf.item n).row stock).NonNull

/-- No row that is to be stored has a null field. -/
def Store.NonNull (store : Store) : Prop :=
  ∀ conn rows, store.pending conn = some rows → ∀ row ∈ rows, row.NonNull

theorem Shelf.NonNull.rows (hshelf : shelf.NonNull) (stock : ℕ → ℤ) (numbers : List ℕ) :
    ∀ row ∈ shelf.rows stock numbers, row.NonNull := by
  intro row hrow
  obtain ⟨n, -, rfl⟩ := List.mem_map.mp hrow
  exact hshelf n (stock n)

theorem Store.NonNull.update (hstore : store.NonNull) (conn : Conn)
    {rows : Option (List MysqlRow)} (hrows : ∀ r, rows = some r → ∀ row ∈ r, row.NonNull) :
    Store.NonNull { store with pending := Function.update store.pending conn rows } := by
  intro conn' rows' hpending
  dsimp only at hpending
  by_cases hconn : conn' = conn
  · rw [hconn, Function.update_self] at hpending
    exact hrows rows' hpending
  · rw [Function.update_of_ne hconn] at hpending
    exact hstore conn' rows' hpending

/-- **A table without null fields replies without null fields.** -/
theorem StoreStep.nonNull (h : StoreStep s shelf store e store') (hshelf : shelf.NonNull)
    (hstore : store.NonNull) : store'.NonNull ∧ NonNullReply e := by
  cases h with
  | queryFailed => exact ⟨hstore, trivial⟩
  | select conn =>
    refine ⟨hstore.update _ ?_, trivial⟩
    rintro r ⟨⟩
    exact hshelf.rows _ _
  | selectAll conn =>
    refine ⟨hstore.update _ ?_, trivial⟩
    rintro r ⟨⟩
    exact hshelf.rows _ _
  | update => exact ⟨hstore, trivial⟩
  | storeFailed => exact ⟨hstore, trivial⟩
  | store _ _ _ hrows => exact ⟨hstore.update _ nofun, hstore _ _ hrows⟩
  | other _ he =>
    refine ⟨hstore, ?_⟩
    match e, he with
    | ⟨.getConnection, _⟩, _ => exact trivial
    | ⟨.releaseConnection _, _⟩, _ => exact trivial
    | ⟨.error _, _⟩, _ => exact trivial
    | ⟨.useResult _, _⟩, _ => exact trivial
    | ⟨.freeResult _, _⟩, _ => exact trivial
    | ⟨.lock, _⟩, _ => exact trivial
    | ⟨.unlock, _⟩, _ => exact trivial
    | ⟨.query _ _, _⟩, he => exact absurd trivial he
    | ⟨.storeResult _, _⟩, he => exact absurd trivial he

/-- **What a handler comes to on such a table** is one of its outcomes. -/
theorem mayAnswer_of_exec {ι : Type} [DecidableEq ι] {i : ι} {p : Handler HttpResponse}
    {x y : Premises ι} {r : Except Fault HttpResponse}
    (h : p.Exec (PremisesExec s shelf i) x r y) (hshelf : shelf.NonNull)
    (hstore : x.2.2.NonNull) : MayAnswer p r := by
  induction h with
  | ret a x => exact .ret a _
  | fail fault x => exact .fail fault _
  | @op o k reply x y z r hexec _ ih =>
    have hreply : y.2.2.NonNull ∧ NonNullReply ⟨o, reply⟩ := by
      cases hexec with
      | lock => exact ⟨hstore, trivial⟩
      | unlock => exact ⟨hstore, trivial⟩
      | other _ _ hstep => exact hstep.2.nonNull hshelf hstore
    exact .op reply hreply.2 (ih hreply.1)

end NonNull

/-! ## The trading post -/

/-- What is behind the descriptors that the proxy has for its backends: the
server, the pool of its process, the database, and what is on the shelf there.
Two descriptors may lead to one process, and two processes use one database. -/
structure Deployment (π δ : Type) where
  server : Fd → Server
  pool : Fd → π
  database : Fd → δ
  shelf : δ → Shelf

/-- One who waits in front of a shop. -/
structure Visit where
  client : Fd
  addr : InetAddress
  wish : Wish

/-- **A trading post**: the stocks and how often somebody was turned away, for each
database, who waits in front of each shop, and the answers that are to be handed out, with
the visit of each. -/
structure TradingPost (δ : Type) where
  stock : δ → ℕ → ℕ
  failures : δ → ℕ
  waiting : Fd → List Visit := fun _ => []
  due : Fd → List (Visit × HttpResponse) := fun _ => []

section TradeStep

variable {π δ : Type} [DecidableEq δ] (json : JsonWriter) (d : Deployment π δ)

/-- **What becomes of a wish** at a shop: it is granted by the stocks, or the
client is turned away, which is counted. -/
def Deployment.Grants (fd : Fd) (v : Visit) (stock : ℕ → ℕ) (failures : ℕ)
    (response : HttpResponse) (stock' : ℕ → ℕ) (failures' : ℕ) : Prop :=
  ((Except.ok response, stock') = (d.shelf (d.database fd)).grant json (d.server fd)
      { closeConnection := false } v.addr.ipPort stock v.wish ∧ failures' = failures) ∨
    ((response, stock') =
        (turnedAway json (d.server fd) { closeConnection := false } v.addr.ipPort, stock) ∧
      failures' = failures + 1)

/-- **A step of the trading post**, with what is handed out: a client comes or
goes, joins the queue of a shop, is served as the first of the queue, or is
handed the oldest answer of the shop. -/
inductive TradeStep : TradingPost δ → TrafficAct × List (Fd × Bytes) → TradingPost δ → Prop
  | accept (post : TradingPost δ) (fd : Fd) (addr : InetAddress) :
    TradeStep post (.accept fd addr, []) post
  | leave (post : TradingPost δ) (fd : Fd) : TradeStep post (.leave fd, []) post
  | ask {x : Exchange} {fd : Fd} {wish : Wish} (post : TradingPost δ) (addr : InetAddress)
    (hmeans : x.Means (d.server fd) wish) :
    TradeStep post (.ask x, [(fd, (x.request.withClient addr).bytes)])
      { post with waiting := Function.update post.waiting fd
                    (post.waiting fd ++ [⟨x.client, addr, wish⟩]) }
  | serve {fd : Fd} {v : Visit} {rest : List Visit} {response : HttpResponse} {stock : ℕ → ℕ}
    {failures : ℕ} (post : TradingPost δ) (hwaiting : post.waiting fd = v :: rest)
    (hgrants : d.Grants json fd v (post.stock (d.database fd)) (post.failures (d.database fd))
      response stock failures) :
    TradeStep post (.serve fd, [])
      { stock := Function.update post.stock (d.database fd) stock
        failures := Function.update post.failures (d.database fd) failures
        waiting := Function.update post.waiting fd rest
        due := Function.update post.due fd (post.due fd ++ [(v, response)]) }
  | answer {fd : Fd} {v : Visit} {response : HttpResponse} {rest : List (Visit × HttpResponse)}
    (post : TradingPost δ) (hdue : post.due fd = (v, response) :: rest) :
    TradeStep post (.answer fd, [(v.client, response.appendToBuffer)])
      { post with due := Function.update post.due fd rest }

end TradeStep

/-! ## What the clients are told they have bought -/

section Account

variable {δ : Type} [DecidableEq δ] {json : JsonWriter} {π : Type} {d : Deployment π δ} {fd : Fd}
  {b : δ} {n : ℕ} {F : Finset Fd} {post post' : TradingPost δ}

/-- What has been bought of the commodity with this number, by an answer. -/
def Visit.bought (n : ℕ) (a : Visit × HttpResponse) : ℕ := a.1.wish.bought n (some (.ok a.2))

/-- What a client is told it has bought, in a step. -/
def TradingPost.told (d : Deployment π δ) (b : δ) (n : ℕ) (post : TradingPost δ)
    (label : TrafficAct × List (Fd × Bytes)) : ℕ :=
  match label.1 with
  | .answer fd => if d.database fd = b then ((post.due fd).head?.map (Visit.bought n)).getD 0 else 0
  | _ => 0

/-- What clients of these shops are still to be told they have bought. -/
def TradingPost.untold (d : Deployment π δ) (F : Finset Fd) (b : δ) (n : ℕ)
    (post : TradingPost δ) : ℕ :=
  ∑ fd ∈ F with d.database fd = b, ((post.due fd).map (Visit.bought n)).sum

omit [DecidableEq δ] in
/-- **What is bought is taken from the stock.** -/
theorem Deployment.Grants.bought {v : Visit} {stock stock' : ℕ → ℕ} {failures failures' : ℕ}
    {response : HttpResponse} (h : d.Grants json fd v stock failures response stock' failures')
    (n : ℕ) :
    stock' n + Visit.bought n (v, response) = stock n := by
  rcases h with ⟨hgranted, -⟩ | ⟨haway, -⟩
  · have hbought := Shelf.bought_grant json (d.server fd) (d.shelf (d.database fd))
      { closeConnection := false } v.addr.ipPort stock n v.wish
    rw [← hgranted] at hbought
    exact hbought
  · obtain ⟨rfl, rfl⟩ := Prod.mk.inj haway
    exact congrArg (stock' n + ·) (Wish.bought_turnedAway n v.wish)

/-- What is to be told changes with what is due at one shop. -/
theorem TradingPost.untold_update {q : ℕ} {due : List (Visit × HttpResponse)}
    (hdue : (due.map (Visit.bought n)).sum = ((post.due fd).map (Visit.bought n)).sum + q)
    (hpost : post'.due = Function.update post.due fd due) (hfd : fd ∈ F) :
    post'.untold d F b n = post.untold d F b n + if d.database fd = b then q else 0 := by
  have hone : ∀ fd' ∈ F.filter (d.database · = b),
      ((post'.due fd').map (Visit.bought n)).sum
        = ((post.due fd').map (Visit.bought n)).sum + if fd' = fd then q else 0 := by
    intro fd' _
    rw [hpost]
    by_cases heq : fd' = fd
    · rw [heq, Function.update_self, if_pos rfl, hdue]
    · rw [Function.update_of_ne heq, if_neg heq, Nat.add_zero]
  have hmem : fd ∈ F.filter (d.database · = b) ↔ d.database fd = b :=
    Finset.mem_filter.trans (and_iff_right hfd)
  unfold TradingPost.untold
  rw [Finset.sum_congr rfl hone, Finset.sum_add_distrib, Finset.sum_ite_eq', if_congr hmem rfl rfl]

/-- **A step of the trading post keeps the account.** -/
theorem TradeStep.balance {label : TrafficAct × List (Fd × Bytes)}
    (hdue : ∀ fd ∉ F, post.due fd = []) (hF : ∀ fd, label.1 = .serve fd → fd ∈ F)
    (h : TradeStep json d post label post') :
    (∀ fd ∉ F, post'.due fd = []) ∧
      post'.stock b n + post'.untold d F b n + post.told d b n label
        = post.stock b n + post.untold d F b n := by
  cases h with
  | accept => exact ⟨hdue, rfl⟩
  | leave => exact ⟨hdue, rfl⟩
  | ask => exact ⟨hdue, rfl⟩
  | @serve fd v rest response stock failures _ _ hgrants =>
    have hfd := hF fd rfl
    refine ⟨fun fd' hfd' => ?_, ?_⟩
    · dsimp only
      have hne : fd' ≠ fd := fun heq => hfd' (heq ▸ hfd)
      rw [Function.update_of_ne hne]
      exact hdue fd' hfd'
    · have hdues : ((post.due fd ++ [(v, response)]).map (Visit.bought n)).sum
          = ((post.due fd).map (Visit.bought n)).sum + Visit.bought n (v, response) := by
        rw [List.map_append, List.sum_append]
        rfl
      rw [TradingPost.untold_update hdues rfl hfd]
      have hbought := hgrants.bought n
      unfold TradingPost.told
      dsimp only
      by_cases hb : d.database fd = b
      · subst hb
        rw [Function.update_self, if_pos rfl]
        omega
      · rw [Function.update_of_ne (Ne.symm hb), if_neg hb]
        rfl
  | @answer fd v response rest _ hfirst =>
    have hfd : fd ∈ F := by
      by_contra hfd
      rw [hdue fd hfd] at hfirst
      cases hfirst
    refine ⟨fun fd' hfd' => ?_, ?_⟩
    · dsimp only
      have hne : fd' ≠ fd := fun heq => hfd' (heq ▸ hfd)
      rw [Function.update_of_ne hne]
      exact hdue fd' hfd'
    · have htold : post.told d b n (.answer fd, [(v.client, response.appendToBuffer)])
          = if d.database fd = b then Visit.bought n (v, response) else 0 := by
        unfold TradingPost.told
        dsimp only
        rw [hfirst]
        rfl
      -- the account before is the one after with the answer
      have hdues : (((v, response) :: rest).map (Visit.bought n)).sum
          = ((Function.update post.due fd rest fd).map (Visit.bought n)).sum
            + Visit.bought n (v, response) := by
        rw [Function.update_self, List.map_cons, List.sum_cons, Nat.add_comm]
      have hback : post.due
          = Function.update (Function.update post.due fd rest) fd ((v, response) :: rest) := by
        rw [Function.update_idem, ← hfirst, Function.update_eq_self]
      have huntold : post.untold d F b n
          = ({ post with due := Function.update post.due fd rest } : TradingPost δ).untold d F b n
            + if d.database fd = b then Visit.bought n (v, response) else 0 :=
        TradingPost.untold_update hdues hback hfd
      rw [htold, huntold]
      dsimp only
      omega

end Account

/-- What is granted keeps the connection as it was to be. -/
theorem Shelf.closeConnection_grant {json : JsonWriter} {s : Server} {shelf : Shelf}
    {resp r : HttpResponse} {client : Bytes} {stock stock' : ℕ → ℕ} {w : Wish}
    (h : (Except.ok r, stock') = shelf.grant json s resp client stock w) :
    r.closeConnection = resp.closeConnection := by
  have hanswer := congrArg Prod.fst h
  cases w with
  | buy n quantity =>
    rw [Except.ok.inj hanswer]
    unfold Shelf.sell
    split
    · rfl
    · split <;> rfl
  | look =>
    dsimp only [Shelf.grant, Shelf.exhibit] at hanswer
    cases hrows : (shelf.rows (fun n => stock n) shelf.numbers).mapM Task.rowItem with
    | error fault =>
      rw [hrows] at hanswer
      cases hanswer
    | ok items =>
      rw [hrows] at hanswer
      rw [Except.ok.inj hanswer]
      rfl
  | other =>
    rw [Except.ok.inj hanswer]
    rfl

/-! ## The system -/

/-- What the backends work with: the connections in the pools, and the
databases. -/
structure Stockroom (π δ : Type) where
  connList : π → List Conn
  store : δ → Store

section DeployedStep

variable {π δ : Type} [DecidableEq π] [DecidableEq δ]

/-- What a backend has when it receives a request: the free mutex, its pool, and
its database. -/
def Stockroom.premises (room : Stockroom π δ) (d : Deployment π δ) (fd : Fd) : Premises Unit :=
  (none, { connList := room.connList (d.pool fd) }, room.store (d.database fd))

/-- What the backends work with when one of them has handled a request. -/
def Stockroom.settle (room : Stockroom π δ) (d : Deployment π δ) (fd : Fd) (y : Premises Unit) :
    Stockroom π δ where
  connList := Function.update room.connList (d.pool fd) y.2.1.connList
  store := Function.update room.store (d.database fd) y.2.2

omit [DecidableEq π] [DecidableEq δ] in
/-- The trading post with these stocks, before anybody comes, and with the failures of the
databases so far. -/
def Stockroom.opened (room : Stockroom π δ) (stock : δ → ℕ → ℕ) : TradingPost δ where
  stock := stock
  failures b := (room.store b).failures

/-- **A step of the whole system**: one of the traffic, in which a backend that
receives a request runs its handler on the database, and answers what the
handler comes to. -/
inductive DeployedStep (json : JsonWriter) (d : Deployment π δ) :
    Traffic × Stockroom π δ → TrafficAct × List (Fd × Bytes) → Traffic × Stockroom π δ → Prop
  | serve {s s' : Traffic} {room : Stockroom π δ} {fd : Fd} {p : Passing} {rest : List Passing}
    {req : HttpRequest} {y : Premises Unit} (hrequests : s.requests fd = p :: rest)
    (hhanded : HttpServer.handed (s.system.backends fd).context
      ((s.system.backends fd).buf ++ p.message) p.exchange.receiveTime = some req)
    (hexec : (Task.onRequest json (d.server fd) req
      { closeConnection := HttpServer.closes req }).Exec
        (PremisesExec (d.server fd) (d.shelf (d.database fd)) ()) (room.premises d fd)
        (p.exchange.httpCallback req { closeConnection := HttpServer.closes req }) y)
    (hstep : TrafficStep json s (.serve fd, []) s') :
    DeployedStep json d (s, room) (.serve fd, []) (s', room.settle d fd y)
  | other {s s' : Traffic} {label : TrafficAct × List (Fd × Bytes)} (room : Stockroom π δ)
    (hact : ∀ fd, label.1 ≠ .serve fd) (hstep : TrafficStep json s label s') :
    DeployedStep json d (s, room) label (s', room)

/-- What is asked says something to the backend that it is for. -/
def Traffic.MakesSense (d : Deployment π δ) (s : Traffic)
    (label : TrafficAct × List (Fd × Bytes)) : Prop :=
  ∀ x, label.1 = .ask x → ∀ fd, s.system.proxy.tables.Routes x.request.target fd →
    ∃ w, x.Means (d.server fd) w

/-- **A message on its way is a visit**: it is the request of the client with
the client line. -/
structure Awaits (d : Deployment π δ) (fd : Fd) (p : Passing) (v : Visit) : Prop where
  client : p.exchange.client = v.client
  message : p.message = (p.exchange.request.withClient v.addr).bytes
  wish : p.exchange.Means (d.server fd) v.wish

/-- **What a backend has done is an answer that is due.** -/
structure Owed (r : Exchange × List ConnEffect) (due : Visit × HttpResponse) : Prop where
  client : r.1.client = due.1.client
  effects : r.2 = [.send due.2.appendToBuffer]

/-- **The system keeps a trading post**: what is on its way is sound, and is
what the trading post has waiting and due, and the databases have its stocks,
which fit the columns, and have failed as often as it has turned somebody away. -/
structure Keeps (json : JsonWriter) (d : Deployment π δ) (s : Traffic) (room : Stockroom π δ)
    (post : TradingPost δ) : Prop where
  sound : s.Sound json d.server
  stock : ∀ b n, (room.store b).stock n = post.stock b n ∧ post.stock b n < 2 ^ 31
  failures : ∀ b, (room.store b).failures = post.failures b
  waiting : ∀ fd, List.Forall₂ (Awaits d fd) (s.requests fd) (post.waiting fd)
  due : ∀ fd, List.Forall₂ Owed (s.responses fd) (post.due fd)

end DeployedStep

/-! ## Steps of both -/

section Keeps

variable {π δ : Type} [DecidableEq π] [DecidableEq δ] {json : JsonWriter} {d : Deployment π δ}
  {s s' : Traffic} {room : Stockroom π δ} {post : TradingPost δ} {fd : Fd}

omit [DecidableEq π] [DecidableEq δ] in
/-- What becomes of a wish keeps the connection open. -/
theorem Deployment.Grants.closeConnection {v : Visit} {stock stock' : ℕ → ℕ}
    {failures failures' : ℕ} {response : HttpResponse}
    (h : d.Grants json fd v stock failures response stock' failures') :
    response.closeConnection = false := by
  rcases h with ⟨hgranted, -⟩ | ⟨haway, -⟩
  · exact Shelf.closeConnection_grant hgranted
  · rw [(Prod.mk.inj haway).1]
    rfl

/-- What holds of two functions at every point still does when both are updated at one
point, to values of which it holds. -/
theorem forall_update_update {α β γ : Type*} [DecidableEq α] {P : α → β → γ → Prop} {f : α → β}
    {g : α → γ} (h : ∀ x, P x (f x) (g x)) {a : α} {b : β} {c : γ} (hat : P a b c) (x : α) :
    P x (Function.update f a b x) (Function.update g a c x) := by
  by_cases hx : x = a
  · subst hx
    rwa [Function.update_self, Function.update_self]
  · rw [Function.update_of_ne hx, Function.update_of_ne hx]
    exact h x

/-- **A backend answers what its callback makes of a request.** -/
theorem HttpServer.effects_of_onMessage {httpCallback : HttpCallback} {context : HttpContext}
    {buf rest : Bytes} {t : Timestamp} {req : HttpRequest} {r : HttpServer.Received}
    (hparse : parseRequest context buf t
      = .ok (true, { state := .kGotAll, request := req }, rest))
    (h : HttpServer.onMessage httpCallback context buf t = .ok r) :
    ∃ response, httpCallback req { closeConnection := HttpServer.closes req } = .ok response ∧
      (response.closeConnection = false → r.effects = [.send response.appendToBuffer]) := by
  rw [HttpServer.onMessage_of_gotAll hparse] at h
  unfold HttpServer.onRequest at h
  cases hcall : httpCallback req { closeConnection := HttpServer.closes req } with
  | error fault =>
    rw [hcall] at h
    cases h
  | ok response =>
    rw [hcall] at h
    cases h
    refine ⟨response, rfl, fun hopen => ?_⟩
    rw [hopen]
    rfl

/-- What a backend has done with a message is what `onMessage` has. -/
theorem System.exists_onMessage_of_receive {sys sys' : System} {x : Exchange} {message : Bytes}
    {effects : List ConnEffect} (h : sys.receive fd x message = .ok (sys', effects)) :
    ∃ r, HttpServer.onMessage x.httpCallback (sys.backends fd).context
      ((sys.backends fd).buf ++ message) x.receiveTime = .ok r ∧ r.effects = effects := by
  unfold System.receive at h
  cases hmessage : HttpServer.onMessage x.httpCallback (sys.backends fd).context
      ((sys.backends fd).buf ++ message) x.receiveTime with
  | error fault =>
    rw [hmessage] at h
    cases h
  | ok r =>
    rw [hmessage] at h
    exact ⟨r, rfl, congrArg Prod.snd (Except.ok.inj h)⟩

/-- **A message on its way is parsed** as the request of its client, and does not
close the connection. -/
theorem Exchange.Underway.parseRequest {server : Fd → Server} {t : Tables}
    {addr' : InetAddress} {x : Exchange} (h : x.Underway json server t fd addr') {sys : System}
    (hready : sys.Ready) (addr : InetAddress) :
    ∃ leftover, sys.backends fd = ⟨{ request := { querys := leftover } }, []⟩ ∧
      MicroBusiness.parseRequest { request := { querys := leftover } }
          (x.request.withClient addr).bytes x.receiveTime
        = .ok (true, { state := .kGotAll, request := x.parsed addr leftover }, []) ∧
      HttpServer.closes (x.parsed addr leftover) = false := by
  obtain ⟨leftover, hbackend⟩ := hready.backends fd
  have hparse := RequestText.parseRequest_bytes (h.plain.wellFormed_withClient addr)
    (r := { querys := leftover }) rfl [] x.receiveTime
  rw [List.append_nil] at hparse
  exact ⟨leftover, hbackend, hparse, h.plain.closes_eq_false addr rfl x.receiveTime⟩

/-- **A request that is received is served**: the first of the queue is granted
its wish or turned away, and is due the response. -/
theorem Keeps.serve (h : Keeps json d s room post) {p : Passing} {rest : List Passing}
    {req : HttpRequest} {y : Premises Unit} (hrequests : s.requests fd = p :: rest)
    (hhanded : HttpServer.handed (s.system.backends fd).context
      ((s.system.backends fd).buf ++ p.message) p.exchange.receiveTime = some req)
    (hexec : (Task.onRequest json (d.server fd) req
      { closeConnection := HttpServer.closes req }).Exec
        (PremisesExec (d.server fd) (d.shelf (d.database fd)) ()) (room.premises d fd)
        (p.exchange.httpCallback req { closeConnection := HttpServer.closes req }) y)
    (hstep : TrafficStep json s (.serve fd, []) s') :
    ∃ post', TradeStep json d post (.serve fd, []) post' ∧
      Keeps json d s' (room.settle d fd y) post' := by
  obtain ⟨addr, hway, -⟩ := h.sound.requests fd p (by rw [hrequests]; exact List.mem_cons_self)
  obtain ⟨v, waiting, hfirst, hrest, hwaiting⟩ : ∃ v waiting, Awaits d fd p v ∧
      List.Forall₂ (Awaits d fd) rest waiting ∧ post.waiting fd = v :: waiting := by
    have hall := h.waiting fd
    rw [hrequests, List.forall₂_cons_left_iff] at hall
    obtain ⟨v, waiting, hfirst, hrest, hwaiting⟩ := hall
    exact ⟨v, waiting, hfirst, hrest, hwaiting⟩
  -- the backend parses the message of the visit
  obtain ⟨leftover, hbackend, hparse, hopen⟩ := hway.parseRequest h.sound.ready v.addr
  rw [← hfirst.message] at hparse
  have hreq : req = p.exchange.parsed v.addr leftover := by
    rw [hbackend, List.nil_append, HttpServer.handed, hparse] at hhanded
    exact (Option.some.inj hhanded).symm
  subst hreq
  rw [hopen] at hexec
  obtain ⟨stock', hstock', hgranted⟩ := hfirst.wish.granted hway.plain (h.stock _) hexec
  cases hstep with
  | @serve _ p' rest' sys effects hrequests' hreceive =>
    cases hrequests.symm.trans hrequests'
    -- the answer is what the handler has come to
    obtain ⟨r, hmessage, heffects⟩ := System.exists_onMessage_of_receive hreceive
    rw [hbackend, List.nil_append] at hmessage
    obtain ⟨response, hcall, hsend⟩ := HttpServer.effects_of_onMessage hparse hmessage
    have hcall : p.exchange.httpCallback (p.exchange.parsed v.addr leftover)
        { closeConnection := HttpServer.closes (p.exchange.parsed v.addr leftover) }
          = .ok response := hcall
    rw [hopen] at hcall
    rw [hcall] at hgranted
    have hfailures : (room.premises d fd).2.2.failures = post.failures (d.database fd) :=
      h.failures _
    dsimp only [Stockroom.premises] at hfailures
    rw [hfailures] at hgranted
    have hgrants : d.Grants json fd v (post.stock (d.database fd))
        (post.failures (d.database fd)) response stock' y.2.2.failures :=
      hgranted.imp_right fun haway => by
        rw [Prod.mk.injEq, Except.ok.injEq] at haway
        rw [haway.1.1, haway.1.2]
        exact ⟨rfl, haway.2⟩
    have hproper : s.Proper json d.server (.serve fd, []) := trivial
    refine ⟨_, .serve post hwaiting hgrants, (h.sound.step hproper (.serve hrequests hreceive)).1,
      ?_, ?_, ?_, ?_⟩
    · exact forall_update_update (P := fun _ (store : Store) (stock : ℕ → ℕ) =>
        ∀ n, store.stock n = stock n ∧ stock n < 2 ^ 31) h.stock hstock'
    · exact forall_update_update (P := fun _ (store : Store) (failures : ℕ) =>
        store.failures = failures) h.failures rfl
    · exact forall_update_update h.waiting hrest
    · refine forall_update_update h.due (List.rel_append (h.due fd) (.cons ⟨hfirst.client, ?_⟩ .nil))
      rw [← heffects]
      exact hsend hgrants.closeConnection

/-- **What the proxy reads of an answer that is due, it writes to the client** that is
waiting for it. -/
theorem Traffic.Sound.written_of_owed {server : Fd → Server} (h : s.Sound json server)
    {x : Exchange} {effects : List ConnEffect} {rest : List (Exchange × List ConnEffect)}
    (hresponses : s.responses fd = (x, effects) :: rest) {due : Visit × HttpResponse}
    (howed : Owed (x, effects) due) {sys : System} {written : List (Fd × Bytes)}
    (hread : s.system.readable json fd (System.backendRecvs x.network effects)
      = .ok (sys, written)) :
    written = [(due.1.client, due.2.appendToBuffer)] := by
  obtain ⟨addr, leftover, response, hway, hresponse, haddressed, heffects⟩ :=
    h.responses fd (x, effects) (by rw [hresponses]; exact List.mem_cons_self)
  have h0 := hway.notMem_response addr leftover response hway.address hresponse
  obtain ⟨sys', hread', -, -⟩ := h.ready.readable_response json hway.backend
    hway.address haddressed h0 x.network
  dsimp only at heffects
  rw [← heffects, hread] at hread'
  have hwritten : written = [(x.client, response.appendToBuffer)] :=
    congrArg Prod.snd (Except.ok.inj hread')
  -- the bytes are those of the answer that is due
  have hsame : response.appendToBuffer = due.2.appendToBuffer := by
    have hsends := heffects.symm.trans howed.effects
    rw [List.cons.injEq, ConnEffect.send.injEq] at hsends
    exact hsends.1
  have hclient : x.client = due.1.client := howed.client
  rw [hwritten, hsame, hclient]

omit [DecidableEq π] in
/-- **A step of the traffic is one of the trading post.** -/
theorem Keeps.other (h : Keeps json d s room post) {label : TrafficAct × List (Fd × Bytes)}
    (hproper : s.Proper json d.server label) (hsense : s.MakesSense d label)
    (hact : ∀ fd, label.1 ≠ .serve fd) (hstep : TrafficStep json s label s') :
    ∃ post', TradeStep json d post label post' ∧ Keeps json d s' room post' := by
  obtain ⟨hsound, hwrites⟩ := h.sound.step hproper hstep
  cases hstep with
  | accept _ _ _ => exact ⟨post, .accept post _ _, hsound, h.stock, h.failures, h.waiting, h.due⟩
  | leave _ _ =>
    obtain rfl := hwrites
    exact ⟨post, .leave post _, hsound, h.stock, h.failures, h.waiting, h.due⟩
  | @ask x sys written _ =>
    -- the request is written to one backend, and is the last of its queue
    obtain ⟨fd, addr, hway, hwritten⟩ := hwrites
    dsimp only at hwritten
    subst hwritten
    obtain ⟨w, hmeans⟩ := hsense x rfl fd hway.routes
    refine ⟨_, .ask post addr hmeans, hsound, h.stock, h.failures, fun fd' => ?_, h.due⟩
    dsimp only
    by_cases hfd : fd = fd'
    · subst hfd
      rw [Function.update_self, List.filter_cons, if_pos (decide_eq_true rfl)]
      exact List.rel_append (h.waiting fd) (.cons ⟨rfl, rfl, hmeans⟩ .nil)
    · rw [Function.update_of_ne (Ne.symm hfd), List.filter_cons,
        if_neg (by simpa only [decide_eq_true_eq] using hfd), List.filter_nil, List.map_nil,
        List.append_nil]
      exact h.waiting fd'
  | serve _ _ => exact absurd rfl (hact _)
  | @answer fd x effects rest sys written hresponses hread =>
    -- the oldest answer of the backend is the one that is due first
    obtain ⟨due, dues, howed, hrest, hdue⟩ : ∃ due dues, Owed (x, effects) due ∧
        List.Forall₂ Owed rest dues ∧ post.due fd = due :: dues := by
      have hall := h.due fd
      rw [hresponses, List.forall₂_cons_left_iff] at hall
      obtain ⟨due, dues, howed, hrest, hdue⟩ := hall
      exact ⟨due, dues, howed, hrest, hdue⟩
    obtain rfl := h.sound.written_of_owed hresponses howed hread
    exact ⟨_, .answer post hdue, hsound, h.stock, h.failures, h.waiting,
      forall_update_update h.due hrest⟩

/-- **A step of the system is one of the trading post.** -/
theorem Keeps.step (h : Keeps json d s room post) {label : TrafficAct × List (Fd × Bytes)}
    {t : Traffic × Stockroom π δ}
    (hproper : s.Proper json d.server label ∧ s.MakesSense d label)
    (hstep : DeployedStep json d (s, room) label t) :
    ∃ post', (DeployedStep json d (s, room) label t ∧ TradeStep json d post label post') ∧
      Keeps json d t.1 t.2 post' := by
  have hstep' := hstep
  cases hstep with
  | serve hrequests hhanded hexec hserve =>
    obtain ⟨post', htrade, hkeeps⟩ := h.serve hrequests hhanded hexec hserve
    exact ⟨post', ⟨hstep', htrade⟩, hkeeps⟩
  | other _ hact htraffic =>
    obtain ⟨post', htrade, hkeeps⟩ := h.other hproper.1 hproper.2 hact htraffic
    exact ⟨post', ⟨hstep', htrade⟩, hkeeps⟩

end Keeps

/-! ## The system is a trading post -/

/-- **The system is a trading post**: in every run from a system between two
requests on in which the requests are proper and make sense to their backends,
and clients that leave have none on their way, the same happens at a trading
post with the stocks of the databases. What the databases have at the end, the
trading post has; and together with what the clients have been told they have
bought, and what they are still to be told, it is what was there at the
beginning.

The trading post turns a client away exactly as often as a call on the database of its
shop has failed: each step of the run has a step of the trading post with the same
label, and the two counts are the same at its end, for every run and so for every
part of it from the beginning on. -/
theorem traded_of_run {π δ : Type} [DecidableEq π] [DecidableEq δ] {json : JsonWriter}
    {d : Deployment π δ} {sys : System} (hready : sys.Ready) {room : Stockroom π δ}
    {stock : δ → ℕ → ℕ}
    (hstock : ∀ b n, (room.store b).stock n = stock b n ∧ stock b n < 2 ^ 31)
    {steps : List ((Traffic × Stockroom π δ) × (TrafficAct × List (Fd × Bytes)))}
    {s : Traffic × Stockroom π δ}
    (hrun : Run (DeployedStep json d) ({ system := sys }, room) steps s)
    (hproper : Meets (fun x label => x.1.Proper json d.server label ∧ x.1.MakesSense d label)
      steps) :
    ∃ steps' post, Run (fun x label y => DeployedStep json d x.1 label y.1 ∧
          TradeStep json d x.2 label y.2) (({ system := sys }, room), room.opened stock) steps'
        (s, post)
      ∧ steps'.map (fun x => (x.1.1, x.2)) = steps
      ∧ (∀ b n, (s.2.store b).stock n = post.stock b n)
      ∧ (∀ b, (s.2.store b).failures = post.failures b)
      ∧ ∀ F : Finset Fd, (∀ x ∈ steps, ∀ fd, x.2.1 = .serve fd → fd ∈ F) → ∀ b n,
          post.stock b n + post.untold d F b n + (steps'.map fun x => x.1.2.told d b n x.2).sum
            = stock b n := by
  -- both begin with nothing on its way, and with the same stocks
  have hstart : Keeps json d { system := sys } room (room.opened stock) :=
    ⟨⟨hready, fun _ _ h => absurd h List.not_mem_nil, fun _ _ h => absurd h List.not_mem_nil⟩,
      hstock, fun _ => rfl, fun _ => .nil, fun _ => .nil⟩
  have hcompanion : ∃ steps' post, Run (fun x label y => DeployedStep json d x.1 label y.1 ∧
        TradeStep json d x.2 label y.2) (({ system := sys }, room), room.opened stock) steps'
          (s, post)
      ∧ steps'.map (fun x => (x.1.1, x.2)) = steps ∧ Keeps json d s.1 s.2 post
      ∧ Meets (fun x _ => Keeps json d x.1.1 x.1.2 x.2) steps' :=
    @Run.exists_companion _ _ (DeployedStep json d) _ _ (fun x => Keeps json d x.1.1 x.1.2 x.2) _
      (fun _ _ _ _ hkeeps hproper hstep => Keeps.step hkeeps hproper hstep) _ _ _ hrun hproper _
      hstart
  obtain ⟨steps', post, hjoint, hmap, hkeeps, -⟩ := hcompanion
  refine ⟨steps', post, hjoint, hmap, fun b n => (hkeeps.stock b n).1, hkeeps.failures,
    fun F hF b n => ?_⟩
  -- every queue that was served is among those that are counted
  have hserved : Meets (fun _ label => ∀ fd, label.1 = .serve fd → fd ∈ F) steps' := by
    intro x hx
    refine hF (x.1.1, x.2) ?_
    rw [← hmap]
    exact List.mem_map_of_mem hx
  have hstep : ∀ (x : (Traffic × Stockroom π δ) × TradingPost δ)
      (label : TrafficAct × List (Fd × Bytes)) (y : (Traffic × Stockroom π δ) × TradingPost δ),
      (∀ fd ∉ F, x.2.due fd = []) → (∀ fd, label.1 = .serve fd → fd ∈ F) →
      (DeployedStep json d x.1 label y.1 ∧ TradeStep json d x.2 label y.2) →
      (∀ fd ∉ F, y.2.due fd = []) ∧
        y.2.stock b n + y.2.untold d F b n + x.2.told d b n label
          = x.2.stock b n + x.2.untold d F b n :=
    fun _ _ _ hdue hF h => h.2.balance hdue hF
  refine (hjoint.balance hstep hserved fun _ _ => rfl).trans ?_
  show stock b n + ∑ fd ∈ F with d.database fd = b, 0 = stock b n
  rw [Finset.sum_const_zero, Nat.add_zero]

theorem System.proxy_of_receive {sys sys' : System} {fd : Fd} {x : Exchange} {message : Bytes}
    {effects : List ConnEffect} (h : sys.receive fd x message = .ok (sys', effects)) :
    sys'.proxy = sys.proxy := by
  unfold System.receive at h
  cases hmessage : HttpServer.onMessage x.httpCallback (sys.backends fd).context
      ((sys.backends fd).buf ++ message) x.receiveTime with
  | error fault =>
    rw [hmessage] at h
    cases h
  | ok r =>
    rw [hmessage] at h
    cases h
    rfl

/-! ## One request at a time -/

section OneAtATime

variable {π δ : Type} [DecidableEq π] [DecidableEq δ] {json : JsonWriter} {d : Deployment π δ}
  {s : Traffic} {room : Stockroom π δ} {x : Exchange} {addr : InetAddress}

/-- Nothing is on its way. -/
def Traffic.Quiet (s : Traffic) : Prop := ∀ fd, s.requests fd = [] ∧ s.responses fd = []

/-- A request that is asked while nothing else is on its way is the only one. -/
theorem Traffic.Quiet.requests_asked (hquiet : s.Quiet) (x : Exchange) (fd : Fd)
    (message : Bytes) (fd' : Fd) :
    s.requests fd' ++ (([(fd, message)]).filter (fun m => m.1 = fd')).map
      (fun m => (⟨x, m.2⟩ : Passing)) = if fd' = fd then [⟨x, message⟩] else [] := by
  rw [(hquiet fd').1, List.nil_append, List.filter_cons]
  by_cases hfd : fd = fd'
  · rw [if_pos (decide_eq_true hfd), if_pos hfd.symm]
    rfl
  · rw [if_neg (by simpa only [decide_eq_true_eq] using hfd), if_neg (Ne.symm hfd)]
    rfl

/-- **A request is asked, served, and answered** while nothing else is on its way, if its
handler can come to the outcome of the request on any backend. -/
theorem Traffic.Sound.exists_deployed (h : s.Sound json d.server) (hquiet : s.Quiet)
    (hx : x.Proper json d.server s.system.proxy.tables)
    (haddr : s.system.proxy.tables.clientConns[x.client]? = some ⟨x.client, addr⟩)
    (hmeans : ∀ fd, ∃ w, x.Means (d.server fd) w) {next : Stockroom π δ → Prop}
    (hexec : ∀ fd leftover, ∃ y, (Task.onRequest json (d.server fd) (x.parsed addr leftover)
      { closeConnection := false }).Exec (PremisesExec (d.server fd) (d.shelf (d.database fd)) ())
        (room.premises d fd) (x.outcome addr leftover) y ∧ next (room.settle d fd y)) :
    ∃ steps s' room' fd response leftover, Run (DeployedStep json d) (s, room) steps (s', room') ∧
      steps.map Prod.snd = [(.ask x, [(fd, (x.request.withClient addr).bytes)]), (.serve fd, []),
        (.answer fd, [(x.client, response.appendToBuffer)])] ∧
      x.outcome addr leftover = .ok response ∧ fd ≠ x.client ∧
      Meets (fun x label => x.1.Proper json d.server label ∧ x.1.MakesSense d label) steps ∧
      s'.Sound json d.server ∧ s'.Quiet ∧
      s'.system.proxy.tables = s.system.proxy.tables ∧ next room' := by
  obtain ⟨fd, addr', sys, hroutes, hbackend, hnotClient, hclient, hread, -, htables⟩ :=
    h.ready.readable_request hx
  obtain rfl : addr = addr' :=
    congrArg TcpConnectionPtr.peerAddr (Option.some.inj (haddr.symm.trans hclient))
  have hway : x.Underway json d.server s.system.proxy.tables fd addr :=
    ⟨hx, hroutes, hbackend, hclient⟩
  have hask : TrafficStep json s (.ask x, _) _ := .ask hread
  obtain ⟨hsound, -⟩ := h.ask hx hread
  have hrequests := hquiet.requests_asked x fd (x.request.withClient addr).bytes
  have hfirst := (hrequests fd).trans (if_pos rfl)
  obtain ⟨sys', effects, hreceive, hserved⟩ := hsound.serve hfirst
  have hproxy : sys'.proxy = sys.proxy := System.proxy_of_receive hreceive
  obtain ⟨leftover, hback, hparse, hopen⟩ := hway.parseRequest hsound.ready addr
  have hhanded : HttpServer.handed (sys.backends fd).context
      ((sys.backends fd).buf ++ (x.request.withClient addr).bytes) x.receiveTime
        = some (x.parsed addr leftover) := by
    rw [hback, List.nil_append, HttpServer.handed, hparse]
    rfl
  obtain ⟨y, hexec, hnext⟩ := hexec fd leftover
  unfold Exchange.outcome at hexec
  rw [← hopen] at hexec
  -- and so is the answer
  have hresponses : Function.update s.responses fd (s.responses fd ++ [(x, effects)]) fd
      = [(x, effects)] := by
    rw [Function.update_self, (hquiet fd).2, List.nil_append]
  obtain ⟨sys'', written, hread', htables', hanswered, x', addr', leftover', response, hunderway,
    hway', hresponse, -, hwritten⟩ := hserved.answer hresponses
  obtain rfl : x = x' := by
    unfold Traffic.underway at hunderway
    dsimp only at hunderway
    rw [hresponses] at hunderway
    exact Option.some.inj hunderway
  obtain rfl : addr = addr' := by
    have haddress := hway'.address
    dsimp only at haddress
    rw [hproxy, htables] at haddress
    exact congrArg TcpConnectionPtr.peerAddr (Option.some.inj (haddr.symm.trans haddress))
  dsimp only at hwritten
  subst hwritten
  have hask' : ∀ fd', TrafficAct.ask x ≠ .serve fd' := fun _ h => by cases h
  have hanswer' : ∀ fd', TrafficAct.answer fd ≠ .serve fd' := fun _ h => by cases h
  refine ⟨_, _, _, fd, response, leftover', .cons (.other room hask' hask)
    (.cons (.serve hfirst hhanded hexec (.serve hfirst hreceive))
      (.cons (.other _ hanswer' (.answer hresponses hread')) (.nil _))), rfl, hresponse, ?_,
    meets_cons.mpr ⟨⟨hx, fun x' hx' fd' _ => ?_⟩, meets_cons.mpr ⟨⟨trivial, fun x' hx' => ?_⟩,
      meets_cons.mpr ⟨⟨trivial, fun x' hx' => ?_⟩, fun _ h => absurd h List.not_mem_nil⟩⟩⟩,
    hanswered, fun fd' => ?_, ?_, hnext⟩
  · rintro rfl
    rw [hclient] at hnotClient
    cases hnotClient
  · cases hx'
    exact hmeans fd'
  · cases hx'
  · cases hx'
  · constructor
    · dsimp only
      by_cases hfd : fd' = fd
      · rw [hfd, Function.update_self]
      · rw [Function.update_of_ne hfd]
        exact (hrequests fd').trans (if_neg hfd)
    · dsimp only
      by_cases hfd : fd' = fd
      · rw [hfd, Function.update_self]
      · rw [Function.update_of_ne hfd, Function.update_of_ne hfd]
        exact (hquiet fd').2
  · rw [htables']
    exact (congrArg Proxy.tables hproxy).trans htables

end OneAtATime

/-! ## A shop with three pieces -/

/-- A commodity whose row has no null fields. -/
def handCream : Commodity where
  id := some (bytes "1")
  name := some (bytes "hand cream")
  price := bytes "9.90"
  des := some (bytes "50 ml")

/-- It is all there is. -/
def creamShelf : Shelf := { oneWine with item := fun _ => handCream }

/-- All backends are of one kind, with one pool and one database. -/
def creamShop : Deployment Unit Unit where
  server _ := server1
  pool _ := ()
  database _ := ()
  shelf _ := creamShelf

/-- The request of two pieces. -/
def buyTwo : RequestText where
  method := bytes "GET"
  target := bytes "/10001/buy/?commodity_id=1&num=2"
  version := bytes "HTTP/1.1"
  headers := [bytes "Host: a"]

theorem buyTwo_plain : buyTwo.Plain where
  method := Or.inl rfl
  version := rfl
  target := by decide +kernel
  headers := by decide +kernel
  noClient := by decide +kernel
  noClose := by decide +kernel

/-- What becomes of it by these stocks. -/
def twoSold (stock : ℕ → ℕ) (resp : HttpResponse) (client : Bytes) : HttpResponse × (ℕ → ℕ) :=
  creamShelf.sell silentWriter server1 resp client 1 2 stock

/-- The first client asks for two pieces when these are the stocks. -/
def asksForTwo (stock : ℕ → ℕ) : Exchange where
  client := 7
  request := buyTwo
  receiveTime := 0
  network := fullNetwork
  httpCallback req resp := .ok (twoSold stock resp (req.getHeader (bytes "Client"))).1

/-- The answer to it. -/
def twoAnswer (stock : ℕ → ℕ) : HttpResponse :=
  (twoSold stock { closeConnection := false } clientA.ipPort).1

section AsksForTwo

variable {stock : ℕ → ℕ}

theorem asksForTwo_fresh (stock : ℕ → ℕ) : (asksForTwo stock).fresh.path = server1.buyPath ∧
    (asksForTwo stock).fresh.getQuery (bytes "commodity_id") = .ok (bytes "1") ∧
    (asksForTwo stock).fresh.getQuery (bytes "num") = .ok (bytes "2") := by
  have hfresh : (buyTwo.readInto {} 0).path = server1.buyPath ∧
      (buyTwo.readInto {} 0).getQuery (bytes "commodity_id") = .ok (bytes "1") ∧
      (buyTwo.readInto {} 0).getQuery (bytes "num") = .ok (bytes "2") := by decide +kernel
  exact hfresh

theorem asksForTwo_means (stock : ℕ → ℕ) : (asksForTwo stock).Means server1 (.buy 1 2) := by
  obtain ⟨hpath, hid, hnum⟩ := asksForTwo_fresh stock
  exact .buy hpath hid hnum (by decide) (by decide) (by decide +kernel) (by decide +kernel)
    (by decide +kernel)

theorem asksForTwo_outcome (addr : InetAddress) (leftover : StdMap Bytes Bytes) :
    (asksForTwo stock).outcome addr leftover
      = .ok (twoSold stock { closeConnection := false } addr.ipPort).1 := by
  have hheader : ((asksForTwo stock).parsed addr leftover).getHeader (bytes "Client")
      = addr.ipPort := buyTwo_plain.getHeader_client addr _ 0
  unfold Exchange.outcome
  rw [← hheader]
  rfl

/-- **The handler comes to the answer**, by these stocks, and none of its calls fails. -/
theorem asksForTwo_exec {store : Store}
    (hstock : ∀ n, store.stock n = stock n ∧ stock n < 2 ^ 31) (addr : InetAddress)
    (leftover : StdMap Bytes Bytes) :
    ∃ y, (Task.onRequest silentWriter server1 ((asksForTwo stock).parsed addr leftover)
        { closeConnection := false }).Exec (PremisesExec server1 creamShelf ())
        (none, { connList := [0] }, store) ((asksForTwo stock).outcome addr leftover) y ∧
      y.2.1.connList = [0] ∧ y.2.2.failures = store.failures ∧
      ∀ n, y.2.2.stock n = (twoSold stock { closeConnection := false } addr.ipPort).2 n := by
  obtain ⟨hpath, hid, hnum⟩ := asksForTwo_fresh stock
  obtain ⟨hparsed, hquery⟩ := (asksForTwo stock).parsed_eq addr leftover
  have hdigits : (∀ b ∈ bytes "1", isDigit b = true) ∧ (∀ b ∈ bytes "2", isDigit b = true) ∧
      natOfDigits (bytes "2") < 2 ^ 31 := by decide +kernel
  obtain ⟨y, hexec, hconns, hfailures⟩ : ∃ y, (Task.onRequest silentWriter server1
      ((asksForTwo stock).parsed addr leftover) { closeConnection := false }).Exec
        (PremisesExec server1 creamShelf ()) (none, { connList := [0] }, store)
        ((asksForTwo stock).outcome addr leftover) y ∧
      y.2.1.connList = [0] ∧ y.2.2.failures = store.failures := by
    unfold Task.onRequest
    rw [if_pos (hparsed.trans hpath)]
    exact exists_exec_sell ⟨⟨⟨(asksForTwo stock).parsed addr leftover, bytes "1",
      bytes "2", hquery _ _ hid, hquery _ _ hnum, by decide, by decide⟩, hdigits.2.1,
      hdigits.2.2⟩, hdigits.1⟩ { closeConnection := false } hstock
      (show ([0] : List Conn) = [] ++ [0] from rfl)
  obtain ⟨stock', hstock', ⟨hgranted, -⟩ | ⟨-, haway⟩⟩ :=
    (asksForTwo_means stock).granted buyTwo_plain hstock hexec
  · refine ⟨y, hexec, hconns, hfailures, fun n => (hstock' n).1.trans ?_⟩
    have hsame : stock' = (twoSold stock { closeConnection := false } addr.ipPort).2 :=
      congrArg Prod.snd hgranted
    rw [hsame]
  · rw [hfailures] at haway
    exact absurd haway (Nat.ne_of_lt (Nat.lt_succ_self _))

theorem creamShelf_nonNull : creamShelf.NonNull :=
  fun _ _ => ⟨rfl, rfl, rfl, rfl, rfl⟩

/-- The first client may ask. -/
theorem asksForTwo_proper (hfits : ∀ n, stock n < 2 ^ 31)
    (h0 : 0 ∉ (twoAnswer stock).appendToBuffer) :
    (asksForTwo stock).Proper silentWriter creamShop.server twoClients.proxy.tables where
  client := by
    have hclient : twoClients.proxy.tables.clientConns.contains (7 : Fd) = true := by decide +kernel
    exact hclient
  plain := buyTwo_plain
  location := by
    have hpath : TcpConnection.findForwardPath twoClients.proxy.tables.forwardingTable buyTwo.target
        = some (bytes "/10001/") := by decide +kernel
    exact ⟨bytes "/10001/", hpath⟩
  notMem := by
    have hbytes : 0 ∉ buyTwo.bytes := by decide +kernel
    exact hbytes
  asksProperly _ _ _ := by
    obtain ⟨-, hid, hnum⟩ := asksForTwo_fresh stock
    have hstoi : stoi (bytes "2") = .ok 2 := by decide +kernel
    exact ⟨_, _, 2, hid, by decide, hnum, by decide, hstoi⟩
  mayAnswer fd addr leftover _ _ := by
    have hstock : ∀ n, ({ stock := fun n => stock n } : Store).stock n = stock n
        ∧ stock n < 2 ^ 31 := fun n => ⟨rfl, hfits n⟩
    obtain ⟨y, hexec, -⟩ := asksForTwo_exec hstock addr leftover
    exact mayAnswer_of_exec hexec creamShelf_nonNull nofun
  notMem_response addr leftover r haddr hr := by
    have hlisted : twoClients.proxy.tables.clientConns[(7 : Fd)]? = some ⟨7, clientA⟩ := by
      decide +kernel
    have hsame := Option.some.inj (hlisted.symm.trans haddr)
    cases hsame
    rw [asksForTwo_outcome] at hr
    cases hr
    exact h0

/-- What the backends work with when these are the stocks, and no call has failed. -/
def Stocked (stock : ℕ → ℕ) (room : Stockroom Unit Unit) : Prop :=
  room.connList () = [0] ∧ (room.store ()).failures = 0 ∧
    ∀ n, (room.store ()).stock n = stock n

/-- **The client asks, is served, and is handed the answer.** -/
theorem asksForTwo_deployed {s : Traffic} {room : Stockroom Unit Unit}
    (hsound : s.Sound silentWriter creamShop.server) (hquiet : s.Quiet)
    (htables : s.system.proxy.tables = twoClients.proxy.tables) (hroom : Stocked stock room)
    (hfits : ∀ n, stock n < 2 ^ 31) (h0 : 0 ∉ (twoAnswer stock).appendToBuffer) :
    ∃ steps s' room' fd, Run (DeployedStep silentWriter creamShop) (s, room) steps (s', room') ∧
      steps.map Prod.snd = [(.ask (asksForTwo stock), [(fd, (buyTwo.withClient clientA).bytes)]),
        (.serve fd, []), (.answer fd, [(7, (twoAnswer stock).appendToBuffer)])] ∧ fd ≠ 7 ∧
      Meets (fun x label => x.1.Proper silentWriter creamShop.server label ∧
        x.1.MakesSense creamShop label) steps ∧
      s'.Sound silentWriter creamShop.server ∧ s'.Quiet ∧
      s'.system.proxy.tables = twoClients.proxy.tables ∧
      Stocked (twoSold stock { closeConnection := false } clientA.ipPort).2 room' := by
  have hlisted : twoClients.proxy.tables.clientConns[(7 : Fd)]? = some ⟨7, clientA⟩ := by
    decide +kernel
  obtain ⟨hconns, hfailures, hstock⟩ := hroom
  have hexec : ∀ (fd : Fd) leftover, ∃ y, (Task.onRequest silentWriter (creamShop.server fd)
      ((asksForTwo stock).parsed clientA leftover) { closeConnection := false }).Exec
        (PremisesExec (creamShop.server fd) (creamShop.shelf (creamShop.database fd)) ())
        (room.premises creamShop fd) ((asksForTwo stock).outcome clientA leftover) y ∧
      Stocked (twoSold stock { closeConnection := false } clientA.ipPort).2
        (room.settle creamShop fd y) := by
    intro fd leftover
    obtain ⟨y, hexec, hy, hyfailures, hystock⟩ :=
      asksForTwo_exec (fun n => ⟨hstock n, hfits n⟩) clientA leftover
    rw [← hconns] at hexec
    exact ⟨y, hexec, hy, hyfailures.trans hfailures, hystock⟩
  obtain ⟨steps, s', room', fd, response, leftover, hrun, hlabels, hresponse, hfd, hproper,
    hsound', hquiet', htables', hnext⟩ := hsound.exists_deployed hquiet
      (htables ▸ asksForTwo_proper hfits h0) (htables ▸ hlisted)
      (fun _ => ⟨_, asksForTwo_means stock⟩) hexec
  rw [asksForTwo_outcome] at hresponse
  cases hresponse
  exact ⟨steps, s', room', fd, hrun, hlabels, hfd, hproper, hsound', hquiet',
    htables'.trans htables, hnext⟩

end AsksForTwo

/-- Three pieces of everything. -/
def threeEach : ℕ → ℕ := fun _ => 3

/-- What is left when two of them are sold. -/
def oneLeft : ℕ → ℕ := Function.update threeEach 1 1

theorem twoSold_threeEach (resp : HttpResponse) (client : Bytes) :
    (twoSold threeEach resp client).2 = oneLeft :=
  congrArg Prod.snd (Shelf.sell_of_le (by decide : 1 ∈ creamShelf.numbers) (by decide))

theorem twoSold_oneLeft (resp : HttpResponse) (client : Bytes) :
    (twoSold oneLeft resp client).2 = oneLeft :=
  congrArg Prod.snd (Shelf.sell_of_lt (by decide : 1 ∈ creamShelf.numbers) (by decide))

/-- The system with the two clients and three pieces. -/
def creamRoom : Stockroom Unit Unit := ⟨fun _ => [0], fun _ => { stock := fun n => threeEach n }⟩

theorem creamRoom_stock (b : Unit) (n : ℕ) : (creamRoom.store b).stock n
    = (fun _ => threeEach : Unit → ℕ → ℕ) b n ∧ (fun _ => threeEach : Unit → ℕ → ℕ) b n < 2 ^ 31 :=
  ⟨rfl, (by decide : 3 < 2 ^ 31)⟩

/-- What happens when the client asks twice for two pieces: what it asks, what the backend
receives, and what the client is handed. -/
def asksTwice (fd fd' : Fd) : List (TrafficAct × List (Fd × Bytes)) :=
  [(.ask (asksForTwo threeEach), [(fd, (buyTwo.withClient clientA).bytes)]), (.serve fd, []),
    (.answer fd, [(7, (twoAnswer threeEach).appendToBuffer)]),
    (.ask (asksForTwo oneLeft), [(fd', (buyTwo.withClient clientA).bytes)]), (.serve fd', []),
    (.answer fd', [(7, (twoAnswer oneLeft).appendToBuffer)])]

/-- The client asks twice and is answered twice. -/
theorem creamShop_run : ∃ steps s fd fd',
    Run (DeployedStep silentWriter creamShop) ({ system := twoClients }, creamRoom) steps s ∧
      steps.map Prod.snd = asksTwice fd fd' ∧ fd ≠ 7 ∧ fd' ≠ 7 ∧
      Meets (fun x label => x.1.Proper silentWriter creamShop.server label ∧
        x.1.MakesSense creamShop label) steps ∧ Stocked oneLeft s.2 := by
  have hstart : Traffic.Sound silentWriter creamShop.server { system := twoClients } :=
    ⟨twoClients_ready, fun _ _ h => absurd h List.not_mem_nil,
      fun _ _ h => absurd h List.not_mem_nil⟩
  have hthree : ∀ n, threeEach n < 2 ^ 31 := fun _ => (by decide : 3 < 2 ^ 31)
  have hone : ∀ n, oneLeft n < 2 ^ 31 := by
    intro n
    unfold oneLeft
    rw [Function.update_apply]
    split
    · decide
    · exact hthree n
  obtain ⟨steps, s, room, fd, hrun, hlabels, hfd, hproper, hsound, hquiet, htables, hroom⟩ :=
    asksForTwo_deployed hstart (fun _ => ⟨rfl, rfl⟩) rfl
      (⟨rfl, rfl, fun _ => rfl⟩ : Stocked threeEach creamRoom) hthree (by decide +kernel)
  rw [twoSold_threeEach] at hroom
  obtain ⟨steps', s', room', fd', hrun', hlabels', hfd', hproper', -, -, -, hroom'⟩ :=
    asksForTwo_deployed hsound hquiet htables hroom hone (by decide +kernel)
  rw [twoSold_oneLeft] at hroom'
  refine ⟨_, _, fd, fd', hrun.append hrun', ?_, hfd, hfd', fun x hx => ?_, hroom'⟩
  · rw [List.map_append, hlabels, hlabels']
    rfl
  · rcases List.mem_append.mp hx with hx | hx
    · exact hproper x hx
    · exact hproper' x hx

/-- The trading post sells two pieces, and refuses two more: one piece is left, nobody was
turned away, and the client is told that it has bought two pieces, once. -/
theorem traded_creamShop : ∃ steps s steps' post fd fd',
    Run (DeployedStep silentWriter creamShop) ({ system := twoClients }, creamRoom) steps s ∧
      steps.map Prod.snd = asksTwice fd fd' ∧
      (twoAnswer threeEach).statusCode = .k200Ok ∧
      (twoAnswer oneLeft).statusCode = .k400BadRequest ∧
      Run (fun x label y => DeployedStep silentWriter creamShop x.1 label y.1 ∧
          TradeStep silentWriter creamShop x.2 label y.2)
        (({ system := twoClients }, creamRoom), creamRoom.opened fun _ => threeEach) steps'
        (s, post) ∧
      steps'.map (fun x => (x.1.1, x.2)) = steps ∧ post.stock () 1 = 1 ∧ post.failures () = 0 ∧
      post.stock () 1 + post.untold creamShop {fd, fd'} () 1
        + (steps'.map fun x => x.1.2.told creamShop () 1 x.2).sum = 3 := by
  obtain ⟨steps, s, fd, fd', hrun, hlabels, -, -, hproper, -, hfailures, hleft⟩ := creamShop_run
  obtain ⟨steps', post, hjoint, hmap, hpost, hfails, hsold⟩ :=
    traded_of_run twoClients_ready creamRoom_stock hrun hproper
  have hone : post.stock () 1 = 1 := by
    have hsame := (hpost () 1).symm.trans (hleft 1)
    exact_mod_cast hsame
  refine ⟨steps, s, steps', post, fd, fd', hrun, hlabels, rfl, rfl, hjoint, hmap, hone,
    (hfails ()).symm.trans hfailures, ?_⟩
  refine hsold {fd, fd'} (fun x hx fd'' hact => ?_) () 1
  -- the two descriptors are the only ones that serve
  have hlabel : x.2 ∈ asksTwice fd fd' := hlabels ▸ List.mem_map_of_mem hx
  unfold asksTwice at hlabel
  simp only [List.mem_cons, List.not_mem_nil, or_false] at hlabel
  rcases hlabel with hlabel | hlabel | hlabel | hlabel | hlabel | hlabel
  all_goals rw [hlabel] at hact
  · cases hact
  · cases hact
    exact Finset.mem_insert_self _ _
  · cases hact
  · cases hact
  · cases hact
    exact Finset.mem_insert_of_mem (Finset.mem_singleton_self _)
  · cases hact

end MicroBusiness
