import MicroBusiness.EndToEnd
import MicroBusiness.Transition

/-!
# Many requests on their way

Clients do not wait for each other: while one request is on its way to its backend, or its
answer on the way back, others are. Here the messages between the proxy and the backends are
in queues, one for each direction of each connection, and what happens next is any of these:
a client connects, leaves, or asks, a backend receives the next message, or the proxy reads
what a backend has done next. Each message arrives in one read, as in a serial run.

In every run in which the requests are proper and a client that leaves has no request on its
way, nothing is lost, answered twice, or answered to someone else (`delivered_of_run`): the
requests that a backend is asked are, in order, those that it has answered and those that
are on the way to it or back, each answer goes to the client that has asked, and is what the
handler has made of its request. And whatever is on its way arrives.
-/

namespace MicroBusiness

open Transition TcpConnection

/-! ## Messages on their way -/

/-- A message on its way to a backend, and the request that it is. -/
structure Passing where
  exchange : Exchange
  message : Bytes

/-- A system with the messages on their way, and the requests that they belong to. -/
structure Traffic where
  system : System
  /-- Messages from the proxy, by the descriptor they are sent to. -/
  requests : Fd → List Passing := fun _ => []
  /-- What the backends have done, and the proxy has not read. -/
  responses : Fd → List (Exchange × List ConnEffect) := fun _ => []

/-- What happens next. -/
inductive TrafficAct
  /-- A client connects. -/
  | accept (fd : Fd) (addr : InetAddress)
  /-- A client leaves. -/
  | leave (fd : Fd)
  /-- The proxy reads a request. -/
  | ask (x : Exchange)
  /-- A backend receives the next message. -/
  | serve (fd : Fd)
  /-- The proxy reads what a backend has done next. -/
  | answer (fd : Fd)

/-- **A step of the proxy or of a backend**, with what the proxy writes. -/
inductive TrafficStep (json : JsonWriter) :
    Traffic → TrafficAct × List (Fd × Bytes) → Traffic → Prop
  | accept {s : Traffic} {fd : Fd} {addr : InetAddress} :
      s.system.proxy.tables.clientConns[fd]? = none →
      s.system.proxy.tables.serverConns[fd]? = none →
      s.system.proxy.tables.clientTable[addr.ipPort]? = none →
      TrafficStep json s (.accept fd addr, []) { s with system := s.system.accept fd addr }
  | leave {s : Traffic} {fd : Fd} {sys : System} {written : List (Fd × Bytes)} :
      s.system.proxy.tables.clientConns.contains fd →
      s.system.readable json fd ⟨[], .closed⟩ = .ok (sys, written) →
      TrafficStep json s (.leave fd, written) { s with system := sys }
  | ask {s : Traffic} {x : Exchange} {sys : System} {written : List (Fd × Bytes)} :
      s.system.readable json x.client ⟨x.network.chunks x.request.bytes, .wouldBlock⟩
        = .ok (sys, written) →
      TrafficStep json s (.ask x, written)
        { s with
          system := sys
          requests := fun fd =>
            s.requests fd ++ (written.filter (fun m => m.1 = fd)).map (fun m => ⟨x, m.2⟩) }
  | serve {s : Traffic} {fd : Fd} {p : Passing} {rest : List Passing} {sys : System}
      {effects : List ConnEffect} :
      s.requests fd = p :: rest →
      s.system.receive fd p.exchange p.message = .ok (sys, effects) →
      TrafficStep json s (.serve fd, [])
        { system := sys
          requests := Function.update s.requests fd rest
          responses := Function.update s.responses fd
            (s.responses fd ++ [(p.exchange, effects)]) }
  | answer {s : Traffic} {fd : Fd} {x : Exchange} {effects : List ConnEffect}
      {rest : List (Exchange × List ConnEffect)} {sys : System} {written : List (Fd × Bytes)} :
      s.responses fd = (x, effects) :: rest →
      s.system.readable json fd (System.backendRecvs x.network effects) = .ok (sys, written) →
      TrafficStep json s (.answer fd, written)
        { s with system := sys, responses := Function.update s.responses fd rest }

/-- Requests are proper, and a client that leaves has none on its way. -/
def Traffic.Proper (json : JsonWriter) (server : Fd → Server) (s : Traffic)
    (label : TrafficAct × List (Fd × Bytes)) : Prop :=
  match label.1 with
  | .ask x => x.Proper json server s.system.proxy.tables
  | .leave client => ∀ fd, (∀ p ∈ s.requests fd, p.exchange.client ≠ client) ∧
      ∀ r ∈ s.responses fd, r.1.client ≠ client
  | _ => True

namespace Traffic

/-- The requests on the way to a backend and back, the oldest first. -/
def underway (s : Traffic) (fd : Fd) : List Exchange :=
  (s.responses fd).map Prod.fst ++ (s.requests fd).map Passing.exchange

/-- The requests that a backend is asked in a step. -/
def asks (fd : Fd) (_ : Traffic) (label : TrafficAct × List (Fd × Bytes)) : List Exchange :=
  match label.1 with
  | .ask x => (label.2.filter (fun m => m.1 = fd)).map (fun _ => x)
  | _ => []

/-- The requests whose answers of a backend the proxy reads in a step. -/
def answers (fd : Fd) (s : Traffic) (label : TrafficAct × List (Fd × Bytes)) : List Exchange :=
  match label.1 with
  | .answer fd' => if fd' = fd then ((s.responses fd).head?.map Prod.fst).toList else []
  | _ => []

end Traffic

/-! ## A client leaves -/

namespace System

variable {sys : System}

/-- A system stays ready when a client is forgotten. -/
theorem Ready.forgetClient (h : sys.Ready) {fd : Fd} {addr : InetAddress}
    (hfd : sys.proxy.tables.clientConns[fd]? = some ⟨fd, addr⟩) :
    ({ sys with
        proxy := ⟨TcpConnection.forgetClient sys.proxy.tables fd addr, sys.proxy.conns⟩ } :
      System).Ready := by
  have hclients : ∀ fd', (TcpConnection.forgetClient sys.proxy.tables fd addr).clientConns[fd']?
      = if fd = fd' then none else sys.proxy.tables.clientConns[fd']? :=
    fun fd' => getElem?_erase_ite _ _ _
  obtain ⟨-, hself, -⟩ := h.clients fd _ hfd
  refine ⟨h.listed.forgetClient hfd, fun fd' ptr hptr => ?_, h.locations, fun fd' ptr hptr => ?_,
    h.conns, h.backends⟩
  · rw [hclients] at hptr
    split at hptr
    · cases hptr
    · next hne =>
      obtain ⟨hfd', hlisted, hconn⟩ := h.clients fd' ptr hptr
      refine ⟨hfd', ?_, hconn⟩
      unfold TcpConnection.forgetClient
      dsimp only
      rw [getElem?_erase_ite, if_neg ?_, hlisted]
      intro haddr
      rw [← haddr] at hlisted
      exact hne (Option.some.inj (hself.symm.trans hlisted))
  · obtain ⟨hfd', hnone, hconn⟩ := h.servers fd' ptr hptr
    refine ⟨hfd', ?_, hconn⟩
    dsimp only
    rw [hclients, hnone, ite_self]

/-- **A client may leave**: the proxy forgets it, and does nothing else. -/
theorem Ready.readable_leave (json : JsonWriter) (h : sys.Ready) {fd : Fd}
    (hfd : sys.proxy.tables.clientConns.contains fd) :
    ∃ addr sys', sys.proxy.tables.clientConns[fd]? = some ⟨fd, addr⟩ ∧
      sys.readable json fd ⟨[], .closed⟩ = .ok (sys', []) ∧ sys'.Ready ∧
      sys'.proxy.tables = TcpConnection.forgetClient sys.proxy.tables fd addr := by
  obtain ⟨ptr, hptr⟩ := contains_iff_exists.mp hfd
  obtain ⟨hsame, -, conn, hconn, htype, hpeer⟩ := h.clients fd ptr hptr
  obtain ⟨hsock, hbuf⟩ := h.conns fd conn hconn
  have hptr' : sys.proxy.tables.clientConns[fd]? = some ⟨fd, ptr.peerAddr⟩ := by
    rw [hptr, ← hsame]
  have hrun : doClient2server json sys.proxy.tables conn ⟨[], .closed⟩
      = .ok (TcpConnection.forgetClient sys.proxy.tables conn.sock conn.peerAddr, conn, []) := rfl
  have hreadable : sys.readable json fd _ = _ := readable_eq (handleMessage_client hfd hconn)
    (EventLoop.process_eq (by rw [htype]; exact hrun))
  rw [hsock, hpeer] at hreadable
  exact ⟨ptr.peerAddr, _, hptr', hreadable,
    (h.forgetClient hptr').setConn hconn hsock rfl rfl hbuf, rfl⟩

end System

/-! ## Requests on their way -/

/-- **A request on its way** to a backend or back: it is proper, its target leads to the
backend, and its client is connected. -/
structure Exchange.Underway (json : JsonWriter) (server : Fd → Server) (t : Tables) (fd : Fd)
    (addr : InetAddress) (x : Exchange) : Prop extends x.Proper json server t where
  routes : t.Routes x.request.target fd
  backend : t.serverConns.contains fd
  address : t.clientConns[x.client]? = some ⟨x.client, addr⟩

/-- A request is still on its way when other clients come and go. -/
theorem Exchange.Underway.of_tables {json : JsonWriter} {server : Fd → Server} {t t' : Tables}
    {fd : Fd} {addr : InetAddress} {x : Exchange} (h : x.Underway json server t fd addr)
    (hforwarding : t'.forwardingTable = t.forwardingTable)
    (hservers : t'.serverConns = t.serverConns)
    (hclient : t'.clientConns[x.client]? = t.clientConns[x.client]?) :
    x.Underway json server t' fd addr := by
  have hroutes : ∀ target fd, t'.Routes target fd ↔ t.Routes target fd := by
    intro target fd
    unfold Tables.Routes
    rw [hforwarding]
  refine ⟨⟨?_, h.plain, ?_, h.notMem, fun fd hfd => h.asksProperly fd ((hroutes _ _).mp hfd),
    fun fd addr leftover hfd haddr => ?_, fun addr leftover r haddr => ?_⟩,
    (hroutes _ _).mpr h.routes, hservers ▸ h.backend, hclient.trans h.address⟩
  · exact contains_iff_exists.mpr ⟨_, hclient.trans h.address⟩
  · rw [hforwarding]
    exact h.location
  · exact h.mayAnswer fd addr leftover ((hroutes _ _).mp hfd) (hclient.symm.trans haddr)
  · exact h.notMem_response addr leftover r (hclient.symm.trans haddr)

/-- **What is on its way**: the requests in the queues to the backends have the client line of
their clients, and what is in the queues back are responses of the handlers, each addressed
to the client that has asked. -/
structure Traffic.Sound (json : JsonWriter) (server : Fd → Server) (s : Traffic) : Prop where
  ready : s.system.Ready
  requests : ∀ fd, ∀ p ∈ s.requests fd, ∃ addr,
    p.exchange.Underway json server s.system.proxy.tables fd addr ∧
      p.message = (p.exchange.request.withClient addr).bytes
  responses : ∀ fd, ∀ r ∈ s.responses fd, ∃ addr leftover response,
    r.1.Underway json server s.system.proxy.tables fd addr ∧
      r.1.outcome addr leftover = .ok response ∧ AddressedTo response addr.ipPort ∧
      r.2 = [.send response.appendToBuffer]

/-- **What the proxy writes in a step**: a request with the client line of its client, to the
backend of its target, or an answer of the handler to the request that is the oldest on its
way there and back, to the client that has asked; and nothing else. -/
def Traffic.Writes (json : JsonWriter) (server : Fd → Server) (s : Traffic)
    (label : TrafficAct × List (Fd × Bytes)) : Prop :=
  match label.1 with
  | .ask x => ∃ fd addr, x.Underway json server s.system.proxy.tables fd addr ∧
      label.2 = [(fd, (x.request.withClient addr).bytes)]
  | .answer fd => ∃ x addr leftover response, (s.underway fd).head? = some x ∧
      x.Underway json server s.system.proxy.tables fd addr ∧
      x.outcome addr leftover = .ok response ∧
      MayAnswer (Task.onRequest json (server fd) (x.parsed addr leftover)
        { closeConnection := false }) (.ok response) ∧
      label.2 = [(x.client, response.appendToBuffer)]
  | _ => label.2 = []

namespace Traffic.Sound

variable {json : JsonWriter} {server : Fd → Server} {s s' : Traffic}

/-- What is on its way stays so when the tables of its client and of the backends do. -/
theorem setSystem (h : s.Sound json server) {sys : System} (hready : sys.Ready)
    (hforwarding : sys.proxy.tables.forwardingTable = s.system.proxy.tables.forwardingTable)
    (hservers : sys.proxy.tables.serverConns = s.system.proxy.tables.serverConns)
    (hclients : ∀ (client : Fd) (ptr : TcpConnectionPtr),
      s.system.proxy.tables.clientConns[client]? = some ptr →
      ((∃ fd, ∃ p ∈ s.requests fd, p.exchange.client = client) ∨
        ∃ fd, ∃ r ∈ s.responses fd, r.1.client = client) →
      sys.proxy.tables.clientConns[client]? = some ptr) :
    Traffic.Sound json server { s with system := sys } where
  ready := hready
  requests := by
    intro fd p hp
    obtain ⟨addr, hway, hmessage⟩ := h.requests fd p hp
    refine ⟨addr, hway.of_tables hforwarding hservers ?_, hmessage⟩
    rw [hway.address]
    exact hclients _ _ hway.address (Or.inl ⟨fd, p, hp, rfl⟩)
  responses := by
    intro fd r hr
    obtain ⟨addr, leftover, response, hway, hrest⟩ := h.responses fd r hr
    refine ⟨addr, leftover, response, hway.of_tables hforwarding hservers ?_, hrest⟩
    rw [hway.address]
    exact hclients _ _ hway.address (Or.inr ⟨fd, r, hr, rfl⟩)

/-- A client connects under a descriptor that no request on its way is of. -/
theorem accept (h : s.Sound json server) {fd : Fd} {addr : InetAddress}
    (hclient : s.system.proxy.tables.clientConns[fd]? = none)
    (hserver : s.system.proxy.tables.serverConns[fd]? = none)
    (haddr : s.system.proxy.tables.clientTable[addr.ipPort]? = none) :
    Traffic.Sound json server { s with system := s.system.accept fd addr } := by
  refine h.setSystem (h.ready.accept hclient hserver haddr) rfl rfl fun client ptr hptr _ => ?_
  refine (EventLoop.getElem?_acceptClient addr hclient client).trans ?_
  rw [if_neg ?_, hptr]
  rintro rfl
  rw [hclient] at hptr
  cases hptr

/-- A client without a request on its way leaves. -/
theorem leave (h : s.Sound json server) {fd : Fd} {sys : System} {written : List (Fd × Bytes)}
    (hnone : ∀ b, (∀ p ∈ s.requests b, p.exchange.client ≠ fd) ∧
      ∀ r ∈ s.responses b, r.1.client ≠ fd)
    (hfd : s.system.proxy.tables.clientConns.contains fd)
    (hread : s.system.readable json fd ⟨[], .closed⟩ = .ok (sys, written)) :
    Traffic.Sound json server { s with system := sys } ∧ written = [] := by
  obtain ⟨addr, sys', hclient, hread', hready, htables⟩ := h.ready.readable_leave json hfd
  cases hread.symm.trans hread'
  refine ⟨h.setSystem hready (by rw [htables]; rfl) (by rw [htables]; rfl)
    fun client ptr hptr hway => ?_, rfl⟩
  have hne : fd ≠ client := by
    rintro rfl
    rcases hway with ⟨b, p, hp, heq⟩ | ⟨b, r, hr, heq⟩
    · exact (hnone b).1 p hp heq
    · exact (hnone b).2 r hr heq
  rw [htables]
  unfold TcpConnection.forgetClient
  dsimp only
  rw [getElem?_erase_ite, if_neg hne, hptr]

/-- A request is on its way to its backend. -/
theorem ask (h : s.Sound json server) {x : Exchange} {sys : System}
    {written : List (Fd × Bytes)} (hx : x.Proper json server s.system.proxy.tables)
    (hread : s.system.readable json x.client ⟨x.network.chunks x.request.bytes, .wouldBlock⟩
      = .ok (sys, written)) :
    Traffic.Sound json server { s with
      system := sys
      requests := fun fd =>
        s.requests fd ++ (written.filter (fun m => m.1 = fd)).map (fun m => ⟨x, m.2⟩) } ∧
    s.Writes json server (.ask x, written) := by
  obtain ⟨fd, addr, sys', hroutes, hbackend, -, hclient, hread', hready, htables⟩ :=
    h.ready.readable_request hx
  cases hread.symm.trans hread'
  have hway : x.Underway json server s.system.proxy.tables fd addr :=
    ⟨hx, hroutes, hbackend, hclient⟩
  have hsystem : Traffic.Sound json server { s with system := sys } :=
    h.setSystem hready (by rw [htables]) (by rw [htables]) fun _ _ hptr _ => by rw [htables, hptr]
  refine ⟨⟨hready, fun fd' p hp => ?_, hsystem.responses⟩, fd, addr, hway, rfl⟩
  rcases List.mem_append.mp hp with hp | hp
  · exact hsystem.requests fd' p hp
  · obtain ⟨m, hm, rfl⟩ := List.mem_map.mp hp
    obtain ⟨hm, hfd⟩ := List.mem_filter.mp hm
    obtain rfl := List.mem_singleton.mp hm
    obtain rfl : fd = fd' := of_decide_eq_true hfd
    refine ⟨addr, ?_, rfl⟩
    rw [htables]
    exact hway

/-- **A backend answers the request it receives**, with the response of its handler. -/
theorem serve (h : s.Sound json server) {fd : Fd} {p : Passing} {rest : List Passing}
    (hrequests : s.requests fd = p :: rest) :
    ∃ sys effects, s.system.receive fd p.exchange p.message = .ok (sys, effects) ∧
      Traffic.Sound json server
        { system := sys
          requests := Function.update s.requests fd rest
          responses := Function.update s.responses fd
            (s.responses fd ++ [(p.exchange, effects)]) } := by
  obtain ⟨addr, hway, hmessage⟩ := h.requests fd p (by rw [hrequests]; exact List.mem_cons_self)
  obtain ⟨sys, leftover, response, hresponse, haddressed, hreceive, hready, hproxy⟩ :=
    h.ready.receive_request hway.toProper hway.routes hway.address
  rw [← hmessage] at hreceive
  refine ⟨sys, _, hreceive, hready, fun fd' q hq => ?_, fun fd' r hr => ?_⟩
  · dsimp only at hq ⊢
    rw [hproxy]
    refine h.requests fd' q ?_
    rw [Function.update_apply] at hq
    split at hq
    · next heq =>
      rw [heq, hrequests]
      exact List.mem_cons_of_mem p hq
    · exact hq
  · dsimp only at hr ⊢
    rw [hproxy]
    rw [Function.update_apply] at hr
    split at hr
    · next heq =>
      rw [heq]
      rcases List.mem_append.mp hr with hr | hr
      · exact h.responses fd r hr
      · obtain rfl := List.mem_singleton.mp hr
        exact ⟨addr, leftover, response, hway, hresponse, haddressed, rfl⟩
    · exact h.responses fd' r hr

/-- **The proxy hands an answer to the client that has asked.** -/
theorem answer (h : s.Sound json server) {fd : Fd} {x : Exchange} {effects : List ConnEffect}
    {rest : List (Exchange × List ConnEffect)}
    (hresponses : s.responses fd = (x, effects) :: rest) :
    ∃ sys written, s.system.readable json fd (System.backendRecvs x.network effects)
        = .ok (sys, written) ∧ sys.proxy.tables = s.system.proxy.tables ∧
      Traffic.Sound json server
        { s with system := sys, responses := Function.update s.responses fd rest } ∧
      s.Writes json server (.answer fd, written) := by
  obtain ⟨addr, leftover, response, hway, hresponse, haddressed, rfl⟩ :=
    h.responses fd (x, effects) (by rw [hresponses]; exact List.mem_cons_self)
  have h0 := hway.notMem_response addr leftover response hway.address hresponse
  obtain ⟨sys, hread, hready, htables⟩ := h.ready.readable_response json hway.backend hway.address
    haddressed h0 x.network
  have hanswer := hway.mayAnswer fd addr leftover hway.routes hway.address
  rw [hresponse] at hanswer
  have hsystem : Traffic.Sound json server { s with system := sys } :=
    h.setSystem hready (by rw [htables]) (by rw [htables]) fun _ _ hptr _ => by rw [htables, hptr]
  refine ⟨sys, _, hread, htables,
    ⟨hready, hsystem.requests, fun fd' r hr => hsystem.responses fd' r ?_⟩,
    x, addr, leftover, response, ?_, hway, hresponse, hanswer, rfl⟩
  · dsimp only at hr
    rw [Function.update_apply] at hr
    split at hr
    · next heq =>
      rw [heq]
      dsimp only
      rw [hresponses]
      exact List.mem_cons_of_mem _ hr
    · exact hr
  · unfold Traffic.underway
    rw [hresponses]
    rfl

/-- **Every step keeps what is on its way sound**, and writes only what it should. -/
theorem step (h : s.Sound json server) {label : TrafficAct × List (Fd × Bytes)}
    (hproper : s.Proper json server label) (hstep : TrafficStep json s label s') :
    s'.Sound json server ∧ s.Writes json server label := by
  cases hstep with
  | accept hclient hserver haddr => exact ⟨h.accept hclient hserver haddr, rfl⟩
  | leave hfd hread => exact h.leave hproper hfd hread
  | ask hread => exact h.ask hproper hread
  | serve hrequests hreceive =>
    obtain ⟨sys, effects, hreceive', hsound⟩ := h.serve hrequests
    cases hreceive.symm.trans hreceive'
    exact ⟨hsound, rfl⟩
  | answer hresponses hread =>
    obtain ⟨sys, written, hread', -, hsound, hwrites⟩ := h.answer hresponses
    cases hread.symm.trans hread'
    exact ⟨hsound, hwrites⟩

/-- **The vectors and the backends stay as they are.** -/
theorem backends_eq (h : s.Sound json server) {label : TrafficAct × List (Fd × Bytes)}
    (hproper : s.Proper json server label) (hstep : TrafficStep json s label s') :
    s'.system.proxy.tables.forwardingTable = s.system.proxy.tables.forwardingTable ∧
      s'.system.proxy.tables.serverConns = s.system.proxy.tables.serverConns := by
  cases hstep with
  | accept => exact ⟨rfl, rfl⟩
  | leave hfd hread =>
    obtain ⟨addr, sys', -, hread', -, htables⟩ := h.ready.readable_leave json hfd
    cases hread.symm.trans hread'
    rw [htables]
    exact ⟨rfl, rfl⟩
  | ask hread =>
    obtain ⟨fd, addr, sys', -, -, -, -, hread', -, htables⟩ := h.ready.readable_request hproper
    cases hread.symm.trans hread'
    rw [htables]
    exact ⟨rfl, rfl⟩
  | @serve fd p rest sys effects hrequests hreceive =>
    obtain ⟨addr, hway, hmessage⟩ := h.requests fd p (by rw [hrequests]; exact List.mem_cons_self)
    obtain ⟨sys', leftover, response, -, -, hreceive', -, hproxy⟩ :=
      h.ready.receive_request hway.toProper hway.routes hway.address
    rw [← hmessage] at hreceive'
    cases hreceive.symm.trans hreceive'
    dsimp only
    rw [hproxy]
    exact ⟨rfl, rfl⟩
  | @answer fd x effects rest sys written hresponses hread =>
    obtain ⟨addr, leftover, response, hway, hresponse, haddressed, hsent⟩ :=
      h.responses fd (x, effects) (by rw [hresponses]; exact List.mem_cons_self)
    dsimp only at hsent
    subst hsent
    have h0 := hway.notMem_response addr leftover response hway.address hresponse
    obtain ⟨sys', hread', -, htables⟩ := h.ready.readable_response json hway.backend hway.address
      haddressed h0 x.network
    cases hread.symm.trans hread'
    rw [htables]
    exact ⟨rfl, rfl⟩

end Traffic.Sound

/-- **A step is first in, first out** for each backend. -/
theorem TrafficStep.underway {json : JsonWriter} {s s' : Traffic}
    {label : TrafficAct × List (Fd × Bytes)} (hstep : TrafficStep json s label s') (fd : Fd) :
    s.underway fd ++ Traffic.asks fd s label = Traffic.answers fd s label ++ s'.underway fd := by
  unfold Traffic.underway
  cases hstep with
  | accept _ _ _ => exact List.append_nil _
  | leave _ _ => exact List.append_nil _
  | ask _ =>
    unfold Traffic.asks Traffic.answers
    dsimp only
    rw [List.map_append, List.map_map, List.append_assoc]
    rfl
  | @serve fd' p rest sys effects hrequests _ =>
    refine (List.append_nil _).trans ?_
    dsimp only
    by_cases heq : fd = fd'
    · subst heq
      rw [Function.update_self, Function.update_self, hrequests, List.map_append, List.map_cons,
        List.append_assoc]
      rfl
    · rw [Function.update_of_ne heq, Function.update_of_ne heq]
      rfl
  | @answer fd' x effects rest sys written hresponses _ =>
    refine (List.append_nil _).trans ?_
    unfold Traffic.answers
    dsimp only
    by_cases heq : fd' = fd
    · subst heq
      rw [if_pos rfl, Function.update_self, hresponses]
      rfl
    · rw [if_neg heq, Function.update_of_ne (Ne.symm heq)]
      rfl

/-- **Many requests are delivered at the same time**: from a system between two requests on, in
every run in which the requests are proper and a client that leaves has none on its way, the
requests that a backend is asked are, in order, those that it has answered and those that are
on their way; all that the proxy writes are requests to their backends and answers to the
clients that have asked; and whatever is on its way goes on. -/
theorem delivered_of_run {json : JsonWriter} {server : Fd → Server} {sys : System}
    (hready : sys.Ready) {steps : List (Traffic × (TrafficAct × List (Fd × Bytes)))} {s : Traffic}
    (hrun : Run (TrafficStep json) { system := sys } steps s)
    (hproper : Meets (Traffic.Proper json server) steps) :
    (∀ fd, steps.flatMap (fun x => Traffic.asks fd x.1 x.2)
      = steps.flatMap (fun x => Traffic.answers fd x.1 x.2) ++ s.underway fd)
    ∧ Meets (Traffic.Writes json server) steps
    ∧ ∀ fd, (s.requests fd ≠ [] → ∃ s', TrafficStep json s (.serve fd, []) s')
      ∧ (s.responses fd ≠ [] → ∃ written s', TrafficStep json s (.answer fd, written) s') := by
  have hstart : Traffic.Sound json server { system := sys } :=
    ⟨hready, fun _ _ h => absurd h List.not_mem_nil, fun _ _ h => absurd h List.not_mem_nil⟩
  obtain ⟨hsound, hwrites⟩ :=
    hrun.invariant_meets (fun s label t (h : s.Sound json server) hproper hstep =>
      h.step hproper hstep) hproper hstart
  refine ⟨fun fd => hrun.firstIn_firstOut fun s label t hstep => hstep.underway fd, hwrites,
    fun fd => ⟨fun hne => ?_, fun hne => ?_⟩⟩
  · obtain ⟨p, rest, hrequests⟩ := List.exists_cons_of_ne_nil hne
    obtain ⟨sys, effects, hreceive, -⟩ := hsound.serve hrequests
    exact ⟨_, .serve hrequests hreceive⟩
  · obtain ⟨⟨x, effects⟩, rest, hresponses⟩ := List.exists_cons_of_ne_nil hne
    obtain ⟨sys, written, hread, -⟩ := hsound.answer hresponses
    exact ⟨written, _, .answer hresponses hread⟩

/-! ## Two clients -/

/-- A proper request can be asked, and is then on its way to the backend of its target. -/
theorem Traffic.Sound.exists_ask {json : JsonWriter} {server : Fd → Server} {s : Traffic}
    (h : s.Sound json server) {x : Exchange} (hx : x.Proper json server s.system.proxy.tables) :
    ∃ fd written s', s.system.proxy.tables.Routes x.request.target fd ∧
      TrafficStep json s (.ask x, written) s' ∧ s'.Sound json server ∧
      s'.system.proxy.tables = s.system.proxy.tables ∧
      s'.underway fd = s.underway fd ++ [x] := by
  obtain ⟨fd, addr, sys, hroutes, -, -, -, hread, -, htables⟩ := h.ready.readable_request hx
  have hstep : TrafficStep json s (.ask x, _) _ := .ask hread
  refine ⟨fd, _, _, hroutes, hstep, (h.ask hx hread).1, htables, ?_⟩
  have hasks : Traffic.asks fd s (.ask x, [(fd, (x.request.withClient addr).bytes)]) = [x] := by
    unfold Traffic.asks
    dsimp only
    rw [List.filter_cons, if_pos (decide_eq_true rfl)]
    rfl
  have hunderway := hstep.underway fd
  rw [hasks] at hunderway
  exact hunderway.symm

/-- The second client asks before the first is answered. -/
theorem delivered_twoAsks :
    ∃ (steps : List (Traffic × (TrafficAct × List (Fd × Bytes)))) (s : Traffic) (fd : Fd),
      Run (TrafficStep silentWriter) { system := twoClients } steps s
        ∧ s.underway fd = [showEmpty 7, showEmpty 8]
        ∧ Meets (Traffic.Writes silentWriter (fun _ => server1)) steps
        ∧ ((∃ s', TrafficStep silentWriter s (.serve fd, []) s')
          ∨ ∃ written s', TrafficStep silentWriter s (.answer fd, written) s') := by
  have hA := showEmpty_proper 7 clientA (by decide +kernel) (by decide +kernel)
  have hB := showEmpty_proper 8 clientB (by decide +kernel) (by decide +kernel)
  have hstart : Traffic.Sound silentWriter (fun _ => server1) { system := twoClients } :=
    ⟨twoClients_ready, fun _ _ h => absurd h List.not_mem_nil,
      fun _ _ h => absurd h List.not_mem_nil⟩
  obtain ⟨fd, written, s, ⟨location, hlocation, hfd⟩, hstep, hsound, htables, hway⟩ :=
    hstart.exists_ask hA
  rw [← htables] at hB
  obtain ⟨fd', written', s', ⟨location', hlocation', hfd'⟩, hstep', -, -, hway'⟩ :=
    hsound.exists_ask hB
  -- both ask for the same
  obtain rfl : fd = fd' := by
    rw [htables] at hlocation' hfd'
    cases hlocation.symm.trans hlocation'
    exact Option.some.inj (hfd.symm.trans hfd')
  have hrun : Run (TrafficStep silentWriter) { system := twoClients } _ s' :=
    .cons hstep (.cons hstep' (.nil s'))
  have hunderway : s'.underway fd = [showEmpty 7, showEmpty 8] := by
    rw [hway', hway]
    rfl
  obtain ⟨-, hwrites, hgoes⟩ := delivered_of_run twoClients_ready hrun (by
    simp only [meets_cons]
    exact ⟨hA, hB, fun _ h => nomatch h⟩)
  refine ⟨_, s', fd, hrun, hunderway, hwrites, ?_⟩
  unfold Traffic.underway at hunderway
  by_cases hrequests : s'.requests fd = []
  · refine Or.inr ((hgoes fd).2 fun hresponses => ?_)
    rw [hrequests, hresponses] at hunderway
    cases hunderway
  · exact Or.inl ((hgoes fd).1 hrequests)

end MicroBusiness
