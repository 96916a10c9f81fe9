import MicroBusiness.EventLoop
import MicroBusiness.ForwardedRequest
import MicroBusiness.ResponseDemux

/-!
# From a client to a backend and back

The whole path of a request: the proxy reads it from the client and passes
it on with a client line, the backend parses it and has its handler answer,
and the proxy reads the answer and hands it to the client. A `System` is the
proxy with its connections, and the backends' ends of its connections to
them.

In a serial run requests are handled one at a time, each message arriving in
one read. Every stage leaves the system as it found it, up to what nobody
looks at (`System.Ready`): all buffers are empty, the tables are as they
were, and the backends expect a request line. So each client gets exactly
the answer to its request, and no one else gets anything
(`answered_exchanges`). A system stays ready when a client connects
(`Ready.accept`).
-/

namespace MicroBusiness

open Search TcpConnection

/-! ## The system -/

/-- How text is cut into the chunks that one read delivers. -/
structure Network where
  chunks : Bytes → List Chunk
  flatMap_chunks : ∀ s, (chunks s).flatMap Subtype.val = s

/-- Text cut into chunks of the size of the buffer. -/
def fullChunks (s : Bytes) : List Chunk :=
  if h : s = [] then []
  else ⟨s.take 255, by simpa using h, by simp⟩ :: fullChunks (s.drop 255)
termination_by s.length
decreasing_by
  have hlen := List.length_pos_iff.mpr h
  rw [List.length_drop]
  omega

/-- A network that fills the buffer of each read. -/
def fullNetwork : Network where
  chunks := fullChunks
  flatMap_chunks s := by
    induction s using fullChunks.induct with
    | case1 => rw [fullChunks, dif_pos rfl, List.flatMap_nil]
    | case2 s h ih =>
      rw [fullChunks, dif_neg h, List.flatMap_cons, ih]
      exact List.take_append_drop 255 s

/-- The end of a connection at a backend: its context and what was not
consumed. -/
structure BackendEnd where
  context : HttpContext := {}
  buf : Bytes := []

/-- The proxy, and the backends' ends of its connections by the descriptors
that it has for them. -/
structure System where
  proxy : Proxy
  backends : Fd → BackendEnd

/-- A request of a client and what is done with it: when the backend receives
it, how messages are cut on their way, and what the handler does. -/
structure Exchange where
  client : Fd
  request : RequestText
  receiveTime : Timestamp
  network : Network
  httpCallback : HttpCallback

/-- The request that the backend parses, for the address the proxy adds and
the parameters left behind by earlier requests. -/
def Exchange.parsed (x : Exchange) (addr : InetAddress) (leftover : StdMap Bytes Bytes) :
    HttpRequest :=
  (x.request.withClient addr).readInto { querys := leftover } x.receiveTime

/-- What the callback makes of it. -/
def Exchange.outcome (x : Exchange) (addr : InetAddress) (leftover : StdMap Bytes Bytes) :
    Except Fault HttpResponse :=
  x.httpCallback (x.parsed addr leftover) { closeConnection := false }

/-- The connection an effect of handling a connection writes to, and what. -/
def Effect.written (fd : Fd) : Effect → Fd × Bytes
  | .send fd' message => (fd', message)
  | .reply message => (fd, message)

/-- The bytes that a backend sends. -/
def ConnEffect.bytes : ConnEffect → Bytes
  | .send message => message
  | .shutdown => []

namespace System

/-- A client connects. -/
def accept (sys : System) (fd : Fd) (addr : InetAddress) : System :=
  { sys with proxy := EventLoop.handleNewConnection sys.proxy fd addr }

/-- A connection of the proxy is readable, and is handled. What is written is
the second component. -/
def readable (json : JsonWriter) (sys : System) (fd : Fd) (io : Recvs) :
    Except Fault (System × List (Fd × Bytes)) :=
  match EventLoop.handleMessage sys.proxy fd with
  | none => .ok (sys, [])
  | some conn => do
    let (proxy, effects) ← EventLoop.process json sys.proxy conn io
    return ({ sys with proxy }, effects.map (Effect.written fd))

/-- A backend receives a message on its end of a connection. -/
def receive (sys : System) (fd : Fd) (x : Exchange) (message : Bytes) :
    Except Fault (System × List ConnEffect) := do
  let r ← HttpServer.onMessage x.httpCallback (sys.backends fd).context
    ((sys.backends fd).buf ++ message) x.receiveTime
  return ({ sys with backends := Function.update sys.backends fd ⟨r.context, r.buf⟩ }, r.effects)

/-- What the proxy reads of what a backend has done. -/
def backendRecvs (network : Network) (effects : List ConnEffect) : Recvs where
  chunks := network.chunks (effects.flatMap ConnEffect.bytes)
  ending := if .shutdown ∈ effects then .closed else .wouldBlock

/-- Messages that the proxy has written reach their backends, each in one
piece, and the proxy reads what the backend does with one before the next is
delivered. -/
def deliver (json : JsonWriter) (x : Exchange) :
    System → List (Fd × Bytes) → Except Fault (System × List (Fd × Bytes))
  | sys, [] => return (sys, [])
  | sys, (fd, message) :: messages =>
    if sys.proxy.tables.serverConns.contains fd then do
      let (sys, effects) ← sys.receive fd x message
      let (sys, answers) ← sys.readable json fd (backendRecvs x.network effects)
      let (sys, others) ← deliver json x sys messages
      return (sys, answers ++ others)
    else deliver json x sys messages

/-- **A request is handled**: the proxy reads it, and what it writes to a
backend is delivered. All that the proxy writes is the second component. -/
def exchange (json : JsonWriter) (sys : System) (x : Exchange) :
    Except Fault (System × List (Fd × Bytes)) := do
  let (sys, messages) ← sys.readable json x.client
    ⟨x.network.chunks x.request.bytes, .wouldBlock⟩
  let (sys, answers) ← deliver json x sys messages
  return (sys, messages ++ answers)

/-- **A serial run**: requests are handled one after the other. The result is
what each leaves and writes. -/
def exchanges (json : JsonWriter) :
    System → List Exchange → Except Fault (List (System × List (Fd × Bytes)))
  | _, [] => return []
  | sys, x :: xs => do
    let out ← sys.exchange json x
    let outs ← exchanges json out.1 xs
    return out :: outs

/-! ## Between two requests -/

/-- **A system between two requests**: every client of the tables is connected
and is the one its address is listed for, each location has one backend, the
backends are connected and expect a request line, and all buffers are
empty. -/
structure Ready (sys : System) : Prop where
  listed : sys.proxy.tables.ClientsListed
  clients : ∀ (fd : Fd) (ptr : TcpConnectionPtr), sys.proxy.tables.clientConns[fd]? = some ptr →
    ptr.fd = fd ∧ sys.proxy.tables.clientTable[ptr.peerAddr.ipPort]? = some fd ∧
      ∃ conn : TcpConnection, sys.proxy.conns[fd]? = some conn ∧ conn.type = .client ∧
        conn.peerAddr = ptr.peerAddr
  locations : ∀ (location : Bytes) (fds : List Fd),
    sys.proxy.tables.forwardingTable[location]? = some fds → ∃ fd ptr,
      fds = [fd] ∧ sys.proxy.tables.serverConns[fd]? = some ptr
  servers : ∀ (fd : Fd) (ptr : TcpConnectionPtr), sys.proxy.tables.serverConns[fd]? = some ptr →
    ptr.fd = fd ∧ sys.proxy.tables.clientConns[fd]? = none ∧
      ∃ conn : TcpConnection, sys.proxy.conns[fd]? = some conn ∧ conn.type = .server
  conns : ∀ (fd : Fd) (conn : TcpConnection), sys.proxy.conns[fd]? = some conn →
    conn.sock = fd ∧ conn.readBuf = []
  backends : ∀ fd, ∃ leftover, sys.backends fd = ⟨{ request := { querys := leftover } }, []⟩

/-- What a connection has become does not matter, as long as it is still the
same connection and its buffer is empty. -/
theorem Ready.setConn {sys : System} (h : sys.Ready) {fd : Fd} {conn conn' : TcpConnection}
    (hconn : sys.proxy.conns[fd]? = some conn) (hsock : conn'.sock = fd)
    (htype : conn'.type = conn.type) (hpeer : conn'.peerAddr = conn.peerAddr)
    (hbuf : conn'.readBuf = []) :
    ({ sys with proxy := ⟨sys.proxy.tables, sys.proxy.conns.insert fd conn'⟩ } :
      System).Ready := by
  have hget : ∀ fd', (sys.proxy.conns.insert fd conn')[fd']?
      = if fd = fd' then some conn' else sys.proxy.conns[fd']? :=
    fun fd' => getElem?_insert_ite _ _ _ _
  refine ⟨h.listed, fun fd' ptr hptr => ?_, h.locations, fun fd' ptr hptr => ?_,
    fun fd' c hc => ?_, h.backends⟩
  · obtain ⟨hfd, htable, c, hc, hctype, hcpeer⟩ := h.clients fd' ptr hptr
    refine ⟨hfd, htable, ?_⟩
    dsimp only
    rw [hget]
    by_cases heq : fd = fd'
    · subst heq
      rw [hconn] at hc
      cases hc
      exact ⟨conn', if_pos rfl, htype.trans hctype, hpeer.trans hcpeer⟩
    · exact ⟨c, (if_neg heq).trans hc, hctype, hcpeer⟩
  · obtain ⟨hfd, hnone, c, hc, hctype⟩ := h.servers fd' ptr hptr
    refine ⟨hfd, hnone, ?_⟩
    dsimp only
    rw [hget]
    by_cases heq : fd = fd'
    · subst heq
      rw [hconn] at hc
      cases hc
      exact ⟨conn', if_pos rfl, htype.trans hctype⟩
    · exact ⟨c, (if_neg heq).trans hc, hctype⟩
  · rcases of_getElem?_insert hc with ⟨heq, rfl⟩ | ⟨-, hc⟩
    · exact ⟨hsock.trans heq, hbuf⟩
    · exact h.conns fd' c hc

/-- A backend that has read a request whole expects the next. -/
theorem Ready.setBackend {sys : System} (h : sys.Ready) (fd : Fd)
    (leftover : StdMap Bytes Bytes) :
    ({ sys with
        backends := Function.update sys.backends fd ⟨{ request := { querys := leftover } }, []⟩ } :
      System).Ready := by
  refine ⟨h.listed, h.clients, h.locations, h.servers, h.conns, fun fd' => ?_⟩
  dsimp only
  by_cases heq : fd' = fd
  · subst heq
    exact ⟨leftover, Function.update_self _ _ _⟩
  · rw [Function.update_of_ne heq]
    exact h.backends fd'

/-- **A new client may connect** under a descriptor and an address that are
not in use. -/
theorem Ready.accept {sys : System} (h : sys.Ready) {fd : Fd} {addr : InetAddress}
    (hclient : sys.proxy.tables.clientConns[fd]? = none)
    (hserver : sys.proxy.tables.serverConns[fd]? = none)
    (haddr : sys.proxy.tables.clientTable[addr.ipPort]? = none) :
    (sys.accept fd addr).Ready := by
  -- the tables behind the step, one by one
  have hget : ∀ fd', (sys.accept fd addr).proxy.tables.clientConns[fd']?
      = if fd = fd' then some ⟨fd, addr⟩ else sys.proxy.tables.clientConns[fd']? :=
    EventLoop.getElem?_acceptClient addr hclient
  have htable : ∀ client, (sys.accept fd addr).proxy.tables.clientTable[client]?
      = if addr.ipPort = client then some fd else sys.proxy.tables.clientTable[client]? :=
    fun client => getElem?_insert_ite _ _ _ _
  have hconn : ∀ fd', (sys.accept fd addr).proxy.conns[fd']?
      = if fd = fd' then some { sock := fd, type := .client, peerAddr := addr }
        else sys.proxy.conns[fd']? :=
    EventLoop.conns_handleNewConnection addr hclient
  refine ⟨h.listed.acceptClient addr hclient, fun fd' ptr hptr => ?_, h.locations,
    fun fd' ptr hptr => ?_, fun fd' conn hc => ?_, h.backends⟩
  · rw [htable, hconn]
    rw [hget] at hptr
    split at hptr
    · next heq =>
      cases hptr
      exact ⟨heq, (if_pos rfl).trans (congrArg some heq), _, if_pos heq, rfl, rfl⟩
    · next hne =>
      obtain ⟨hfd, hlisted, conn, hc, htype, hpeer⟩ := h.clients fd' ptr hptr
      refine ⟨hfd, ?_, conn, (if_neg hne).trans hc, htype, hpeer⟩
      rw [if_neg ?_, hlisted]
      -- another client with this address would be in the table
      intro heq
      rw [← heq, haddr] at hlisted
      cases hlisted
  · obtain ⟨hfd, hnone, conn, hc, htype⟩ := h.servers fd' ptr hptr
    have hne : fd ≠ fd' := by
      rintro rfl
      have hptr' : sys.proxy.tables.serverConns[fd]? = some ptr := hptr
      rw [hserver] at hptr'
      cases hptr'
    exact ⟨hfd, (hget fd').trans ((if_neg hne).trans hnone), conn,
      (hconn fd').trans ((if_neg hne).trans hc), htype⟩
  · rw [hconn] at hc
    split at hc
    · next heq =>
      cases hc
      exact ⟨heq, rfl⟩
    · exact h.conns fd' conn hc

end System

/-! ## A request that is handled -/

/-- The backend that a target leads to. -/
def Tables.Routes (t : Tables) (target : Bytes) (fd : Fd) : Prop :=
  ∃ businessCode, findForwardPath t.forwardingTable target = some businessCode ∧
    (t.forwardingTable[businessCode]?.getD []).head? = some fd

/-- **A request in a serial run**: it is a plain request of a connected
client, its target leads to a location, the handler of that backend is asked
properly by it, and what the callback makes of it is an outcome of this
handler, without zero bytes. -/
structure Exchange.Proper (json : JsonWriter) (server : Fd → Server) (t : Tables)
    (x : Exchange) : Prop where
  client : t.clientConns.contains x.client
  plain : x.request.Plain
  location : ∃ businessCode, findForwardPath t.forwardingTable x.request.target = some businessCode
  notMem : 0 ∉ x.request.bytes
  asksProperly : ∀ fd, t.Routes x.request.target fd →
    AsksProperly (server fd) (x.request.readInto {} x.receiveTime)
  mayAnswer : ∀ fd addr leftover, t.Routes x.request.target fd →
    t.clientConns[x.client]? = some ⟨x.client, addr⟩ →
    MayAnswer (Task.onRequest json (server fd) (x.parsed addr leftover)
      { closeConnection := false }) (x.outcome addr leftover)
  notMem_response : ∀ addr leftover r, t.clientConns[x.client]? = some ⟨x.client, addr⟩ →
    x.outcome addr leftover = .ok r → 0 ∉ r.appendToBuffer

theorem insertClient_bytes {t : Tables} (q : ClientRequest t) (addr : InetAddress) :
    insertClient addr q.bytes = (q.toRequestText.withClient addr).bytes := by
  have hlf : lf ∉ q.line := fun h => q.lf_notMem_firstLine (List.mem_append_left _ h)
  have hinsert := RequestText.insertClient_bytes_append hlf addr []
  rwa [List.append_nil, List.append_nil] at hinsert

namespace System

variable {json : JsonWriter} {server : Fd → Server} {sys : System} {x : Exchange}

theorem plain_chunks (network : Network) {s : Bytes} (hs : 0 ∉ s) :
    Recvs.Plain ⟨network.chunks s, .wouldBlock⟩ ∧
      Recvs.payload ⟨network.chunks s, .wouldBlock⟩ = s := by
  have hpayload : Recvs.payload ⟨network.chunks s, .wouldBlock⟩ = s := network.flatMap_chunks s
  exact ⟨⟨rfl, hpayload.symm ▸ hs⟩, hpayload⟩

theorem readable_eq {fd : Fd} {io : Recvs} {conn : TcpConnection} {proxy : Proxy}
    {effects : List Effect} (hhandle : EventLoop.handleMessage sys.proxy fd = some conn)
    (hprocess : EventLoop.process json sys.proxy conn io = .ok (proxy, effects)) :
    sys.readable json fd io
      = .ok ({ sys with proxy := proxy }, effects.map (Effect.written fd)) := by
  unfold readable
  rw [hhandle]
  dsimp only
  rw [hprocess]
  rfl

theorem handleMessage_client {fd : Fd} {conn : TcpConnection}
    (hfd : sys.proxy.tables.clientConns.contains fd)
    (hconn : sys.proxy.conns[fd]? = some conn) :
    EventLoop.handleMessage sys.proxy fd = some conn := by
  unfold EventLoop.handleMessage
  rw [if_pos hfd, hconn]

theorem handleMessage_server {fd : Fd} {conn : TcpConnection}
    (hclient : sys.proxy.tables.clientConns[fd]? = none)
    (hfd : sys.proxy.tables.serverConns.contains fd)
    (hconn : sys.proxy.conns[fd]? = some conn) :
    EventLoop.handleMessage sys.proxy fd = some conn := by
  have hnot : ¬ sys.proxy.tables.clientConns.contains fd := by
    rw [contains_iff_exists, hclient]
    exact fun h => nomatch h
  unfold EventLoop.handleMessage
  rw [if_neg hnot, if_pos hfd, hconn]

/-- A proper request is one that the proxy accepts. -/
theorem Ready.exists_clientRequest (h : sys.Ready) (hx : x.Proper json server sys.proxy.tables) :
    ∃ q : ClientRequest sys.proxy.tables, q.toRequestText = x.request := by
  obtain ⟨businessCode, hlocation⟩ := hx.location
  obtain ⟨fds, hfds⟩ := contains_iff_exists.mp (contains_of_findForwardPath hlocation)
  obtain ⟨fd, ptr, rfl, hptr⟩ := h.locations businessCode fds hfds
  refine ⟨{ x.request with
    businessCode := businessCode
    backend := fd
    method_eq := hx.plain.method
    version_eq := Or.inl hx.plain.version
    target_eq := hx.plain.target
    location := hlocation
    live := ?_
    connected := ⟨ptr, hptr, (h.servers fd ptr hptr).1⟩
    notMem := hx.notMem }, rfl⟩
  rw [hfds]
  rfl

/-- **The proxy passes a request on** to the backend of its target, with a
client line, and does nothing else. -/
theorem Ready.readable_request (h : sys.Ready) (hx : x.Proper json server sys.proxy.tables) :
    ∃ fd addr sys', sys.proxy.tables.Routes x.request.target fd ∧
      sys.proxy.tables.serverConns.contains fd ∧ sys.proxy.tables.clientConns[fd]? = none ∧
      sys.proxy.tables.clientConns[x.client]? = some ⟨x.client, addr⟩ ∧
      sys.readable json x.client ⟨x.network.chunks x.request.bytes, .wouldBlock⟩
        = .ok (sys', [(fd, (x.request.withClient addr).bytes)]) ∧
      sys'.Ready ∧ sys'.proxy.tables = sys.proxy.tables := by
  obtain ⟨q, hq⟩ := h.exists_clientRequest hx
  obtain ⟨ptr, hptr⟩ := contains_iff_exists.mp hx.client
  obtain ⟨hfd, -, conn, hconn, htype, hpeer⟩ := h.clients x.client ptr hptr
  obtain ⟨hsock, hbuf⟩ := h.conns x.client conn hconn
  obtain ⟨sptr, hsptr, -⟩ := q.connected
  obtain ⟨-, hnotClient, -⟩ := h.servers q.backend sptr hsptr
  obtain ⟨hplain, hpayload⟩ := plain_chunks x.network hx.notMem
  have hrun : doClient2server json sys.proxy.tables conn _ = _ :=
    doClient2server_of_request q hplain (hpayload.trans (by rw [hq])) hbuf
  rw [insertClient_bytes q, hpeer, hq] at hrun
  have hreadable : sys.readable json x.client _ = _ :=
    readable_eq (handleMessage_client hx.client hconn)
      (EventLoop.process_eq (by rw [htype]; exact hrun))
  dsimp only at hreadable
  rw [hsock] at hreadable
  have hroutes : sys.proxy.tables.Routes x.request.target q.backend := by
    rw [← hq]
    exact ⟨q.businessCode, q.location, q.live⟩
  refine ⟨q.backend, ptr.peerAddr, _, hroutes, contains_iff_exists.mpr ⟨sptr, hsptr⟩, hnotClient,
    ?_, hreadable, h.setConn hconn rfl rfl hpeer.symm rfl, rfl⟩
  rw [hptr]
  exact congrArg some (by rw [← hfd])

/-- **The backend answers a request** with the response of its handler, and
expects the next. -/
theorem Ready.receive_request (h : sys.Ready) (hx : x.Proper json server sys.proxy.tables)
    {fd : Fd} (hroutes : sys.proxy.tables.Routes x.request.target fd) {addr : InetAddress}
    (hclient : sys.proxy.tables.clientConns[x.client]? = some ⟨x.client, addr⟩) :
    ∃ sys' leftover response, x.outcome addr leftover = .ok response ∧
      AddressedTo response addr.ipPort ∧
      sys.receive fd x (x.request.withClient addr).bytes
        = .ok (sys', [.send response.appendToBuffer]) ∧
      sys'.Ready ∧ sys'.proxy = sys.proxy := by
  obtain ⟨leftover, hbackend⟩ := h.backends fd
  have hcloses := hx.plain.closes_eq_false addr (r := { querys := leftover }) rfl x.receiveTime
  obtain ⟨response, hresponse, haddressed, hclose⟩ := exists_of_mayAnswer rfl
    (RequestText.asksProperly_withClient (hx.asksProperly fd hroutes) addr leftover)
    (hx.mayAnswer fd addr leftover hroutes hclient)
  rw [hx.plain.getHeader_client] at haddressed
  have hparse := RequestText.parseRequest_bytes (hx.plain.wellFormed_withClient addr)
    (r := { querys := leftover }) rfl [] x.receiveTime
  have hmessage : HttpServer.onMessage x.httpCallback _ _ _ = _ :=
    HttpServer.onMessage_of_gotAll hparse
  have hresponse' : x.httpCallback ((x.request.withClient addr).readInto { querys := leftover }
      x.receiveTime) { closeConnection := false } = .ok response := hresponse
  rw [List.append_nil, HttpServer.onRequest, hcloses, hresponse'] at hmessage
  dsimp only at hmessage
  rw [hclose, if_neg Bool.false_ne_true] at hmessage
  refine ⟨_, leftover, response, hresponse, haddressed, ?_, h.setBackend fd
    (x.parsed addr leftover).querys, rfl⟩
  unfold receive
  rw [hbackend, List.nil_append, hmessage]
  rfl

/-- **The proxy hands a response to its client**, and does nothing else. -/
theorem Ready.readable_response (json : JsonWriter) (h : sys.Ready) {fd client : Fd}
    {addr : InetAddress} (hfd : sys.proxy.tables.serverConns.contains fd)
    (hclient : sys.proxy.tables.clientConns[client]? = some ⟨client, addr⟩)
    {response : HttpResponse} (haddressed : AddressedTo response addr.ipPort)
    (h0 : 0 ∉ response.appendToBuffer) (network : Network) :
    ∃ sys', sys.readable json fd (backendRecvs network [.send response.appendToBuffer])
        = .ok (sys', [(client, response.appendToBuffer)]) ∧
      sys'.Ready ∧ sys'.proxy.tables = sys.proxy.tables := by
  obtain ⟨sptr, hsptr⟩ := contains_iff_exists.mp hfd
  obtain ⟨-, hnotClient, conn, hconn, htype⟩ := h.servers fd sptr hsptr
  obtain ⟨hsock, hbuf⟩ := h.conns fd conn hconn
  obtain ⟨-, hconnected, -⟩ := h.clients client _ hclient
  have hrecvs : backendRecvs network [.send response.appendToBuffer]
      = ⟨network.chunks response.appendToBuffer, .wouldBlock⟩ := by
    unfold backendRecvs
    rw [List.flatMap_singleton]
    rfl
  obtain ⟨hplain, hpayload⟩ := plain_chunks network h0
  let d : Delivery sys.proxy.tables := ⟨response, addr, client, haddressed.client, hconnected, h0⟩
  have hroute : sys.proxy.tables.routeOf response.appendToBuffer = some client :=
    d.routeOf_appendToBuffer haddressed
  have hrun := doServer2client_eq h.listed conn hplain
  rw [hpayload, hbuf, List.nil_append, hroute] at hrun
  dsimp only at hrun
  have hreadable : sys.readable json fd _ = _ :=
    readable_eq (handleMessage_server hnotClient hfd hconn)
      (EventLoop.process_eq (by rw [htype]; exact hrun))
  dsimp only at hreadable
  rw [hsock] at hreadable
  rw [hrecvs]
  exact ⟨_, hreadable, h.setConn hconn rfl rfl rfl rfl, rfl⟩

/-- **A request was answered**: all that the proxy has written is the request
with its client line, to the backend, and to the client the response that the
handler of this backend has made of the request as the backend parsed it. The
tables are the same, and all buffers of the proxy are empty. -/
def Answered (json : JsonWriter) (server : Fd → Server) (t : Tables) (x : Exchange)
    (out : System × List (Fd × Bytes)) : Prop :=
  (∃ fd addr leftover response, t.Routes x.request.target fd ∧ t.clientConns[fd]? = none ∧
    t.clientConns[x.client]? = some ⟨x.client, addr⟩ ∧
    x.outcome addr leftover = .ok response ∧
    MayAnswer (Task.onRequest json (server fd) (x.parsed addr leftover)
      { closeConnection := false }) (.ok response) ∧
    out.2 = [(fd, (x.request.withClient addr).bytes), (x.client, response.appendToBuffer)]) ∧
  out.1.proxy.tables = t ∧
  ∀ (fd : Fd) (conn : TcpConnection), out.1.proxy.conns[fd]? = some conn → conn.readBuf = []

/-- **A request is answered**, and the system is ready for the next. -/
theorem Ready.exchange (h : sys.Ready) (hx : x.Proper json server sys.proxy.tables) :
    ∃ out, sys.exchange json x = .ok out ∧ Answered json server sys.proxy.tables x out ∧
      out.1.Ready := by
  obtain ⟨fd, addr, sys₁, hroutes, hfd, hnotClient, hclient, hrequest, hready₁, htables₁⟩ :=
    h.readable_request hx
  rw [← htables₁] at hx hroutes hfd hclient
  obtain ⟨sys₂, leftover, response, hresponse, haddressed, hreceive, hready₂, hproxy⟩ :=
    hready₁.receive_request hx hroutes hclient
  have hfd₂ := hfd
  have h0 := hx.notMem_response addr leftover response hclient hresponse
  have hanswer := hx.mayAnswer fd addr leftover hroutes hclient
  rw [hresponse] at hanswer
  rw [← hproxy] at hfd₂ hclient
  obtain ⟨sys₃, hreply, hready₃, htables₃⟩ :=
    hready₂.readable_response json hfd₂ hclient haddressed h0 x.network
  have hdeliver : deliver json x sys₁ [(fd, (x.request.withClient addr).bytes)]
      = .ok (sys₃, [(x.client, response.appendToBuffer)]) := by
    rw [deliver, if_pos hfd, hreceive]
    show (sys₂.readable json fd _ >>= _) = _
    rw [hreply]
    rfl
  refine ⟨(sys₃, _), ?_, ⟨⟨fd, addr, leftover, response, ?_, hnotClient, ?_, hresponse, hanswer,
    rfl⟩, ?_, fun fd conn hconn => (hready₃.conns fd conn hconn).2⟩, hready₃⟩
  · unfold System.exchange
    rw [hrequest]
    show (deliver json x sys₁ _ >>= _) = _
    rw [hdeliver]
    rfl
  · rw [← htables₁]
    exact hroutes
  · rw [← htables₁, ← hproxy]
    exact hclient
  · rw [htables₃, hproxy, htables₁]

/-- **End-to-end delivery in serial runs**: from a system between two
requests, every serial run of proper requests comes to its end, and each
request is answered. -/
theorem answered_exchanges (h : sys.Ready) (xs : List Exchange)
    (hxs : ∀ x ∈ xs, x.Proper json server sys.proxy.tables) :
    ∃ outs, sys.exchanges json xs = .ok outs ∧
      List.Forall₂ (Answered json server sys.proxy.tables) xs outs := by
  induction xs generalizing sys with
  | nil => exact ⟨[], rfl, .nil⟩
  | cons x xs ih =>
    obtain ⟨out, hout, hanswered, hready⟩ := h.exchange (hxs x List.mem_cons_self)
    have htables : out.1.proxy.tables = sys.proxy.tables := hanswered.2.1
    obtain ⟨outs, houts, hall⟩ := ih hready (fun x hx => by
      rw [htables]
      exact hxs x (List.mem_cons_of_mem _ hx))
    rw [htables] at hall
    refine ⟨out :: outs, ?_, .cons hanswered hall⟩
    unfold System.exchanges
    rw [hout]
    show (out.1.exchanges json xs >>= _) = _
    rw [houts]
    rfl

end System

/-! ## Two clients -/

/-- The proxy with its connection to a backend, before a client connects. -/
def oneBackend : System where
  proxy :=
    { tables :=
        { forwardingTable := (∅ : StdMap Bytes (List Fd)).insert (bytes "/10001/") [4]
          serverConns := (∅ : StdMap Fd TcpConnectionPtr).insert 4 ⟨4, backendLink.peerAddr⟩ }
      conns := (∅ : StdMap Fd TcpConnection).insert 4 backendLink }
  backends _ := {}

/-- The proxy is ready for clients. -/
theorem oneBackend_ready : oneBackend.Ready := by
  have hconn : ∀ fd : Fd, oneBackend.proxy.conns[fd]? = if 4 = fd then some backendLink else none :=
    fun fd => (getElem?_insert_ite _ _ _ _).trans (by rw [Std.ExtTreeMap.getElem?_empty])
  have hserver : ∀ fd : Fd, oneBackend.proxy.tables.serverConns[fd]?
      = if 4 = fd then some ⟨4, backendLink.peerAddr⟩ else none :=
    fun fd => (getElem?_insert_ite _ _ _ _).trans (by rw [Std.ExtTreeMap.getElem?_empty])
  have hlocation : ∀ location : Bytes, oneBackend.proxy.tables.forwardingTable[location]?
      = if bytes "/10001/" = location then some [4] else none :=
    fun location => (getElem?_insert_ite _ _ _ _).trans (by rw [Std.ExtTreeMap.getElem?_empty])
  have hnoClient : ∀ fd : Fd, oneBackend.proxy.tables.clientConns[fd]? = none :=
    fun fd => Std.ExtTreeMap.getElem?_empty
  have hnoAddress : ∀ client : Bytes, oneBackend.proxy.tables.clientTable[client]? = none :=
    fun client => Std.ExtTreeMap.getElem?_empty
  refine ⟨fun client fd h => ?_, fun fd ptr h => ?_, fun location fds h => ?_, fun fd ptr h => ?_,
    fun fd conn h => ?_, fun fd => ⟨∅, rfl⟩⟩
  · rw [hnoAddress] at h
    cases h
  · rw [hnoClient] at h
    cases h
  · rw [hlocation] at h
    split at h
    · cases h
      exact ⟨4, _, rfl, (hserver 4).trans (if_pos rfl)⟩
    · cases h
  · rw [hserver] at h
    split at h
    · next heq =>
      cases h
      exact ⟨heq, hnoClient fd, backendLink, (hconn fd).trans (if_pos heq), rfl⟩
    · cases h
  · rw [hconn] at h
    split at h
    · next heq =>
      cases h
      exact ⟨heq, rfl⟩
    · cases h

/-- The proxy with two clients connected. -/
def twoClients : System := (oneBackend.accept 7 clientA).accept 8 clientB

theorem twoClients_ready : twoClients.Ready := by
  have hone : (oneBackend.accept 7 clientA).Ready :=
    oneBackend_ready.accept (by decide +kernel) (by decide +kernel) (by decide +kernel)
  exact hone.accept (by decide +kernel) (by decide +kernel) (by decide +kernel)

theorem showCommodities_plain : showCommodities.Plain where
  method := Or.inl rfl
  version := rfl
  target := showCommodities.target_eq
  headers := by decide +kernel
  noClient := by decide +kernel
  noClose := by decide +kernel

/-- A client asks to be shown the commodities, and there are none. -/
def showEmpty (client : Fd) : Exchange where
  client := client
  request := showCommodities.toRequestText
  receiveTime := 0
  network := fullNetwork
  httpCallback req resp := .ok (Task.sucessHandle silentWriter resp .k200Ok (bytes "OK") (.array [])
    (req.getHeader (bytes "Client")))

/-- The answer to it. -/
def emptyAnswer (addr : InetAddress) : HttpResponse :=
  Task.sucessHandle silentWriter { closeConnection := false } .k200Ok (bytes "OK") (.array [])
    addr.ipPort

theorem showEmpty_path (client : Fd) (addr : InetAddress) (leftover : StdMap Bytes Bytes) :
    ((showEmpty client).parsed addr leftover).path = server1.showPath := by
  obtain ⟨headers, hread⟩ :=
    showCommodities.readInto_withClient addr { querys := leftover } 0
  have hpath : (showCommodities.readInto {} 0).path = server1.showPath := by decide +kernel
  show ((showCommodities.withClient addr).readInto { querys := leftover } 0).path = _
  rw [hread, RequestText.readInto_leftover]
  exact hpath

theorem showEmpty_mayAnswer (client : Fd) (addr : InetAddress) (leftover : StdMap Bytes Bytes) :
    MayAnswer (Task.onRequest silentWriter server1 ((showEmpty client).parsed addr leftover)
      { closeConnection := false }) ((showEmpty client).outcome addr leftover) := by
  unfold Task.onRequest
  rw [showEmpty_path, if_neg (by decide), if_pos rfl]
  have hnull : NonNullReply ⟨.storeResult 0, some ⟨0, []⟩⟩ := fun _ h => absurd h List.not_mem_nil
  unfold Task.doShow
  refine .op (0 : Conn) trivial ?_
  refine .op () trivial ?_
  refine .op false trivial ?_
  refine .op (some (⟨0, []⟩ : MysqlRes)) hnull ?_
  refine .op () trivial ?_
  refine .op () trivial ?_
  exact .op () trivial (.ret _ _)

theorem showEmpty_outcome (client : Fd) (addr : InetAddress) (leftover : StdMap Bytes Bytes) :
    (showEmpty client).outcome addr leftover = .ok (emptyAnswer addr) := by
  have hheader : ((showEmpty client).parsed addr leftover).getHeader (bytes "Client")
      = addr.ipPort := showCommodities_plain.getHeader_client addr _ 0
  unfold Exchange.outcome emptyAnswer
  rw [← hheader]
  rfl

/-- A connected client may ask for it. -/
theorem showEmpty_proper (client : Fd) (addr : InetAddress)
    (hclient : twoClients.proxy.tables.clientConns[client]? = some ⟨client, addr⟩)
    (h0 : 0 ∉ (emptyAnswer addr).appendToBuffer) :
    (showEmpty client).Proper silentWriter (fun _ => server1) twoClients.proxy.tables where
  client := contains_iff_exists.mpr ⟨_, hclient⟩
  plain := showCommodities_plain
  location := by
    have hpath : findForwardPath twoClients.proxy.tables.forwardingTable showCommodities.target
        = some (bytes "/10001/") := by decide +kernel
    exact ⟨bytes "/10001/", hpath⟩
  notMem := showCommodities.notMem
  asksProperly _ _ hpath := by
    have hne : (showCommodities.readInto {} 0).path ≠ server1.buyPath := by decide +kernel
    exact absurd hpath hne
  mayAnswer _ addr leftover _ _ := showEmpty_mayAnswer client addr leftover
  notMem_response addr' leftover r haddr hr := by
    rw [showEmpty_outcome] at hr
    have hsame : twoClients.proxy.tables.clientConns[client]? = some ⟨client, addr'⟩ := haddr
    rw [hclient] at hsame
    cases hsame
    cases hr
    exact h0

/-- Both clients ask, the first of them twice, and are answered. -/
theorem answered_threeShows : ∃ outs,
    twoClients.exchanges silentWriter [showEmpty 7, showEmpty 8, showEmpty 7] = .ok outs ∧
      List.Forall₂ (System.Answered silentWriter (fun _ => server1) twoClients.proxy.tables)
        [showEmpty 7, showEmpty 8, showEmpty 7] outs := by
  have hA := showEmpty_proper 7 clientA (by decide +kernel) (by decide +kernel)
  have hB := showEmpty_proper 8 clientB (by decide +kernel) (by decide +kernel)
  refine System.answered_exchanges twoClients_ready _ (fun x hx => ?_)
  simp only [List.mem_cons, List.not_mem_nil, or_false] at hx
  rcases hx with rfl | rfl | rfl
  · exact hA
  · exact hB
  · exact hA

end MicroBusiness
