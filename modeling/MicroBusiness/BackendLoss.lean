import MicroBusiness.EndToEnd
import MicroBusiness.Failover
import MicroBusiness.Segmentation

/-!
# Losing a backend

All clients of a backend share one connection to it, and the proxy never
connects again: once the backend has shut the connection down, a worker takes
it out of the tables and the backend is gone for everyone. But `onRequest` of
the backend decides about the connection by what the request of one client
says, its version and its `Connection` header, as if the client were at the
other end. And what a request can do to the backend process, or to the way in
which the bytes behind it are read, it does to that connection as well.

A `Cluster` is the proxy with the backends' ends of its connections and the
bytes under way on each. The proxy forwards whatever is in its buffer as soon as
the first line is a request line it can route, be it a part of a request, several
requests, or a request with a body, which the backend takes for the next request.
A backend that finds no request line where it expects one answers that and shuts
the connection down, so a piece in the wrong place costs the connection as well.

A forwarding does no harm if what is in the buffer is whole requests, one after
the other and without bodies, none of which asks for the connection to be closed
or brings down the handler (`Harmless`). What is under way to a backend are
requests then, the first of which the backend may have read in part (`Pending`): on
their way from the proxy to the backend the bytes may be cut anywhere. This stays
so in every run, and no backend is lost (`unharmed_of_run`).
-/

namespace MicroBusiness

open Program Search Transition

/-! ## Steps -/

/-- The backend's end of a connection, with what is under way on it in both
directions, and whether the backend has shut it down. -/
structure Endpoint extends BackendEnd where
  toBackend : Bytes := []
  toProxy : Bytes := []
  shutDown : Bool := false

/-- The proxy, and the backends' ends of its connections by the descriptors
that it has for them. -/
structure Cluster where
  proxy : Proxy
  endpoints : Fd → Endpoint

/-- A backend reads a piece of what is under way to it. A handler that fails
takes the process down, and the connection with it. -/
def Endpoint.receive (e : Endpoint) (httpCallback : HttpCallback) (piece : Bytes) (t : Timestamp) :
    Endpoint :=
  match HttpServer.onMessage httpCallback e.context (e.buf ++ piece) t with
  | .error _ => { e with shutDown := true }
  | .ok r =>
    { context := r.context
      buf := r.buf
      toBackend := e.toBackend.drop piece.length
      toProxy := e.toProxy ++ r.effects.flatMap ConnEffect.bytes
      shutDown := decide (.shutdown ∈ r.effects) }

/-- What can happen to the proxy and its backends. -/
inductive ClusterAct
  /-- A client is accepted under a descriptor. -/
  | accept (fd : Fd) (addr : InetAddress)
  /-- The last pointer to a connection goes away. -/
  | destroy (fd : Fd)
  /-- A worker handles a client's connection, and sends nothing on. -/
  | client (fd : Fd) (io : Recvs)
  /-- A worker forwards to a backend what a client has sent, whatever it is. -/
  | forward (fd : Fd) (io : Recvs) (backend : Fd)
  /-- A backend reads a piece of its input, and has a request that is complete
  handled, with some replies of the database. -/
  | receive (fd : Fd) (piece : Bytes) (t : Timestamp) (replies : DbEvent → Prop)
      (httpCallback : HttpCallback)
  /-- A worker handles the connection of a backend. -/
  | respond (fd : Fd) (io : Recvs)

/-- **A step of the proxy and its backends.** A callback does what the handler of its
backend does, and a connection to a backend ends only when the backend has shut it
down. -/
inductive ClusterStep (json : JsonWriter) (server : Fd → Server) :
    Cluster → ClusterAct → Cluster → Prop
  | accept {s : Cluster} {fd : Fd} {addr : InetAddress} {p' : Proxy} :
      ProxyStep json s.proxy (.accept fd addr) p' →
      ClusterStep json server s (.accept fd addr) { s with proxy := p' }
  | destroy {s : Cluster} {fd : Fd} {p' : Proxy} :
      ProxyStep json s.proxy (.destroy fd) p' →
      ClusterStep json server s (.destroy fd) { s with proxy := p' }
  | client {s : Cluster} {fd : Fd} {io : Recvs} {conn : TcpConnection} {p' : Proxy}
      {effects : List Effect} :
      s.proxy.conns[fd]? = some conn → conn.type = .client →
      EventLoop.process json s.proxy conn io = .ok (p', effects) → sends effects = [] →
      ClusterStep json server s (.client fd io) { s with proxy := p' }
  | forward {s : Cluster} {fd backend : Fd} {io : Recvs} {conn : TcpConnection} {p' : Proxy}
      {message : Bytes} :
      s.proxy.conns[fd]? = some conn → conn.type = .client →
      EventLoop.process json s.proxy conn io = .ok (p', [.send backend message]) →
      ClusterStep json server s (.forward fd io backend)
        ⟨p', Function.update s.endpoints backend
          { s.endpoints backend with toBackend := (s.endpoints backend).toBackend ++ message }⟩
  | receive {s : Cluster} {fd : Fd} {piece rest : Bytes} {t : Timestamp}
      {replies : DbEvent → Prop} {httpCallback : HttpCallback} :
      (s.endpoints fd).shutDown = false → piece ≠ [] →
      (s.endpoints fd).toBackend = piece ++ rest →
      (∀ req,
        HttpServer.handed (s.endpoints fd).context ((s.endpoints fd).buf ++ piece) t = some req →
        (Task.onRequest json (server fd) req { closeConnection := HttpServer.closes req }).Exec
          (fun _ e _ => replies e) ()
          (httpCallback req { closeConnection := HttpServer.closes req }) ()) →
      ClusterStep json server s (.receive fd piece t replies httpCallback)
        { s with
          endpoints := Function.update s.endpoints fd
            ((s.endpoints fd).receive httpCallback piece t) }
  | respond {s : Cluster} {fd : Fd} {io : Recvs} {rest : Bytes} {conn : TcpConnection}
      {p' : Proxy} {effects : List Effect} :
      s.proxy.conns[fd]? = some conn → conn.type = .server →
      (s.endpoints fd).toProxy = io.payload ++ rest →
      (io.ending ≠ .wouldBlock → (s.endpoints fd).shutDown = true) →
      (io.ending = .closed → rest = []) →
      EventLoop.process json s.proxy conn io = .ok (p', effects) →
      ClusterStep json server s (.respond fd io)
        ⟨p', Function.update s.endpoints fd { s.endpoints fd with toProxy := rest }⟩

/-- **No backend is lost**: the table of backends and the vectors of the
locations are as they were, and no connection has been shut down. -/
structure Unharmed (start : Tables) (s : Cluster) : Prop where
  serverConns : s.proxy.tables.serverConns = start.serverConns
  forwardingTable : s.proxy.tables.forwardingTable = start.forwardingTable
  isOpen : ∀ fd, (s.endpoints fd).shutDown = false

/-- **A request that leaves the connection to the backend alone**: it does not
ask for it to be closed, and the handler survives it. -/
structure RequestText.Lasting (s : Server) (q : RequestText) : Prop where
  keepsOpen : q.asksToClose = false
  survives : Survives s (q.readInto {} 0)

/-- **Whole requests are in the buffer** of a client's connection once the worker has
read: one or more, with nothing in front of them, between them or behind them, which are
well formed and of a kind. -/
def Cluster.HoldsRequests (s : Cluster) (kind : RequestText → Prop) (fd : Fd) (io : Recvs) :
    Prop :=
  ∀ conn : TcpConnection, s.proxy.conns[fd]? = some conn →
    ∃ first others, (readn io conn.readBuf).2 = (first :: others).flatMap RequestText.bytes
      ∧ ∀ q ∈ first :: others, q.WellFormed ∧ kind q

/-- **A step that does no harm**: what is forwarded are whole requests that leave the
connection alone, and the database replies without null fields. -/
def Harmless (server : Fd → Server) (s : Cluster) : ClusterAct → Prop
  | .forward fd io backend => s.HoldsRequests (RequestText.Lasting (server backend)) fd io
  | .receive _ _ _ replies _ => ∀ e, replies e → NonNullReply e
  | _ => True

/-! ## What a backend does with a piece of its input -/

section Receive

variable {json : JsonWriter} {s : Server} {e : Endpoint} {leftover : StdMap Bytes Bytes}
  {text piece : Bytes} {t : Timestamp} {replies : DbEvent → Prop} {httpCallback : HttpCallback}
  {q : RequestText}

/-- **A request decides about the connection**: a backend that has read it whole
and survives it shuts the connection down exactly if the request asks for
that. -/
theorem Endpoint.receive_of_complete (hresumes : Resumes e.context e.buf leftover text)
    (hwell : q.WellFormed) (hsurvives : Survives s (q.readInto {} 0)) {unread : Bytes}
    (hcomplete : text ++ piece = q.bytes ++ unread) (hreplies : ∀ e, replies e → NonNullReply e)
    (hcallback : ∀ req, HttpServer.handed e.context (e.buf ++ piece) t = some req →
      (Task.onRequest json s req { closeConnection := HttpServer.closes req }).Exec
        (fun _ e _ => replies e) ()
        (httpCallback req { closeConnection := HttpServer.closes req }) ()) :
    ∃ leftover' answer, e.receive httpCallback piece t =
      { context := { request := { querys := leftover' } }
        buf := unread
        toBackend := e.toBackend.drop piece.length
        toProxy := e.toProxy ++ answer
        shutDown := q.asksToClose } := by
  obtain ⟨t', req, hreq, hparse⟩ := hresumes.of_complete hwell.isWhole hcomplete t
  obtain rfl := hwell.eq_readInto hreq
  have hhanded : HttpServer.handed e.context (e.buf ++ piece) t
      = some ((q.readInto {} t').over leftover) := by
    unfold HttpServer.handed
    rw [hparse]
    rfl
  have hcloses : HttpServer.closes ((q.readInto {} t').over leftover) = q.asksToClose := by
    rw [← RequestText.readInto_leftover, hwell.closes_readInto rfl]
  obtain ⟨response, hresponse, hclose⟩ := Prog.wp_iff.mp
    (leads_responds hreplies (RequestText.survives_readInto hsurvives leftover t'))
    _ () (hcallback _ hhanded)
  have hmessage : HttpServer.onMessage httpCallback e.context (e.buf ++ piece) t = _ :=
    HttpServer.onMessage_of_gotAll hparse
  rw [HttpServer.onRequest, hresponse] at hmessage
  dsimp only at hmessage
  rw [hclose, hcloses] at hmessage
  refine ⟨((q.readInto {} t').over leftover).querys,
    (.send response.appendToBuffer :: if q.asksToClose then [.shutdown] else []).flatMap
      ConnEffect.bytes, ?_⟩
  unfold Endpoint.receive
  rw [hmessage]
  cases q.asksToClose with
  | false => rfl
  | true => rfl

/-- A backend that has not read a request whole waits for more. -/
theorem Endpoint.receive_of_incomplete (hresumes : Resumes e.context e.buf leftover text)
    (hwell : q.WellFormed) {missing : Bytes} (hmissing : missing ≠ [])
    (hincomplete : text ++ piece ++ missing = q.bytes) (httpCallback : HttpCallback)
    (t : Timestamp) :
    ∃ context' buf', Resumes context' buf' leftover (text ++ piece)
      ∧ e.receive httpCallback piece t =
        { context := context'
          buf := buf'
          toBackend := e.toBackend.drop piece.length
          toProxy := e.toProxy } := by
  obtain ⟨context', buf', hresumes', -, hmessage⟩ :=
    hresumes.onMessage_of_incomplete hwell.isWhole hincomplete hmissing httpCallback t
  refine ⟨context', buf', hresumes', ?_⟩
  unfold Endpoint.receive
  rw [hmessage]
  dsimp only
  rw [List.flatMap_nil, List.append_nil]
  rfl

end Receive

/-! ## What is under way to a backend -/

/-- **What is under way to a backend are requests** that leave the connection
alone, the first of which it may have read in part. -/
def Endpoint.Pending (s : Server) (e : Endpoint) : Prop :=
  ∃ (requests : List RequestText) (leftover : StdMap Bytes Bytes) (text : Bytes),
    Resumes e.context e.buf leftover text ∧ text ++ e.toBackend = requests.flatMap RequestText.bytes
      ∧ ∀ q ∈ requests, q.WellFormed ∧ q.Lasting s

namespace Endpoint.Pending

variable {json : JsonWriter} {s : Server} {e : Endpoint}

/-- On a new connection nothing is under way. -/
theorem empty (s : Server) : ({} : Endpoint).Pending s :=
  ⟨[], ∅, [], resumes_self ∅ [], rfl, fun _ h => absurd h List.not_mem_nil⟩

/-- More requests are sent. -/
theorem send (h : e.Pending s) {requests : List RequestText}
    (hall : ∀ q ∈ requests, q.WellFormed ∧ q.Lasting s) :
    ({ e with toBackend := e.toBackend ++ requests.flatMap RequestText.bytes } :
      Endpoint).Pending s := by
  obtain ⟨pending, leftover, text, hresumes, hstream, hpending⟩ := h
  refine ⟨pending ++ requests, leftover, text, hresumes, ?_, ?_⟩
  · show text ++ (e.toBackend ++ requests.flatMap RequestText.bytes) = _
    rw [← List.append_assoc, hstream, List.flatMap_append]
  · intro q hq
    exact (List.mem_append.mp hq).elim (hpending q) (hall q)

/-- What is on its way to the proxy does not matter. -/
theorem setToProxy (h : e.Pending s) (rest : Bytes) :
    ({ e with toProxy := rest } : Endpoint).Pending s := h

/-- **A backend that reads a piece of its input** keeps the connection open, and
what is still under way are requests. -/
theorem receive (h : e.Pending s) {httpCallback : HttpCallback} {piece rest : Bytes}
    {t : Timestamp} {replies : DbEvent → Prop} (hreplies : ∀ e, replies e → NonNullReply e)
    (hpiece : piece ≠ []) (hrest : e.toBackend = piece ++ rest)
    (hcallback : ∀ req, HttpServer.handed e.context (e.buf ++ piece) t = some req →
      (Task.onRequest json s req { closeConnection := HttpServer.closes req }).Exec
        (fun _ e _ => replies e) ()
        (httpCallback req { closeConnection := HttpServer.closes req }) ()) :
    (e.receive httpCallback piece t).Pending s
      ∧ (e.receive httpCallback piece t).shutDown = false := by
  obtain ⟨requests, leftover, text, hresumes, hstream, hall⟩ := h
  have hdrop : e.toBackend.drop piece.length = rest := by
    rw [hrest, List.drop_left]
  rw [hrest] at hstream
  cases requests with
  | nil =>
    exact absurd (List.append_eq_nil_iff.mp (List.append_eq_nil_iff.mp hstream).2).1 hpiece
  | cons q others =>
    rw [List.flatMap_cons] at hstream
    obtain ⟨⟨hwell, hlasting⟩, hothers⟩ := List.forall_mem_cons.mp hall
    rcases complete_or_incomplete hstream with ⟨unread, hcomplete, hunread⟩ |
      ⟨missing, hmissing, hincomplete, -⟩
    · obtain ⟨leftover', answer, hreceive⟩ := Endpoint.receive_of_complete hresumes hwell
        hlasting.survives hcomplete hreplies hcallback
      rw [hreceive]
      refine ⟨⟨others, leftover', unread, resumes_self _ unread, ?_, hothers⟩, hlasting.keepsOpen⟩
      show unread ++ e.toBackend.drop piece.length = _
      rw [hdrop, hunread]
    · obtain ⟨context', buf', hresumes', hreceive⟩ := Endpoint.receive_of_incomplete hresumes hwell
        hmissing hincomplete httpCallback t
      rw [hreceive]
      refine ⟨⟨q :: others, leftover, text ++ piece, hresumes', ?_, hall⟩, rfl⟩
      show text ++ piece ++ e.toBackend.drop piece.length = _
      rw [hdrop, List.append_assoc, hstream, List.flatMap_cons]

end Endpoint.Pending

/-! ## Over a run -/

/-- **A cluster in which no backend is lost**, with requests under way. -/
structure Cluster.Healthy (server : Fd → Server) (start : Tables) (s : Cluster) : Prop
    extends Unharmed start s where
  pending : ∀ fd, (s.endpoints fd).Pending (server fd)

namespace Cluster.Healthy

variable {json : JsonWriter} {server : Fd → Server} {start : Tables} {s s' : Cluster} {p' : Proxy}

/-- A step of the proxy that leaves its backends leaves the cluster healthy. -/
theorem setProxy (h : s.Healthy server start)
    (hserver : p'.tables.serverConns = s.proxy.tables.serverConns)
    (hvector : p'.tables.forwardingTable = s.proxy.tables.forwardingTable) :
    ({ s with proxy := p' } : Cluster).Healthy server start where
  serverConns := hserver.trans h.serverConns
  forwardingTable := hvector.trans h.forwardingTable
  isOpen := h.isOpen
  pending := h.pending

/-- One end of a connection changes, and is still open with requests under
way. -/
theorem setEndpoint (h : s.Healthy server start) {fd : Fd} {e : Endpoint}
    (hopen : e.shutDown = false) (hpending : e.Pending (server fd)) :
    ({ s with endpoints := Function.update s.endpoints fd e } : Cluster).Healthy server start where
  serverConns := h.serverConns
  forwardingTable := h.forwardingTable
  isOpen := (Function.forall_update_iff s.endpoints (fun _ e => e.shutDown = false)).mpr
    ⟨hopen, fun fd' _ => h.isOpen fd'⟩
  pending := (Function.forall_update_iff s.endpoints (fun fd e => e.Pending (server fd))).mpr
    ⟨hpending, fun fd' _ => h.pending fd'⟩

theorem setProxy_of_client (h : s.Healthy server start) {conn : TcpConnection} {io : Recvs}
    {effects : List Effect} (htype : conn.type = .client)
    (hprocess : EventLoop.process json s.proxy conn io = .ok (p', effects)) :
    ({ s with proxy := p' } : Cluster).Healthy server start := by
  obtain ⟨htables, -⟩ := EventLoop.of_process hprocess
  rw [htype] at htables
  split at htables
  · exact h.setProxy (by rw [htables]) (by rw [htables])
  · exact h.setProxy (by rw [htables]; rfl) (by rw [htables]; rfl)

/-- **What the proxy forwards are requests**, the first of them with a client
line. -/
theorem exists_of_forward {fd : Fd} {conn : TcpConnection} {io : Recvs} {backend : Fd}
    {message : Bytes} {server : Server} (htype : conn.type = .client)
    (hconn : s.proxy.conns[fd]? = some conn)
    (hholds : s.HoldsRequests (RequestText.Lasting server) fd io)
    (hprocess : EventLoop.process json s.proxy conn io = .ok (p', [.send backend message])) :
    ∃ requests : List RequestText, message = requests.flatMap RequestText.bytes
      ∧ ∀ q ∈ requests, q.WellFormed ∧ q.Lasting server := by
  obtain ⟨first, others, hread, hall⟩ := hholds conn hconn
  obtain ⟨⟨hfirst, hlasting⟩, hothers⟩ := List.forall_mem_cons.mp hall
  obtain ⟨conn', hrun, -⟩ := EventLoop.exists_of_process hprocess
  rw [htype] at hrun
  obtain ⟨hmessage, -⟩ := TcpConnection.doClient2server_eq_send hrun
  refine ⟨first.withClient conn.peerAddr :: others, ?_, ?_⟩
  · rw [hmessage, hread, List.flatMap_cons,
      RequestText.insertClient_bytes_append hfirst.lf_notMem_line, List.flatMap_cons]
  · -- the client line changes nothing of what the backend goes by
    refine List.forall_mem_cons.mpr ⟨⟨hfirst.withClient conn.peerAddr, ?_⟩, hothers⟩
    exact ⟨(first.asksToClose_withClient conn.peerAddr).trans hlasting.keepsOpen,
      RequestText.survives_withClient hlasting.survives conn.peerAddr⟩

/-- **A harmless step keeps the cluster healthy.** -/
theorem step {act : ClusterAct} (h : s.Healthy server start) (hharmless : Harmless server s act)
    (hstep : ClusterStep json server s act s') : s'.Healthy server start := by
  cases hstep with
  | accept hproxy =>
    cases hproxy with
    | accept addr hfd => exact h.setProxy rfl rfl
  | destroy hproxy =>
    cases hproxy with
    | destroy hclient hserver => exact h.setProxy rfl rfl
  | client hconn htype hprocess hsends => exact h.setProxy_of_client htype hprocess
  | @forward fd backend io conn p' message hconn htype hprocess =>
    obtain ⟨requests, rfl, hrequests⟩ := exists_of_forward htype hconn hharmless hprocess
    exact (h.setProxy_of_client htype hprocess).setEndpoint (h.isOpen backend)
      ((h.pending backend).send hrequests)
  | @receive fd piece rest t replies httpCallback hopen hpiece hrest hcallback =>
    obtain ⟨hpending, hopen'⟩ := (h.pending fd).receive hharmless hpiece hrest hcallback
    exact h.setEndpoint hopen' hpending
  | @respond fd io rest conn p' effects hconn htype hpayload hending hclosed hprocess =>
    -- the connection has not been shut down, so it has not ended
    have hblock : io.ending = .wouldBlock := by
      by_contra hne
      rw [h.isOpen fd] at hending
      exact Bool.false_ne_true (hending hne)
    obtain ⟨htables, -⟩ := EventLoop.of_process hprocess
    rw [if_pos hblock] at htables
    exact (h.setProxy (by rw [htables]) (by rw [htables])).setEndpoint (h.isOpen fd)
      ((h.pending fd).setToProxy rest)

end Cluster.Healthy

end MicroBusiness
