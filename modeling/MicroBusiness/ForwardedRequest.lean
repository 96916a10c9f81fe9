import MicroBusiness.ClientAttribution
import MicroBusiness.HandlerAnswer
import MicroBusiness.RequestForwarding
import MicroBusiness.RequestIsolation

/-!
# What the backend reads of a forwarded request

A request that the proxy forwards is the client's request with one more
header line, the client line, in front of its headers (`withClient`). The
backend reads it on a connection on which earlier requests have left query
parameters behind.

If the client's request has no `Client` header of its own and does not ask
for the connection to be closed, then the backend finds the address of the
client in the `Client` header, keeps the connection open, and asks of the
handler what the client's request asks, whatever was left behind.
-/

namespace MicroBusiness

open Search

/-! ## Adding headers -/

theorem addHeaderLines_setReceiveTime (r : HttpRequest) (t : Timestamp) (lines : List Bytes) :
    (r.setReceiveTime t).addHeaderLines lines = (r.addHeaderLines lines).setReceiveTime t := by
  induction lines generalizing r with
  | nil => rfl
  | cons line lines ih =>
    have hline : (r.setReceiveTime t).addHeaderLine line
        = (r.addHeaderLine line).setReceiveTime t := by
      unfold HttpRequest.addHeaderLine
      split <;> rfl
    show ((r.setReceiveTime t).addHeaderLine line).addHeaderLines lines = _
    rw [hline, ih]
    rfl

theorem exists_of_lastHeader {field value : Bytes} {lines : List Bytes}
    (h : lastHeader field lines = some value) :
    ∃ line ∈ lines, headerName line = field ∧ headerValue line = value := by
  unfold lastHeader at h
  obtain ⟨line, hfind, hvalue⟩ := Option.map_eq_some_iff.mp h
  have hname := List.find?_some hfind
  rw [decide_eq_true_eq] at hname
  exact ⟨line, List.mem_reverse.mp (List.mem_of_find?_eq_some hfind), hname, hvalue⟩

namespace RequestText

variable {q : RequestText}

/-- The request with a client line in front of its headers. -/
def withClient (q : RequestText) (addr : InetAddress) : RequestText :=
  { q with headers := (clientKey ++ addr.ipPort) :: q.headers }

/-- What the proxy forwards of a message that begins with a request: the
request with the client line, and what follows. -/
theorem insertClient_bytes_append (h : lf ∉ q.line) (addr : InetAddress) (rest : Bytes) :
    TcpConnection.insertClient addr (q.bytes ++ rest) = (q.withClient addr).bytes ++ rest := by
  have hinsert := insertClient_crlf addr (q.headers.flatMap (· ++ crlf) ++ (crlf ++ rest)) h
  unfold bytes withClient line at *
  simpa using hinsert

theorem forall_headers_withClient
    (h : ∀ l ∈ q.headers, colon ∈ l ∧ findSub crlf l = none) (addr : InetAddress) :
    ∀ l ∈ (q.withClient addr).headers, colon ∈ l ∧ findSub crlf l = none :=
  List.forall_mem_cons.mpr
    ⟨⟨List.mem_append_left _ (by decide), findSub_pair_eq_none (lf_notMem_clientLine addr)⟩, h⟩

/-- With a client line a request is still well formed. -/
theorem WellFormed.withClient (h : q.WellFormed) (addr : InetAddress) :
    (q.withClient addr).WellFormed where
  method := h.method
  target := h.target
  version := h.version
  headers := forall_headers_withClient h.headers addr

/-- **Whether a request asks for the connection to be closed**: its last
`Connection` header says so, or it is one of HTTP/1.0 that does not ask for it
to be kept. -/
def asksToClose (q : RequestText) : Bool :=
  lastHeader (MicroBusiness.bytes "Connection") q.headers = some (MicroBusiness.bytes "close")
    || (q.version = MicroBusiness.bytes "HTTP/1.0"
      && lastHeader (MicroBusiness.bytes "Connection") q.headers
        ≠ some (MicroBusiness.bytes "Keep-Alive"))

theorem asksToClose_withClient (q : RequestText) (addr : InetAddress) :
    (q.withClient addr).asksToClose = q.asksToClose := by
  have hlast : lastHeader (MicroBusiness.bytes "Connection") (q.withClient addr).headers
      = lastHeader (MicroBusiness.bytes "Connection") q.headers := by
    unfold withClient
    rw [lastHeader_cons, if_neg (by rw [(headerName_clientLine addr).1]; decide), Option.or_none]
  unfold asksToClose
  rw [hlast]
  rfl

/-- **The backend closes the connection when it is asked to.** -/
theorem WellFormed.closes_readInto (h : q.WellFormed) {r : HttpRequest} (hr : r.headers = ∅)
    (t : Timestamp) : HttpServer.closes (q.readInto r t) = q.asksToClose := by
  have hversion : ((q.readInto r t).version = .kHttp10)
      = (q.version = MicroBusiness.bytes "HTTP/1.0") := by
    unfold readInto
    rw [HttpRequest.addHeaderLines_eq]
    show ((setProtocol _ q.version).2.version = _) = _
    rcases h.version with hv | hv
    · rw [hv]
      show (Version.kHttp11 = .kHttp10) = _
      exact propext (by decide)
    · rw [hv]
      show (Version.kHttp10 = .kHttp10) = _
      exact propext (by decide)
  have hget : ∀ value : Bytes, value ≠ [] →
      ((q.readInto r t).getHeader (MicroBusiness.bytes "Connection") = value)
        = (lastHeader (MicroBusiness.bytes "Connection") q.headers = some value) := by
    intro value hvalue
    have hheaders : (((setProtocol (setTarget { r with method := methodOf q.method } q.target)
        q.version).2).setReceiveTime t).headers = ∅ := by
      show (setProtocol _ _).2.headers = ∅
      rw [setProtocol_headers, setTarget_headers]
      exact hr
    unfold readInto HttpRequest.getHeader
    rw [getElem?_addHeaderLines _ _ _ (fun l hl => (h.headers l hl).1), hheaders,
      Std.ExtTreeMap.getElem?_empty, Option.or_none]
    cases lastHeader (MicroBusiness.bytes "Connection") q.headers with
    | none => exact propext ⟨fun h => absurd h.symm hvalue, fun h => nomatch h⟩
    | some value' => exact propext ⟨fun h => congrArg some h, fun h => Option.some.inj h⟩
  unfold HttpServer.closes asksToClose
  simp only [ne_eq, hversion, hget _ (by decide : MicroBusiness.bytes "close" ≠ []),
    hget _ (by decide : MicroBusiness.bytes "Keep-Alive" ≠ [])]

/-- **A request of a client as the backends understand it**: one of the two
methods, HTTP/1.1, a target without white space, and header lines that hold a
colon, do not name a client, and do not ask for the connection to be
closed. -/
structure Plain (q : RequestText) : Prop where
  method : q.method = MicroBusiness.bytes "GET" ∨ q.method = MicroBusiness.bytes "POST"
  version : q.version = MicroBusiness.bytes "HTTP/1.1"
  target : ∀ b ∈ q.target, isspace b = false
  headers : ∀ h ∈ q.headers, colon ∈ h ∧ findSub crlf h = none
  noClient : ∀ h ∈ q.headers, headerName h ≠ MicroBusiness.bytes "Client"
  noClose : ∀ h ∈ q.headers, headerName h = MicroBusiness.bytes "Connection" →
    headerValue h ≠ MicroBusiness.bytes "close"

/-- A plain request is well formed. -/
theorem Plain.wellFormed (h : q.Plain) : q.WellFormed where
  method := by
    rcases h.method with hm | hm <;> rw [hm] <;> decide
  target := h.target
  version := Or.inl h.version
  headers := h.headers

theorem Plain.wellFormed_withClient (h : q.Plain) (addr : InetAddress) :
    (q.withClient addr).WellFormed :=
  h.wellFormed.withClient addr

theorem Plain.asksToClose_eq_false (h : q.Plain) : q.asksToClose = false := by
  have hlast : lastHeader (MicroBusiness.bytes "Connection") q.headers
      ≠ some (MicroBusiness.bytes "close") := by
    intro hlast
    obtain ⟨line, hline, hname, hvalue⟩ := exists_of_lastHeader hlast
    exact h.noClose line hline hname hvalue
  have hversion : q.version ≠ MicroBusiness.bytes "HTTP/1.0" := by
    rw [h.version]
    decide
  unfold asksToClose
  rw [decide_eq_false hlast, decide_eq_false hversion]
  rfl

/-- **The backend reads the address of the client.** -/
theorem Plain.getHeader_client (h : q.Plain) (addr : InetAddress) (r : HttpRequest)
    (t : Timestamp) :
    ((q.withClient addr).readInto r t).getHeader (MicroBusiness.bytes "Client") = addr.ipPort := by
  have hget : ((q.withClient addr).readInto r t).getHeader (MicroBusiness.bytes "Client") = _ :=
    getHeader_clientLine _ addr (fun l hl => (h.headers l hl).1)
  rw [hget, lastHeader_eq_none h.noClient]
  rfl

/-- **The backend keeps the connection open.** -/
theorem Plain.closes_eq_false (h : q.Plain) (addr : InetAddress) {r : HttpRequest}
    (hr : r.headers = ∅) (t : Timestamp) :
    HttpServer.closes ((q.withClient addr).readInto r t) = false := by
  rw [(h.wellFormed_withClient addr).closes_readInto hr, asksToClose_withClient]
  exact h.asksToClose_eq_false

theorem readInto_leftover (q : RequestText) (leftover : StdMap Bytes Bytes) (t : Timestamp) :
    q.readInto { querys := leftover } t = (q.readInto {} t).over leftover := by
  unfold readInto
  rw [setTarget_leftover, setProtocol_over, ← addHeaderLines_over]
  rfl

theorem readInto_withClient (q : RequestText) (addr : InetAddress) (r : HttpRequest)
    (t : Timestamp) : ∃ headers, (q.withClient addr).readInto r t
      = { q.readInto r t with headers := headers } := by
  refine ⟨((q.withClient addr).readInto r t).headers, ?_⟩
  unfold readInto
  calc _ = _ := HttpRequest.addHeaderLines_eq _ (q.withClient addr).headers
    _ = _ := by
      rw [HttpRequest.addHeaderLines_eq _ q.headers]
      rfl

theorem getQuery_over {r : HttpRequest} (hr : r.over ∅ = r) (leftover : StdMap Bytes Bytes)
    {field value : Bytes} (h : r.getQuery field = .ok value) :
    (r.over leftover).getQuery field = .ok value := by
  have hvalue : (assign ∅ (queryParams r.query))[field]? = some value := by
    rw [← hr] at h
    unfold HttpRequest.getQuery HttpRequest.over at h
    dsimp only at h
    split at h
    · next hfield =>
      rw [hfield, Except.ok.inj h]
    · cases h
  unfold HttpRequest.getQuery HttpRequest.over
  dsimp only
  rw [getElem?_assign, hvalue]
  rfl

theorem over_empty_readInto (q : RequestText) (t : Timestamp) :
    (q.readInto {} t).over ∅ = q.readInto {} t :=
  (q.readInto_leftover ∅ t).symm

theorem asksProperly_over {s : Server} {r : HttpRequest} (hr : r.over ∅ = r)
    (h : AsksProperly s r) (leftover : StdMap Bytes Bytes) : AsksProperly s (r.over leftover) := by
  intro hpath
  obtain ⟨id, num, n, hid, hid', hnum, hnum', hn⟩ := h hpath
  exact ⟨id, num, n, getQuery_over hr leftover hid, hid', getQuery_over hr leftover hnum, hnum', hn⟩

/-- **The handler is asked properly**, whatever earlier requests have left
behind, if it is by the request alone. -/
theorem asksProperly_withClient {s : Server} {t : Timestamp}
    (h : AsksProperly s (q.readInto {} t)) (addr : InetAddress) (leftover : StdMap Bytes Bytes) :
    AsksProperly s ((q.withClient addr).readInto { querys := leftover } t) := by
  obtain ⟨headers, hread⟩ := q.readInto_withClient addr { querys := leftover } t
  rw [hread, readInto_leftover]
  exact asksProperly_over (q.over_empty_readInto t) h leftover

theorem survives_over {s : Server} {r : HttpRequest} (hr : r.over ∅ = r) (h : Survives s r)
    (leftover : StdMap Bytes Bytes) : Survives s (r.over leftover) := by
  rcases h with ⟨hpath, hid | ⟨id, hid, hnum⟩⟩ | hasks
  · exact Or.inl ⟨hpath, Or.inl (getQuery_over hr leftover hid)⟩
  · exact Or.inl ⟨hpath,
      Or.inr ⟨id, getQuery_over hr leftover hid, getQuery_over hr leftover hnum⟩⟩
  · exact Or.inr (asksProperly_over hr hasks leftover)

theorem readInto_receiveTime (q : RequestText) (r : HttpRequest) (t t' : Timestamp) :
    q.readInto r t = (q.readInto r t').setReceiveTime t := by
  unfold readInto
  rw [addHeaderLines_setReceiveTime, addHeaderLines_setReceiveTime _ t']
  rfl

/-- **A forwarded request is survived**, whenever it is received and whatever
earlier requests have left behind, if it is by itself. -/
theorem survives_readInto {s : Server} {q : RequestText} {t : Timestamp}
    (h : Survives s (q.readInto {} t)) (leftover : StdMap Bytes Bytes) (t' : Timestamp) :
    Survives s ((q.readInto {} t').over leftover) := by
  rw [q.readInto_receiveTime {} t' t]
  exact survives_over (q.over_empty_readInto t) h leftover

theorem survives_withClient {s : Server} {q : RequestText} {t : Timestamp}
    (h : Survives s (q.readInto {} t)) (addr : InetAddress) :
    Survives s ((q.withClient addr).readInto {} t) := by
  obtain ⟨headers, hread⟩ := q.readInto_withClient addr {} t
  rw [hread]
  exact h

end RequestText

end MicroBusiness
