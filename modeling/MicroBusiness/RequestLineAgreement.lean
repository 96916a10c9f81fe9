import MicroBusiness.ClientAttribution
import MicroBusiness.RequestIsolation

/-!
# The two readings of a request line

A request line is cut twice. The proxy takes what comes before the first line
feed, drops its last byte without looking at it, and cuts the rest at the
first and at the last blank (`parseRequestLine`). The backend looks for the
first carriage return that a line feed follows, and cuts what comes before it
at the first and at the second blank (`processRequestLine`).

Where the first line ends in a proper line end and holds two blanks, the two
readings agree: method, version, and the path with its query are the same. Any
other line that the proxy accepts the backend refuses (`refused_insertClient`),
so the two agree on exactly the proper ones (`agrees_iff`).
-/

namespace MicroBusiness

open Search

/-- The version that the last part of a request line names. -/
def versionOf (protocol : Bytes) : Version :=
  if protocol = bytes "HTTP/1.1" then .kHttp11
  else if protocol = bytes "HTTP/1.0" then .kHttp10
  else .kUnknown

/-- **The backend reads a request line as given**: it accepts the first line of
the message, on a connection that is about to read one, with this method and
version, and with this path and query. -/
def ReadsAs (message method path protocol : Bytes) : Prop :=
  ∀ leftover : StdMap Bytes Bytes, ∃ line rest r, cutLine message = some (line, rest)
    ∧ processRequestLine { querys := leftover } line = .ok (true, r)
    ∧ r.method = methodOf method ∧ r.version = versionOf protocol ∧ r.path ++ r.query = path

/-- **Proxy and backend agree on a request line**: what the proxy has read of
the line, with the path it stores, the backend reads of the message. -/
def Agrees (forwardingTable : StdMap Bytes (List Fd)) (line path message : Bytes) : Prop :=
  ∃ method protocol businessCode,
    TcpConnection.AcceptedLine forwardingTable line method path protocol businessCode
      ∧ ReadsAs message method path protocol

/-! ## What a request line sets -/

theorem setTarget_path_query {r : HttpRequest} (target : Bytes) (hr : r.query = []) :
    (setTarget r target).path ++ (setTarget r target).query = target := by
  unfold setTarget
  split
  · exact List.take_append_drop _ target
  · show target ++ r.query = target
    rw [hr, List.append_nil]

theorem setProtocol_eq (r : HttpRequest) {protocol : Bytes}
    (h : protocol = bytes "HTTP/1.1" ∨ protocol = bytes "HTTP/1.0") :
    setProtocol r protocol = (true, r.setVersion (versionOf protocol)) := by
  rcases h with rfl | rfl <;> rfl

section AcceptedLine

variable {forwardingTable : StdMap Bytes (List Fd)} {addr : InetAddress}
  {buf method path protocol businessCode : Bytes}

theorem readsAs_insertClient (hproper : ProperLine buf)
    (h : TcpConnection.AcceptedLine forwardingTable (TcpConnection.getline buf) method path
      protocol businessCode) :
    ReadsAs (TcpConnection.insertClient addr buf) method path protocol := by
  obtain ⟨hpath, hlf, rest, rfl⟩ := hproper.eq_of_accepted h
  intro leftover
  have hproc := processRequestLine_append (r := { querys := leftover }) protocol rfl
    h.blank_notMem_method hpath (AcceptedMethod.known h.method)
  rw [setProtocol_eq _ h.protocol] at hproc
  rw [insertClient_crlf addr rest hlf]
  refine ⟨_, _, _, cutLine_append _ (findSub_pair_eq_none hlf), hproc, ?_, rfl, ?_⟩
  · exact setTarget_method _ path
  · exact setTarget_path_query path rfl

theorem Refused.not_readsAs {message : Bytes} (h : Refused message) :
    ¬ ReadsAs message method path protocol := by
  obtain ⟨line, rest, r, hline, hrefused, -⟩ := h
  intro hreads
  obtain ⟨line', rest', r', hline', haccepted, -⟩ := hreads ∅
  cases hline.symm.trans hline'
  cases hrefused.symm.trans haccepted

end AcceptedLine

/-- **When proxy and backend agree on a request line**: whenever the proxy sends
on what it has read from a client, exactly if the first line of it ends in a
line end and holds two blanks.

The proxy splits the line at its first and at its last blank, the backend at its first
two. With more blanks the two take different texts for the target and the version, and
the backend finds a version that is none. And a line that ends with a line feed alone
loses its last letter in the proxy, while the backend does not take it for a line. -/
theorem agrees_iff {json : JsonWriter} {tables tables' : Tables} {conn conn' : TcpConnection}
    {io : Recvs} {fd : Fd} {message : Bytes}
    (h : TcpConnection.doClient2server json tables conn io
      = .ok (tables', conn', [.send fd message])) :
    Agrees tables.forwardingTable (TcpConnection.getline (readn io conn.readBuf).2) conn'.path
        message
      ↔ ProperLine (readn io conn.readBuf).2 := by
  obtain ⟨rfl, ⟨method, protocol, haccepted⟩, -⟩ := TcpConnection.doClient2server_eq_send h
  constructor
  · rintro ⟨method', protocol', businessCode', haccepted', hreads⟩
    by_contra hproper
    exact (refused_insertClient hproper haccepted').not_readsAs hreads
  · intro hproper
    exact ⟨method, protocol, conn'.businessCode, haccepted,
      readsAs_insertClient hproper haccepted⟩

/-- The request line of an ordinary request is read alike. -/
theorem agrees_showRequest :
    Agrees deployment.forwardingTable (bytes "GET /10001/show/ HTTP/1.1\r") (bytes "/10001/show/")
      (TcpConnection.insertClient clientA (showRequest "Host: a\r\n")) := by
  exact (agrees_iff forwards_showRequest).mpr
    ⟨bytes "GET /10001/show/ HTTP/1.1", bytes "Host: a\r\n\r\n", by decide, by decide,
      by decide⟩

/-- **A target with a blank is forwarded, and refused by the backend.** -/
theorem not_agrees_blank :
    ¬ ∀ (json : JsonWriter) (tables tables' : Tables) (conn conn' : TcpConnection) (io : Recvs)
        (fd : Fd) (message : Bytes),
      TcpConnection.doClient2server json tables conn io
        = .ok (tables', conn', [.send fd message]) →
      Agrees tables.forwardingTable (TcpConnection.getline (readn io conn.readBuf).2) conn'.path
        message := by
  intro h
  have hsend : TcpConnection.doClient2server silentWriter deployment clientLinkA
      ⟨[⟨bytes "GET /10001/show/ x HTTP/1.1\r\n\r\n", by decide +kernel⟩], .wouldBlock⟩
        = .ok (deployment, { clientLinkA with
            path := bytes "/10001/show/ x", businessCode := bytes "/10001/" },
          [.send 4 (TcpConnection.insertClient clientA
            (bytes "GET /10001/show/ x HTTP/1.1\r\n\r\n"))]) := by
    decide +kernel
  have hproper : ¬ ProperLine (bytes "GET /10001/show/ x HTTP/1.1\r\n\r\n") := by
    rintro ⟨line, rest, hbuf, hlf, hcount⟩
    have hfirst : bytes "GET /10001/show/ x HTTP/1.1" ++ (crlf ++ crlf) = line ++ (crlf ++ rest) :=
      hbuf
    obtain ⟨rfl, -⟩ := first_line_inj (by decide) hlf hfirst
    exact absurd hcount (by decide)
  obtain ⟨method, protocol, businessCode, haccepted, hreads⟩ := h _ _ _ _ _ _ _ _ hsend
  exact (refused_insertClient hproper haccepted).not_readsAs hreads

end MicroBusiness
