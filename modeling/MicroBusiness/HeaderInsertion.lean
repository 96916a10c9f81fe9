import MicroBusiness.ClientAttribution

/-!
# The client line changes nothing but the client header

The proxy splices the client line into a text that it cuts at a raw line
feed; the backend cuts the result into lines at proper line ends, splits the
header lines at colons and keeps the last value given for a name. Where the
first line feed of the text ends a proper line, the two views fit together:
the client line becomes the first header line, and everything the backend
reads behind it is what it would have read without it
(`splitHeaders_clientLine`). A map that keeps the last value is the same but
for one name whether or not a line of that name stands in front
(`lastHeader_cons`).

`AgreesBut` says that two requests are the same but for the headers of one name,
and `clientLine_transparent` that a message and what is forwarded of it are
parsed to requests that agree.
-/

namespace MicroBusiness

open Search

/-- **Two requests agree but for the headers of a name**, and for the time
they were received. -/
structure AgreesBut (name : Bytes) (r r' : HttpRequest) : Prop where
  method : r'.method = r.method
  version : r'.version = r.version
  path : r'.path = r.path
  query : r'.query = r.query
  querys : r'.querys = r.querys
  headers : ∀ field, field ≠ name → r'.headers[field]? = r.headers[field]?

namespace HttpRequest

/-- **A header line in front of others is not seen under another name.** -/
theorem getElem?_addHeaderLines_cons (r : HttpRequest) {line field : Bytes} {lines : List Bytes}
    (hcolon : ∀ l ∈ line :: lines, colon ∈ l) (hname : headerName line ≠ field) :
    (r.addHeaderLines (line :: lines)).headers[field]?
      = (r.addHeaderLines lines).headers[field]? := by
  rw [getElem?_addHeaderLines _ _ _ hcolon,
    getElem?_addHeaderLines _ _ _ (List.forall_mem_cons.mp hcolon).2, lastHeader_cons,
    if_neg hname, Option.or_none]

/-- Requests that differ in a header line in front of the others, and in
their time, agree but for the headers of its name. -/
theorem agreesBut_addHeaderLines_cons (r : HttpRequest) (t t' : Timestamp) {line : Bytes}
    {lines : List Bytes} (hcolon : ∀ l ∈ line :: lines, colon ∈ l) :
    AgreesBut (headerName line) ((r.setReceiveTime t).addHeaderLines lines)
      ((r.setReceiveTime t').addHeaderLines (line :: lines)) := by
  have hcolons := (List.forall_mem_cons.mp hcolon).2
  have hheaders : ∀ field, field ≠ headerName line →
      ((r.setReceiveTime t').addHeaderLines (line :: lines)).headers[field]?
        = ((r.setReceiveTime t).addHeaderLines lines).headers[field]? := by
    intro field hfield
    rw [getElem?_addHeaderLines_cons _ hcolon (Ne.symm hfield),
      getElem?_addHeaderLines _ _ _ hcolons, getElem?_addHeaderLines _ _ _ hcolons]
    rfl
  rw [addHeaderLines_eq _ lines, addHeaderLines_eq _ (line :: lines)]
  exact ⟨rfl, rfl, rfl, rfl, rfl, hheaders⟩

end HttpRequest

/-- **What the backend makes of a text with the client line in it**, against
what it would have made of the text itself: the same outcome, and requests
that agree but for the client header. -/
theorem parseRequest_insertClient (addr : InetAddress) {line : Bytes} (rest : Bytes)
    (hlf : lf ∉ line) {r : HttpRequest} (t t' : Timestamp)
    (haccepted : processRequestLine {} line = .ok (true, r)) :
    ∃ state unread request request',
      parseRequest {} (line ++ (crlf ++ rest)) t = .ok (true, { state, request }, unread)
      ∧ parseRequest {} (TcpConnection.insertClient addr (line ++ (crlf ++ rest))) t'
          = .ok (true, { state, request := request' }, unread)
      ∧ AgreesBut (bytes "Client") request request'
      ∧ request'.headers[bytes "Client"]?
          = some ((lastHeader (bytes "Client") (splitHeaders rest).1).getD addr.ipPort) := by
  have hnone : findSub crlf line = none := findSub_pair_eq_none hlf
  have hparse := parseRequest_of_accepted (cutLine_append rest hnone) haccepted t
  have hparse' := parseRequest_of_accepted
    (cutLine_append (clientKey ++ addr.ipPort ++ (crlf ++ rest)) hnone) haccepted t'
  rw [← insertClient_crlf addr rest hlf, splitHeaders_clientLine] at hparse'
  have hcolon : ∀ l ∈ (splitHeaders rest).1, colon ∈ l := fun _ => colon_mem_of_mem_splitHeaders
  have hagrees := HttpRequest.agreesBut_addHeaderLines_cons r t t'
    (List.forall_mem_cons.mpr ⟨colon_mem_clientLine addr, hcolon⟩)
  rw [(headerName_clientLine addr).1] at hagrees
  exact ⟨_, _, _, _, hparse, hparse', hagrees, getElem?_clientLine _ addr hcolon⟩

/-- **Header insertion is transparent**: whenever the proxy sends on a message
whose first line feed ends a proper line, and the backend accepts that line,
it makes of the forwarded message what it would have made of the message
itself, but for the client header, which is the address unless the message
has a client header of its own. -/
theorem clientLine_transparent {json : JsonWriter} {tables tables' : Tables}
    {conn conn' : TcpConnection} {io : Recvs} {fd : Fd} {message line rest : Bytes}
    {r : HttpRequest} (t t' : Timestamp)
    (hsend : TcpConnection.doClient2server json tables conn io
      = .ok (tables', conn', [.send fd message]))
    (hline : (readn io conn.readBuf).2 = line ++ (crlf ++ rest)) (hlf : lf ∉ line)
    (haccepted : processRequestLine {} line = .ok (true, r)) :
    ∃ ok state unread request request',
      parseRequest {} (readn io conn.readBuf).2 t = .ok (ok, { state, request }, unread)
      ∧ parseRequest {} message t' = .ok (ok, { state, request := request' }, unread)
      ∧ AgreesBut (bytes "Client") request request'
      ∧ ((∀ l ∈ (splitHeaders rest).1, headerName l ≠ bytes "Client") →
          request'.headers[bytes "Client"]? = some conn.peerAddr.ipPort) := by
  obtain ⟨rfl, -, -⟩ := TcpConnection.doClient2server_eq_send hsend
  obtain ⟨state, unread, request, request', hparse, hparse', hagrees, hclient⟩ :=
    parseRequest_insertClient conn.peerAddr rest hlf t t' haccepted
  rw [hline]
  refine ⟨true, state, unread, request, request', hparse, hparse', hagrees, fun hnamed => ?_⟩
  rw [hclient, lastHeader_eq_none hnamed]
  rfl

/-- A request of the small deployment is such a message. -/
theorem clientLine_transparent_showRequest :
    ∃ ok state unread request request',
      parseRequest {} (showRequest "Host: a\r\n") 1 = .ok (ok, { state, request }, unread)
      ∧ parseRequest {} (TcpConnection.insertClient clientA (showRequest "Host: a\r\n")) 2
          = .ok (ok, { state, request := request' }, unread)
      ∧ AgreesBut (bytes "Client") request request'
      ∧ request'.headers[bytes "Client"]? = some clientA.ipPort := by
  have hline : (readn ⟨[⟨showRequest "Host: a\r\n", by decide +kernel⟩], .wouldBlock⟩
      clientLinkA.readBuf).2
        = bytes "GET /10001/show/ HTTP/1.1" ++ (crlf ++ bytes "Host: a\r\n\r\n") := by
    decide +kernel
  obtain ⟨ok, state, unread, request, request', hparse, hparse', hagrees, hclient⟩ :=
    clientLine_transparent 1 2 forwards_showRequest hline (by decide +kernel)
      (r := { method := .kGet, version := .kHttp11, path := bytes "/10001/show/" })
      (by decide +kernel)
  exact ⟨ok, state, unread, request, request', hparse, hparse', hagrees,
    hclient (by decide +kernel)⟩

end MicroBusiness
