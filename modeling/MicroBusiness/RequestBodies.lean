import MicroBusiness.Pipelining

/-!
# Requests with a body

The proxy forwards what a client has sent as one request: request line, header
lines, and whatever follows the empty line. The parser of the backend knows no
bodies: a request ends for it at the first header line without a colon, which
is the empty line or comes before it, and what follows is taken for the next
request on the connection.

So a message has an end where the backend sees one (`exists_whole`), and it is
served once and leaves the connection as it was exactly when nothing follows
that end (`servedOnce_iff`): all header lines hold a colon, and no byte of a
body is forwarded.
-/

namespace MicroBusiness

open Search HttpServer

/-! ## The bytes a read appends -/

/-- **A text without zero bytes is read whole**, whatever follows it. -/
theorem exists_readn_eq_append {chunks : List Chunk} {head rest : Bytes}
    (h : chunks.flatMap Subtype.val = head ++ rest) (h0 : 0 ∉ head) :
    ∃ rest', chunks.flatMap (fun chunk : Chunk => cString chunk.val) = head ++ rest' := by
  induction chunks generalizing head with
  | nil =>
    obtain ⟨rfl, -⟩ := List.append_eq_nil_iff.mp h.symm
    exact ⟨[], rfl⟩
  | cons chunk chunks ih =>
    rw [List.flatMap_cons] at h ⊢
    rcases List.append_eq_append_iff.mp h with ⟨head', hhead, hrest⟩ | ⟨rest', hchunk, -⟩
    · rw [hhead, List.mem_append, not_or] at h0
      obtain ⟨rest', hrest'⟩ := ih hrest h0.2
      refine ⟨rest', ?_⟩
      rw [cString_eq_self h0.1, hrest', hhead, List.append_assoc]
    · refine ⟨cString rest' ++ chunks.flatMap (fun chunk : Chunk => cString chunk.val), ?_⟩
      rw [hchunk, cString_append rest' h0, List.append_assoc]

/-! ## Where a request ends for the backend -/

/-- **Lines that the backend reads as one request**: a request line that it
accepts, header lines with a colon, and a line without one. -/
theorem isWhole_of_lines {line last : Bytes} {lines : List Bytes} {r : HttpRequest}
    (hline : findSub crlf line = none) (hproc : processRequestLine {} line = .ok (true, r))
    (hlines : ∀ l ∈ lines, colon ∈ l ∧ findSub crlf l = none) (hcolon : colon ∉ last)
    (hlast : findSub crlf last = none) (t : Timestamp) :
    IsWhole (line ++ (crlf ++ (lines.flatMap (· ++ crlf) ++ (last ++ crlf)))) t := by
  have hsplit := RequestText.splitHeaders_until [] hlines hcolon hlast
  rw [List.append_nil] at hsplit
  refine ⟨(r.setReceiveTime t).addHeaderLines lines, ?_⟩
  rw [show ({} : HttpContext) = { state := .kExpectRequestLine, request := {} } from rfl,
    parseRequest_of_accepted (cutLine_append _ hline) hproc t, hsplit]
  rfl

/-- Where the parser ends up about to read a request line, it has consumed
nothing. -/
theorem parseRequest_eq_expectRequestLine {context context' : HttpContext} {buf rest : Bytes}
    {t : Timestamp} {ok : Bool} (h : parseRequest context buf t = .ok (ok, context', rest))
    (hstate : context'.state = .kExpectRequestLine) :
    context.state = .kExpectRequestLine ∧ rest = buf := by
  have hafter : ∀ ended, stateAfterHeaders ended ≠ .kExpectRequestLine := by decide
  obtain ⟨state, r⟩ := context
  cases state with
  | kExpectRequestLine =>
    refine ⟨rfl, ?_⟩
    rw [parseRequest_expectRequestLine] at h
    split at h
    · cases h
      rfl
    · split at h
      · cases h
      · cases h
        rfl
      · rw [parseRequest_headers] at h
        cases h
        exact absurd hstate (hafter _)
  | kExpectHeaders =>
    rw [parseRequest_headers] at h
    cases h
    exact absurd hstate (hafter _)
  | kExpectBody =>
    rw [parseRequest] at h
    cases h
  | kGotAll =>
    rw [parseRequest] at h
    cases h

/-- A call that hands over nothing leaves what the parser leaves. -/
theorem buf_of_onMessage_idle {httpCallback : HttpCallback} {context : HttpContext} {buf : Bytes}
    {t : Timestamp} {r : Received} (h : onMessage httpCallback context buf t = .ok r)
    (hidle : (handed context buf t).toList = []) (hstate : r.context.state = .kExpectRequestLine) :
    context.state = .kExpectRequestLine ∧ r.buf = buf := by
  unfold onMessage at h
  unfold handed at hidle
  cases hparse : parseRequest context buf t with
  | error e =>
    rw [hparse] at h
    cases h
  | ok x =>
    obtain ⟨ok, context', rest⟩ := x
    rw [hparse] at h hidle
    dsimp only at h hidle
    split at h
    · next hgot =>
      rw [if_pos hgot] at hidle
      cases hidle
    · cases h
      exact parseRequest_eq_expectRequestLine hparse hstate

/-- **Calls that hand over nothing consume nothing of a request line**: if
the parser is about to read a request line in the end, then it was before, and
all input is unread. -/
theorem buf_of_session_idle {httpCallback : HttpCallback} {pieces : List (Bytes × Timestamp)}
    {context : HttpContext} {buf : Bytes} {s : Session}
    (h : session httpCallback context buf pieces = .ok s) (hidle : s.requests = [])
    (hstate : s.context.state = .kExpectRequestLine) :
    context.state = .kExpectRequestLine ∧ s.buf = buf ++ pieces.flatMap Prod.fst := by
  induction pieces generalizing context buf s with
  | nil =>
    cases h
    exact ⟨hstate, (List.append_nil buf).symm⟩
  | cons piece pieces ih =>
    obtain ⟨piece, t⟩ := piece
    rw [session] at h
    cases hmessage : onMessage httpCallback context (buf ++ piece) t with
    | error e =>
      rw [hmessage] at h
      cases h
    | ok r =>
      rw [hmessage] at h
      dsimp only at h
      cases hrest : session httpCallback r.context r.buf pieces with
      | error e =>
        rw [hrest] at h
        cases h
      | ok s' =>
        rw [hrest] at h
        cases h
        obtain ⟨hhanded, hidle⟩ := List.append_eq_nil_iff.mp hidle
        obtain ⟨hr, hbuf⟩ := ih hrest hidle hstate
        obtain ⟨hcontext, hunread⟩ := buf_of_onMessage_idle hmessage hhanded hr
        rw [hunread] at hbuf
        refine ⟨hcontext, hbuf.trans ?_⟩
        rw [List.flatMap_cons, List.append_assoc]

/-! ## Requests that are served once -/

/-- **A message is served once**: the callback is called exactly once for it,
nothing is left unread, and the parser is in its initial state. -/
def ServedOnce (callback : HttpRequest → HttpResponse → HttpResponse)
    (leftover : StdMap Bytes Bytes) (pieces : List (Bytes × Timestamp)) : Prop :=
  ∃ s, session (returning callback) { request := { querys := leftover } } [] pieces = .ok s
    ∧ s.requests.length = 1 ∧ s.buf = [] ∧ s.context.state = .kExpectRequestLine

/-- **What follows the end of a request is served as another, or stays.** -/
theorem rest_eq_nil_of_session {callback : HttpRequest → HttpResponse → HttpResponse}
    {first rest text buf : Bytes} {context : HttpContext} {leftover : StdMap Bytes Bytes}
    {pieces : List (Bytes × Timestamp)} {s : Session} (hwhole : ∀ t, IsWhole first t)
    (h : Resumes context buf leftover text)
    (hstream : text ++ pieces.flatMap Prod.fst = first ++ rest)
    (hsession : session (returning callback) context buf pieces = .ok s)
    (hone : s.requests.length = 1) (hbuf : s.buf = [])
    (hstate : s.context.state = .kExpectRequestLine) : rest = [] := by
  induction pieces generalizing context buf text leftover with
  | nil =>
    cases hsession
    cases hone
  | cons piece pieces ih =>
    obtain ⟨piece, t⟩ := piece
    rw [List.flatMap_cons] at hstream
    rcases complete_or_incomplete hstream with
      ⟨unread, hpiece, hrest⟩ | ⟨missing, hmissing, hpiece, hrest⟩
    · obtain ⟨t', req, effects, -, heq⟩ := h.session_of_complete hwhole hpiece callback t pieces
      rw [heq] at hsession
      cases hafter : session (returning callback)
          { request := { querys := (req.over leftover).querys } } unread pieces with
      | error e =>
        rw [hafter] at hsession
        cases hsession
      | ok s' =>
        rw [hafter] at hsession
        cases hsession
        -- the callback is not called again
        have hidle : s'.requests = [] := List.length_eq_zero_iff.mp (Nat.succ.inj hone)
        have hunread := (buf_of_session_idle hafter hidle hstate).2
        rw [← hrest, ← hunread]
        exact hbuf
    · obtain ⟨context', buf', hresumes, heq⟩ :=
        h.session_of_incomplete hwhole hpiece hmissing (returning callback) t pieces
      rw [heq] at hsession
      refine ih hresumes ?_ hsession
      rw [← hpiece, ← hrest, List.append_assoc (text ++ piece)]

theorem keepsUp_singleton {q : RequestText} {pieces : List (Bytes × Timestamp)}
    (h : pieces.flatMap Prod.fst = q.bytes) : KeepsUp [q] pieces := by
  intro k hk
  rcases hk.lt_or_eq with hlt | rfl
  · rw [List.length_drop, List.length_singleton]
    omega
  · have harrived : arrived pieces = q.bytes.length := by
      unfold arrived
      rw [h]
    rw [List.take_length, completeIn, if_pos harrived.ge]
    show 1 ≤ 0 + 1 + _
    omega

/-- **A well-formed request without a body is served once.** -/
theorem servedOnce_of_wellFormed (callback : HttpRequest → HttpResponse → HttpResponse)
    (leftover : StdMap Bytes Bytes) {q : RequestText} (hq : q.WellFormed)
    {pieces : List (Bytes × Timestamp)} (h : pieces.flatMap Prod.fst = q.bytes) :
    ServedOnce callback leftover pieces := by
  have hstream : [] ++ pieces.flatMap Prod.fst = [q].flatMap RequestText.bytes := by
    rw [h, List.flatMap_singleton, List.nil_append]
  obtain ⟨s, hs, hserves⟩ := exists_session callback (List.forall_mem_singleton.mpr hq)
    (resumes_self leftover []) hstream
  have hall := hserves.all_iff.mpr ((keepsUp_iff _ _).mp (keepsUp_singleton h))
  have hserved := hserves.served.length_eq
  rw [List.take_of_length_le hall] at hserved
  obtain ⟨leftover', hunread⟩ := hserves.unread
  rw [List.drop_eq_nil_of_le hall] at hunread
  obtain ⟨hcontext, hbuf⟩ := hunread.eq_of_nil
  exact ⟨s, hs, hserved.symm, hbuf, congrArg HttpContext.state hcontext⟩

/-! ## Complete requests -/

/-- `tolower` of an ASCII letter. -/
def toLower (b : UInt8) : UInt8 := if 65 ≤ b ∧ b ≤ 90 then b + 32 else b

/-- The length of the body that header lines declare. -/
def contentLength (headers : List Bytes) : ℕ :=
  match headers.find? (fun h => (headerName h).map toLower = bytes "content-length") with
  | none => 0
  | some h => natOfDigits ((headerValue h).takeWhile isDigit)

/-- **A complete HTTP/1.1 request**: a request line, header lines, an empty
line, and the body that the header lines declare. -/
structure CompleteRequest where
  method : Bytes
  target : Bytes
  headers : List Bytes
  body : Bytes
  method_eq : method = bytes "GET" ∨ method = bytes "POST"
  target_eq : ∀ b ∈ target, isspace b = false
  headers_eq : ∀ h ∈ headers, h ≠ [] ∧ findSub crlf h = none
  zero_notMem : 0 ∉ target ∧ ∀ h ∈ headers, 0 ∉ h
  body_eq : body.length = contentLength headers

namespace CompleteRequest

variable (q : CompleteRequest) (addr : InetAddress)

/-- The request without its body. -/
def text : RequestText where
  method := q.method
  target := q.target
  version := MicroBusiness.bytes "HTTP/1.1"
  headers := q.headers

/-- The bytes of the request. -/
def bytes : Bytes := q.text.bytes ++ q.body

theorem lf_notMem_line : lf ∉ q.text.line := by
  have hm : lf ∉ q.method := by
    rcases q.method_eq with hm | hm <;> rw [hm] <;> decide
  have ht := notMem_of_isspace (b := lf) rfl q.target_eq
  unfold RequestText.line
  simp only [List.mem_append, List.mem_cons, not_or]
  have hv : lf ∉ MicroBusiness.bytes "HTTP/1.1" := by decide
  exact ⟨hm, by decide, ht, by decide, hv⟩

/-- The head of a request holds no zero byte. -/
theorem zero_notMem_text : 0 ∉ q.text.bytes := by
  have hm : (0 : UInt8) ∉ q.method := by
    rcases q.method_eq with hm | hm <;> rw [hm] <;> decide
  have hv : (0 : UInt8) ∉ MicroBusiness.bytes "HTTP/1.1" := by decide
  have hcrlf : (0 : UInt8) ∉ crlf := by decide
  have hh : (0 : UInt8) ∉ q.headers.flatMap (· ++ crlf) := by
    rw [List.mem_flatMap]
    rintro ⟨h, hmem, hzero⟩
    rcases List.mem_append.mp hzero with hzero | hzero
    · exact q.zero_notMem.2 h hmem hzero
    · exact hcrlf hzero
  have hline : (0 : UInt8) ∉ q.text.line := by
    unfold RequestText.line
    simp only [List.mem_append, List.mem_cons, not_or]
    exact ⟨hm, by decide, q.zero_notMem.1, by decide, hv⟩
  unfold RequestText.bytes
  rw [List.mem_append, List.mem_append, List.mem_append, not_or, not_or, not_or]
  exact ⟨hline, hcrlf, hh, hcrlf⟩

theorem processRequestLine_line :
    ∃ r, processRequestLine {} q.text.line = .ok (true, r) := by
  have hm : blank ∉ q.method := by
    rcases q.method_eq with hm | hm <;> rw [hm] <;> decide
  have hknown : methodOf q.method ≠ .kInvalid := AcceptedMethod.known q.method_eq
  have hproc := processRequestLine_append (r := {}) (MicroBusiness.bytes "HTTP/1.1") rfl hm
    (notMem_of_isspace (b := blank) rfl q.target_eq) hknown
  exact ⟨_, hproc⟩

theorem insertClient_text (rest : Bytes) :
    TcpConnection.insertClient addr (q.text.bytes ++ rest)
      = q.text.line ++ (crlf ++ ((clientKey ++ addr.ipPort) ++ (crlf
          ++ (q.headers.flatMap (· ++ crlf) ++ (crlf ++ rest))))) := by
  rw [RequestText.insertClient_bytes_append q.lf_notMem_line]
  unfold RequestText.withClient RequestText.bytes
  simp [text, RequestText.line]

/-- **Where the backend sees the end of a forwarded request**: nothing but the
rest of the message follows it exactly if all header lines hold a colon. -/
theorem exists_whole (rest : Bytes) :
    ∃ first others, (∀ t, IsWhole first t)
      ∧ TcpConnection.insertClient addr (q.text.bytes ++ rest) = first ++ others
      ∧ (others = [] ↔ (∀ h ∈ q.headers, colon ∈ h) ∧ rest = []) := by
  obtain ⟨r, hproc⟩ := q.processRequestLine_line
  have hline := findSub_pair_eq_none (a := cr) q.lf_notMem_line
  have hclient :
      colon ∈ clientKey ++ addr.ipPort ∧ findSub crlf (clientKey ++ addr.ipPort) = none :=
    ⟨List.mem_append_left _ (by decide), findSub_pair_eq_none (lf_notMem_clientLine addr)⟩
  rw [q.insertClient_text addr rest]
  by_cases hall : ∀ h ∈ q.headers, colon ∈ h
  · have hlines : ∀ l ∈ (clientKey ++ addr.ipPort) :: q.headers,
        colon ∈ l ∧ findSub crlf l = none :=
      List.forall_mem_cons.mpr ⟨hclient, fun l hl => ⟨hall l hl, (q.headers_eq l hl).2⟩⟩
    refine ⟨_, rest, isWhole_of_lines hline hproc hlines (List.not_mem_nil) (by decide), ?_, ?_⟩
    · simp
    · exact (and_iff_right hall).symm
  · -- the backend stops at the first header line without a colon
    obtain ⟨bad, hbad⟩ : ∃ bad, q.headers.find? (fun h => colon ∉ h) = some bad := by
      rw [← Option.isSome_iff_exists, List.find?_isSome]
      simpa using hall
    obtain ⟨hcolon, good, more, hheaders, hgood⟩ := List.find?_eq_some_iff_append.mp hbad
    have hmem : bad ∈ q.headers := by rw [hheaders]; simp
    have hlines : ∀ l ∈ (clientKey ++ addr.ipPort) :: good, colon ∈ l ∧ findSub crlf l = none := by
      refine List.forall_mem_cons.mpr ⟨hclient, fun l hl => ⟨by simpa using hgood l hl, ?_⟩⟩
      exact (q.headers_eq l (by rw [hheaders]; simp [hl])).2
    refine ⟨_, more.flatMap (· ++ crlf) ++ (crlf ++ rest),
      isWhole_of_lines hline hproc hlines (by simpa using hcolon) (q.headers_eq bad hmem).2,
      ?_, ?_⟩
    · rw [hheaders]
      simp
    · exact iff_of_false (by simp) (fun h => hall h.1)

theorem wellFormed_withClient (h : ∀ l ∈ q.headers, colon ∈ l) :
    (q.text.withClient addr).WellFormed where
  method := AcceptedMethod.known q.method_eq
  target := q.target_eq
  version := Or.inl rfl
  headers := RequestText.forall_headers_withClient
    (fun l hl => ⟨h l hl, (q.headers_eq l hl).2⟩) addr

theorem insertClient_head :
    TcpConnection.insertClient addr q.text.bytes = (q.text.withClient addr).bytes := by
  have hinsert := RequestText.insertClient_bytes_append q.lf_notMem_line addr []
  rwa [List.append_nil, List.append_nil] at hinsert

end CompleteRequest

/-- **When a forwarded request is one request of the backend**: whatever the
pieces it arrives in, it is served once and nothing is left of it exactly if
all its header lines hold a colon and nothing of a body has been read. -/
theorem servedOnce_iff {json : JsonWriter} {tables tables' : Tables} {conn conn' : TcpConnection}
    {io : Recvs} {fd : Fd} {message : Bytes} (q : CompleteRequest) (hbuf : conn.readBuf = [])
    (hpayload : io.payload = q.bytes)
    (hsend : TcpConnection.doClient2server json tables conn io
      = .ok (tables', conn', [.send fd message]))
    (callback : HttpRequest → HttpResponse → HttpResponse) (leftover : StdMap Bytes Bytes)
    {pieces : List (Bytes × Timestamp)} (hpieces : pieces.flatMap Prod.fst = message) :
    ServedOnce callback leftover pieces
      ↔ (∀ h ∈ q.headers, colon ∈ h) ∧ (readn io []).2 = q.text.bytes := by
  obtain ⟨hmessage, -⟩ := TcpConnection.doClient2server_eq_send hsend
  obtain ⟨rest, hrest⟩ := exists_readn_eq_append hpayload q.zero_notMem_text
  have hread : (readn io []).2 = q.text.bytes ++ rest := by
    rw [readn_snd, hrest, List.nil_append]
  rw [hbuf, hread] at hmessage
  obtain ⟨first, others, hwhole, hforwarded, hothers⟩ := q.exists_whole conn.peerAddr rest
  rw [hread, List.append_right_eq_self, ← hothers]
  constructor
  · rintro ⟨s, hs, hone, hunread, hstate⟩
    refine rest_eq_nil_of_session hwhole (resumes_self leftover []) ?_ hs hone hunread hstate
    rw [List.nil_append, hpieces, hmessage, hforwarded]
  · intro hnil
    obtain ⟨hcolon, rfl⟩ := hothers.mp hnil
    refine servedOnce_of_wellFormed callback leftover
      (q.wellFormed_withClient conn.peerAddr hcolon) ?_
    rw [hpieces, hmessage, List.append_nil, q.insertClient_head]

/-- A request to show the commodities. -/
def plainShow : CompleteRequest where
  method := showCommodities.method
  target := showCommodities.target
  headers := showCommodities.headers
  body := []
  method_eq := showCommodities.method_eq
  target_eq := showCommodities.target_eq
  headers_eq := by decide +kernel
  zero_notMem := by decide +kernel
  body_eq := by decide +kernel

/-- A request without a body is served once, also in two pieces. -/
theorem servedOnce_plainShow :
    ServedOnce (fun _ resp => resp) ∅
      [((plainShow.text.withClient clientA).bytes.take 40, 0),
        ((plainShow.text.withClient clientA).bytes.drop 40, 1)] := by
  have hsend : TcpConnection.doClient2server silentWriter deployment clientLinkA
      ⟨[⟨plainShow.bytes, by decide +kernel⟩], .wouldBlock⟩
        = .ok (deployment, { clientLinkA with
            path := bytes "/10001/show/", businessCode := bytes "/10001/" },
          [.send 4 (plainShow.text.withClient clientA).bytes]) := by
    decide +kernel
  refine (servedOnce_iff plainShow rfl (List.append_nil _) hsend _ ∅ ?_).mpr ?_
  · decide +kernel
  · exact ⟨by decide +kernel, by decide +kernel⟩

/-- A request whose body is a request. -/
def smuggler : CompleteRequest where
  method := bytes "POST"
  target := showCommodities.target
  headers := [bytes "Content-Length: 29"]
  body := bytes "GET /10001/show/ HTTP/1.1\r\n\r\n"
  method_eq := Or.inr rfl
  target_eq := showCommodities.target_eq
  headers_eq := by decide +kernel
  zero_notMem := by decide +kernel
  body_eq := by decide +kernel

/-- **The body of a request is served as another request.** -/
theorem not_servedOnce_smuggler :
    ¬ ∀ (q : CompleteRequest) (json : JsonWriter) (tables tables' : Tables)
        (conn conn' : TcpConnection) (io : Recvs) (fd : Fd) (message : Bytes),
      conn.readBuf = [] → io.payload = q.bytes →
      TcpConnection.doClient2server json tables conn io
        = .ok (tables', conn', [.send fd message]) →
      ∀ (callback : HttpRequest → HttpResponse → HttpResponse) (leftover : StdMap Bytes Bytes)
        (pieces : List (Bytes × Timestamp)), pieces.flatMap Prod.fst = message →
        ServedOnce callback leftover pieces := by
  intro h
  have hsend : TcpConnection.doClient2server silentWriter deployment clientLinkA
      ⟨[⟨smuggler.bytes, by decide +kernel⟩], .wouldBlock⟩
        = .ok (deployment, { clientLinkA with
            path := bytes "/10001/show/", businessCode := bytes "/10001/" },
          [.send 4 ((smuggler.text.withClient clientA).bytes ++ smuggler.body)]) := by
    decide +kernel
  obtain ⟨s, hs, hone, -⟩ := h smuggler silentWriter deployment deployment clientLinkA _ _ 4 _ rfl
    (List.append_nil _) hsend (fun _ resp => resp) ∅
    [((smuggler.text.withClient clientA).bytes, 0), (smuggler.body, 1)]
    (by rw [List.flatMap_cons, List.flatMap_singleton])
  have htwo : (session (returning fun _ resp => resp) { request := { querys := ∅ } } []
      [((smuggler.text.withClient clientA).bytes, 0), (smuggler.body, 1)]).toOption.map
        (fun s => s.requests.length) = some 2 := by
    decide +kernel
  rw [hs] at htwo
  exact absurd (hone.symm.trans (Option.some.inj htwo)) (by decide)

end MicroBusiness
