import MicroBusiness.HttpContext
import MicroBusiness.TcpConnection

/-!
# Who a forwarded request is from

The proxy tells the backend where a request comes from by a header line that
it inserts behind the first line feed of what it has read. It does not look
for a header of that name in the request, and the header map of the backend
keeps the last value given. It does not look at the byte in front of that
line feed either, nor at blanks in the target.

So the backend reads the address of the client exactly when the request line
ends in a proper line end, holds two blanks, and no later `Client` header of
the request says otherwise (`attributed_iff`).
-/

namespace MicroBusiness

open Search

/-- **The backend takes a message to be from a client**: whatever it makes of
the message, the client header of the resulting request is the address. -/
def Attributed (addr : InetAddress) (message : Bytes) (t : Timestamp) : Prop :=
  ∃ ok ctx rest, parseRequest {} message t = .ok (ok, ctx, rest)
    ∧ ctx.request.getHeader (bytes "Client") = addr.ipPort

/-- **A request that does not forge its origin**: its request line ends in a
line end, holds two blanks, and the last `Client` header behind it, if there
is one, gives the address. -/
def Unforged (addr : InetAddress) (buf : Bytes) : Prop :=
  ∃ line rest, buf = line ++ (crlf ++ rest) ∧ lf ∉ line ∧ line.count blank = 2
    ∧ ∀ value, lastHeader (bytes "Client") (splitHeaders rest).1 = some value →
      value = addr.ipPort

theorem headerName_clientLine (addr : InetAddress) :
    headerName (clientKey ++ addr.ipPort) = bytes "Client"
      ∧ headerValue (clientKey ++ addr.ipPort) = addr.ipPort := by
  obtain ⟨hname, hvalue⟩ := headerName_append (l := bytes "Client") (blank :: addr.ipPort)
    (by decide)
  have hline : bytes "Client" ++ colon :: blank :: addr.ipPort = clientKey ++ addr.ipPort := rfl
  rw [hline] at hname hvalue
  refine ⟨hname, ?_⟩
  rw [hvalue, trim_cons_blank, addr.trim_ipPort]

theorem lf_notMem_clientLine (addr : InetAddress) : lf ∉ clientKey ++ addr.ipPort := by
  rw [List.mem_append, not_or]
  exact ⟨by decide, addr.notMem_ipPort (by decide) (by decide) (by decide)⟩

theorem colon_mem_clientLine (addr : InetAddress) : colon ∈ clientKey ++ addr.ipPort :=
  List.mem_append_left _ (by decide)

/-- The first header line of a text with the client line in front is the
client line, and everything else is as without it. -/
theorem splitHeaders_clientLine (addr : InetAddress) (rest : Bytes) :
    splitHeaders (clientKey ++ addr.ipPort ++ (crlf ++ rest))
      = ((clientKey ++ addr.ipPort) :: (splitHeaders rest).1, (splitHeaders rest).2) := by
  rw [splitHeaders_of_line (cutLine_append rest
    (findSub_pair_eq_none (lf_notMem_clientLine addr))),
    if_pos (colon_mem_clientLine addr)]

/-- **What the header map says about the client** behind the client line: the
last value the other lines give, or else the address. -/
theorem getElem?_clientLine (r : HttpRequest) (addr : InetAddress) {lines : List Bytes}
    (hcolon : ∀ line ∈ lines, colon ∈ line) :
    (r.addHeaderLines ((clientKey ++ addr.ipPort) :: lines)).headers[bytes "Client"]?
      = some ((lastHeader (bytes "Client") lines).getD addr.ipPort) := by
  rw [getElem?_addHeaderLines _ _ _
    (List.forall_mem_cons.mpr ⟨colon_mem_clientLine addr, hcolon⟩), lastHeader_cons,
    if_pos (headerName_clientLine addr).1, (headerName_clientLine addr).2]
  cases lastHeader (bytes "Client") lines with
  | none => rfl
  | some value => rfl

theorem getHeader_clientLine (r : HttpRequest) (addr : InetAddress) {lines : List Bytes}
    (hcolon : ∀ line ∈ lines, colon ∈ line) :
    (r.addHeaderLines ((clientKey ++ addr.ipPort) :: lines)).getHeader (bytes "Client")
      = (lastHeader (bytes "Client") lines).getD addr.ipPort := by
  unfold HttpRequest.getHeader
  rw [getElem?_clientLine r addr hcolon]
  rfl

/-! ## Messages the backend refuses -/

/-- **A message whose first line the backend refuses**, before it has read any
header. -/
def Refused (message : Bytes) : Prop :=
  ∃ line rest r, cutLine message = some (line, rest)
    ∧ processRequestLine {} line = .ok (false, r) ∧ r.headers = ∅

theorem Refused.not_attributed {message : Bytes} (h : Refused message) (addr : InetAddress)
    (t : Timestamp) : ¬ Attributed addr message t := by
  obtain ⟨line, rest, r, hline, hrefused, hr⟩ := h
  rintro ⟨ok, ctx, rest', hparse, hclient⟩
  rw [show ({} : HttpContext) = { state := .kExpectRequestLine, request := {} } from rfl,
    parseRequest_of_refused hline hrefused] at hparse
  cases hparse
  unfold HttpRequest.getHeader at hclient
  rw [hr, Std.ExtTreeMap.getElem?_empty] at hclient
  exact addr.ipPort_ne_nil hclient.symm

/-- A message whose first line has too much behind the target is refused. -/
theorem refused_of_long_protocol {message method path z rest : Bytes}
    (hline : cutLine message = some (method ++ blank :: (path ++ blank :: z), rest))
    (hm : blank ∉ method) (hknown : methodOf method ≠ .kInvalid)
    (hlong : 8 < z.length ∨ 8 ≤ z.length ∧ blank ∈ path) : Refused message := by
  obtain ⟨p, q, hpq, hp, hnone, hmem⟩ := exists_first_cons blank path z
  have hq : q.length ≠ 8 := by
    by_cases hb : blank ∈ path
    · have hlt := hmem hb
      rcases hlong with h | ⟨h, -⟩ <;> omega
    · rw [(hnone hb).2]
      rcases hlong with h | ⟨-, h⟩
      · omega
      · exact absurd h hb
  rw [hpq] at hline
  have hproc := processRequestLine_append (r := {}) q rfl hm hp hknown
  rw [setProtocol_of_length_ne _ hq] at hproc
  exact ⟨_, rest, _, hline, hproc, setTarget_headers _ p⟩

theorem refused_of_no_line (addr : InetAddress) {buf : Bytes} (h : lf ∉ buf) :
    Refused (TcpConnection.insertClient addr buf) := by
  have hmessage : TcpConnection.insertClient addr buf
      = (clientKey ++ addr.ipPort) ++ (crlf ++ buf) := by
    unfold TcpConnection.insertClient TcpConnection.clientLine
    rw [List.idxOf?_eq_none_iff.mpr h]
    simp only [List.append_assoc]
  -- the first word is `Client:`
  have hkey : clientKey ++ addr.ipPort = bytes "Client:" ++ blank :: addr.ipPort := rfl
  rw [hmessage]
  refine ⟨_, buf, { method := .kInvalid },
    cutLine_append buf (findSub_pair_eq_none (lf_notMem_clientLine addr)), ?_, rfl⟩
  unfold processRequestLine
  rw [hkey, idxOf?_append_cons _ (by decide)]
  rfl

/-! ## Messages with a request line -/

theorem AcceptedMethod.known {m : Bytes} (h : m = bytes "GET" ∨ m = bytes "POST") :
    methodOf m ≠ .kInvalid := by
  rcases h with rfl | rfl <;> decide

theorem count_blank {method path protocol : Bytes} (hm : blank ∉ method) (hp : blank ∉ protocol) :
    (method ++ blank :: (path ++ blank :: protocol)).count blank = path.count blank + 2 := by
  rw [List.count_append, List.count_cons_self, List.count_append, List.count_cons_self,
    List.count_eq_zero_of_not_mem hm, List.count_eq_zero_of_not_mem hp]
  omega

/-- **A message that begins with a proper request line**: its first line ends
in a line end and holds two blanks. -/
def ProperLine (buf : Bytes) : Prop :=
  ∃ line rest, buf = line ++ (crlf ++ rest) ∧ lf ∉ line ∧ line.count blank = 2

theorem first_line_inj {line line' rest rest' : Bytes} (hlf : lf ∉ line) (hlf' : lf ∉ line')
    (h : line ++ (crlf ++ rest) = line' ++ (crlf ++ rest')) : line = line' ∧ rest = rest' := by
  have hcr : ∀ {l : Bytes}, lf ∉ l → lf ∉ l ++ [cr] := by
    intro l hl
    rw [List.mem_append, not_or]
    exact ⟨hl, by decide⟩
  have hsplit : (line ++ [cr]) ++ lf :: rest = (line' ++ [cr]) ++ lf :: rest' := by
    simpa using h
  obtain ⟨hline, hrest⟩ := LineInsertion.append_cons_inj_of_first (hcr hlf) (hcr hlf') hsplit
  exact ⟨List.append_inj_left' hline rfl, hrest⟩

/-- Whether a request that begins with a proper line forges its origin is
decided by the header lines behind it. -/
theorem unforged_append_iff (addr : InetAddress) {line : Bytes} (rest : Bytes) (hlf : lf ∉ line)
    (hcount : line.count blank = 2) :
    Unforged addr (line ++ (crlf ++ rest))
      ↔ ∀ value, lastHeader (bytes "Client") (splitHeaders rest).1 = some value →
        value = addr.ipPort := by
  constructor
  · rintro ⟨line', rest', hbuf, hlf', -, hlast⟩
    obtain ⟨rfl, rfl⟩ := first_line_inj hlf hlf' hbuf
    exact hlast
  · intro hlast
    exact ⟨line, rest, rfl, hlf, hcount, hlast⟩

theorem insertClient_crlf (addr : InetAddress) {line : Bytes} (rest : Bytes) (hlf : lf ∉ line) :
    TcpConnection.insertClient addr (line ++ (crlf ++ rest))
      = line ++ (crlf ++ (clientKey ++ addr.ipPort ++ (crlf ++ rest))) := by
  have hcr : lf ∉ line ++ [cr] := by
    rw [List.mem_append, not_or]
    exact ⟨hlf, by decide⟩
  have hinsert := TcpConnection.insertClient_append addr rest hcr
  simpa using hinsert

/-- **What the backend reads of a proper request**: the client header is the
last one the request gives itself, or else the address. -/
theorem attributed_iff_of_line {addr : InetAddress} {method path protocol rest : Bytes}
    {t : Timestamp} (hmethod : method = bytes "GET" ∨ method = bytes "POST")
    (hprotocol : protocol = bytes "HTTP/1.1" ∨ protocol = bytes "HTTP/1.0")
    (hpath : blank ∉ path) (hm : blank ∉ method)
    (hlf : lf ∉ method ++ blank :: (path ++ blank :: protocol)) :
    Attributed addr (method ++ blank :: (path ++ blank :: protocol)
        ++ (crlf ++ (clientKey ++ addr.ipPort ++ (crlf ++ rest)))) t
      ↔ ∀ value, lastHeader (bytes "Client") (splitHeaders rest).1 = some value →
        value = addr.ipPort := by
  have hproc := processRequestLine_append (r := {}) protocol rfl hm hpath
    (AcceptedMethod.known hmethod)
  rw [← Prod.mk.eta (p := setProtocol _ _), setProtocol_fst _ hprotocol] at hproc
  have hparse := parseRequest_of_accepted (t := t)
    (cutLine_append (clientKey ++ addr.ipPort ++ (crlf ++ rest)) (findSub_pair_eq_none hlf)) hproc
  rw [splitHeaders_clientLine] at hparse
  have hget : ∀ r : HttpRequest, (r.addHeaderLines ((clientKey ++ addr.ipPort) ::
      (splitHeaders rest).1)).getHeader (bytes "Client")
        = (lastHeader (bytes "Client") (splitHeaders rest).1).getD addr.ipPort :=
    fun r => getHeader_clientLine r addr (fun _ => colon_mem_of_mem_splitHeaders)
  have hiff : Attributed addr (method ++ blank :: (path ++ blank :: protocol)
        ++ (crlf ++ (clientKey ++ addr.ipPort ++ (crlf ++ rest)))) t
      ↔ (lastHeader (bytes "Client") (splitHeaders rest).1).getD addr.ipPort = addr.ipPort := by
    constructor
    · rintro ⟨ok, ctx, rest', hctx, hclient⟩
      rw [show ({} : HttpContext) = { state := .kExpectRequestLine, request := {} } from rfl,
        hparse] at hctx
      cases hctx
      rwa [hget] at hclient
    · intro hclient
      exact ⟨_, _, _, hparse, (hget _).trans hclient⟩
  rw [hiff]
  cases lastHeader (bytes "Client") (splitHeaders rest).1 with
  | none => simp
  | some value => simp

section AcceptedLine

variable {forwardingTable : StdMap Bytes (List Fd)} {addr : InetAddress}
  {buf method path protocol businessCode : Bytes}

/-- **An accepted request that begins with a proper line** is cut the same way
by both programs. -/
theorem ProperLine.eq_of_accepted (hproper : ProperLine buf)
    (h : TcpConnection.AcceptedLine forwardingTable (TcpConnection.getline buf) method path
      protocol businessCode) :
    blank ∉ path ∧ lf ∉ method ++ blank :: (path ++ blank :: protocol)
      ∧ ∃ rest, buf = method ++ blank :: (path ++ blank :: protocol) ++ (crlf ++ rest) := by
  obtain ⟨line, rest, rfl, hlf, hcount⟩ := hproper
  have hcr : lf ∉ line ++ [cr] := by
    rw [List.mem_append, not_or]
    exact ⟨hlf, by decide⟩
  have hline := h.line
  rw [show line ++ (crlf ++ rest) = (line ++ [cr]) ++ lf :: rest by simp,
    TcpConnection.getline_append rest hcr, List.dropLast_concat] at hline
  subst hline
  rw [count_blank h.blank_notMem_method h.blank_notMem_protocol] at hcount
  exact ⟨List.count_eq_zero.mp (by omega), hlf, rest, rfl⟩

/-- **Any other accepted request is refused** once the client line has been
inserted. -/
theorem refused_insertClient (hproper : ¬ ProperLine buf)
    (h : TcpConnection.AcceptedLine forwardingTable (TcpConnection.getline buf) method path
      protocol businessCode) : Refused (TcpConnection.insertClient addr buf) := by
  by_cases hlf : lf ∈ buf
  · obtain ⟨l, rest, rfl, hl⟩ := exists_eq_append_cons_of_mem hlf
    rw [TcpConnection.getline_append rest hl] at h
    obtain ⟨line, x, rfl⟩ : ∃ line x, l = line ++ [x] := by
      refine (List.eq_nil_or_concat' l).resolve_left ?_
      rintro rfl
      exact absurd h.line (by simp)
    have hline := h.line
    rw [List.dropLast_concat] at hline
    subst hline
    have hlf' := fun hmem => hl (List.mem_append_left [x] hmem)
    by_cases hx : x = cr
    · -- the line ends as it should, so there are more blanks than two
      subst hx
      have hpath : blank ∈ path := by
        by_contra hpath
        refine hproper ⟨_, rest, by simp, hlf', ?_⟩
        rw [count_blank h.blank_notMem_method h.blank_notMem_protocol,
          List.count_eq_zero_of_not_mem hpath]
      rw [show ∀ z : Bytes, method ++ blank :: (path ++ blank :: protocol) ++ [cr] ++ lf :: z
          = method ++ blank :: (path ++ blank :: protocol) ++ (crlf ++ z) by simp,
        insertClient_crlf addr rest hlf']
      exact refused_of_long_protocol (cutLine_append _ (findSub_pair_eq_none hlf'))
        h.blank_notMem_method (AcceptedMethod.known h.method) (Or.inr ⟨h.length_protocol.ge, hpath⟩)
    · -- the first line of the backend goes on to the end of the client line
      have hcut : cutLine (method ++ blank :: (path ++ blank :: protocol) ++ [x]
          ++ lf :: (clientKey ++ addr.ipPort ++ (crlf ++ rest)))
            = some (method ++ blank :: (path ++ blank ::
                (protocol ++ x :: lf :: (clientKey ++ addr.ipPort))), rest) := by
        have hnone := findSub_pair_eq_none_of_getLast (a := cr) hl (lf_notMem_clientLine addr)
          (by rw [List.getLast?_concat]; simpa using hx)
        have hcut := cutLine_append rest hnone
        simpa using hcut
      rw [TcpConnection.insertClient_append addr rest hl]
      refine refused_of_long_protocol hcut h.blank_notMem_method (AcceptedMethod.known h.method)
        (Or.inl ?_)
      rw [List.length_append, h.length_protocol, List.length_cons]
      omega
  · exact refused_of_no_line addr hlf

/-- **When the backend takes an accepted request to be from the client**:
exactly when the request does not forge its origin. -/
theorem attributed_insertClient_iff (t : Timestamp)
    (h : TcpConnection.AcceptedLine forwardingTable (TcpConnection.getline buf) method path
      protocol businessCode) :
    Attributed addr (TcpConnection.insertClient addr buf) t ↔ Unforged addr buf := by
  by_cases hproper : ProperLine buf
  · obtain ⟨hpath, hlf, rest, rfl⟩ := hproper.eq_of_accepted h
    have hcount : (method ++ blank :: (path ++ blank :: protocol)).count blank
        = path.count blank + 2 := count_blank h.blank_notMem_method h.blank_notMem_protocol
    rw [List.count_eq_zero_of_not_mem hpath] at hcount
    rw [unforged_append_iff addr rest hlf hcount, insertClient_crlf addr rest hlf]
    exact attributed_iff_of_line h.method h.protocol hpath h.blank_notMem_method hlf
  · refine iff_of_false ((refused_insertClient hproper h).not_attributed addr t) ?_
    rintro ⟨line, rest, hbuf, hlf, hcount, -⟩
    exact hproper ⟨line, rest, hbuf, hlf, hcount⟩

end AcceptedLine

/-- **Who the backend takes a request to be from**: whenever the proxy sends
on what it has read from a client, the backend takes it to be from that
client exactly if it does not forge its origin.

Whether it forges its origin is told from what is in the buffer (`Unforged`): the client
line goes in behind the first line feed, and the backend keeps the last of several
header lines with one name, so a `Client` line that the client has written itself wins
unless it says the same. -/
theorem attributed_iff {json : JsonWriter} {tables tables' : Tables}
    {conn conn' : TcpConnection} {io : Recvs} {fd : Fd} {message : Bytes} (t : Timestamp)
    (h : TcpConnection.doClient2server json tables conn io
      = .ok (tables', conn', [.send fd message])) :
    Attributed conn.peerAddr message t ↔ Unforged conn.peerAddr (readn io conn.readBuf).2 := by
  obtain ⟨rfl, ⟨method, protocol, haccepted⟩, -⟩ := TcpConnection.doClient2server_eq_send h
  exact attributed_insertClient_iff t haccepted

/-! ## A forged request -/

/-- A request to show the commodities, with further header lines. -/
def showRequest (headers : String) : Bytes :=
  bytes "GET /10001/show/ HTTP/1.1\r\n" ++ (bytes headers ++ crlf)

theorem forwards_showRequest :
    TcpConnection.doClient2server silentWriter deployment clientLinkA
        ⟨[⟨showRequest "Host: a\r\n", by decide +kernel⟩], .wouldBlock⟩
      = .ok (deployment, { clientLinkA with
            path := bytes "/10001/show/", businessCode := bytes "/10001/" },
          [.send 4 (TcpConnection.insertClient clientA (showRequest "Host: a\r\n"))]) := by
  decide +kernel

/-- A request without a client header is taken to be from its client. -/
theorem attributed_showRequest :
    Attributed clientA (TcpConnection.insertClient clientA (showRequest "Host: a\r\n")) 0 := by
  refine (attributed_iff 0 forwards_showRequest).mpr
    ⟨bytes "GET /10001/show/ HTTP/1.1", bytes "Host: a\r\n\r\n", by decide, by decide,
      by decide, ?_⟩
  decide +kernel

/-- **A request that gives a client header itself is taken to be from the
client it names.** -/
theorem not_attributed_forged :
    ∃ message, TcpConnection.doClient2server silentWriter deployment clientLinkA
        ⟨[⟨showRequest "Client: 10.0.0.2:2000\r\n", by decide +kernel⟩], .wouldBlock⟩
          = .ok (deployment, { clientLinkA with
              path := bytes "/10001/show/", businessCode := bytes "/10001/" }, [.send 4 message])
      ∧ ¬ Attributed clientA message 0 := by
  refine ⟨TcpConnection.insertClient clientA (showRequest "Client: 10.0.0.2:2000\r\n"),
    by decide +kernel, ?_⟩
  rintro ⟨ok, ctx, rest, hparse, hclient⟩
  have hother : (parseRequest {} (TcpConnection.insertClient clientA
      (showRequest "Client: 10.0.0.2:2000\r\n")) 0).toOption.map
        (fun r => r.2.1.request.getHeader (bytes "Client")) = some clientB.ipPort := by
    decide +kernel
  rw [hparse] at hother
  exact absurd (hclient.symm.trans (Option.some.inj hother)) (by decide)

end MicroBusiness
