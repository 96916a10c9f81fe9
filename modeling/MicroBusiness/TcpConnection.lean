import MicroBusiness.Json
import MicroBusiness.LineInsertion
import MicroBusiness.SocketIO

/-!
# The connections of the proxy

The proxy keeps four tables: for each location the backend connections that
serve it, the backend connections and the client connections by descriptor,
and the descriptor of each client by its address. `doServer2client` and
`doClient2server` are what a worker does with a backend or a client
connection that has become readable. Both append what they read to the
connection's buffer, look at the buffer as a whole, and on success send it on
and empty it; on any other way out the buffer stays.

What the tables hold in place of a shared pointer is what does not change of
the object behind it: its descriptor and the address of its peer. A call to
`send` writes the whole message.
-/

namespace MicroBusiness

open Search

/-- A file descriptor. -/
abbrev Fd := ℤ

/-- `CONNECTION_TYPE`. -/
inductive ConnectionType
  | client | server
  deriving DecidableEq, Repr

/-- `HTTP_CODE`. -/
inductive HttpCode
  | badRequest | getRequest
  deriving DecidableEq, Repr

/-- `class InetAddress`: the four bytes of the address, and the port. -/
structure InetAddress where
  a : UInt8
  b : UInt8
  c : UInt8
  d : UInt8
  port : UInt16
  deriving DecidableEq, Repr

namespace InetAddress

/-- `ip`, as `inet_ntoa` writes it. -/
def ip (addr : InetAddress) : Bytes :=
  decimal addr.a.toNat ++ (46 :: (decimal addr.b.toNat ++ (46 :: (decimal addr.c.toNat
    ++ (46 :: decimal addr.d.toNat)))))

/-- `ip_port`. -/
def ipPort (addr : InetAddress) : Bytes := addr.ip ++ (colon :: decimal addr.port.toNat)

theorem notMem_ipPort (addr : InetAddress) {b : UInt8} (hdigit : isDigit b = false)
    (hdot : b ≠ 46) (hcolon : b ≠ colon) : b ∉ addr.ipPort := by
  have hdec := fun n => notMem_decimal n hdigit
  unfold ipPort ip
  simp only [List.mem_append, List.mem_cons, not_or]
  exact ⟨⟨hdec _, hdot, hdec _, hdot, hdec _, hdot, hdec _⟩, hcolon, hdec _⟩

theorem ipPort_ne_nil (addr : InetAddress) : addr.ipPort ≠ [] := by
  unfold ipPort
  exact List.append_ne_nil_of_right_ne_nil _ (List.cons_ne_nil _ _)

theorem trim_ipPort (addr : InetAddress) : trim addr.ipPort = addr.ipPort := by
  refine trim_eq_self (fun b hb => ?_)
  by_contra hspace
  rw [Bool.not_eq_false] at hspace
  refine addr.notMem_ipPort ?_ ?_ ?_ hb
  · by_contra hdigit
    rw [isspace_of_isDigit (by simpa using hdigit)] at hspace
    exact absurd hspace (by decide)
  · rintro rfl
    exact absurd hspace (by decide)
  · rintro rfl
    exact absurd hspace (by decide)

end InetAddress

/-- What a table holds of a connection. -/
structure TcpConnectionPtr where
  fd : Fd
  peerAddr : InetAddress
  deriving DecidableEq, Repr

/-- The tables of the proxy. -/
structure Tables where
  /-- The backend connections of each location. -/
  forwardingTable : StdMap Bytes (List Fd) := ∅
  serverConns : StdMap Fd TcpConnectionPtr := ∅
  clientConns : StdMap Fd TcpConnectionPtr := ∅
  /-- The descriptor of each client by its address. -/
  clientTable : StdMap Bytes Fd := ∅
  deriving DecidableEq

/-- **Listed clients are connected**: the connection the client table gives
for an address is one to that address. -/
def Tables.ClientsListed (t : Tables) : Prop :=
  ∀ client fd, t.clientTable[client]? = some fd →
    ∃ ptr : TcpConnectionPtr, t.clientConns[fd]? = some ptr ∧ ptr.fd = fd
      ∧ ptr.peerAddr.ipPort = client

/-- **Backends are connected**: what the vectors of the locations hold, the table
of backends has connections for. -/
def Tables.BackendsListed (t : Tables) : Prop :=
  ∀ (location : Bytes) (fds : List Fd), t.forwardingTable[location]? = some fds → ∀ fd ∈ fds,
    ∃ ptr : TcpConnectionPtr, t.serverConns[fd]? = some ptr ∧ ptr.fd = fd

/-- `class TcpConnection`. -/
structure TcpConnection where
  sock : Fd
  type : ConnectionType
  peerAddr : InetAddress
  readBuf : Bytes := []
  path : Bytes := []
  businessCode : Bytes := []
  deriving DecidableEq

/-- What a worker does to the outside: a message sent on the connection a
table holds for a descriptor, or an error response written back. -/
inductive Effect
  | send (fd : Fd) (message : Bytes)
  | reply (message : Bytes)
  deriving DecidableEq, Repr

/-- The messages sent through the tables. -/
def sends (effects : List Effect) : List (Fd × Bytes) :=
  effects.filterMap (fun
    | .send fd message => some (fd, message)
    | .reply _ => none)

theorem sends_map_send (sent : List (Fd × Bytes)) :
    sends (sent.map (fun m => .send m.1 m.2)) = sent := by
  unfold sends
  rw [List.filterMap_map]
  exact List.filterMap_some

/-! ## From a backend to a client -/

/-- The client a buffer names: what stands between the first `Client: ` and
the byte in front of the next line feed. -/
def clientOf (buf : Bytes) : Option Bytes :=
  match findSub clientKey buf with
  | none => none
  | some pos =>
    let beg := pos + 8
    match findFrom lf (beg + 1) buf with
    | none => none
    | some e => some (substr buf beg (e - beg - 1))

/-- **A buffer names the client of its first client line.** -/
theorem clientOf_append {head client : Bytes} (tail : Bytes) (hhead : Skips clientKey head)
    (hclient : lf ∉ client) :
    clientOf (head ++ (clientKey ++ (client ++ (crlf ++ tail)))) = some client := by
  -- the search for the line feed starts one byte into the value and its line end
  obtain ⟨b, value, hvalue⟩ : ∃ b value, client ++ [cr] = b :: value :=
    List.exists_cons_of_ne_nil (by simp)
  have hlf : lf ∉ value := by
    intro hmem
    have hmem : lf ∈ client ++ [cr] := by
      rw [hvalue]
      exact List.mem_cons_of_mem b hmem
    rcases List.mem_append.mp hmem with hmem | hmem
    · exact hclient hmem
    · exact absurd hmem (by decide)
  have hlen : value.length = client.length := by
    have hlen := congrArg List.length hvalue
    simpa using hlen.symm
  have hbuf : head ++ (clientKey ++ (client ++ (crlf ++ tail)))
      = (head ++ (clientKey ++ [b])) ++ (value ++ lf :: tail) := by
    have hsplit : client ++ (crlf ++ tail) = (client ++ [cr]) ++ lf :: tail := by simp
    rw [hsplit, hvalue]
    simp
  have hpos : (head ++ (clientKey ++ [b])).length = head.length + 8 + 1 := by
    rw [List.length_append]
    rfl
  have hsubstr : substr (head ++ (clientKey ++ (client ++ (crlf ++ tail)))) (head.length + 8)
      client.length = client := by
    have hbeg : head.length + 8 = (head ++ clientKey).length := by
      rw [List.length_append]
      rfl
    unfold substr
    rw [hbeg, ← List.append_assoc, List.drop_left, List.take_left]
  have hfind : findFrom lf (head.length + 8 + 1)
      (head ++ (clientKey ++ (client ++ (crlf ++ tail))))
        = some (value.length + (head.length + 8 + 1)) := by
    rw [hbuf, ← hpos, findFrom_append, idxOf?_append_cons tail hlf, Option.map_some]
  unfold clientOf
  rw [hhead.findSub_append]
  dsimp only
  rw [hfind]
  dsimp only
  rw [show value.length + (head.length + 8 + 1) - (head.length + 8) - 1 = client.length by omega,
    hsubstr]

theorem clientOf_of_skips {buf : Bytes} (h : Skips clientKey buf) : clientOf buf = none := by
  have hnone : findSub clientKey buf = none := by
    have hskip := h []
    rwa [List.append_nil] at hskip
  unfold clientOf
  rw [hnone]

namespace TcpConnection

/-- **Still the same connection**: what a worker does leaves the descriptor, the
type and the address of the peer. -/
structure Continues (conn conn' : TcpConnection) : Prop where
  sock : conn'.sock = conn.sock
  type : conn'.type = conn.type
  peerAddr : conn'.peerAddr = conn.peerAddr

/-- Forget a backend connection: it is erased from its table, and from the
vector of every location. -/
def forgetServer (t : Tables) (fd : Fd) : Tables :=
  { t with
    serverConns := t.serverConns.erase fd
    forwardingTable := t.forwardingTable.map (fun _ fds => fds.erase fd) }

/-- `do_server2client`. A connection that was closed is forgotten, and its
buffer is handled once more all the same. -/
def doServer2client (t : Tables) (conn : TcpConnection) (io : Recvs) :
    Except Fault (Tables × TcpConnection × List Effect) :=
  let (isOpen, buf) := readn io conn.readBuf
  let t := if isOpen then t else forgetServer t conn.sock
  match clientOf buf with
  | none => .ok (t, { conn with readBuf := buf }, [])
  | some client =>
    match t.clientTable[client]? with
    | none => .ok (t, { conn with readBuf := buf }, [])
    | some fd =>
      match t.clientConns[fd]? with
      -- `operator[]` makes a null pointer
      | none => .error .nullPointer
      | some ptr => .ok (t, { conn with readBuf := [] }, [.send ptr.fd buf])

/-- **What a task for a backend leaves**: the tables, unless the backend has
closed, the connection, and in its buffer what has been read, unless it was
sent on. -/
theorem doServer2client_ok {t t' : Tables} {conn conn' : TcpConnection} {io : Recvs}
    {effects : List Effect} (h : doServer2client t conn io = .ok (t', conn', effects)) :
    t' = (if io.ending = .wouldBlock then t else forgetServer t conn.sock)
      ∧ Continues conn conn'
      ∧ conn'.readBuf = if sends effects = [] then (readn io conn.readBuf).2 else [] := by
  unfold doServer2client at h
  have hopen := readn_fst io conn.readBuf
  generalize readn io conn.readBuf = r at h hopen ⊢
  obtain ⟨isOpen, buf⟩ := r
  obtain rfl : isOpen = decide (io.ending = .wouldBlock) := hopen
  dsimp only at h
  simp only [decide_eq_true_eq] at h
  split at h
  · cases h
    exact ⟨rfl, ⟨rfl, rfl, rfl⟩, rfl⟩
  · split at h
    · cases h
      exact ⟨rfl, ⟨rfl, rfl, rfl⟩, rfl⟩
    · split at h
      · cases h
      · cases h
        exact ⟨rfl, ⟨rfl, rfl, rfl⟩, rfl⟩

/-! ## From a client to a backend -/

/-- The loop of `find_forward_path`: the longest part of the path up to `pos`
that is a location, shortened at the slashes. The position is a natural number here;
`checkedFindForwardPathLoop` is the loop with the `int` of the source. -/
def findForwardPathLoop (forwardingTable : StdMap Bytes (List Fd)) (path : Bytes) (pos : ℕ) :
    Option Bytes :=
  if 0 < pos then
    if forwardingTable.contains (path.take (pos + 1)) then some (path.take (pos + 1))
    else if _hslash : path[pos]? = some slash then
      findForwardPathLoop forwardingTable path (pos - 1)
    else
      match _hpos : findLast slash (path.take (pos + 1)) with
      | none => none
      | some pos => findForwardPathLoop forwardingTable path pos
  else none
termination_by pos
decreasing_by
  · omega
  · exact lt_of_findLast_take _hslash _hpos

/-- `find_forward_path`, for a path shorter than `2 ^ 31` bytes
(`checkedFindForwardPath_eq`). On a longer one the `int` that the source begins with is
negative, and it finds nothing. -/
def findForwardPath (forwardingTable : StdMap Bytes (List Fd)) (path : Bytes) : Option Bytes :=
  findForwardPathLoop forwardingTable path (path.length - 1)

/-- A location that is found is one of the table. -/
theorem contains_of_findForwardPath {forwardingTable : StdMap Bytes (List Fd)}
    {path businessCode : Bytes} (h : findForwardPath forwardingTable path = some businessCode) :
    forwardingTable.contains businessCode := by
  unfold findForwardPath at h
  generalize path.length - 1 = pos at h
  induction pos using findForwardPathLoop.induct forwardingTable path with
  | case1 pos hpos hcontains =>
    rw [findForwardPathLoop, if_pos hpos, if_pos hcontains, Option.some.injEq] at h
    rw [← h]
    exact hcontains
  | case2 pos hpos hcontains hslash ih =>
    rw [findForwardPathLoop, if_pos hpos, if_neg hcontains, dif_pos hslash] at h
    exact ih h
  | case3 pos hpos hcontains hslash hnone =>
    rw [findForwardPathLoop, if_pos hpos, if_neg hcontains, dif_neg hslash] at h
    split at h
    · cases h
    · next hsome =>
      rw [hnone] at hsome
      cases hsome
  | case4 pos hpos hcontains hslash pos' hsome ih =>
    rw [findForwardPathLoop, if_pos hpos, if_neg hcontains, dif_neg hslash] at h
    split at h
    · cases h
    · next hsome' =>
      rw [hsome] at hsome'
      cases hsome'
      exact ih h
  | case5 pos hpos =>
    rw [findForwardPathLoop, if_neg hpos] at h
    cases h

/-- `parse_request_line`, which stores the path and the location on its
way. -/
def parseRequestLine (forwardingTable : StdMap Bytes (List Fd)) (conn : TcpConnection)
    (line : Bytes) : HttpCode × TcpConnection :=
  let line := line.dropLast
  match line.idxOf? blank with
  | none => (.badRequest, conn)
  | some blankPos1 =>
    let method := line.take blankPos1
    if method ≠ bytes "GET" ∧ method ≠ bytes "POST" then (.badRequest, conn)
    else
      match findLast blank line with
      -- there is a blank
      | none => (.badRequest, conn)
      | some blankPos2 =>
        if blankPos2 = blankPos1 then (.badRequest, conn)
        else
          let path := substr line (blankPos1 + 1) (blankPos2 - blankPos1 - 1)
          match findForwardPath forwardingTable path with
          | none => (.badRequest, { conn with path })
          | some businessCode =>
            let protocol := line.drop (blankPos2 + 1)
            if protocol ≠ bytes "HTTP/1.1" ∧ protocol ≠ bytes "HTTP/1.0" then
              (.badRequest, { conn with path, businessCode })
            else (.getRequest, { conn with path, businessCode })

/-- Looking at a request line leaves the connection and its buffer. -/
theorem continues_parseRequestLine (forwardingTable : StdMap Bytes (List Fd))
    (conn : TcpConnection) (line : Bytes) :
    Continues conn (parseRequestLine forwardingTable conn line).2
      ∧ (parseRequestLine forwardingTable conn line).2.readBuf = conn.readBuf := by
  unfold parseRequestLine
  dsimp only
  split
  · exact ⟨⟨rfl, rfl, rfl⟩, rfl⟩
  · split
    · exact ⟨⟨rfl, rfl, rfl⟩, rfl⟩
    · split
      · exact ⟨⟨rfl, rfl, rfl⟩, rfl⟩
      · split
        · exact ⟨⟨rfl, rfl, rfl⟩, rfl⟩
        · split
          · exact ⟨⟨rfl, rfl, rfl⟩, rfl⟩
          · split <;> exact ⟨⟨rfl, rfl, rfl⟩, rfl⟩

/-- **A request line that is accepted**, and what it is made of. -/
structure AcceptedLine (forwardingTable : StdMap Bytes (List Fd))
    (line method path protocol businessCode : Bytes) : Prop where
  line : line.dropLast = method ++ blank :: (path ++ blank :: protocol)
  method : method = bytes "GET" ∨ method = bytes "POST"
  protocol : protocol = bytes "HTTP/1.1" ∨ protocol = bytes "HTTP/1.0"
  location : findForwardPath forwardingTable path = some businessCode

section ParseRequestLine

variable {forwardingTable : StdMap Bytes (List Fd)} {line method path protocol businessCode : Bytes}

theorem AcceptedLine.blank_notMem_method
    (h : AcceptedLine forwardingTable line method path protocol businessCode) :
    blank ∉ method := by
  rcases h.method with hm | hm <;> rw [hm] <;> decide

theorem AcceptedLine.blank_notMem_protocol
    (h : AcceptedLine forwardingTable line method path protocol businessCode) :
    blank ∉ protocol := by
  rcases h.protocol with hp | hp <;> rw [hp] <;> decide

theorem AcceptedLine.length_protocol
    (h : AcceptedLine forwardingTable line method path protocol businessCode) :
    protocol.length = 8 := by
  rcases h.protocol with hp | hp <;> rw [hp] <;> rfl

/-- A line with two blanks is cut at the first and at the last. -/
theorem parseRequestLine_append (conn : TcpConnection)
    (hline : line.dropLast = method ++ blank :: (path ++ blank :: protocol))
    (hm : blank ∉ method) (hp : blank ∉ protocol) :
    parseRequestLine forwardingTable conn line
      = if method ≠ bytes "GET" ∧ method ≠ bytes "POST" then (.badRequest, conn)
        else
          match findForwardPath forwardingTable path with
          | none => (.badRequest, { conn with path })
          | some businessCode =>
            if protocol ≠ bytes "HTTP/1.1" ∧ protocol ≠ bytes "HTTP/1.0" then
              (.badRequest, { conn with path, businessCode })
            else (.getRequest, { conn with path, businessCode }) := by
  have hlast : findLast blank (method ++ blank :: (path ++ blank :: protocol))
      = some (method.length + 1 + path.length) := by
    have happ : method ++ blank :: (path ++ blank :: protocol)
        = (method ++ blank :: path) ++ blank :: protocol := by simp
    rw [happ, findLast_append_cons _ hp, List.length_append, List.length_cons]
    congr 1
    omega
  have hdrop : (method ++ blank :: (path ++ blank :: protocol)).drop (method.length + 1)
      = path ++ blank :: protocol := by
    rw [← List.drop_drop, List.drop_left]
    rfl
  have hpath : substr (method ++ blank :: (path ++ blank :: protocol)) (method.length + 1)
      (method.length + 1 + path.length - method.length - 1) = path := by
    unfold substr
    rw [hdrop, show method.length + 1 + path.length - method.length - 1 = path.length by omega,
      List.take_left]
  have hprotocol : (method ++ blank :: (path ++ blank :: protocol)).drop
      (method.length + 1 + path.length + 1) = protocol := by
    rw [show method.length + 1 + path.length + 1
      = method.length + 1 + (path.length + 1) by omega, ← List.drop_drop, hdrop,
      ← List.drop_drop, List.drop_left]
    rfl
  unfold parseRequestLine
  rw [hline]
  dsimp only
  rw [idxOf?_append_cons _ hm, hlast]
  dsimp only
  rw [if_neg (by omega : ¬ method.length + 1 + path.length = method.length), hpath, hprotocol,
    List.take_left]

/-- An accepted request line is accepted. -/
theorem AcceptedLine.parseRequestLine
    (h : AcceptedLine forwardingTable line method path protocol businessCode)
    (conn : TcpConnection) :
    TcpConnection.parseRequestLine forwardingTable conn line
      = (.getRequest, { conn with path, businessCode }) := by
  rw [parseRequestLine_append conn h.line h.blank_notMem_method h.blank_notMem_protocol,
    if_neg ?_, h.location]
  · dsimp only
    rw [if_neg]
    rintro ⟨h1, h0⟩
    rcases h.protocol with hp | hp
    · exact h1 hp
    · exact h0 hp
  · rintro ⟨hget, hpost⟩
    rcases h.method with hm | hm
    · exact hget hm
    · exact hpost hm

/-- **No other request line is.** -/
theorem acceptedLine_of_parseRequestLine {conn : TcpConnection}
    (h : (TcpConnection.parseRequestLine forwardingTable conn line).1 = .getRequest) :
    ∃ method path protocol businessCode,
      AcceptedLine forwardingTable line method path protocol businessCode := by
  by_cases hb : blank ∈ line.dropLast
  · obtain ⟨m, s, hms, hm⟩ := exists_eq_append_cons_of_mem hb
    obtain ⟨u, v, huv, hv⟩ := exists_eq_append_cons_of_mem_last hb
    by_cases hlen : u.length = m.length
    · -- there is one blank only
      unfold TcpConnection.parseRequestLine at h
      dsimp only at h
      rw [show line.dropLast.idxOf? blank = some m.length by rw [hms, idxOf?_append_cons s hm],
        show findLast blank line.dropLast = some m.length by
          rw [huv, findLast_append_cons u hv, hlen]] at h
      simp only [if_true] at h
      split at h <;> cases h
    · obtain ⟨p, hu, hs⟩ := eq_of_first_of_last (hms.symm.trans huv) hm hlen
      have hline : line.dropLast = m ++ blank :: (p ++ blank :: v) := by rw [hms, hs]
      rw [parseRequestLine_append conn hline hm hv] at h
      split at h
      · cases h
      · next hmethod =>
        cases hcode : findForwardPath forwardingTable p with
        | none =>
          rw [hcode] at h
          cases h
        | some code =>
          rw [hcode] at h
          dsimp only at h
          split at h
          · cases h
          · next hprotocol =>
            refine ⟨m, p, v, code, hline, ?_, ?_, hcode⟩
            · by_contra hnot
              exact hmethod (not_or.mp hnot)
            · by_contra hnot
              exact hprotocol (not_or.mp hnot)
  · unfold TcpConnection.parseRequestLine at h
    dsimp only at h
    rw [List.idxOf?_eq_none_iff.mpr hb] at h
    cases h

end ParseRequestLine

/-- The message `error_handle` writes for a status code and a text. -/
def errorMessage (json : JsonWriter) (code : ℕ) (message : Bytes) : Bytes :=
  let body := json.writeString (.object [(bytes "code", .int code),
    (bytes "message", .string message)])
  snprintf 32 (bytes "HTTP/1.1 " ++ (decimal code ++ [blank])) ++ (message ++ (crlf
    ++ (bytes "Connection: close\r\n"
    ++ (snprintf 32 (bytes "Content-Length: " ++ (decimal body.length ++ crlf))
    ++ (bytes "Content-Type: application/json\r\n" ++ (crlf ++ body))))))

/-- The answer to a request that is not forwarded. -/
def notFound (json : JsonWriter) : Effect :=
  .reply (errorMessage json 404 (bytes "404 Not Found"))

/-- The header line the proxy adds. -/
def clientLine (addr : InetAddress) : Bytes := clientKey ++ (addr.ipPort ++ crlf)

/-- The message with the client line inserted behind the first line feed, or
in front if there is none. -/
def insertClient (addr : InetAddress) (message : Bytes) : Bytes :=
  match message.idxOf? lf with
  | some headerPos =>
    message.take (headerPos + 1) ++ (clientLine addr ++ message.drop (headerPos + 1))
  | none => clientLine addr ++ message

/-- `std::getline`: the text up to the first line feed. -/
def getline (s : Bytes) : Bytes := s.takeWhile (· ≠ lf)

/-- What is inserted is a line. -/
theorem insertClient_eq (addr : InetAddress) (message : Bytes) :
    insertClient addr message
      = LineInsertion.insertLine lf (clientKey ++ (addr.ipPort ++ [cr])) message := by
  have hline : ∀ s : Bytes, clientLine addr ++ s
      = clientKey ++ (addr.ipPort ++ [cr]) ++ lf :: s := by
    intro s
    unfold clientLine
    simp
  unfold insertClient LineInsertion.insertLine
  cases message.idxOf? lf with
  | none =>
    dsimp only
    rw [hline]
  | some headerPos =>
    dsimp only
    rw [hline]

theorem insertClient_append (addr : InetAddress) {line : Bytes} (rest : Bytes)
    (h : lf ∉ line) :
    insertClient addr (line ++ lf :: rest)
      = line ++ lf :: (clientKey ++ addr.ipPort ++ (crlf ++ rest)) := by
  rw [insertClient_eq, LineInsertion.insertLine_append rest h]
  simp

/-- What `getline` reads of a text with a line. -/
theorem getline_append {line : Bytes} (rest : Bytes) (h : lf ∉ line) :
    getline (line ++ lf :: rest) = line :=
  LineInsertion.firstLine_append rest h

/-- Forget a client connection. -/
def forgetClient (t : Tables) (fd : Fd) (addr : InetAddress) : Tables :=
  { t with
    clientConns := t.clientConns.erase fd
    clientTable := t.clientTable.erase addr.ipPort }

/-- `do_client2server`. -/
def doClient2server (json : JsonWriter) (t : Tables) (conn : TcpConnection) (io : Recvs) :
    Except Fault (Tables × TcpConnection × List Effect) :=
  let (isOpen, buf) := readn io conn.readBuf
  let conn := { conn with readBuf := buf }
  if isOpen then
    match parseRequestLine t.forwardingTable conn (getline buf) with
    | (.badRequest, conn) => .ok (t, conn, [notFound json])
    | (.getRequest, conn) =>
      -- the location was found in the table
      match t.forwardingTable[conn.businessCode]?.getD [] with
      | [] => .ok (t, conn, [notFound json])
      | fd :: _ =>
        match t.serverConns[fd]? with
        -- `operator[]` makes a null pointer
        | none => .error .nullPointer
        | some ptr =>
          .ok (t, { conn with readBuf := [] }, [.send ptr.fd (insertClient conn.peerAddr buf)])
  else .ok (forgetClient t conn.sock conn.peerAddr, conn, [])

section DoClient2server

variable {json : JsonWriter} {t t' : Tables} {conn conn' : TcpConnection} {io : Recvs}

/-- **What a task for a client can do**: forget a client that has left, answer
that nothing was found and keep what has been read, or send an accepted request
on with the client line. -/
theorem doClient2server_cases {effects : List Effect}
    (h : doClient2server json t conn io = .ok (t', conn', effects)) :
    (io.ending ≠ .wouldBlock ∧ t' = forgetClient t conn.sock conn.peerAddr
      ∧ conn' = { conn with readBuf := (readn io conn.readBuf).2 } ∧ effects = [])
    ∨ (io.ending = .wouldBlock ∧ t' = t ∧ Continues conn conn'
      ∧ conn'.readBuf = (readn io conn.readBuf).2 ∧ effects = [notFound json])
    ∨ (io.ending = .wouldBlock ∧ t' = t ∧ Continues conn conn' ∧ conn'.readBuf = []
      ∧ (∃ method protocol, AcceptedLine t.forwardingTable
          (getline (readn io conn.readBuf).2) method conn'.path protocol conn'.businessCode)
      ∧ ∃ fd, effects = [.send fd (insertClient conn.peerAddr (readn io conn.readBuf).2)]) := by
  unfold doClient2server at h
  have hopen := readn_fst io conn.readBuf
  generalize readn io conn.readBuf = r at h hopen ⊢
  obtain ⟨isOpen, buf⟩ := r
  obtain rfl : isOpen = decide (io.ending = .wouldBlock) := hopen
  dsimp only at h ⊢
  simp only [decide_eq_true_eq] at h
  by_cases hending : io.ending = .wouldBlock
  · rw [if_pos hending] at h
    -- looking at the line leaves the buffer
    obtain ⟨hsame, hbuf⟩ := continues_parseRequestLine t.forwardingTable
      { conn with readBuf := buf } (getline buf)
    cases hparse : parseRequestLine t.forwardingTable { conn with readBuf := buf } (getline buf)
      with
    | mk code conn₁ =>
      cases code with
      | badRequest =>
        -- the line is refused, and the bytes stay
        rw [hparse] at h hsame hbuf
        cases h
        exact Or.inr (Or.inl ⟨hending, rfl, ⟨hsame.sock, hsame.type, hsame.peerAddr⟩, hbuf, rfl⟩)
      | getRequest =>
        -- accepted: the vector of its location is empty, or a backend is there
        obtain ⟨method, path, protocol, businessCode, haccepted⟩ :=
          acceptedLine_of_parseRequestLine (congrArg Prod.fst hparse)
        rw [haccepted.parseRequestLine] at h
        dsimp only at h
        split at h
        · cases h
          exact Or.inr (Or.inl ⟨hending, rfl, ⟨rfl, rfl, rfl⟩, rfl, rfl⟩)
        · split at h
          · cases h
          · cases h
            exact Or.inr (Or.inr ⟨hending, rfl, ⟨rfl, rfl, rfl⟩, rfl,
              ⟨method, protocol, haccepted⟩, _, rfl⟩)
  · rw [if_neg hending] at h
    cases h
    exact Or.inl ⟨hending, rfl, rfl, rfl⟩

/-- **What a task for a client leaves**: the tables, unless the client has left,
the connection, and in its buffer what has been read, unless it was sent on. -/
theorem doClient2server_ok {effects : List Effect}
    (h : doClient2server json t conn io = .ok (t', conn', effects)) :
    t' = (if io.ending = .wouldBlock then t else forgetClient t conn.sock conn.peerAddr)
      ∧ Continues conn conn'
      ∧ conn'.readBuf = if sends effects = [] then (readn io conn.readBuf).2 else [] := by
  rcases doClient2server_cases h with ⟨hending, rfl, rfl, rfl⟩ | ⟨hending, rfl, hsame, hbuf, rfl⟩ |
    ⟨hending, rfl, hsame, hbuf, -, fd, rfl⟩
  · exact ⟨(if_neg hending).symm, ⟨rfl, rfl, rfl⟩, rfl⟩
  · exact ⟨(if_pos hending).symm, hsame, hbuf⟩
  · exact ⟨(if_pos hending).symm, hsame, hbuf⟩

/-- A connection that is still open after a read, with an acceptable request in
its buffer: what happens is decided by the vector of its location. -/
theorem doClient2server_of_acceptedLine {buf method path protocol businessCode : Bytes}
    (hread : readn io conn.readBuf = (true, buf))
    (h : AcceptedLine t.forwardingTable (getline buf) method path protocol businessCode) :
    doClient2server json t conn io
      = match t.forwardingTable[businessCode]?.getD [] with
        | [] => .ok (t, { conn with readBuf := buf, path, businessCode }, [notFound json])
        | fd :: _ =>
          match t.serverConns[fd]? with
          | none => .error .nullPointer
          | some ptr => .ok (t, { conn with readBuf := [], path, businessCode },
              [.send ptr.fd (insertClient conn.peerAddr buf)]) := by
  unfold doClient2server
  rw [hread]
  dsimp only
  rw [if_pos rfl, h.parseRequestLine]

/-- What becomes of a request whose location has this first backend, or none. -/
def routed (json : JsonWriter) (backend : Option Fd) (message : Bytes) : Effect :=
  match backend with
  | some fd => .send fd message
  | none => notFound json

/-- **An acceptable request is routed** to the first backend of its location, or
answered that there is none. -/
theorem doClient2server_routed (hlisted : t.BackendsListed)
    {buf method path protocol businessCode : Bytes} (hread : readn io conn.readBuf = (true, buf))
    (h : AcceptedLine t.forwardingTable (getline buf) method path protocol businessCode) :
    ∃ conn', doClient2server json t conn io = .ok (t, conn',
      [routed json (t.forwardingTable[businessCode]?.getD []).head?
        (insertClient conn.peerAddr buf)]) := by
  rw [doClient2server_of_acceptedLine hread h]
  cases hfds : t.forwardingTable[businessCode]? with
  | none => exact ⟨_, rfl⟩
  | some fds =>
    cases fds with
    | nil => exact ⟨_, rfl⟩
    | cons fd fds =>
      obtain ⟨ptr, hptr, rfl⟩ := hlisted businessCode _ hfds fd List.mem_cons_self
      rw [Option.getD_some]
      dsimp only
      rw [hptr]
      exact ⟨_, rfl⟩

/-- **No request meets a null pointer** where the backends are listed. -/
theorem doClient2server_ne_error (hlisted : t.BackendsListed) (e : Fault) :
    doClient2server json t conn io ≠ .error e := by
  unfold doClient2server
  dsimp only
  split
  · split
    · exact nofun
    · next conn₁ hparse =>
      split
      · exact nofun
      · next fd fds hfds =>
        cases hcode : t.forwardingTable[conn₁.businessCode]? with
        | none =>
          rw [hcode] at hfds
          cases hfds
        | some fds' =>
          rw [hcode] at hfds
          obtain rfl : fds' = fd :: fds := hfds
          obtain ⟨ptr, hptr, -⟩ := hlisted _ _ hcode fd List.mem_cons_self
          rw [hptr]
          exact nofun
  · exact nofun

/-- **An acceptable request is sent on** to the first backend of its
location. -/
theorem doClient2server_of_accepted (hio : io.Plain)
    {method path protocol businessCode : Bytes} {fd : Fd} {ptr : TcpConnectionPtr}
    (h : AcceptedLine t.forwardingTable (getline (conn.readBuf ++ io.payload)) method path
      protocol businessCode)
    (hlive : (t.forwardingTable[businessCode]?.getD []).head? = some fd)
    (hptr : t.serverConns[fd]? = some ptr) :
    doClient2server json t conn io
      = .ok (t, { conn with readBuf := [], path, businessCode },
          [.send ptr.fd (insertClient conn.peerAddr (conn.readBuf ++ io.payload))]) := by
  obtain ⟨fds, hfds⟩ := List.head?_eq_some_iff.mp hlive
  have hread : readn io conn.readBuf = (true, conn.readBuf ++ io.payload) := by
    rw [readn_of_notMem conn.readBuf hio.notMem, decide_eq_true hio.isOpen]
  rw [doClient2server_of_acceptedLine hread h, hfds]
  dsimp only
  rw [hptr]

theorem doClient2server_effects (hio : io.Plain) {effects : List Effect}
    (h : doClient2server json t conn io = .ok (t', conn', effects)) :
    effects = [notFound json] ∨ ∃ fd message, effects = [.send fd message] := by
  rcases doClient2server_cases h with ⟨hending, -⟩ | ⟨-, -, -, -, hanswer⟩ |
    ⟨-, -, -, -, -, fd, hsend⟩
  · exact absurd hio.isOpen hending
  · exact Or.inl hanswer
  · exact Or.inr ⟨fd, _, hsend⟩

/-- **What is known of a request that was sent on**: its first line was
accepted with the path and the location that the connection stores, the
client line was inserted into what had been read, and the buffer was
emptied. -/
theorem doClient2server_eq_send {fd : Fd} {message : Bytes}
    (h : doClient2server json t conn io = .ok (t', conn', [.send fd message])) :
    message = insertClient conn.peerAddr (readn io conn.readBuf).2
      ∧ (∃ method protocol, AcceptedLine t.forwardingTable
          (getline (readn io conn.readBuf).2) method conn'.path protocol conn'.businessCode)
      ∧ t' = t ∧ conn'.readBuf = [] ∧ conn'.peerAddr = conn.peerAddr := by
  rcases doClient2server_cases h with ⟨-, -, -, hnone⟩ | ⟨-, -, -, -, hanswer⟩ |
    ⟨-, htables, hsame, hbuf, haccepted, fd', hsend⟩
  · cases hnone
  · cases hanswer
  · cases hsend
    exact ⟨rfl, haccepted, htables, hbuf, hsame.peerAddr⟩

end DoClient2server

/-- Successive reads, each handled as a whole before the next. -/
def serve (handle : Tables → TcpConnection → Recvs →
      Except Fault (Tables × TcpConnection × List Effect))
    (t : Tables) (conn : TcpConnection) :
    List Recvs → Except Fault (Tables × TcpConnection × List Effect)
  | [] => .ok (t, conn, [])
  | io :: ios =>
    match handle t conn io with
    | .error e => .error e
    | .ok (t, conn, effects) =>
      match serve handle t conn ios with
      | .error e => .error e
      | .ok (t, conn, effects') => .ok (t, conn, effects ++ effects')

end TcpConnection

/-! ## A small deployment -/

/-- Two clients. -/
def clientA : InetAddress := ⟨10, 0, 0, 1, 1000⟩

@[inherit_doc clientA]
def clientB : InetAddress := ⟨10, 0, 0, 2, 2000⟩

/-- The connection of a backend. -/
def backendLink : TcpConnection where
  sock := 4
  type := .server
  peerAddr := ⟨127, 0, 0, 1, 10002⟩

/-- The connection of the first client. -/
def clientLinkA : TcpConnection where
  sock := 7
  type := .client
  peerAddr := clientA

/-- Two locations with one backend each, and two connected clients. -/
def deployment : Tables where
  forwardingTable := ((∅ : StdMap Bytes (List Fd)).insert (bytes "/10001/") [4]).insert
    (bytes "/10002/") [5]
  serverConns := ((∅ : StdMap Fd TcpConnectionPtr).insert 4 ⟨4, ⟨127, 0, 0, 1, 10002⟩⟩).insert 5
    ⟨5, ⟨127, 0, 0, 1, 10003⟩⟩
  clientConns := ((∅ : StdMap Fd TcpConnectionPtr).insert 7 ⟨7, clientA⟩).insert 8 ⟨8, clientB⟩
  clientTable := ((∅ : StdMap Bytes Fd).insert clientA.ipPort 7).insert clientB.ipPort 8

end MicroBusiness
