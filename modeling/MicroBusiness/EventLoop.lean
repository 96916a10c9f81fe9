import MicroBusiness.TcpConnection

/-!
# The event loop of the proxy

`EventLoop` owns the tables. It enters new clients into them and has the
readable connections processed by the workers. A `Proxy` is the tables
together with the connection objects behind the pointers.

Entering a client under a descriptor that is not in use, and forgetting a
client that has left, keep the clients of the table connected
(`ClientsListed.acceptClient`, `ClientsListed.forgetClient`).
-/

namespace MicroBusiness

/-- The proxy: its tables, and the connection objects by descriptor. -/
structure Proxy where
  tables : Tables
  conns : StdMap Fd TcpConnection
  deriving DecidableEq

namespace EventLoop

/-- What `handleNewConnection` enters into the tables. -/
def acceptClient (t : Tables) (peerfd : Fd) (addr : InetAddress) : Tables :=
  { t with
    clientConns := t.clientConns.insertIfNew peerfd ⟨peerfd, addr⟩
    clientTable := t.clientTable.insert addr.ipPort peerfd }

/-- `handleNewConnection`, with the descriptor and the address of the
accepted connection. -/
def handleNewConnection (p : Proxy) (peerfd : Fd) (addr : InetAddress) : Proxy where
  tables := acceptClient p.tables peerfd addr
  conns :=
    -- `insert` keeps a connection that is there under the descriptor
    if p.tables.clientConns.contains peerfd then p.conns
    else p.conns.insert peerfd { sock := peerfd, type := .client, peerAddr := addr }

/-- `handleMessage`: the connection that is handed to the workers. -/
def handleMessage (p : Proxy) (fd : Fd) : Option TcpConnection :=
  if p.tables.clientConns.contains fd then p.conns[fd]?
  else if p.tables.serverConns.contains fd then p.conns[fd]?
  else none

/-- `process`, run by a worker on a connection it was handed. -/
def process (json : JsonWriter) (p : Proxy) (conn : TcpConnection) (io : Recvs) :
    Except Fault (Proxy × List Effect) :=
  let handled :=
    match conn.type with
    | .server => TcpConnection.doServer2client p.tables conn io
    | .client => TcpConnection.doClient2server json p.tables conn io
  match handled with
  | .error e => .error e
  | .ok (tables, conn, effects) => .ok ({ tables, conns := p.conns.insert conn.sock conn }, effects)

/-- **A connection is processed** as its type says. -/
theorem process_eq {json : JsonWriter} {p : Proxy} {io : Recvs} {conn conn' : TcpConnection}
    {t : Tables} {effects : List Effect}
    (hrun : (match conn.type with
      | .server => TcpConnection.doServer2client p.tables conn io
      | .client => TcpConnection.doClient2server json p.tables conn io) = .ok (t, conn', effects)) :
    process json p conn io = .ok (⟨t, p.conns.insert conn'.sock conn'⟩, effects) := by
  unfold process
  dsimp only
  rw [hrun]

/-- What `process` has done was done as the type of the connection says. -/
theorem exists_of_process {json : JsonWriter} {p p' : Proxy} {conn : TcpConnection} {io : Recvs}
    {effects : List Effect} (h : process json p conn io = .ok (p', effects)) :
    ∃ conn', (match conn.type with
        | .server => TcpConnection.doServer2client p.tables conn io
        | .client => TcpConnection.doClient2server json p.tables conn io)
          = .ok (p'.tables, conn', effects) ∧ p'.conns = p.conns.insert conn'.sock conn' := by
  unfold process at h
  dsimp only at h
  split at h
  · cases h
  · next conn' effects' hrun =>
    cases h
    exact ⟨conn', hrun, rfl⟩

/-- **What a processed connection has become** is stored, and is still the same
connection, with what has been read in its buffer unless it was sent on; the
tables change only if it was closed. -/
theorem of_process {json : JsonWriter} {p p' : Proxy} {conn : TcpConnection} {io : Recvs}
    {effects : List Effect} (h : process json p conn io = .ok (p', effects)) :
    p'.tables = (if io.ending = .wouldBlock then p.tables
        else match conn.type with
          | .server => TcpConnection.forgetServer p.tables conn.sock
          | .client => TcpConnection.forgetClient p.tables conn.sock conn.peerAddr)
      ∧ ∃ conn', conn.Continues conn' ∧ p'.conns = p.conns.insert conn.sock conn'
        ∧ conn'.readBuf = if sends effects = [] then (readn io conn.readBuf).2 else [] := by
  obtain ⟨conn', hrun, hconns⟩ := exists_of_process h
  cases htype : conn.type with
  | server =>
    rw [htype] at hrun
    obtain ⟨htables, hsame, hbuf⟩ := TcpConnection.doServer2client_ok hrun
    exact ⟨htables, conn', hsame, by rw [hconns, hsame.sock], hbuf⟩
  | client =>
    rw [htype] at hrun
    obtain ⟨htables, hsame, hbuf⟩ := TcpConnection.doClient2server_ok hrun
    exact ⟨htables, conn', hsame, by rw [hconns, hsame.sock], hbuf⟩

end EventLoop

/-! ## Clients come and go -/

theorem EventLoop.getElem?_acceptClient {t : Tables} {fd : Fd} (addr : InetAddress)
    (hfd : t.clientConns[fd]? = none) (fd' : Fd) :
    (acceptClient t fd addr).clientConns[fd']?
      = if fd = fd' then some ⟨fd, addr⟩ else t.clientConns[fd']? :=
  getElem?_insertIfNew_of_none hfd fd' _

theorem EventLoop.conns_handleNewConnection {p : Proxy} {fd : Fd} (addr : InetAddress)
    (hfd : p.tables.clientConns[fd]? = none) (fd' : Fd) :
    (handleNewConnection p fd addr).conns[fd']?
      = if fd = fd' then some { sock := fd, type := .client, peerAddr := addr }
        else p.conns[fd']? := by
  have hnew : ¬ p.tables.clientConns.contains fd := by
    rw [contains_iff_exists, hfd]
    exact fun h => nomatch h
  unfold handleNewConnection
  dsimp only
  rw [if_neg hnew, getElem?_insert_ite]

namespace Tables

variable {t : Tables}

/-- A client under a new descriptor is listed. -/
theorem ClientsListed.acceptClient (ht : t.ClientsListed) {fd : Fd} (addr : InetAddress)
    (hfd : t.clientConns[fd]? = none) : (EventLoop.acceptClient t fd addr).ClientsListed := by
  intro client fd' hclient
  unfold EventLoop.acceptClient at hclient
  dsimp only at hclient
  rw [EventLoop.getElem?_acceptClient addr hfd]
  rcases of_getElem?_insert hclient with ⟨haddr, rfl⟩ | ⟨-, hclient⟩
  · exact ⟨⟨fd, addr⟩, if_pos rfl, rfl, haddr⟩
  · obtain ⟨ptr, hptr, hptr', hpeer⟩ := ht client fd' hclient
    refine ⟨ptr, ?_, hptr', hpeer⟩
    rw [if_neg ?_, hptr]
    rintro rfl
    rw [hfd] at hptr
    cases hptr

/-- When a client is forgotten, the others stay listed. -/
theorem ClientsListed.forgetClient (ht : t.ClientsListed) {fd : Fd} {addr : InetAddress}
    (hfd : t.clientConns[fd]? = some ⟨fd, addr⟩) :
    (TcpConnection.forgetClient t fd addr).ClientsListed := by
  intro client fd' hclient
  unfold TcpConnection.forgetClient at hclient ⊢
  dsimp only at hclient ⊢
  obtain ⟨hne, hclient⟩ := of_getElem?_erase hclient
  obtain ⟨ptr, hptr, hptr', hpeer⟩ := ht client fd' hclient
  refine ⟨ptr, ?_, hptr', hpeer⟩
  rw [getElem?_erase_ite, if_neg ?_, hptr]
  -- the connection forgotten was to another address
  rintro rfl
  rw [hfd] at hptr
  cases hptr
  exact hne hpeer

end Tables

/-- **What a worker does when a client has left.** -/
theorem TcpConnection.doClient2server_closed (json : JsonWriter) (t : Tables)
    (conn : TcpConnection) {io : Recvs} (hio : io.ending ≠ .wouldBlock) :
    ∃ buf, doClient2server json t conn io
      = .ok (forgetClient t conn.sock conn.peerAddr, { conn with readBuf := buf }, []) := by
  have hclosed : readn io conn.readBuf = (false, (readn io conn.readBuf).2) :=
    Prod.ext ((readn_fst io conn.readBuf).trans (decide_eq_false hio)) rfl
  refine ⟨(readn io conn.readBuf).2, ?_⟩
  unfold doClient2server
  rw [hclosed]
  rfl

end MicroBusiness
