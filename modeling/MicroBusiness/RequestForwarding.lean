import MicroBusiness.Accumulator
import MicroBusiness.HttpContext
import MicroBusiness.TcpConnection

/-!
# Forwarding the requests of a client

`doClient2server` treats what it has read as one request: it looks at the
first line, inserts the client line behind it, and sends everything to the
backend of the location. What it does not accept it answers with an error,
and keeps.

So the requests of a client are forwarded, each with its client line, and
without an error response, exactly when each read is one request
(`forwardsAll_iff`). The hard direction is that no other way of cutting the
same bytes gives the same result by accident; it rests on the library about
inserted lines, with accepted request lines as the lines that begin a
message.
-/

namespace MicroBusiness

open Search Accumulator LineInsertion TcpConnection

/-! ## Requests -/

/-- **A complete request that the proxy accepts**: a request without a body
whose target has no white space and leads to a backend that is there. -/
structure ClientRequest (t : Tables) extends RequestText where
  businessCode : Bytes
  backend : Fd
  method_eq : method = MicroBusiness.bytes "GET" ∨ method = MicroBusiness.bytes "POST"
  version_eq : version = MicroBusiness.bytes "HTTP/1.1" ∨ version = MicroBusiness.bytes "HTTP/1.0"
  target_eq : ∀ b ∈ target, isspace b = false
  location : findForwardPath t.forwardingTable target = some businessCode
  live : (t.forwardingTable[businessCode]?.getD []).head? = some backend
  connected : ∃ ptr : TcpConnectionPtr, t.serverConns[backend]? = some ptr ∧ ptr.fd = backend
  notMem : 0 ∉ toRequestText.bytes

/-- Whether a line may begin a message: the proxy accepts it as a request
line. -/
def Begins (t : Tables) (line : Bytes) : Prop :=
  ∃ method path protocol businessCode,
    AcceptedLine t.forwardingTable line method path protocol businessCode

/-- Every line that may begin a message has a `T`. -/
theorem Begins.mem {t : Tables} {line : Bytes} (h : Begins t line) : 84 ∈ line := by
  obtain ⟨method, path, protocol, businessCode, haccepted⟩ := h
  have hmethod : 84 ∈ method := by
    rcases haccepted.method with hm | hm <;> rw [hm] <;> decide
  refine List.mem_of_mem_dropLast ?_
  rw [haccepted.line]
  exact List.mem_append_left _ hmethod

theorem notMem_clientTag (addr : InetAddress) {b : UInt8} (hkey : b ∉ clientKey)
    (hdigit : isDigit b = false) (hdot : b ≠ 46) (hcolon : b ≠ colon) (hcr : b ≠ cr) :
    b ∉ clientKey ++ (addr.ipPort ++ [cr]) := by
  rw [List.mem_append, List.mem_append, List.mem_singleton, not_or, not_or]
  exact ⟨hkey, addr.notMem_ipPort hdigit hdot hcolon, hcr⟩

namespace ClientRequest

variable {t : Tables} (q : ClientRequest t)

/-- The first line of a request, as `getline` reads it. -/
def firstLine : Bytes := q.line ++ [cr]

/-- What follows the first line. -/
def headerBlock : Bytes := q.headers.flatMap (· ++ crlf) ++ crlf

theorem bytes_eq : q.bytes = q.firstLine ++ lf :: q.headerBlock := by
  unfold RequestText.bytes firstLine headerBlock
  simp

theorem accepted : AcceptedLine t.forwardingTable q.firstLine q.method q.target q.version
    q.businessCode where
  line := by
    unfold firstLine RequestText.line
    rw [List.dropLast_concat]
  method := q.method_eq
  protocol := q.version_eq
  location := q.location

theorem lf_notMem_firstLine : lf ∉ q.firstLine := by
  have hm : lf ∉ q.method := by
    rcases q.method_eq with hm | hm <;> rw [hm] <;> decide
  have ht := notMem_of_isspace (b := lf) rfl q.target_eq
  have hv : lf ∉ q.version := by
    rcases q.version_eq with hv | hv <;> rw [hv] <;> decide
  unfold firstLine RequestText.line
  simp only [List.mem_append, List.mem_cons, List.not_mem_nil, not_or, or_false]
  exact ⟨⟨hm, by decide, ht, by decide, hv⟩, by decide⟩

/-- **No shorter ending of a request line is accepted**: it would have to
begin inside the method, since it holds two blanks. -/
theorem eq_nil_of_begins {u v : Bytes} (h : q.firstLine = u ++ v) (hv : Begins t v) : u = [] := by
  obtain ⟨method, path, protocol, businessCode, haccepted⟩ := hv
  have hne : v ≠ [] := by
    rintro rfl
    exact absurd haccepted.line (by simp)
  have hline : q.method ++ blank :: (q.target ++ blank :: q.version)
      = u ++ (method ++ blank :: (path ++ blank :: protocol)) := by
    have hdrop := congrArg List.dropLast h
    rwa [q.accepted.line, List.dropLast_append_of_ne_nil hne, haccepted.line] at hdrop
  have hmq := q.accepted.blank_notMem_method
  have hcount := congrArg (List.count blank) hline
  rw [List.count_append, List.count_cons_self, List.count_append, List.count_cons_self,
    List.count_append, List.count_append, List.count_cons_self, List.count_append,
    List.count_cons_self, List.count_eq_zero_of_not_mem hmq,
    List.count_eq_zero_of_not_mem q.accepted.blank_notMem_protocol,
    List.count_eq_zero_of_not_mem haccepted.blank_notMem_method,
    List.count_eq_zero_of_not_mem haccepted.blank_notMem_protocol,
    List.count_eq_zero_of_not_mem (notMem_of_isspace (b := blank) rfl q.target_eq)] at hcount
  have hu : blank ∉ u := List.count_eq_zero.mp (by omega)
  rw [← List.append_assoc] at hline
  obtain ⟨hmethod, -⟩ := append_cons_inj_of_first hmq
    (by rw [List.mem_append, not_or]; exact ⟨hu, haccepted.blank_notMem_method⟩) hline
  -- of the two methods, none ends in the other
  have hends : method <:+ q.method := ⟨u, hmethod.symm⟩
  rcases q.method_eq with hm | hm <;> rcases haccepted.method with hm' | hm' <;>
    rw [hm, hm'] at hmethod hends
  · exact List.self_eq_append_left.mp hmethod
  · exact absurd hends (by decide)
  · exact absurd hends (by decide)
  · exact List.self_eq_append_left.mp hmethod

/-- A request is a message of whole lines. -/
theorem message : Message lf (Begins t) q.bytes where
  exists_line := by
    refine ⟨q.firstLine, q.headerBlock, q.bytes_eq, q.lf_notMem_firstLine,
      ⟨_, _, _, _, q.accepted⟩, fun u v => q.eq_nil_of_begins, Or.inr ?_⟩
    unfold headerBlock
    rw [List.getLast?_append]
    rfl

/-- What the backend of a request is to be sent. -/
def forwarded (addr : InetAddress) : Fd × Bytes := (q.backend, insertClient addr q.bytes)

end ClientRequest

/-! ## Reads -/

/-- **All requests are forwarded**: there is no error response, and what is
sent to the backends is the given messages, byte for byte in order, each byte
to the backend of its message. -/
def ForwardsAll (json : JsonWriter) (t : Tables) (conn : TcpConnection) (reads : List Recvs)
    (messages : List (Fd × Bytes)) : Prop :=
  ∃ t' conn' effects, serve (doClient2server json) t conn reads = .ok (t', conn', effects)
    ∧ (∀ message, .reply message ∉ effects)
    ∧ (sends effects).flatMap Prod.snd = messages.flatMap Prod.snd
    ∧ owners (sends effects) = owners messages

section Reads

variable {json : JsonWriter} {t t' : Tables} {conn conn' : TcpConnection} {reads : List Recvs}
  {effects : List Effect}

/-- **Without an error response every read was accepted** and passed on with
a client line. -/
theorem begins_of_serve (hplain : ∀ io ∈ reads, io.Plain) (hbuf : conn.readBuf = [])
    (hrun : serve (doClient2server json) t conn reads = .ok (t', conn', effects))
    (hreply : ∀ message, .reply message ∉ effects) :
    (∀ x ∈ reads.map Recvs.payload, Begins t (LineInsertion.firstLine lf x))
      ∧ (sends effects).flatMap Prod.snd
        = (reads.map Recvs.payload).flatMap (insertClient conn.peerAddr) := by
  induction reads generalizing conn effects with
  | nil =>
    cases hrun
    exact ⟨by simp, rfl⟩
  | cons io reads ih =>
    have hio := hplain io List.mem_cons_self
    rw [serve] at hrun
    cases hfirst : doClient2server json t conn io with
    | error e =>
      rw [hfirst] at hrun
      cases hrun
    | ok r =>
      obtain ⟨t₁, conn₁, effects₁⟩ := r
      rw [hfirst] at hrun
      dsimp only at hrun
      cases hrest : serve (doClient2server json) t₁ conn₁ reads with
      | error e =>
        rw [hrest] at hrun
        cases hrun
      | ok r =>
        obtain ⟨t₂, conn₂, effects₂⟩ := r
        rw [hrest] at hrun
        cases hrun
        -- a read has an answer, which is excluded, or is sent on and leaves an empty buffer
        rcases doClient2server_effects hio hfirst with rfl | ⟨fd, message, rfl⟩
        · exact absurd (List.mem_append_left effects₂ List.mem_cons_self) (hreply _)
        · obtain ⟨rfl, ⟨method, protocol, haccepted⟩, rfl, hbuf₁, hpeer⟩ :=
            doClient2server_eq_send hfirst
          have hbegins : Begins _ (getline (readn io conn.readBuf).2) := ⟨_, _, _, _, haccepted⟩
          rw [readn_of_notMem conn.readBuf hio.notMem, hbuf, List.nil_append] at hbegins ⊢
          obtain ⟨hall, htext⟩ := ih (fun io' h => hplain io' (List.mem_cons_of_mem io h)) hbuf₁
            hrest (fun m hm => hreply m (List.mem_append_right _ hm))
          refine ⟨List.forall_mem_cons.mpr ⟨hbegins, hall⟩, ?_⟩
          rw [List.map_cons, List.flatMap_cons, ← hpeer, ← htext]
          rfl

/-- **A request that arrives in a read of its own is forwarded.** -/
theorem doClient2server_of_request (q : ClientRequest t) {io : Recvs} (hplain : io.Plain)
    (hio : io.payload = q.bytes) (hbuf : conn.readBuf = []) :
    doClient2server json t conn io
      = .ok (t, { conn with readBuf := [], path := q.target, businessCode := q.businessCode },
          [.send q.backend (insertClient conn.peerAddr q.bytes)]) := by
  obtain ⟨ptr, hptr, hfd⟩ := q.connected
  have haccepted := q.accepted
  rw [← getline_append q.headerBlock q.lf_notMem_firstLine, ← q.bytes_eq, ← hio,
    ← List.nil_append io.payload, ← hbuf] at haccepted
  have hrun : doClient2server json t conn io = _ :=
    doClient2server_of_accepted hplain haccepted q.live hptr
  rw [hbuf, List.nil_append, hio, hfd] at hrun
  exact hrun

/-- **One request for each read is forwarded.** -/
theorem serve_of_requests {requests : List (ClientRequest t)}
    (hplain : ∀ io ∈ reads, io.Plain) (hbuf : conn.readBuf = [])
    (hreads : reads.map Recvs.payload = requests.map (fun q => q.bytes)) :
    ∃ conn', serve (doClient2server json) t conn reads
      = .ok (t, conn', (requests.map (ClientRequest.forwarded · conn.peerAddr)).map
          (fun m => .send m.1 m.2)) := by
  induction reads generalizing conn requests with
  | nil =>
    have hnil : requests = [] := List.map_eq_nil_iff.mp hreads.symm
    subst hnil
    exact ⟨conn, rfl⟩
  | cons io reads ih =>
    obtain ⟨q, requests, rfl⟩ : ∃ q qs, requests = q :: qs := by
      refine List.exists_cons_of_ne_nil ?_
      rintro rfl
      exact absurd hreads (by simp)
    rw [List.map_cons, List.map_cons, List.cons.injEq] at hreads
    obtain ⟨hio, hreads⟩ := hreads
    have hfirst : doClient2server json t conn io = _ :=
      doClient2server_of_request q (hplain io List.mem_cons_self) hio hbuf
    have hnext : ({ conn with
        readBuf := [], path := q.target, businessCode := q.businessCode } : TcpConnection).readBuf
          = [] := rfl
    obtain ⟨conn', hrest⟩ :=
      ih (fun io' h => hplain io' (List.mem_cons_of_mem io h)) hnext hreads
    refine ⟨conn', ?_⟩
    rw [serve, hfirst]
    dsimp only
    rw [hrest]
    rfl

end Reads

/-- **When the requests of a client are forwarded**: exactly when each read
is one request.

With two requests in a read the second one gets no client line. With a request in two
reads the first part is forwarded by itself, if its first line can be routed, and the
second is looked at as a request and rejected. And what has been rejected stays in the
buffer, in front of all that follows. From left to right the client lines in what was
sent mark where the reads have ended. -/
theorem forwardsAll_iff {json : JsonWriter} {t : Tables} {conn : TcpConnection}
    (hbuf : conn.readBuf = []) (requests : List (ClientRequest t)) (reads : List Recvs)
    (hopen : ∀ io ∈ reads, io.ending = .wouldBlock)
    (hreads : reads.flatMap Recvs.payload = requests.flatMap (fun q => q.bytes)) :
    ForwardsAll json t conn reads (requests.map (ClientRequest.forwarded · conn.peerAddr))
      ↔ reads.map Recvs.payload = requests.map (fun q => q.bytes) := by
  have hplain : ∀ io ∈ reads, io.Plain := by
    refine Recvs.plain_of_flatMap hopen (fun h0 => ?_)
    rw [hreads] at h0
    obtain ⟨q, -, h0⟩ := List.mem_flatMap.mp h0
    exact q.notMem h0
  have hinsert : insertClient conn.peerAddr
      = insertLine lf (clientKey ++ (conn.peerAddr.ipPort ++ [cr])) :=
    funext (insertClient_eq conn.peerAddr)
  constructor
  · rintro ⟨t', conn', effects, hrun, hreply, htext, -⟩
    obtain ⟨hbegins, htext'⟩ := begins_of_serve hplain hbuf hrun hreply
    refine eq_of_insertLine_eq (t := 84)
      (notMem_clientTag conn.peerAddr (by decide) (by decide) (by decide) (by decide) (by decide))
      (notMem_clientTag conn.peerAddr (by decide) (by decide) (by decide) (by decide) (by decide))
      (fun l => Begins.mem) hbegins ?_ ?_ ?_
    · intro x hx
      obtain ⟨q, -, rfl⟩ := List.mem_map.mp hx
      exact q.message
    · rw [← List.flatMap_def, ← List.flatMap_def, hreads]
    · rw [← hinsert, ← htext', htext, List.flatMap_map, List.flatMap_map]
      rfl
  · intro h
    obtain ⟨conn', hrun⟩ : ∃ conn', serve (doClient2server json) t conn reads = _ :=
      serve_of_requests hplain hbuf h
    refine ⟨t, conn', _, hrun, ?_, ?_, ?_⟩
    · intro message hmem
      obtain ⟨m, -, hm⟩ := List.mem_map.mp hmem
      cases hm
    · rw [sends_map_send]
    · rw [sends_map_send]

/-! ## A request in two reads -/

/-- A request to show the commodities. -/
def showCommodities : ClientRequest deployment where
  method := bytes "GET"
  target := bytes "/10001/show/"
  version := bytes "HTTP/1.1"
  headers := [bytes "Host: a"]
  businessCode := bytes "/10001/"
  backend := 4
  method_eq := Or.inl rfl
  version_eq := Or.inl rfl
  target_eq := by decide +kernel
  location := by decide +kernel
  live := by decide
  connected := ⟨⟨4, ⟨127, 0, 0, 1, 10002⟩⟩, by decide, rfl⟩
  notMem := by decide +kernel

/-- The request twice, each time in one read. -/
def twoReads : List Recvs :=
  [⟨[⟨showCommodities.bytes, by decide +kernel⟩], .wouldBlock⟩,
   ⟨[⟨showCommodities.bytes, by decide +kernel⟩], .wouldBlock⟩]

/-- Both requests are forwarded. -/
theorem forwardsAll_twoReads :
    ForwardsAll silentWriter deployment clientLinkA twoReads
      [showCommodities.forwarded clientA, showCommodities.forwarded clientA] := by
  refine (forwardsAll_iff rfl [showCommodities, showCommodities] twoReads ?_ ?_).mpr ?_
  · intro io hio
    unfold twoReads at hio
    simp only [List.mem_cons, List.not_mem_nil, or_false] at hio
    rcases hio with rfl | rfl <;> rfl
  · decide +kernel
  · decide +kernel

/-- The request in two reads. -/
def brokenRead : List Recvs :=
  [⟨[⟨showCommodities.bytes.take 6, by decide +kernel⟩], .wouldBlock⟩,
   ⟨[⟨showCommodities.bytes.drop 6, by decide +kernel⟩], .wouldBlock⟩]

/-- **A request whose line is in two reads is answered with an error.** -/
theorem not_forwardsAll_brokenRead :
    brokenRead.flatMap Recvs.payload = showCommodities.bytes
      ∧ ¬ ForwardsAll silentWriter deployment clientLinkA brokenRead
        [showCommodities.forwarded clientA] := by
  refine ⟨by decide +kernel, ?_⟩
  rintro ⟨t', conn', effects, hrun, hreply, -⟩
  have heffects : (serve (doClient2server silentWriter) deployment clientLinkA
      brokenRead).toOption.map (fun r => r.2.2.head?) = some (some (notFound silentWriter)) := by
    decide +kernel
  rw [hrun] at heffects
  exact hreply _ (List.mem_of_mem_head? (Option.some.inj heffects))

end MicroBusiness
