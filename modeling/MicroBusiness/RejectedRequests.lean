import MicroBusiness.ClientAttribution

/-!
# What a rejected request leaves behind

`do_client2server` answers a request whose first line it cannot parse, whose
location it does not know, or whose location has no backend, with
`error_handle`, and returns. The error response says `Connection: close`, but the
connection stays open, and `_read_buf` is emptied only where a request is sent
on: what has been rejected stays in front of all that comes later, and its first
line is the one that is looked at again.

`RejectedReads` is any number of such reads, each with the tables of its time. What
they leave is a connection that differs from a fresh one in its buffer, which
holds everything they brought (`RejectedReads.leaves`), and in the path and the
location, which an acceptable request sets anew. So a later request is forwarded as
on a fresh connection exactly when the rejected reads brought nothing
(`recovers_iff`).
-/

namespace MicroBusiness

open TcpConnection

/-- **Reads that are rejected**, one after the other, on a connection that stays
open. -/
inductive RejectedReads (json : JsonWriter) :
    TcpConnection → List (Tables × Recvs) → TcpConnection → Prop
  | nil (conn : TcpConnection) : RejectedReads json conn [] conn
  | cons {conn conn₁ conn' : TcpConnection} {t t' : Tables} {io : Recvs}
      {reads : List (Tables × Recvs)}
      (answered : doClient2server json t conn io = .ok (t', conn₁, [notFound json]))
      (rest : RejectedReads json conn₁ reads conn') :
      RejectedReads json conn ((t, io) :: reads) conn'

theorem readn_snd_append (io : Recvs) (buf : Bytes) :
    (readn io buf).2 = buf ++ (readn io []).2 := by
  rw [readn_snd, readn_snd, List.nil_append]

theorem doClient2server_eq_notFound {json : JsonWriter} {t t' : Tables}
    {conn conn' : TcpConnection} {io : Recvs}
    (h : doClient2server json t conn io = .ok (t', conn', [notFound json])) :
    Continues conn conn' ∧ conn'.readBuf = conn.readBuf ++ (readn io []).2 := by
  rcases doClient2server_cases h with ⟨-, -, -, hnone⟩ | ⟨-, -, hsame, hbuf, -⟩ |
    ⟨-, -, -, -, -, fd, hsend⟩
  · cases hnone
  · exact ⟨hsame, hbuf.trans (readn_snd_append io conn.readBuf)⟩
  · cases hsend

/-- **Rejected reads leave everything they brought** in the buffer of the
connection, which otherwise is the same. -/
theorem RejectedReads.leaves {json : JsonWriter} {conn conn' : TcpConnection}
    {reads : List (Tables × Recvs)} (h : RejectedReads json conn reads conn') :
    Continues conn conn'
      ∧ conn'.readBuf = conn.readBuf ++ reads.flatMap (fun r => (readn r.2 []).2) := by
  induction h with
  | nil conn => exact ⟨⟨rfl, rfl, rfl⟩, (List.append_nil _).symm⟩
  | cons answered rest ih =>
    obtain ⟨hsame, hbuf⟩ := doClient2server_eq_notFound answered
    obtain ⟨hsame', hbuf'⟩ := ih
    refine ⟨⟨hsame'.sock.trans hsame.sock, hsame'.type.trans hsame.type,
      hsame'.peerAddr.trans hsame.peerAddr⟩, ?_⟩
    rw [hbuf', hbuf, List.flatMap_cons, List.append_assoc]

theorem length_insertClient (addr : InetAddress) (message : Bytes) :
    (insertClient addr message).length = message.length + (clientLine addr).length := by
  unfold insertClient
  cases message.idxOf? lf with
  | none =>
    dsimp only
    rw [List.length_append, Nat.add_comm]
  | some headerPos =>
    dsimp only
    rw [List.length_append, List.length_append, Nat.add_left_comm, ← List.length_append,
      List.take_append_drop, Nat.add_comm]

/-- **A request is forwarded alike** on connections that are the same and have the
same bytes in their buffers. -/
theorem doClient2server_eq_of_continues {json : JsonWriter} {t t' : Tables}
    {conn conn' conn'' : TcpConnection} {io : Recvs} {fd : Fd} {message : Bytes}
    (hsame : Continues conn conn') (hbuf : conn'.readBuf = conn.readBuf)
    (h : doClient2server json t conn io = .ok (t', conn'', [.send fd message])) :
    doClient2server json t conn' io = .ok (t', conn'', [.send fd message]) := by
  obtain ⟨-, ⟨method, protocol, haccepted⟩, -⟩ := doClient2server_eq_send h
  have hread : readn io conn.readBuf = (true, (readn io conn.readBuf).2) := by
    rcases doClient2server_cases h with ⟨-, -, -, hnone⟩ | ⟨-, -, -, -, hanswer⟩ | ⟨hopen, -⟩
    · cases hnone
    · cases hanswer
    · exact Prod.ext ((readn_fst io conn.readBuf).trans (decide_eq_true hopen)) rfl
  have hread' := hread
  rw [← hbuf] at hread' haccepted
  rw [← h, doClient2server_of_acceptedLine hread' haccepted]
  rw [hbuf] at haccepted
  rw [doClient2server_of_acceptedLine hread haccepted]
  obtain ⟨sock, type, peerAddr, readBuf, path, businessCode⟩ := conn
  obtain ⟨sock', type', peerAddr', readBuf', path', businessCode'⟩ := conn'
  obtain ⟨rfl, rfl, rfl⟩ := hsame
  obtain rfl : readBuf' = readBuf := hbuf
  rfl

/-- **Exactly when a rejected request does not spoil the connection**: when it brought
no bytes. Whatever reads have been rejected on a fresh connection, and whatever
the tables are when an acceptable request arrives in a read of its own: it is
forwarded as it would be on a fresh connection if and only if nothing of the
rejected reads has got into the buffer. -/
theorem recovers_iff {json : JsonWriter} {conn conn' : TcpConnection}
    {rejected : List (Tables × Recvs)} (hfresh : conn.readBuf = [])
    (hrejected : RejectedReads json conn rejected conn') {t t' : Tables} {io : Recvs}
    {conn'' : TcpConnection} {fd : Fd} {message : Bytes}
    (hgood : doClient2server json t conn io = .ok (t', conn'', [.send fd message])) :
    doClient2server json t conn' io = .ok (t', conn'', [.send fd message])
      ↔ ∀ r ∈ rejected, (readn r.2 []).2 = [] := by
  obtain ⟨hsame, hbuf⟩ := hrejected.leaves
  rw [hfresh, List.nil_append] at hbuf
  rw [← List.flatMap_eq_nil_iff, ← hbuf]
  constructor
  · intro h
    -- the message would be longer by what was left
    obtain ⟨hmessage, -⟩ := doClient2server_eq_send hgood
    obtain ⟨hmessage', -⟩ := doClient2server_eq_send h
    have hlength := congrArg List.length (hmessage.symm.trans hmessage')
    rw [length_insertClient, length_insertClient, hsame.peerAddr, hfresh,
      readn_snd_append io conn'.readBuf, List.length_append] at hlength
    exact List.eq_nil_of_length_eq_zero (by omega)
  · intro hempty
    exact doClient2server_eq_of_continues hsame (hempty.trans hfresh.symm) hgood

/-! ## A bad line in front of a request -/

/-- A read that brings a line that is no request line. -/
def badRead : Recvs := ⟨[⟨bytes "BAD\r\n", by decide +kernel⟩], .wouldBlock⟩

/-- A read that brings a zero byte, which ends the text in front of itself. -/
def zeroRead : Recvs := ⟨[⟨[0], by decide⟩], .wouldBlock⟩

/-- **A bad line spoils the connection**: the request behind it is forwarded on a fresh
connection, and on this one it is not. -/
theorem not_recovers_badLine :
    ∃ conn', RejectedReads silentWriter clientLinkA [(deployment, badRead)] conn'
      ∧ ∃ io conn'' fd message,
        doClient2server silentWriter deployment clientLinkA io
          = .ok (deployment, conn'', [.send fd message])
        ∧ doClient2server silentWriter deployment conn' io
          ≠ .ok (deployment, conn'', [.send fd message]) := by
  refine ⟨{ clientLinkA with readBuf := bytes "BAD\r\n" },
    .cons (by decide +kernel : _ = Except.ok (deployment, _, _)) (.nil _), _, _, _, _,
    forwards_showRequest, ?_⟩
  decide +kernel

theorem length_showRequest_le :
    showRequest "Host: a\r\n" ≠ [] ∧ (showRequest "Host: a\r\n").length ≤ 255 := by
  decide +kernel

/-- A read without text does no harm. -/
theorem recovers_zeroRead :
    doClient2server silentWriter deployment clientLinkA
        ⟨[⟨showRequest "Host: a\r\n", length_showRequest_le⟩], .wouldBlock⟩
      = .ok (deployment, { clientLinkA with
            path := bytes "/10001/show/", businessCode := bytes "/10001/" },
          [.send 4 (insertClient clientA (showRequest "Host: a\r\n"))])
      ↔ ∀ r ∈ [(deployment, zeroRead)], (readn r.2 []).2 = [] :=
  recovers_iff rfl
    (.cons (by decide +kernel : doClient2server silentWriter deployment clientLinkA zeroRead
      = .ok (deployment, clientLinkA, [notFound silentWriter])) (.nil _))
    forwards_showRequest

end MicroBusiness
