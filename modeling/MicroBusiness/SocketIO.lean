import MicroBusiness.Text

/-!
# Reading from a socket

`SocketIO::readn` calls `recv` until there is nothing more to read, and
appends what it gets to a string. What a socket holds for one call of `readn`
is a `Recvs`: the chunks `recv` delivers, and how the last `recv` ends.

The chunks are appended as C strings, that is up to their first zero byte.
Text without one is appended as it is (`readn_of_notMem`).
-/

namespace MicroBusiness

/-- What one `recv` delivers: at least a byte, and no more than fit into the
buffer in front of its last byte. -/
abbrev Chunk := { b : Bytes // b ≠ [] ∧ b.length ≤ 255 }

/-- How the last `recv` of a call of `readn` ends. -/
inductive RecvEnd
  /-- `EAGAIN` or `EWOULDBLOCK`. -/
  | wouldBlock
  /-- The peer has closed. -/
  | closed
  /-- Any other error. -/
  | error
  deriving DecidableEq, Repr

/-- What the `recv`s of one call of `readn` return. -/
structure Recvs where
  chunks : List Chunk
  ending : RecvEnd

/-- The bytes that arrive. -/
def Recvs.payload (io : Recvs) : Bytes := io.chunks.flatMap Subtype.val

/-- A read that leaves the connection open, of text without zero bytes. -/
structure Recvs.Plain (io : Recvs) : Prop where
  isOpen : io.ending = .wouldBlock
  notMem : 0 ∉ io.payload

theorem Recvs.plain_of_flatMap {ios : List Recvs} (hopen : ∀ io ∈ ios, io.ending = .wouldBlock)
    (h0 : 0 ∉ ios.flatMap Recvs.payload) : ∀ io ∈ ios, io.Plain := by
  intro io hio
  refine ⟨hopen io hio, fun hmem => ?_⟩
  exact h0 (List.mem_flatMap.mpr ⟨io, hio, hmem⟩)

/-- The loop of `readn`. What `buf += temp` appends is a C string. -/
def readnLoop (ending : RecvEnd) : List Chunk → Bytes → Bool × Bytes
  | [], buf => (ending = .wouldBlock, buf)
  | chunk :: chunks, buf => readnLoop ending chunks (buf ++ cString chunk)

/-- `readn`: whether the connection is still open, and the buffer. -/
def readn (io : Recvs) (buf : Bytes) : Bool × Bytes := readnLoop io.ending io.chunks buf

/-- Whether the connection is still open is how the last `recv` ends. -/
theorem readn_fst (io : Recvs) (buf : Bytes) :
    (readn io buf).1 = decide (io.ending = .wouldBlock) := by
  obtain ⟨chunks, ending⟩ := io
  unfold readn
  dsimp only
  induction chunks generalizing buf with
  | nil => rfl
  | cons chunk chunks ih => exact ih _

/-- What a read appends is what each `recv` brings, up to its first zero
byte. -/
theorem readn_snd (io : Recvs) (buf : Bytes) :
    (readn io buf).2 = buf ++ io.chunks.flatMap (fun chunk : Chunk => cString chunk.val) := by
  obtain ⟨chunks, ending⟩ := io
  unfold readn
  dsimp only
  induction chunks generalizing buf with
  | nil => exact (List.append_nil buf).symm
  | cons chunk chunks ih =>
    rw [readnLoop, ih, List.flatMap_cons, List.append_assoc]

/-- **Text without zero bytes is read as it arrives.** -/
theorem readn_of_notMem {io : Recvs} (buf : Bytes) (h : 0 ∉ io.payload) :
    readn io buf = (decide (io.ending = .wouldBlock), buf ++ io.payload) := by
  obtain ⟨chunks, ending⟩ := io
  unfold readn
  dsimp only
  induction chunks generalizing buf with
  | nil =>
    show _ = (_, buf ++ [])
    rw [List.append_nil]
    rfl
  | cons chunk chunks ih =>
    have hsplit : Recvs.payload ⟨chunk :: chunks, ending⟩
        = chunk.val ++ Recvs.payload ⟨chunks, ending⟩ := rfl
    rw [hsplit, List.mem_append, not_or] at h
    rw [readnLoop, cString_eq_self h.1, ih (buf ++ chunk.val) h.2, hsplit, List.append_assoc]

end MicroBusiness
