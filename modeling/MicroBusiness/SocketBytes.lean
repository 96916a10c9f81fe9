import MicroBusiness.SocketIO
import MicroBusiness.Positions

/-!
# The bytes of a socket

`SocketIO::readn` reads into an array of 256 zeros that it clears behind every
`recv`, and appends the array to a string, as the C string it begins with. There
is always a zero in the array, so the append stays inside it (`checkedReadn_eq`); and
it is all the append looks for, so the bytes are preserved exactly if none of them is
a zero (`preserves_iff`).

`SocketIO::writen` calls `write` until all bytes are taken, and stops short at any
error but an interruption. What it gets accepted is the beginning of the buffer it
returns the length of (`writen_exact_prefix`). `TcpConnection::send` does not look at
that length, so messages arrive as they were sent exactly if no write had to stop
short (`sendEach_complete_iff`).
-/

namespace MicroBusiness

open Search

/-! ## Reading -/

namespace SocketIO

/-- `memset(temp, 0, sizeof(temp))`. -/
def clearedTemp : Bytes := List.replicate 256 0

/-- `temp` behind a `recv` that delivers the bytes. -/
def recvInto (temp b : Bytes) : Bytes := b ++ temp.drop b.length

/-- The C string an array begins with, if it ends inside the array. -/
def cStringIn (temp : Bytes) : Option Bytes := (temp.idxOf? 0).map temp.take

/-- The loop of `readn` with its array. It has no result if it reads behind the end of
the array. -/
def checkedReadnLoop (ending : RecvEnd) : List Chunk → Bytes → Bytes → Option (Bool × Bytes)
  | [], _, buf => some (ending = .wouldBlock, buf)
  | chunk :: chunks, temp, buf =>
    (cStringIn (recvInto temp chunk.val)).bind fun s =>
      checkedReadnLoop ending chunks clearedTemp (buf ++ s)

/-- `readn` with its array. -/
def checkedReadn (io : Recvs) (buf : Bytes) : Option (Bool × Bytes) :=
  checkedReadnLoop io.ending io.chunks clearedTemp buf

/-- **The array ends in a zero**, whatever a `recv` has delivered: what is appended is
what was delivered up to its first zero. -/
theorem cStringIn_recvInto (chunk : Chunk) :
    cStringIn (recvInto clearedTemp chunk.val) = some (cString chunk.val) := by
  obtain ⟨b, -, hlength⟩ := chunk
  have hrest : clearedTemp.drop b.length = 0 :: List.replicate (255 - b.length) 0 := by
    unfold clearedTemp
    rw [List.drop_replicate, show 256 - b.length = 255 - b.length + 1 by omega,
      List.replicate_succ]
  show cStringIn (b ++ clearedTemp.drop b.length) = some (cString b)
  rw [hrest, cStringIn]
  by_cases hzero : 0 ∈ b
  · obtain ⟨s, t, rfl, hs⟩ := exists_eq_append_cons_of_mem hzero
    rw [cString_append_cons hs, List.append_assoc, List.cons_append, idxOf?_append_cons _ hs]
    exact congrArg some List.take_left
  · rw [cString_eq_self hzero, idxOf?_append_cons _ hzero]
    exact congrArg some List.take_left

/-- **The array holds what `readn` appends.** -/
theorem checkedReadn_eq (io : Recvs) (buf : Bytes) : checkedReadn io buf = some (readn io buf) := by
  obtain ⟨chunks, ending⟩ := io
  show checkedReadnLoop ending chunks clearedTemp buf = some (readnLoop ending chunks buf)
  induction chunks generalizing buf with
  | nil => rfl
  | cons chunk chunks ih =>
    rw [checkedReadnLoop, cStringIn_recvInto, Option.bind_some, ih]
    rfl

/-- **A read preserves the bytes**: it returns whether it has ended for want of input,
it leaves in the buffer all that has been received, and it would do so however the
same bytes had been split. -/
structure Preserves (io : Recvs) (buf : Bytes) : Prop where
  bytes : checkedReadn io buf = some (decide (io.ending = .wouldBlock), buf ++ io.payload)
  split : ∀ io' : Recvs, io'.ending = io.ending → io'.payload = io.payload →
    checkedReadn io' buf = checkedReadn io buf

/-- **Exactly when a read preserves the bytes**: when no zero is among them.

`readn` receives into an array that it has filled with zeros, and appends the array as a
C string. What stands behind a zero byte is received and not appended. -/
theorem preserves_iff (io : Recvs) (buf : Bytes) : Preserves io buf ↔ 0 ∉ io.payload := by
  constructor
  · intro h hzero
    have hbytes := congrArg (Option.map Prod.snd) h.bytes
    rw [checkedReadn_eq, Option.map_some, Option.map_some, Option.some.injEq, readn_snd] at hbytes
    -- what is appended holds no zero
    rw [← List.append_cancel_left hbytes] at hzero
    obtain ⟨chunk, -, hmem⟩ := List.mem_flatMap.mp hzero
    exact notMem_cString chunk.val hmem
  · intro hzero
    have hread : ∀ io' : Recvs, io'.payload = io.payload →
        checkedReadn io' buf = some (decide (io'.ending = .wouldBlock), buf ++ io.payload) := by
      intro io' hpayload
      rw [checkedReadn_eq, ← hpayload, readn_of_notMem buf (hpayload ▸ hzero)]
    refine ⟨hread io rfl, fun io' hending hpayload => ?_⟩
    rw [hread io' hpayload, hread io rfl, hending]

/-- **A body with a zero byte in it is cut short.** -/
theorem not_preserves_zero : ¬ ∀ (io : Recvs) (buf : Bytes), Preserves io buf := by
  intro h
  have hbytes := (h ⟨[⟨[97, 0, 98], by decide⟩], .wouldBlock⟩ []).bytes
  exact absurd hbytes (by decide)

/-! ## Writing -/

/-- How a `write` ends. Every socket is set non-blocking. -/
inductive WriteOutcome
  /-- It takes as many of the bytes it is offered as there is room for. -/
  | accepts (room : { n : ℕ // 0 < n })
  /-- `EINTR`. -/
  | interrupted
  /-- `EAGAIN` or `EWOULDBLOCK`. -/
  | wouldBlock
  /-- Any other error: the peer is gone. -/
  | failed
  deriving DecidableEq

namespace WriteOutcome

/-- An error other than an interruption. -/
def IsError : WriteOutcome → Prop
  | .wouldBlock => True
  | .failed => True
  | _ => False

/-- The room for bytes that an outcome tells of. -/
def room : WriteOutcome → ℕ
  | .accepts room => room.val
  | _ => 0

end WriteOutcome

/-- What a call of `writen` comes to: what it returns, the bytes it has got accepted, and
the outcomes that are left for the writes behind it. -/
structure Written where
  ret : ℤ
  accepted : Bytes
  rest : List WriteOutcome
  deriving DecidableEq

/-- The loop of `writen`, with the outcomes of the writes to come, the bytes `p` points
to, and `left`. It has no result where the outcomes run out before it ends. What it
returns is `left`. -/
def writenLoop : List WriteOutcome → Bytes → ℤ → Option Written
  | [], _, left => if 0 < left then none else some ⟨left, [], []⟩
  | o :: outcomes, p, left =>
    if 0 < left then
      match o with
      | .interrupted => writenLoop outcomes p left
      | .wouldBlock => some ⟨left, [], outcomes⟩
      | .failed => some ⟨left, [], outcomes⟩
      | .accepts room =>
        let ret := min room.val left.toNat
        (writenLoop outcomes (p.drop ret) (left - ret)).map fun w =>
          { w with accepted := p.take ret ++ w.accepted }
    else some ⟨left, [], o :: outcomes⟩

/-- `writen`. -/
def writen (outcomes : List WriteOutcome) (buff : Bytes) (len : ℤ) : Option Written :=
  (writenLoop outcomes buff len).map fun w => { w with ret := len - w.ret }

/-! ### The loop -/

section WritenLoop

variable {outcomes : List WriteOutcome} {p : Bytes} {w : Written}

theorem writenLoop_of_nonpos (outcomes : List WriteOutcome) (p : Bytes) {left : ℤ}
    (h : left ≤ 0) : writenLoop outcomes p left = some ⟨left, [], outcomes⟩ := by
  cases outcomes with
  | nil => exact if_neg (not_lt.mpr h)
  | cons o outcomes => exact if_neg (not_lt.mpr h)

/-- **One round of the loop**, while something is left. -/
theorem writenLoop_cons (o : WriteOutcome) (outcomes : List WriteOutcome) (p : Bytes) {left : ℕ}
    (h : 0 < left) :
    writenLoop (o :: outcomes) p left
      = match o with
        | .interrupted => writenLoop outcomes p left
        | .wouldBlock => some ⟨left, [], outcomes⟩
        | .failed => some ⟨left, [], outcomes⟩
        | .accepts room =>
          (writenLoop outcomes (p.drop (min room.val left))
            ((left - min room.val left : ℕ) : ℤ)).map fun w =>
              { w with accepted := p.take (min room.val left) ++ w.accepted } := by
  have hpos : (0 : ℤ) < left := Int.natCast_pos.mpr h
  cases o with
  | accepts room =>
    rw [writenLoop, if_pos hpos]
    dsimp only
    rw [Int.toNat_natCast, Int.ofNat_sub (min_le_right room.val left)]
  | _ => rw [writenLoop, if_pos hpos]

/-- **How far the loop has come** when it ends with `left` bytes to go at its beginning:
it has used the first outcomes, and got accepted the first `n` of the bytes; all of them
exactly if it has met with no error. -/
structure EndsAfter (outcomes : List WriteOutcome) (p : Bytes) (left : ℕ) (w : Written)
    (used : List WriteOutcome) (n : ℕ) : Prop where
  split : outcomes = used ++ w.rest
  accepted : w.accepted = p.take n
  le : n ≤ left
  ret : w.ret = left - n
  complete : n = left ↔ ∀ o ∈ used, ¬ o.IsError

theorem endsAfter_zero (outcomes : List WriteOutcome) (p : Bytes) :
    EndsAfter outcomes p 0 ⟨0, [], outcomes⟩ [] 0 where
  split := rfl
  accepted := rfl
  le := le_rfl
  ret := rfl
  complete := iff_of_true rfl (List.forall_mem_nil _)

/-- An interrupted write changes nothing. -/
theorem EndsAfter.interrupted {left n : ℕ} {used : List WriteOutcome}
    (h : EndsAfter outcomes p left w used n) :
    EndsAfter (.interrupted :: outcomes) p left w (.interrupted :: used) n where
  split := congrArg (List.cons _) h.split
  accepted := h.accepted
  le := h.le
  ret := h.ret
  complete := by
    rw [h.complete, List.forall_mem_cons]
    exact (and_iff_right not_false).symm

/-- A write that takes some of the bytes is followed by what becomes of the others. -/
theorem EndsAfter.accepts {left n : ℕ} {used : List WriteOutcome} {room : { n : ℕ // 0 < n }}
    (h : EndsAfter outcomes (p.drop (min room.val left)) (left - min room.val left) w used n) :
    EndsAfter (.accepts room :: outcomes) p left
      { w with accepted := p.take (min room.val left) ++ w.accepted } (.accepts room :: used)
      (min room.val left + n) where
  split := congrArg (List.cons _) h.split
  accepted := by
    rw [h.accepted]
    exact List.take_add.symm
  le := by
    have hle := h.le
    omega
  ret := by
    have hret := h.ret
    dsimp only
    omega
  complete := by
    have hcomplete := h.complete
    rw [List.forall_mem_cons, and_iff_right (by exact not_false), ← hcomplete]
    omega

theorem endsAfter_error (outcomes : List WriteOutcome) (p : Bytes) {left : ℕ} (hpos : 0 < left)
    {o : WriteOutcome} (ho : o.IsError) :
    EndsAfter (o :: outcomes) p left ⟨left, [], outcomes⟩ [o] 0 where
  split := rfl
  accepted := rfl
  le := Nat.zero_le left
  ret := (Int.sub_zero _).symm
  complete := iff_of_false hpos.ne fun h => h o List.mem_cons_self ho

/-- **The loop gets a beginning of the buffer accepted.** The induction is on the outcomes:
the pointer has moved over what has been accepted so far, and `left` has fallen by as
much. -/
theorem writenLoop_spec {left : ℕ} (h : writenLoop outcomes p left = some w) :
    ∃ used n, EndsAfter outcomes p left w used n := by
  induction outcomes generalizing p left w with
  | nil =>
    rcases left.eq_zero_or_pos with rfl | hpos
    · cases h
      exact ⟨[], 0, endsAfter_zero _ p⟩
    · rw [writenLoop, if_pos (Int.natCast_pos.mpr hpos)] at h
      cases h
  | cons o outcomes ih =>
    rcases left.eq_zero_or_pos with rfl | hpos
    · cases h
      exact ⟨[], 0, endsAfter_zero _ p⟩
    rw [writenLoop_cons o outcomes p hpos] at h
    cases o with
    | interrupted =>
      obtain ⟨used, n, hends⟩ := ih h
      exact ⟨_, n, hends.interrupted⟩
    | wouldBlock =>
      cases h
      exact ⟨_, 0, endsAfter_error outcomes p hpos trivial⟩
    | failed =>
      cases h
      exact ⟨_, 0, endsAfter_error outcomes p hpos trivial⟩
    | accepts room =>
      obtain ⟨w', hw', rfl⟩ := Option.map_eq_some_iff.mp h
      obtain ⟨used, n, hends⟩ := ih hw'
      exact ⟨_, _, hends.accepts⟩

/-- **Outcomes that are long enough to end the loop**: an error is among them, or there is
room for all bytes. -/
def LongEnough (outcomes : List WriteOutcome) (left : ℕ) : Prop :=
  (∃ o ∈ outcomes, o.IsError) ∨ left ≤ (outcomes.map WriteOutcome.room).sum

theorem longEnough_cons {o : WriteOutcome} (ho : ¬ o.IsError) (outcomes : List WriteOutcome)
    (left : ℕ) : LongEnough (o :: outcomes) left ↔ LongEnough outcomes (left - o.room) := by
  unfold LongEnough
  rw [List.exists_mem_cons_iff, or_iff_right ho, List.map_cons, List.sum_cons,
    Nat.sub_le_iff_le_add']

/-- **Exactly such outcomes end the loop.** -/
theorem isSome_writenLoop_iff (outcomes : List WriteOutcome) (p : Bytes) (left : ℕ) :
    (writenLoop outcomes p left).isSome ↔ LongEnough outcomes left := by
  induction outcomes generalizing p left with
  | nil =>
    rcases left.eq_zero_or_pos with rfl | hpos
    · exact iff_of_true rfl (Or.inr le_rfl)
    · rw [writenLoop, if_pos (Int.natCast_pos.mpr hpos)]
      simp [LongEnough, hpos.ne']
  | cons o outcomes ih =>
    rcases left.eq_zero_or_pos with rfl | hpos
    · exact iff_of_true rfl (Or.inr (Nat.zero_le _))
    rw [writenLoop_cons o outcomes p hpos]
    cases o with
    | interrupted =>
      exact (ih p left).trans (@longEnough_cons .interrupted not_false outcomes left).symm
    | wouldBlock => exact iff_of_true rfl (Or.inl ⟨_, List.mem_cons_self, trivial⟩)
    | failed => exact iff_of_true rfl (Or.inl ⟨_, List.mem_cons_self, trivial⟩)
    | accepts room =>
      have hleft : left - min room.val left = left - room.val := by omega
      rw [Option.isSome_map, ih, hleft]
      exact (@longEnough_cons (.accepts room) not_false outcomes left).symm

/-- **Interruptions change nothing**: without them the loop ends alike. -/
theorem writenLoop_filter (outcomes : List WriteOutcome) (p : Bytes) (left : ℤ) :
    writenLoop (outcomes.filter (· ≠ .interrupted)) p left
      = (writenLoop outcomes p left).map fun w =>
        { w with rest := w.rest.filter (· ≠ .interrupted) } := by
  induction outcomes generalizing p left with
  | nil =>
    rw [List.filter_nil, writenLoop]
    split <;> rfl
  | cons o outcomes ih =>
    rcases le_or_gt left 0 with hnonpos | hpos
    · rw [writenLoop_of_nonpos _ p hnonpos, writenLoop_of_nonpos _ p hnonpos]
      rfl
    lift left to ℕ using hpos.le
    rw [writenLoop_cons o outcomes p (Int.natCast_pos.mp hpos)]
    cases o with
    | interrupted =>
      rw [List.filter_cons_of_neg (by simp)]
      exact ih p left
    | wouldBlock =>
      rw [List.filter_cons_of_pos (by simp), writenLoop_cons _ _ p (Int.natCast_pos.mp hpos)]
      rfl
    | failed =>
      rw [List.filter_cons_of_pos (by simp), writenLoop_cons _ _ p (Int.natCast_pos.mp hpos)]
      rfl
    | accepts room =>
      rw [List.filter_cons_of_pos (by simp), writenLoop_cons _ _ p (Int.natCast_pos.mp hpos)]
      dsimp only
      rw [ih, Option.map_map, Option.map_map]
      rfl

end WritenLoop

/-! ### What a call returns -/

/-- **Writing is an exact prefix.** If the outcomes are long enough to end the loop, then
`writen` returns: some `r` which is not above the length, behind the first outcomes,
and with the first `r` bytes of the buffer accepted; `r` is the length exactly if none of
the outcomes that were used is an error but an interruption. And without the
interruptions it returns the same. -/
theorem writen_exact_prefix {outcomes : List WriteOutcome} {buff : Bytes}
    (h : LongEnough outcomes buff.length) :
    ∃ w, writen outcomes buff buff.length = some w
      ∧ (∃ (r : ℕ) (used : List WriteOutcome), w.ret = r ∧ r ≤ buff.length
        ∧ w.accepted = buff.take r ∧ outcomes = used ++ w.rest
        ∧ (r = buff.length ↔ ∀ o ∈ used, ¬ o.IsError))
      ∧ writen (outcomes.filter (· ≠ .interrupted)) buff buff.length
        = some { w with rest := w.rest.filter (· ≠ .interrupted) } := by
  obtain ⟨w, hw⟩ := Option.isSome_iff_exists.mp ((isSome_writenLoop_iff outcomes buff _).mpr h)
  obtain ⟨used, r, hends⟩ := writenLoop_spec hw
  unfold writen
  rw [writenLoop_filter, hw]
  refine ⟨_, rfl, ⟨r, used, ?_, hends.le, hends.accepted, hends.split, hends.complete⟩, rfl⟩
  dsimp only
  rw [hends.ret, sub_sub_cancel]

/-- Two partial writes and an interruption. -/
theorem writen_exact_prefix_partial :
    ∃ w, writen [.accepts ⟨2, by decide⟩, .interrupted, .accepts ⟨3, by decide⟩]
        (bytes "hello") (bytes "hello").length = some w
      ∧ (∃ (r : ℕ) (used : List WriteOutcome), w.ret = r ∧ r ≤ (bytes "hello").length
        ∧ w.accepted = (bytes "hello").take r
        ∧ [.accepts ⟨2, by decide⟩, .interrupted, .accepts ⟨3, by decide⟩] = used ++ w.rest
        ∧ (r = (bytes "hello").length ↔ ∀ o ∈ used, ¬ o.IsError))
      ∧ writen ([.accepts ⟨2, by decide⟩, .interrupted, .accepts ⟨3, by decide⟩].filter
          (· ≠ .interrupted)) (bytes "hello") (bytes "hello").length
        = some { w with rest := w.rest.filter (· ≠ .interrupted) } :=
  writen_exact_prefix (Or.inr (by decide +kernel))

end SocketIO

/-! ## Messages on one socket -/

namespace TcpConnection

open SocketIO

/-- `send`, which converts the size of the message to an `int` and drops what `writen`
returns. -/
def send (outcomes : List WriteOutcome) (msg : Bytes) : Option Written :=
  writen outcomes msg (Positions.wrap msg.length)

/-- Messages sent one behind the other on one socket: the bytes that are accepted, and the
outcomes that are left. -/
def sendEach : List WriteOutcome → List Bytes → Option (Bytes × List WriteOutcome)
  | outcomes, [] => some ([], outcomes)
  | outcomes, msg :: msgs =>
    (send outcomes msg).bind fun w =>
      (sendEach w.rest msgs).map fun x => (w.accepted ++ x.1, x.2)

section Sends

variable {outcomes rest : List WriteOutcome} {msg accepted : Bytes} {msgs : List Bytes}

/-- **How a message is sent**: a beginning of it is accepted, and all of it exactly if no
error has been met with and its size is an `int`. -/
structure SentAs (outcomes : List WriteOutcome) (msg accepted : Bytes)
    (rest used : List WriteOutcome) (whole : Prop) : Prop where
  split : outcomes = used ++ rest
  le : accepted.length ≤ msg.length
  complete : accepted = msg ↔ (∀ o ∈ used, ¬ o.IsError) ∧ whole

/-- What is accepted of two texts, one behind the other. -/
theorem SentAs.append {a₁ a₂ m₁ m₂ : Bytes} {used₁ used₂ rest₁ : List WriteOutcome}
    {whole₁ whole₂ : Prop} (h₁ : SentAs outcomes m₁ a₁ rest₁ used₁ whole₁)
    (h₂ : SentAs rest₁ m₂ a₂ rest used₂ whole₂) :
    SentAs outcomes (m₁ ++ m₂) (a₁ ++ a₂) rest (used₁ ++ used₂) (whole₁ ∧ whole₂) where
  split := by
    rw [List.append_assoc, ← h₂.split]
    exact h₁.split
  le := by
    rw [List.length_append, List.length_append]
    exact add_le_add h₁.le h₂.le
  complete := by
    have hparts : a₁ ++ a₂ = m₁ ++ m₂ ↔ a₁ = m₁ ∧ a₂ = m₂ := by
      refine ⟨fun h => List.append_inj h ?_, fun h => congrArg₂ _ h.1 h.2⟩
      have hlength := congrArg List.length h
      rw [List.length_append, List.length_append] at hlength
      have hle₁ := h₁.le
      have hle₂ := h₂.le
      omega
    rw [hparts, h₁.complete, h₂.complete, List.forall_mem_append]
    exact and_and_and_comm

/-- **A message is sent up to some byte.** -/
theorem send_spec {w : Written} (h : send outcomes msg = some w) :
    ∃ used, SentAs outcomes msg w.accepted w.rest used (msg.length < 2 ^ 31) := by
  have hfits := Positions.wrap_natCast_eq_iff msg.length
  have hwrap := Positions.wrap_natCast_le msg.length
  obtain ⟨w', hw', rfl⟩ := Option.map_eq_some_iff.mp h
  rcases le_or_gt (Positions.wrap msg.length) 0 with hnonpos | hpos
  · -- the size is zero, or wraps to a number that is not positive
    rw [writenLoop_of_nonpos outcomes msg hnonpos] at hw'
    obtain rfl := Option.some.inj hw'
    have hempty : [] = msg ↔ msg.length < 2 ^ 31 := by
      rw [← hfits]
      constructor
      · rintro rfl
        rfl
      · intro hself
        exact (List.eq_nil_of_length_eq_zero (by omega)).symm
    exact ⟨[], rfl, Nat.zero_le _, hempty.trans (and_iff_right (List.forall_mem_nil _)).symm⟩
  · obtain ⟨left, hleft⟩ := Int.eq_ofNat_of_zero_le hpos.le
    rw [hleft] at hw' hfits hwrap
    obtain ⟨used, n, hends⟩ := writenLoop_spec hw'
    have hle := hends.le
    refine ⟨used, hends.split, ?_, ?_⟩
    · dsimp only
      rw [hends.accepted]
      exact List.length_take_le' n msg
    · dsimp only
      rw [hends.accepted, List.take_eq_self_iff, ← hends.complete, ← hfits]
      omega

/-- **Messages are sent up to some byte each.** -/
theorem sendEach_spec (h : sendEach outcomes msgs = some (accepted, rest)) :
    ∃ used, SentAs outcomes msgs.flatten accepted rest used
      (∀ msg ∈ msgs, msg.length < 2 ^ 31) := by
  induction msgs generalizing outcomes accepted with
  | nil =>
    cases h
    exact ⟨[], rfl, le_rfl, by simp⟩
  | cons msg msgs ih =>
    obtain ⟨w, hw, h⟩ := Option.bind_eq_some_iff.mp h
    obtain ⟨⟨accepted', rest'⟩, hsends, heq⟩ := Option.map_eq_some_iff.mp h
    cases heq
    obtain ⟨used, hfirst⟩ := send_spec hw
    obtain ⟨used', hothers⟩ := ih hsends
    rw [List.flatten_cons]
    simp only [List.forall_mem_cons]
    exact ⟨used ++ used', hfirst.append hothers⟩

/-- **Exactly when no message is truncated**: on a socket the peer of which is not gone,
after calls of `send` for the messages, the writes of which have had these outcomes,
what has been accepted is all of the messages if and only if no write was answered that
it would block and each size is an `int`. -/
theorem sendEach_complete_iff (h : sendEach outcomes msgs = some (accepted, []))
    (halive : .failed ∉ outcomes) :
    accepted = msgs.flatten ↔ .wouldBlock ∉ outcomes ∧ ∀ msg ∈ msgs, msg.length < 2 ^ 31 := by
  obtain ⟨used, hsent⟩ := sendEach_spec h
  have hused : outcomes = used := by
    rw [hsent.split, List.append_nil]
  subst hused
  have herror : (∀ o ∈ outcomes, ¬ o.IsError) ↔ .wouldBlock ∉ outcomes := by
    constructor
    · intro hnone hmem
      exact hnone _ hmem trivial
    · intro hblock o ho
      cases o with
      | accepts room => exact not_false
      | interrupted => exact not_false
      | wouldBlock => exact absurd ho hblock
      | failed => exact absurd ho halive
  rw [hsent.complete, herror]

end Sends

/-- Two messages, the first in two parts. -/
theorem sendEach_complete_parts :
    bytes "abcd" = [bytes "ab", bytes "cd"].flatten
      ↔ .wouldBlock ∉ ([.accepts ⟨1, by decide⟩, .interrupted, .accepts ⟨9, by decide⟩,
          .accepts ⟨2, by decide⟩] : List WriteOutcome)
        ∧ ∀ msg ∈ [bytes "ab", bytes "cd"], msg.length < 2 ^ 31 :=
  sendEach_complete_iff (by decide +kernel) (by decide)

/-- **A message that is cut short is followed by the next one.** -/
theorem not_sendEach_complete :
    ¬ ∀ (outcomes : List WriteOutcome) (msgs : List Bytes) (accepted : Bytes),
      sendEach outcomes msgs = some (accepted, []) → .failed ∉ outcomes →
      accepted = msgs.flatten := by
  intro h
  have hcut := h [.accepts ⟨1, by decide⟩, .wouldBlock, .accepts ⟨2, by decide⟩]
    [bytes "ab", bytes "cd"] (bytes "acd") (by decide +kernel) (by decide)
  exact absurd hcut (by decide +kernel)

end TcpConnection

end MicroBusiness
