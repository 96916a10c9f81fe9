import MicroBusiness.RequestIsolation

/-!
# Input that arrives in pieces

A connection of the backend delivers a stream of bytes in pieces, and each
piece is one call of `HttpServer::onMessage`, on what earlier calls have left
unread and the piece behind it. `session` is a sequence of such calls.

The parser stops wherever a piece ends and goes on from there with the next:
parsing a text to its end and then what follows is parsing both at once
(`parseRequest_append`). So at any time the context and the unread bytes stand
for a text (`Resumes`), namely the bytes of the request that has begun to
arrive, and what a call does is determined by that text: if it is complete
with the new piece the request is handed over (`Resumes.of_complete`), and if
it is not the call only makes the text longer (`Resumes.of_incomplete`).
-/

namespace MicroBusiness

open Search

/-! ## Parsing on -/

theorem cutLine_append_right {buf line rest : Bytes} (more : Bytes)
    (h : cutLine buf = some (line, rest)) : cutLine (buf ++ more) = some (line, rest ++ more) := by
  obtain ⟨hbuf, hpos⟩ := cutLine_eq_some h
  unfold cutLine
  rw [findSub_append_right more hpos, Option.map_some, hbuf]
  rw [List.append_assoc, List.take_left, ← List.drop_drop, List.drop_left]
  rfl

/-- **Header lines are read on** where the text before ended, unless it
ended them. -/
theorem splitHeaders_append (buf more : Bytes) :
    splitHeaders (buf ++ more)
      = if (splitHeaders buf).2.1 then
          ((splitHeaders buf).1, true, (splitHeaders buf).2.2 ++ more)
        else
          ((splitHeaders buf).1 ++ (splitHeaders ((splitHeaders buf).2.2 ++ more)).1,
            (splitHeaders ((splitHeaders buf).2.2 ++ more)).2) := by
  induction buf using splitHeaders.induct with
  | case1 buf hline =>
    rw [splitHeaders_of_none hline]
    rfl
  | case2 buf line rest hline hcolon ih =>
    rw [splitHeaders_of_line (cutLine_append_right more hline), splitHeaders_of_line hline,
      if_pos hcolon, if_pos hcolon]
    dsimp only
    rw [ih]
    split <;> rfl
  | case3 buf line rest hline hcolon =>
    rw [splitHeaders_of_line (cutLine_append_right more hline), splitHeaders_of_line hline,
      if_neg hcolon, if_neg hcolon]
    rfl

theorem addHeaderLines_append (r : HttpRequest) (lines lines' : List Bytes) :
    r.addHeaderLines (lines ++ lines') = (r.addHeaderLines lines).addHeaderLines lines' :=
  List.foldl_append

/-- **The parser goes on where it stopped**: a text to which more is added is
parsed by parsing it, and then, unless that came to an end, what is unread of
it and the rest. -/
theorem parseRequest_append (context : HttpContext) (buf more : Bytes) (t : Timestamp) :
    parseRequest context (buf ++ more) t
      = match parseRequest context buf t with
        | .error e => .error e
        | .ok (false, context, rest) => .ok (false, context, rest ++ more)
        | .ok (true, context, rest) =>
          if context.gotAll then .ok (true, context, rest ++ more)
          else parseRequest context (rest ++ more) t := by
  -- past the request line it is the header lines, which may be added in two parts
  have hheaders : ∀ (r : HttpRequest) (buf : Bytes),
      parseRequest { state := .kExpectHeaders, request := r } (buf ++ more) t
        = match parseRequest { state := .kExpectHeaders, request := r } buf t with
          | .error e => .error e
          | .ok (false, context, rest) => .ok (false, context, rest ++ more)
          | .ok (true, context, rest) =>
            if context.gotAll then .ok (true, context, rest ++ more)
            else parseRequest context (rest ++ more) t := by
    intro r buf
    rw [parseRequest_headers, parseRequest_headers r buf, splitHeaders_append]
    dsimp only
    cases (splitHeaders buf).2.1 with
    | true => rfl
    | false =>
      show _ = parseRequest { state := .kExpectHeaders, request := _ } _ t
      rw [parseRequest_headers, ← addHeaderLines_append]
      rfl
  obtain ⟨state, r⟩ := context
  cases state with
  | kExpectRequestLine =>
    rw [parseRequest_expectRequestLine r buf]
    cases hline : cutLine buf with
    | none => rfl
    -- the request line is cut the same with more behind it
    | some lr =>
      obtain ⟨line, rest⟩ := lr
      rw [parseRequest_expectRequestLine, cutLine_append_right more hline]
      dsimp only
      cases processRequestLine r line with
      | error e => rfl
      | ok x =>
        obtain ⟨ok, r⟩ := x
        cases ok with
        | false =>
          show _ = Except.ok (false, _, buf ++ more)
          rfl
        | true => exact hheaders _ rest
  | kExpectHeaders => exact hheaders r buf
  | kExpectBody =>
    rw [parseRequest, parseRequest]
  | kGotAll =>
    rw [parseRequest, parseRequest]

theorem splitHeaders_suffix (buf : Bytes) : (splitHeaders buf).2.2 <:+ buf := by
  have hrest : ∀ {buf line rest : Bytes}, cutLine buf = some (line, rest) → rest <:+ buf := by
    intro buf line rest hline
    rw [(cutLine_eq_some hline).1, ← List.append_assoc]
    exact List.suffix_append _ rest
  induction buf using splitHeaders.induct with
  | case1 buf hline =>
    rw [splitHeaders_of_none hline]
  | case2 buf line rest hline hcolon ih =>
    rw [splitHeaders_of_line hline, if_pos hcolon]
    exact ih.trans (hrest hline)
  | case3 buf line rest hline hcolon =>
    rw [splitHeaders_of_line hline, if_neg hcolon]
    exact hrest hline

/-- **How far the parser gets with the beginning of a request**: it has not
seen a whole request line, or it is past it. -/
theorem parseRequest_eq_true {r : HttpRequest} {buf rest : Bytes} {t : Timestamp}
    {context : HttpContext} (h : parseRequest { request := r } buf t = .ok (true, context, rest)) :
    context = { request := r } ∧ rest = buf
      ∨ context.state ≠ .kExpectRequestLine ∧ rest <:+ buf := by
  rw [parseRequest_expectRequestLine] at h
  cases hline : cutLine buf with
  | none =>
    rw [hline] at h
    cases h
    exact Or.inl ⟨rfl, rfl⟩
  | some lr =>
    obtain ⟨line, rest'⟩ := lr
    rw [hline] at h
    dsimp only at h
    split at h
    · cases h
    · cases h
    · rw [parseRequest_headers] at h
      cases h
      refine Or.inr ⟨?_, (splitHeaders_suffix rest').trans ?_⟩
      · show stateAfterHeaders _ ≠ _
        unfold stateAfterHeaders
        split <;> decide
      · rw [(cutLine_eq_some hline).1, ← List.append_assoc]
        exact List.suffix_append _ rest'

theorem parseRequest_receiveTime {context : HttpContext} (h : context.state ≠ .kExpectRequestLine)
    (buf : Bytes) (t t' : Timestamp) :
    parseRequest context buf t = parseRequest context buf t' := by
  obtain ⟨state, r⟩ := context
  cases state with
  | kExpectRequestLine => exact absurd rfl h
  | kExpectHeaders => rw [parseRequest_headers, parseRequest_headers]
  | kExpectBody => rw [parseRequest, parseRequest]
  | kGotAll => rw [parseRequest, parseRequest]

theorem exists_processRequestLine {r : HttpRequest} (h : r.method = .kInvalid) (line : Bytes) :
    ∃ x, processRequestLine r line = .ok x := by
  unfold processRequestLine
  split
  · exact ⟨_, rfl⟩
  · rw [if_neg (not_not.mpr h)]
    split
    · exact ⟨_, rfl⟩
    · dsimp only
      split <;> exact ⟨_, rfl⟩

/-- **States in which a call may begin**: a request line is expected and no method is
set, or header lines are expected. -/
def HttpContext.Waiting (context : HttpContext) : Prop :=
  context.state = .kExpectRequestLine ∧ context.request.method = .kInvalid
    ∨ context.state = .kExpectHeaders

/-- Where a request line is expected no method is set. -/
theorem HttpContext.Waiting.method {context : HttpContext} (h : context.Waiting)
    (hstate : context.state = .kExpectRequestLine) : context.request.method = .kInvalid := by
  rcases h with ⟨-, hmethod⟩ | hheaders
  · exact hmethod
  · cases hstate.symm.trans hheaders

/-- **The parser returns**: from the states in which a call may begin it does not
come into one of those it never leaves before it stops. -/
theorem HttpContext.Waiting.exists_parseRequest {context : HttpContext} (h : context.Waiting)
    (buf : Bytes) (t : Timestamp) : ∃ x, parseRequest context buf t = .ok x := by
  obtain ⟨state, r⟩ := context
  rcases h with ⟨hstate, hmethod⟩ | hstate
  · obtain rfl : state = .kExpectRequestLine := hstate
    rw [parseRequest_expectRequestLine]
    split
    · exact ⟨_, rfl⟩
    · next line rest _ =>
      obtain ⟨⟨ok, r'⟩, hline⟩ := exists_processRequestLine hmethod line
      rw [hline]
      cases ok with
      | false => exact ⟨_, rfl⟩
      | true => exact ⟨_, parseRequest_headers _ rest t⟩
  · obtain rfl : state = .kExpectHeaders := hstate
    exact ⟨_, parseRequest_headers r buf t⟩

/-- **A context and unread bytes stand for a text**: parsing on from them is
parsing the text, and what follows it, from the beginning, in a context with
leftover query parameters. -/
structure Resumes (context : HttpContext) (buf : Bytes) (leftover : StdMap Bytes Bytes)
    (text : Bytes) : Prop where
  suffix : buf <:+ text
  parse : ∀ more t, ∃ t', parseRequest context (buf ++ more) t
    = parseRequest { request := { querys := leftover } } (text ++ more) t'

theorem resumes_self (leftover : StdMap Bytes Bytes) (text : Bytes) :
    Resumes { request := { querys := leftover } } text leftover text where
  suffix := List.suffix_refl text
  parse := fun _ t => ⟨t, rfl⟩

/-- **With a piece of input a request is complete**, and the rest of the piece
belongs to what follows, **or it is still incomplete**. -/
theorem complete_or_incomplete {text piece pieces first others : Bytes}
    (h : text ++ (piece ++ pieces) = first ++ others) :
    (∃ rest, text ++ piece = first ++ rest ∧ rest ++ pieces = others)
      ∨ ∃ missing, missing ≠ [] ∧ text ++ piece ++ missing = first
        ∧ missing ++ others = pieces := by
  rw [← List.append_assoc] at h
  rcases List.append_eq_append_iff.mp h with ⟨missing, hfirst, hpieces⟩ | ⟨rest, hfirst, hothers⟩
  · by_cases hmissing : missing = []
    · subst hmissing
      rw [List.append_nil] at hfirst
      exact Or.inl ⟨[], by rw [hfirst, List.append_nil], hpieces⟩
    · exact Or.inr ⟨missing, hmissing, hfirst.symm, hpieces.symm⟩
  · exact Or.inl ⟨rest, hfirst, hothers.symm⟩

namespace Resumes

variable {context : HttpContext} {buf text piece first : Bytes} {leftover : StdMap Bytes Bytes}

/-- Where no text has arrived, nothing is unread, and a request is about to
begin. -/
theorem eq_of_nil (h : Resumes context buf leftover []) :
    context = { request := { querys := leftover } } ∧ buf = [] := by
  obtain rfl := List.suffix_nil.mp h.suffix
  refine ⟨?_, rfl⟩
  obtain ⟨t, hparse⟩ := h.parse [] 0
  have hnil : cutLine [] = none := rfl
  have hfresh : parseRequest { request := { querys := leftover } } ([] ++ []) t
      = .ok (true, { request := { querys := leftover } }, []) := by
    rw [parseRequest_expectRequestLine]
    rfl
  rw [hfresh] at hparse
  obtain ⟨state, r⟩ := context
  cases state with
  | kExpectRequestLine =>
    rw [parseRequest_expectRequestLine] at hparse
    cases hparse
    rfl
  | kExpectHeaders =>
    rw [parseRequest_expectHeaders] at hparse
    cases hparse
  | kExpectBody =>
    rw [parseRequest] at hparse
    cases hparse
  | kGotAll =>
    rw [parseRequest] at hparse
    cases hparse

/-- **A text that is complete with the next piece is read whole**, and what
follows it stays unread. -/
theorem of_complete (h : Resumes context buf leftover text) (hwhole : ∀ t, IsWhole first t)
    {rest : Bytes} (hpiece : text ++ piece = first ++ rest) (t : Timestamp) :
    ∃ t' req, parseRequest {} first t' = .ok (true, { state := .kGotAll, request := req }, [])
      ∧ parseRequest context (buf ++ piece) t
        = .ok (true, { state := .kGotAll, request := req.over leftover }, rest) := by
  obtain ⟨t', hparse⟩ := h.parse piece t
  obtain ⟨req, hreq⟩ := hwhole t'
  refine ⟨t', req, hreq, ?_⟩
  rw [hparse, hpiece, parseRequest_append, parseRequest_leftover, hreq]
  rfl

/-- **A text that is still incomplete with the next piece goes on**: nothing
is handed over or refused, and what is unread stands for the longer text. -/
theorem of_incomplete (h : Resumes context buf leftover text) (hwhole : ∀ t, IsWhole first t)
    {missing : Bytes} (hpiece : text ++ piece ++ missing = first) (hmissing : missing ≠ [])
    (t : Timestamp) :
    ∃ context' buf', parseRequest context (buf ++ piece) t = .ok (true, context', buf')
      ∧ context'.gotAll = false ∧ Resumes context' buf' leftover (text ++ piece) := by
  obtain ⟨t', hparse⟩ := h.parse piece t
  obtain ⟨req, hreq⟩ := hwhole t'
  -- the whole text is parsed by parsing what is there of it first
  have hon : ∀ more, parseRequest { request := { querys := leftover } } (text ++ piece ++ more) t'
      = _ := fun more => parseRequest_append _ (text ++ piece) more t'
  have hfirst := hon missing
  rw [hpiece, parseRequest_leftover, hreq] at hfirst
  rw [hparse]
  generalize hx : parseRequest { request := { querys := leftover } } (text ++ piece) t' = x
    at hfirst hon ⊢
  match x with
  | .error e => cases hfirst
  | .ok (false, context', buf') => cases hfirst
  | .ok (true, context', buf') =>
    dsimp only at hfirst hon
    cases hgot : context'.gotAll with
    | true =>
      rw [hgot, if_pos rfl] at hfirst
      have hnil := congrArg (fun x => x.2.2) (Except.ok.inj hfirst)
      exact absurd (List.append_eq_nil_iff.mp hnil.symm).2 hmissing
    | false =>
      refine ⟨context', buf', rfl, hgot, ?_⟩
      rcases parseRequest_eq_true hx with ⟨rfl, rfl⟩ | ⟨hstate, hsuffix⟩
      · exact resumes_self leftover _
      · refine ⟨hsuffix, fun more t'' => ⟨t', ?_⟩⟩
        rw [hon more, hgot]
        exact parseRequest_receiveTime hstate _ t'' t'

end Resumes

/-! ## Successive calls -/

namespace HttpServer

/-- What successive calls of `onMessage` leave, the requests they hand to the
callback, and their effects on the connection. -/
structure Session where
  context : HttpContext
  buf : Bytes
  requests : List HttpRequest
  effects : List ConnEffect

/-- Successive calls of `onMessage`, each on what was left unread and one more
piece of input. -/
def session (httpCallback : HttpCallback) (context : HttpContext) (buf : Bytes) :
    List (Bytes × Timestamp) → Except Fault Session
  | [] => .ok { context, buf, requests := [], effects := [] }
  | (piece, t) :: pieces =>
    match onMessage httpCallback context (buf ++ piece) t with
    | .error e => .error e
    | .ok r =>
      (session httpCallback r.context r.buf pieces).map (fun s =>
        { s with
          requests := (handed context (buf ++ piece) t).toList ++ s.requests
          effects := r.effects ++ s.effects })

/-- A callback that always returns. -/
def returning (callback : HttpRequest → HttpResponse → HttpResponse) : HttpCallback :=
  fun req resp => .ok (callback req resp)

end HttpServer

namespace Resumes

open HttpServer

variable {context : HttpContext} {buf text piece first : Bytes} {leftover : StdMap Bytes Bytes}

/-- **The call that completes a request** hands it over and makes the context
ready for the next, which begins with what is left. -/
theorem session_of_complete (h : Resumes context buf leftover text)
    (hwhole : ∀ t, IsWhole first t) {rest : Bytes} (hpiece : text ++ piece = first ++ rest)
    (callback : HttpRequest → HttpResponse → HttpResponse) (t : Timestamp)
    (pieces : List (Bytes × Timestamp)) :
    ∃ t' req effects,
      parseRequest {} first t' = .ok (true, { state := .kGotAll, request := req }, [])
      ∧ session (returning callback) context buf ((piece, t) :: pieces)
        = (session (returning callback) { request := { querys := (req.over leftover).querys } }
            rest pieces).map (fun s =>
          { s with
            requests := req.over leftover :: s.requests
            effects := effects ++ s.effects }) := by
  obtain ⟨t', req, hreq, hparse⟩ := h.of_complete hwhole hpiece t
  obtain ⟨effects, heffects⟩ : ∃ effects,
      onRequest (returning callback) (req.over leftover) = .ok effects := ⟨_, rfl⟩
  have hhanded : handed context (buf ++ piece) t = some (req.over leftover) := by
    unfold handed
    rw [hparse]
    rfl
  refine ⟨t', req, effects, hreq, ?_⟩
  rw [session, onMessage_of_gotAll hparse, heffects, hhanded]
  rfl

/-- **A call that does not complete a request** hands nothing over and says
nothing. -/
theorem onMessage_of_incomplete (h : Resumes context buf leftover text)
    (hwhole : ∀ t, IsWhole first t) {missing : Bytes}
    (hpiece : text ++ piece ++ missing = first) (hmissing : missing ≠ [])
    (httpCallback : HttpCallback) (t : Timestamp) :
    ∃ context' buf', Resumes context' buf' leftover (text ++ piece)
      ∧ handed context (buf ++ piece) t = none
      ∧ onMessage httpCallback context (buf ++ piece) t
        = .ok { context := context', buf := buf', effects := [] } := by
  obtain ⟨context', buf', hparse, hgot, hresumes⟩ := h.of_incomplete hwhole hpiece hmissing t
  refine ⟨context', buf', hresumes, ?_, ?_⟩
  · unfold handed
    rw [hparse]
    show (if context'.gotAll then _ else _) = none
    rw [hgot]
    rfl
  · unfold onMessage
    rw [hparse]
    dsimp only
    rw [hgot]
    rfl

theorem session_of_incomplete (h : Resumes context buf leftover text)
    (hwhole : ∀ t, IsWhole first t) {missing : Bytes}
    (hpiece : text ++ piece ++ missing = first) (hmissing : missing ≠ [])
    (httpCallback : HttpCallback) (t : Timestamp) (pieces : List (Bytes × Timestamp)) :
    ∃ context' buf', Resumes context' buf' leftover (text ++ piece)
      ∧ session httpCallback context buf ((piece, t) :: pieces)
        = session httpCallback context' buf' pieces := by
  obtain ⟨context', buf', hresumes, hhanded, hmessage⟩ :=
    h.onMessage_of_incomplete hwhole hpiece hmissing httpCallback t
  refine ⟨context', buf', hresumes, ?_⟩
  rw [session, hmessage, hhanded]
  dsimp only
  cases session httpCallback context' buf' pieces <;> rfl

/-- Between two requests a call without input does nothing. -/
theorem session_of_nil (h : Resumes context buf leftover []) (httpCallback : HttpCallback)
    (t : Timestamp) (pieces : List (Bytes × Timestamp)) :
    session httpCallback context buf (([], t) :: pieces)
      = session httpCallback context buf pieces := by
  obtain ⟨rfl, rfl⟩ := h.eq_of_nil
  have hparse : parseRequest { request := { querys := leftover } } ([] ++ []) t
      = .ok (true, { request := { querys := leftover } }, []) := by
    rw [parseRequest_expectRequestLine]
    rfl
  have hmessage : onMessage httpCallback { request := { querys := leftover } } ([] ++ []) t
      = .ok { context := { request := { querys := leftover } }, buf := [], effects := [] } := by
    unfold onMessage
    rw [hparse]
    rfl
  have hhanded : handed { request := { querys := leftover } } ([] ++ []) t = none := by
    unfold handed
    rw [hparse]
    rfl
  rw [session, hmessage, hhanded]
  dsimp only
  cases session httpCallback { request := { querys := leftover } } [] pieces <;> rfl

end Resumes

end MicroBusiness
