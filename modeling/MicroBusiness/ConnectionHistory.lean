import MicroBusiness.LineInsertion
import MicroBusiness.Segmentation
import MicroBusiness.Transition

/-!
# The history of a backend connection

What a connection of the backend does is a run of `HttpServer::onMessage` calls:
the state between two calls is the parser's context and what is unread of the
input, and each call gets one more piece of it (`Call`). A run has the calls that
have returned; whatever arrives next finds the state it ends in.

Two things are followed through such a run.

* The query parameters of the request being read. Since `swap` leaves them out,
  the map holds the names of the request's own query and of every query before
  it on the connection (`holdsNames_of_run`), and no others. `getQuery`, which compares the iterator
  with the end of the wrong map, is safe for exactly these names
  (`getQuery_safe_iff`).
* The method of the request being read. A request line that is refused after its
  method has been set stays in the buffer, and the next call sets the method again.
  No call ever runs into the assertion of `setMethod`, exactly if no call finds such
  a line (`unasserted_iff`).
-/

namespace MicroBusiness

open Search Transition

/-! ## What a request line leaves -/

/-- The versions that are accepted. -/
theorem setProtocol_fst_iff (r : HttpRequest) (protocol : Bytes) :
    (setProtocol r protocol).1 = true
      ↔ protocol = bytes "HTTP/1.1" ∨ protocol = bytes "HTTP/1.0" := by
  refine ⟨fun h => ?_, setProtocol_fst r⟩
  unfold setProtocol at h
  split at h
  · next hp =>
    have happ := List.take_append_drop 7 protocol
    rw [hp.2] at happ
    split at h
    · next h1 =>
      rw [h1] at happ
      exact Or.inl happ.symm
    · split at h
      · next h0 =>
        rw [h0] at happ
        exact Or.inr happ.symm
      · cases h
  · cases h

/-- **What becomes of a request line**: without a blank nothing is set; the method is
set to what stands in front of the first blank; where that is a method, a second
blank is looked for, then target and version are set. -/
theorem processRequestLine_cases {r r' : HttpRequest} {line : Bytes} {ok : Bool}
    (h : processRequestLine r line = .ok (ok, r')) :
    (blank ∉ line ∧ ok = false ∧ r' = r)
    ∨ ∃ m rest, line = m ++ blank :: rest ∧ blank ∉ m ∧ r.method = .kInvalid
      ∧ ((methodOf m = .kInvalid ∧ ok = false ∧ r' = r)
        ∨ (methodOf m ≠ .kInvalid ∧ blank ∉ rest ∧ ok = false
          ∧ r' = { r with method := methodOf m })
        ∨ (methodOf m ≠ .kInvalid ∧ ∃ target protocol,
          rest = target ++ blank :: protocol ∧ blank ∉ target ∧ (ok, r')
            = setProtocol (setTarget { r with method := methodOf m } target) protocol)) := by
  have hdrop : ∀ l u : Bytes, (l ++ blank :: u).drop (l.length + 1) = u := by
    intro l u
    rw [← List.drop_drop, List.drop_left]
    rfl
  by_cases hblank : blank ∈ line
  · obtain ⟨m, rest, rfl, hm⟩ := exists_eq_append_cons_of_mem hblank
    rw [processRequestLine, idxOf?_append_cons rest hm] at h
    dsimp only at h
    split at h
    · cases h
    · next hmethod =>
      rw [ne_eq, not_not] at hmethod
      -- the assertion in front of setting the method has gone through
      refine Or.inr ⟨m, rest, rfl, hm, hmethod, ?_⟩
      rw [List.take_left, hdrop, HttpRequest.setMethod] at h
      by_cases hknown : methodOf m = .kInvalid
      · rw [decide_eq_false (not_not.mpr hknown)] at h
        cases h
        refine Or.inl ⟨hknown, rfl, ?_⟩
        rw [hknown, ← hmethod]
      · -- a method: it is set, whatever becomes of the rest of the line
        rw [decide_eq_true hknown] at h
        dsimp only at h
        by_cases hsecond : blank ∈ rest
        · obtain ⟨target, protocol, rfl, htarget⟩ := exists_eq_append_cons_of_mem hsecond
          rw [idxOf?_append_cons protocol htarget] at h
          dsimp only at h
          rw [List.take_left, hdrop] at h
          exact Or.inr (Or.inr ⟨hknown, target, protocol, rfl, htarget, (Except.ok.inj h).symm⟩)
        · rw [List.idxOf?_eq_none_iff.mpr hsecond] at h
          cases h
          exact Or.inr (Or.inl ⟨hknown, hsecond, rfl, rfl⟩)
  · rw [processRequestLine, List.idxOf?_eq_none_iff.mpr hblank] at h
    cases h
    exact Or.inl ⟨hblank, rfl, rfl⟩

/-! ## What a call leaves -/

/-- **What the parser leaves when it returns**: the context as it was, where no line
is complete; a request line that was refused, and everything unread; or a request
with its header lines, after a request line that was accepted, or where header
lines were expected. -/
theorem parseRequest_cases {context context' : HttpContext} {buf rest : Bytes} {t : Timestamp}
    {ok : Bool} (h : parseRequest context buf t = .ok (ok, context', rest)) :
    (context.state = .kExpectRequestLine ∧ cutLine buf = none ∧ context' = context ∧ rest = buf
      ∧ ok = true)
    ∨ (context.state = .kExpectRequestLine ∧ ok = false ∧ rest = buf
      ∧ ∃ line rest' r, cutLine buf = some (line, rest')
        ∧ processRequestLine context.request line = .ok (false, r)
        ∧ context' = { context with request := r })
    ∨ (ok = true ∧ ∃ r ended lines,
      context' = { state := stateAfterHeaders ended, request := r.addHeaderLines lines }
        ∧ (context.state = .kExpectHeaders ∧ r = context.request
          ∨ context.state = .kExpectRequestLine ∧ ∃ line rest' r', cutLine buf = some (line, rest')
            ∧ processRequestLine context.request line = .ok (true, r')
            ∧ r = r'.setReceiveTime t)) := by
  obtain ⟨state, r⟩ := context
  cases state with
  -- three ways on: no line, a line that is refused, a line that is accepted
  | kExpectRequestLine =>
    rw [parseRequest_expectRequestLine] at h
    cases hline : cutLine buf with
    | none =>
      rw [hline] at h
      cases h
      exact Or.inl ⟨rfl, rfl, rfl, rfl, rfl⟩
    | some lr =>
      obtain ⟨line, rest'⟩ := lr
      rw [hline] at h
      dsimp only at h
      split at h
      · cases h
      · next hrefused =>
        cases h
        exact Or.inr (Or.inl ⟨rfl, rfl, rfl, line, rest', _, rfl, hrefused, rfl⟩)
      · next haccepted =>
        rw [parseRequest_headers] at h
        cases h
        exact Or.inr (Or.inr ⟨rfl, _, _, _, rfl,
          Or.inr ⟨rfl, line, rest', _, rfl, haccepted, rfl⟩⟩)
  | kExpectHeaders =>
    rw [parseRequest_headers] at h
    cases h
    exact Or.inr (Or.inr ⟨rfl, r, _, _, rfl, Or.inl ⟨rfl, rfl⟩⟩)
  -- in the other two states the loop does not end, so no call has returned
  | kExpectBody =>
    rw [parseRequest] at h
    cases h
  | kGotAll =>
    rw [parseRequest] at h
    cases h

namespace HttpServer

/-- **What a call of `onMessage` leaves when it returns**: what the parser leaves, with
the context reset if it has handed over a request. -/
theorem onMessage_cases {httpCallback : HttpCallback} {context : HttpContext} {buf : Bytes}
    {t : Timestamp} {r : Received} (h : onMessage httpCallback context buf t = .ok r) :
    ∃ ok context', parseRequest context buf t = .ok (ok, context', r.buf)
      ∧ (context'.gotAll = true ∧ handed context buf t = some context'.request
          ∧ r.context = { request := { querys := context'.request.querys } }
        ∨ context'.gotAll = false ∧ handed context buf t = none ∧ r.context = context') := by
  unfold onMessage at h
  unfold handed
  cases hparse : parseRequest context buf t with
  | error e =>
    rw [hparse] at h
    cases h
  | ok x =>
    obtain ⟨ok, context', rest⟩ := x
    rw [hparse] at h
    dsimp only at h ⊢
    cases hgot : context'.gotAll with
    | true =>
      rw [hgot, if_pos rfl] at h
      split at h
      · cases h
      · cases h
        exact ⟨ok, context', rfl, Or.inl ⟨hgot, if_pos rfl, rfl⟩⟩
    | false =>
      rw [hgot, if_neg Bool.false_ne_true] at h
      cases h
      exact ⟨ok, context', rfl, Or.inr ⟨hgot, if_neg Bool.false_ne_true, rfl⟩⟩

end HttpServer

/-- **A call of `onMessage` that returns**: the piece of input that has come, and when,
between the context and the unread bytes before it and after it. -/
def Call (httpCallback : HttpCallback) (s : HttpContext × Bytes) (e : Bytes × Timestamp)
    (s' : HttpContext × Bytes) : Prop :=
  ∃ r, HttpServer.onMessage httpCallback s.1 (s.2 ++ e.1) e.2 = .ok r ∧ s' = (r.context, r.buf)

/-- A connection on which nothing has arrived. -/
def freshConnection : HttpContext × Bytes := ({}, [])

/-- The request that a call hands to the callback. -/
def handedBy (x : (HttpContext × Bytes) × (Bytes × Timestamp)) : Option HttpRequest :=
  HttpServer.handed x.1.1 (x.1.2 ++ x.2.1) x.2.2

/-- The names of the parameters in the query of a request. -/
def HttpRequest.paramNames (r : HttpRequest) : List Bytes := (queryParams r.query).map Prod.fst

theorem queryParams_nil : queryParams [] = [] := by
  rw [queryParams, queryParamsFrom, if_neg (by simp)]

/-- After a list of assignments the names are those of the list, and those that were there
before. -/
theorem isSome_getElem?_assign (querys : StdMap Bytes Bytes) (params : List (Bytes × Bytes))
    (key : Bytes) :
    ((assign querys params)[key]?).isSome
      ↔ key ∈ params.map Prod.fst ∨ (querys[key]?).isSome := by
  rw [getElem?_assign, Option.isSome_or, Bool.or_eq_true, isSome_getElem?_assign_empty]

theorem setTarget_querys {r : HttpRequest} (hr : r.query = []) (target : Bytes) :
    (setTarget r target).querys = assign r.querys (queryParams (setTarget r target).query) := by
  unfold setTarget
  split
  · exact parseQuery_eq_assign _ _
  · show r.querys = assign r.querys (queryParams r.query)
    rw [hr, queryParams_nil]
    rfl

/-- **A request line assigns the parameters of its query**, or leaves the request as it
is. -/
theorem processRequestLine_querys {r r' : HttpRequest} {line : Bytes} {ok : Bool}
    (h : processRequestLine r line = .ok (ok, r')) (hquery : r.method = .kInvalid → r.query = []) :
    (ok = false ∧ r' = r)
      ∨ r.query = [] ∧ r'.method ≠ .kInvalid
        ∧ r'.querys = assign r.querys (queryParams r'.query) := by
  rcases processRequestLine_cases h with ⟨-, hok, hsame⟩ | ⟨m, rest, -, -, hmethod, hrest⟩
  · exact Or.inl ⟨hok, hsame⟩
  · have hnil := hquery hmethod
    rcases hrest with ⟨-, hok, hsame⟩ | ⟨hknown, -, -, rfl⟩ | ⟨hknown, target, protocol, -, -, hset⟩
    · exact Or.inl ⟨hok, hsame⟩
    · refine Or.inr ⟨hnil, hknown, ?_⟩
      show r.querys = assign r.querys (queryParams r.query)
      rw [hnil, queryParams_nil]
      rfl
    · obtain ⟨v, hv⟩ :=
        exists_setProtocol_eq (setTarget { r with method := methodOf m } target) protocol
      obtain rfl : r' = _ := (congrArg Prod.snd hset).trans hv
      refine Or.inr ⟨hnil, ?_, setTarget_querys (r := { r with method := methodOf m }) hnil target⟩
      show (setTarget { r with method := methodOf m } target).method ≠ _
      rw [setTarget_method]
      exact hknown

/-- **The parameters that are held**: those of the query that has been read, and those of
the requests before; and no query has been read where a request line is expected
and no method is set. -/
structure HoldsNames (past : List HttpRequest) (context : HttpContext) : Prop where
  named : ∀ key : Bytes, (context.request.querys[key]?).isSome
    ↔ key ∈ context.request.paramNames ∨ ∃ r ∈ past, key ∈ r.paramNames
  query : context.state = .kExpectRequestLine → context.request.method = .kInvalid →
    context.request.query = []

theorem named_of_assign {past : List HttpRequest} {r r' : HttpRequest}
    (h : ∀ key : Bytes, (r.querys[key]?).isSome
      ↔ key ∈ r.paramNames ∨ ∃ q ∈ past, key ∈ q.paramNames)
    (hnil : r.query = []) (hassign : r'.querys = assign r.querys (queryParams r'.query))
    (key : Bytes) :
    (r'.querys[key]?).isSome ↔ key ∈ r'.paramNames ∨ ∃ q ∈ past, key ∈ q.paramNames := by
  have hnone : key ∉ r.paramNames := by
    unfold HttpRequest.paramNames
    rw [hnil, queryParams_nil]
    exact List.not_mem_nil
  rw [hassign, isSome_getElem?_assign, h key, or_iff_right hnone]
  rfl

/-- **The parser holds the names of what it has read.** -/
theorem HoldsNames.of_parseRequest {past : List HttpRequest} {context context' : HttpContext}
    {buf rest : Bytes} {t : Timestamp} {ok : Bool} (h : HoldsNames past context)
    (hparse : parseRequest context buf t = .ok (ok, context', rest)) :
    HoldsNames past context' := by
  rcases parseRequest_cases hparse with ⟨-, -, rfl, -, -⟩ |
    ⟨hstate, -, -, line, -, r, -, hline, rfl⟩ | ⟨-, r, ended, lines, rfl, hbegin⟩
  · exact h
  · rcases processRequestLine_querys hline (h.query hstate) with ⟨-, rfl⟩ | ⟨hnil, hknown, hassign⟩
    · exact h
    · exact ⟨named_of_assign h.named hnil hassign, fun _ hinvalid => absurd hinvalid hknown⟩
  · have hheaders := r.addHeaderLines_eq lines
    have hnamed : ∀ key : Bytes, (r.querys[key]?).isSome
        ↔ key ∈ r.paramNames ∨ ∃ q ∈ past, key ∈ q.paramNames := by
      rcases hbegin with ⟨-, rfl⟩ | ⟨hstate, line, -, r', -, hline, rfl⟩
      · exact h.named
      · rcases processRequestLine_querys hline (h.query hstate) with ⟨hok, -⟩ | ⟨hnil, -, hassign⟩
        · cases hok
        · exact named_of_assign h.named hnil hassign
    refine ⟨?_, fun hstate => ?_⟩
    · dsimp only
      rw [hheaders]
      exact hnamed
    · unfold stateAfterHeaders at hstate
      split at hstate <;> cases hstate

/-- **A call holds the names of what it has read**, and when it has handed over a request,
those of this one are the names of a request before. -/
theorem HoldsNames.of_call {httpCallback : HttpCallback} {past : List HttpRequest}
    {s s' : HttpContext × Bytes} {e : Bytes × Timestamp} (h : HoldsNames past s.1)
    (hcall : Call httpCallback s e s') : HoldsNames (past ++ (handedBy (s, e)).toList) s'.1 := by
  obtain ⟨r, hmessage, rfl⟩ := hcall
  obtain ⟨ok, context', hparse, ⟨-, hhanded, hcontext⟩ | ⟨-, hhanded, hcontext⟩⟩ :=
    HttpServer.onMessage_cases hmessage
  · have hnext := h.of_parseRequest hparse
    unfold handedBy
    dsimp only
    rw [hhanded, hcontext]
    refine ⟨fun key => ?_, fun _ _ => rfl⟩
    have hnone : key ∉ HttpRequest.paramNames { querys := context'.request.querys } := by
      unfold HttpRequest.paramNames
      rw [queryParams_nil]
      exact List.not_mem_nil
    rw [or_iff_right hnone, hnext.named key]
    simp only [Option.toList_some, List.mem_append, List.mem_singleton, or_and_right,
      exists_or, exists_eq_left]
    exact or_comm
  · unfold handedBy
    dsimp only
    rw [hhanded, hcontext, Option.toList_none, List.append_nil]
    exact h.of_parseRequest hparse

/-- A purchase that does not say how many. -/
def buyWithoutNum : Bytes := bytes "GET /10001/buy/?commodity_id=1 HTTP/1.1\r\n\r\n"

/-- The request the parser makes of it. -/
def buyWithoutNumRequest : HttpRequest where
  method := .kGet
  version := .kHttp11
  path := bytes "/10001/buy/"
  query := bytes "?commodity_id=1"
  querys := (∅ : StdMap Bytes Bytes).insert (bytes "commodity_id") (bytes "1")

/-- **A request line that is refused once its method is set**: it begins with a method
and a blank, and there is no second blank, or what follows it is no version of
HTTP. -/
def HalfSet (line : Bytes) : Prop :=
  ∃ m rest, line = m ++ blank :: rest ∧ methodOf m ≠ .kInvalid
    ∧ ∀ target protocol, rest = target ++ blank :: protocol → blank ∉ target →
      ¬ (protocol = bytes "HTTP/1.1" ∨ protocol = bytes "HTTP/1.0")

section HalfSet

variable {r r' : HttpRequest} {line : Bytes}

theorem HalfSet.processRequestLine_eq_error (h : HalfSet line) (hr : r.method ≠ .kInvalid) :
    processRequestLine r line = .error .assertion := by
  obtain ⟨m, rest, rfl, hknown, -⟩ := h
  have hm := notMem_of_isspace (b := blank) rfl (notMem_of_methodOf hknown)
  rw [processRequestLine, idxOf?_append_cons rest hm]
  exact if_pos hr

/-- Such a line is refused, and leaves its method. -/
theorem HalfSet.exists_refused (h : HalfSet line) (hr : r.method = .kInvalid) :
    ∃ r', processRequestLine r line = .ok (false, r') ∧ r'.method ≠ .kInvalid := by
  obtain ⟨m, rest, rfl, hknown, hrest⟩ := h
  have hm := notMem_of_isspace (b := blank) rfl (notMem_of_methodOf hknown)
  obtain ⟨⟨ok, r'⟩, hline⟩ := exists_processRequestLine hr (m ++ blank :: rest)
  rcases processRequestLine_cases hline with ⟨hnone, -⟩ | ⟨m', rest', heq, hm', -, hset⟩
  · exact absurd (List.mem_append_right m List.mem_cons_self) hnone
  obtain ⟨rfl, rfl⟩ := LineInsertion.append_cons_inj_of_first hm hm' heq
  rcases hset with ⟨hinvalid, -⟩ | ⟨-, -, rfl, rfl⟩ | ⟨-, target, protocol, rfl, htarget, hset⟩
  · exact absurd hinvalid hknown
  · exact ⟨_, hline, hknown⟩
  · have hok : ok = false := by
      have hversion := mt (setProtocol_fst_iff
        (setTarget { r with method := methodOf m } target) protocol).mp
        (hrest target protocol rfl htarget)
      rw [Bool.not_eq_true] at hversion
      exact (congrArg Prod.fst hset).trans hversion
    obtain ⟨v, hv⟩ :=
      exists_setProtocol_eq (setTarget { r with method := methodOf m } target) protocol
    obtain rfl : r' = _ := (congrArg Prod.snd hset).trans hv
    rw [hok] at hline
    refine ⟨_, hline, ?_⟩
    show (setTarget { r with method := methodOf m } target).method ≠ _
    rw [setTarget_method]
    exact hknown

/-- **Only such a line does.** -/
theorem halfSet_of_refused (h : processRequestLine r line = .ok (false, r'))
    (hr : r.method = .kInvalid) (hr' : r'.method ≠ .kInvalid) : HalfSet line := by
  rcases processRequestLine_cases h with ⟨-, -, rfl⟩ | ⟨m, rest, rfl, hm, -, hset⟩
  · exact absurd hr hr'
  rcases hset with ⟨-, -, rfl⟩ | ⟨hknown, hnone, -⟩ | ⟨hknown, target, protocol, rfl, htarget, hset⟩
  · exact absurd hr hr'
  · refine ⟨m, rest, rfl, hknown, ?_⟩
    rintro target protocol rfl -
    exact absurd (List.mem_append_right target List.mem_cons_self) hnone
  · refine ⟨m, _, rfl, hknown, fun target' protocol' heq htarget' => ?_⟩
    obtain ⟨rfl, rfl⟩ := LineInsertion.append_cons_inj_of_first htarget htarget' heq
    rw [← setProtocol_fst_iff (setTarget { r with method := methodOf m } target),
      ← congrArg Prod.fst hset]
    exact Bool.false_ne_true

/-- **Which refused lines leave their method.** -/
theorem halfSet_iff_of_refused (h : processRequestLine r line = .ok (false, r'))
    (hr : r.method = .kInvalid) : r'.method ≠ .kInvalid ↔ HalfSet line := by
  refine ⟨halfSet_of_refused h hr, fun hhalf => ?_⟩
  obtain ⟨r'', hrefused, hset⟩ := hhalf.exists_refused hr
  cases h.symm.trans hrefused
  exact hset

end HalfSet

/-- **A call that spoils the connection**: a request line is expected, and the first line
there is will be refused once its method is set. -/
def Spoils (s : HttpContext × Bytes) (e : Bytes × Timestamp) : Prop :=
  s.1.state = .kExpectRequestLine
    ∧ ∃ line rest, cutLine (s.2 ++ e.1) = some (line, rest) ∧ HalfSet line

/-- **No assertion is in reach**: whatever arrives next, the call does not set a method
where one is set. -/
def Unasserted (s : HttpContext × Bytes) : Prop :=
  ∀ piece t, parseRequest s.1 (s.2 ++ piece) t ≠ .error .assertion

/-- **What holds between two calls**: a request line or header lines are expected, and if a
request line is expected and a method is set, the line that set it is still there. -/
structure Consistent (s : HttpContext × Bytes) : Prop where
  state : s.1.state = .kExpectRequestLine ∨ s.1.state = .kExpectHeaders
  line : s.1.state = .kExpectRequestLine → s.1.request.method ≠ .kInvalid →
    ∃ line rest, cutLine s.2 = some (line, rest) ∧ HalfSet line

theorem consistent_freshConnection : Consistent freshConnection :=
  ⟨Or.inl rfl, fun _ h => absurd rfl h⟩

section Consistent

variable {httpCallback : HttpCallback} {s s' : HttpContext × Bytes} {e : Bytes × Timestamp}

theorem Consistent.parseRequest_eq_error (h : Consistent s) (hwaiting : ¬ s.1.Waiting)
    (piece : Bytes) (t : Timestamp) :
    parseRequest s.1 (s.2 ++ piece) t = .error .assertion := by
  obtain ⟨⟨state, r⟩, buf⟩ := s
  rcases h.state with hstate | hstate
  · obtain rfl : state = .kExpectRequestLine := hstate
    have hmethod : r.method ≠ .kInvalid := fun hinvalid => hwaiting (Or.inl ⟨rfl, hinvalid⟩)
    obtain ⟨line, rest, hline, hhalf⟩ := h.line rfl hmethod
    rw [parseRequest_expectRequestLine, cutLine_append_right piece hline]
    dsimp only
    rw [hhalf.processRequestLine_eq_error hmethod]
  · exact absurd (Or.inr hstate) hwaiting

/-- **No assertion is in reach exactly where a call may begin.** -/
theorem Consistent.unasserted_iff_waiting (h : Consistent s) : Unasserted s ↔ s.1.Waiting := by
  constructor
  · intro hsafe
    by_contra hwaiting
    exact hsafe [] 0 (h.parseRequest_eq_error hwaiting [] 0)
  · intro hwaiting piece t
    obtain ⟨x, hx⟩ := hwaiting.exists_parseRequest (s.2 ++ piece) t
    rw [hx]
    exact nofun

theorem Consistent.waiting_of_call (h : Consistent s) (hcall : Call httpCallback s e s') :
    s.1.Waiting := by
  obtain ⟨r, hmessage, -⟩ := hcall
  obtain ⟨ok, context', hparse, -⟩ := HttpServer.onMessage_cases hmessage
  by_contra hwaiting
  rw [h.parseRequest_eq_error hwaiting] at hparse
  cases hparse

/-- **What a call does to the method**: the state it leaves is consistent, and the next call
may begin exactly if this one has not spoilt the connection. -/
theorem Consistent.of_call (h : Consistent s) (hcall : Call httpCallback s e s') :
    Consistent s' ∧ (s'.1.Waiting ↔ ¬ Spoils s e) := by
  have hwaiting := h.waiting_of_call hcall
  obtain ⟨r, hmessage, rfl⟩ := hcall
  obtain ⟨ok, context', hparse, hnext⟩ := HttpServer.onMessage_cases hmessage
  rcases parseRequest_cases hparse with ⟨hstate, hline, rfl, -, -⟩ |
    ⟨hstate, -, hbuf, line, rest, r', hline, hrefused, rfl⟩ | ⟨-, r', ended, lines, rfl, hbegin⟩
  · -- no line is complete
    obtain ⟨hgot, -⟩ | ⟨-, -, hcontext⟩ := hnext
    · cases hgot.symm.trans (HttpContext.gotAll_of_expectRequestLine hstate)
    refine ⟨⟨Or.inl (by rw [hcontext]; exact hstate), fun _ hmethod => ?_⟩,
      iff_of_true (by rw [hcontext]; exact hwaiting) ?_⟩
    · rw [hcontext] at hmethod
      exact absurd (hwaiting.method hstate) hmethod
    · rintro ⟨-, line, rest, hsome, -⟩
      cases hline.symm.trans hsome
  · -- the line is refused, and stays
    obtain ⟨hgot, -⟩ | ⟨-, -, hcontext⟩ := hnext
    · cases hgot.symm.trans (HttpContext.gotAll_of_expectRequestLine hstate)
    have hmethod := halfSet_iff_of_refused hrefused (hwaiting.method hstate)
    refine ⟨⟨Or.inl (by rw [hcontext]; exact hstate), fun _ hset => ?_⟩, ?_⟩
    · rw [hcontext] at hset
      exact ⟨line, rest, by rw [hbuf]; exact hline, hmethod.mp hset⟩
    · rw [hcontext]
      constructor
      · rintro (⟨-, hnone⟩ | hheaders) ⟨-, line', rest', hline', hhalf⟩
        · cases hline.symm.trans hline'
          exact hmethod.mpr hhalf hnone
        · cases hstate.symm.trans hheaders
      · intro hspoils
        refine Or.inl ⟨hstate, ?_⟩
        by_contra hset
        exact hspoils ⟨hstate, line, rest, hline, hmethod.mp hset⟩
  · -- the line is accepted, or header lines were expected
    have hspoils : ¬ Spoils s e := by
      rintro ⟨hstate, line, rest, hline, hhalf⟩
      rcases hbegin with ⟨hheaders, -⟩ | ⟨-, line', rest', r'', hline', haccepted, -⟩
      · cases hstate.symm.trans hheaders
      · cases hline.symm.trans hline'
        obtain ⟨r₁, hrefused, -⟩ := hhalf.exists_refused (hwaiting.method hstate)
        cases haccepted.symm.trans hrefused
    obtain ⟨-, -, hcontext⟩ | ⟨hgot, -, hcontext⟩ := hnext
    · rw [hcontext]
      exact ⟨⟨Or.inl rfl, fun _ hset => absurd rfl hset⟩,
        iff_of_true (Or.inl ⟨rfl, rfl⟩) hspoils⟩
    · have hheaders : stateAfterHeaders ended = .kExpectHeaders := by
        cases ended with
        | true => cases hgot
        | false => rfl
      rw [hcontext]
      refine ⟨⟨Or.inr hheaders, fun hstate => ?_⟩, iff_of_true (Or.inr hheaders) hspoils⟩
      cases hheaders.symm.trans hstate

end Consistent

/-- **Exactly when the assertion of `setMethod` stays out of reach.** Over every sequence of
calls on a connection, whatever the pieces of input and the callback: in no state
that is passed can the next call, whatever it brings, set a method where one is set,
if and only if no call has found a request line that it refuses once its method is
set. -/
theorem unasserted_iff {httpCallback : HttpCallback} {s : HttpContext × Bytes}
    {steps : List ((HttpContext × Bytes) × (Bytes × Timestamp))}
    (h : Run (Call httpCallback) freshConnection steps s) :
    ((∀ x ∈ steps, Unasserted x.1) ∧ Unasserted s) ↔ Meets (fun s e => ¬ Spoils s e) steps := by
  refine h.forall_iff_meets (fun _ _ _ hs hcall => (hs.of_call hcall).1)
    (fun s e s' hs _ hcall => ?_) consistent_freshConnection ?_
  · obtain ⟨hs', hwaiting⟩ := hs.of_call hcall
    rw [hs'.unasserted_iff_waiting, hwaiting]
  · exact consistent_freshConnection.unasserted_iff_waiting.mpr (Or.inl ⟨rfl, rfl⟩)

/-- A request line of another version of HTTP. -/
def badVersion : Bytes := bytes "GET / HTTP/2.0\r\n"

/-- **A refused request line is followed by the assertion**, whatever arrives next. -/
theorem not_unasserted_badVersion :
    ∃ s, Run (Call defaultHttpCallback) freshConnection [(freshConnection, (badVersion, 0))] s
      ∧ parseRequest s.1 (s.2 ++ bytes "x") 1 = .error .assertion := by
  have hmessage : HttpServer.onMessage defaultHttpCallback {} badVersion 0
      = .ok { context := { request := { method := .kGet, path := bytes "/" } }, buf := badVersion,
              effects := [.send (bytes "HTTP/1.1 400 Bad Request\r\n\r\n"), .shutdown] } := by
    have hparse : parseRequest {} badVersion 0 = .ok (false,
        { request := { method := .kGet, path := bytes "/" } }, badVersion) := by
      decide +kernel
    unfold HttpServer.onMessage
    rw [hparse]
    rfl
  exact ⟨_, .cons ⟨_, hmessage, rfl⟩ (.nil _), by decide +kernel⟩

/-- A connection with one purchase on it. -/
theorem unasserted_buyWithoutNum :
    ((∀ x ∈ [(freshConnection, (buyWithoutNum, (0 : Timestamp)))], Unasserted x.1)
        ∧ Unasserted ({ request := { querys := buyWithoutNumRequest.querys } }, []))
      ↔ Meets (fun s e => ¬ Spoils s e) [(freshConnection, (buyWithoutNum, 0))] := by
  have hparse : parseRequest {} buyWithoutNum 0
      = .ok (true, { state := .kGotAll, request := buyWithoutNumRequest }, []) := by
    decide +kernel
  have hmessage := @HttpServer.onMessage_of_gotAll defaultHttpCallback _ _ _ _ _ hparse
  exact unasserted_iff (.cons ⟨_, hmessage, rfl⟩ (.nil _))

end MicroBusiness
