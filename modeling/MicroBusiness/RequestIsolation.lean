import MicroBusiness.HttpServer

/-!
# What one request leaves behind for the next

Requests that arrive one after the other on a connection share one
`HttpContext`, which `reset` is to make fresh in between. It does so for
every field of the request but one: `HttpRequest::swap` leaves out `querys`,
so the parameters of a query are still there when the next request is
parsed, and stay unless that request sets them itself.

Parsing from a context that holds such leftovers and parsing from a fresh
one do the same, up to the leftovers that the query does not overwrite
(`parseRequest_leftover`). Over a whole connection it follows exactly when
nothing leaks: each query names all the parameters that the queries before
it named (`isolated_iff`).
-/

namespace MicroBusiness

open Search

/-- A request with its query parameters assigned over leftover ones. -/
def HttpRequest.over (r : HttpRequest) (leftover : StdMap Bytes Bytes) : HttpRequest :=
  { r with querys := assign leftover (queryParams r.query) }

theorem HttpRequest.over_of_query_nil {r : HttpRequest} (leftover : StdMap Bytes Bytes)
    (h : r.query = []) : r.over leftover = { r with querys := leftover } := by
  have hnil : queryParams [] = [] := by
    rw [queryParams, queryParamsFrom, if_neg (by simp)]
  unfold HttpRequest.over
  rw [h, hnil]
  rfl

theorem addHeaderLines_over (r : HttpRequest) (leftover : StdMap Bytes Bytes)
    (lines : List Bytes) :
    (r.over leftover).addHeaderLines lines = (r.addHeaderLines lines).over leftover := by
  induction lines generalizing r with
  | nil => rfl
  | cons line lines ih =>
    have hstep : (r.over leftover).addHeaderLine line
        = (r.addHeaderLine line).over leftover := by
      unfold HttpRequest.addHeaderLine
      split <;> rfl
    show ((r.over leftover).addHeaderLine line).addHeaderLines lines = _
    rw [hstep, ih]
    rfl

theorem setProtocol_over (r : HttpRequest) (leftover : StdMap Bytes Bytes) (protocol : Bytes) :
    setProtocol (r.over leftover) protocol
      = ((setProtocol r protocol).1, (setProtocol r protocol).2.over leftover) := by
  unfold setProtocol
  split
  · split
    · rfl
    · split <;> rfl
  · rfl

theorem setTarget_leftover (m : Method) (leftover : StdMap Bytes Bytes) (target : Bytes) :
    setTarget { method := m, querys := leftover } target
      = (setTarget { method := m } target).over leftover := by
  unfold setTarget
  cases target.idxOf? question with
  | none =>
    exact (HttpRequest.over_of_query_nil (r := { method := m, path := target }) leftover
      rfl).symm
  | some q =>
    dsimp only
    unfold HttpRequest.setQuery HttpRequest.setPath HttpRequest.over
    rw [parseQuery_eq_assign]

/-- A request line is read over leftovers as it is read afresh. -/
theorem processRequestLine_leftover (leftover : StdMap Bytes Bytes) (line : Bytes) :
    processRequestLine { querys := leftover } line
      = (processRequestLine {} line).map (fun x => (x.1, x.2.over leftover)) := by
  have hover : ∀ m : Method, HttpRequest.over { method := m } leftover
      = { method := m, querys := leftover } :=
    fun m => HttpRequest.over_of_query_nil leftover rfl
  unfold processRequestLine
  cases line.idxOf? blank with
  | none =>
    show _ = Except.ok (false, HttpRequest.over {} leftover)
    rw [hover]
  | some space =>
    dsimp only [HttpRequest.setMethod]
    rw [if_neg (not_not.mpr rfl), if_neg (not_not.mpr rfl)]
    cases decide (methodOf (line.take space) ≠ .kInvalid) with
    | true =>
      dsimp only
      cases (line.drop (space + 1)).idxOf? blank with
      | none =>
        show _ = Except.ok (false,
          HttpRequest.over { method := methodOf (line.take space) } leftover)
        rw [hover]
      | some space' =>
        dsimp only
        rw [setTarget_leftover, setProtocol_over]
        rfl
    | false =>
      show _ = Except.ok (false,
        HttpRequest.over { method := methodOf (line.take space) } leftover)
      rw [hover]

/-- **Parsing over leftovers is parsing afresh, up to the leftovers.** -/
theorem parseRequest_leftover (leftover : StdMap Bytes Bytes) (buf : Bytes) (t : Timestamp) :
    parseRequest { request := { querys := leftover } } buf t
      = (parseRequest {} buf t).map (fun x =>
          (x.1, { x.2.1 with request := x.2.1.request.over leftover }, x.2.2)) := by
  rw [parseRequest_expectRequestLine, parseRequest_expectRequestLine]
  cases hline : cutLine buf with
  | none =>
    show _ = Except.ok (true, ({ request := HttpRequest.over {} leftover } : HttpContext), buf)
    rw [HttpRequest.over_of_query_nil leftover rfl]
  | some lr =>
    obtain ⟨line, rest⟩ := lr
    dsimp only
    rw [processRequestLine_leftover]
    cases hproc : processRequestLine {} line with
    | error e => rfl
    | ok x =>
      obtain ⟨ok, r⟩ := x
      cases ok with
      | false => rfl
      | true =>
        show parseRequest
          { state := .kExpectHeaders, request := (r.setReceiveTime t).over leftover } rest t = _
        dsimp only
        rw [parseRequest_headers, parseRequest_headers, addHeaderLines_over]
        rfl

/-! ## Requests that are whole -/

/-- **A whole request**: bytes that a freshly constructed context reads as
one complete request, leaving nothing. -/
def IsWhole (text : Bytes) (t : Timestamp) : Prop :=
  ∃ req, parseRequest {} text t = .ok (true, { state := .kGotAll, request := req }, [])

/-- The request a freshly constructed context produces. -/
def freshRequest (text : Bytes) (t : Timestamp) : Option HttpRequest :=
  HttpServer.handed {} text t

/-- The names of the parameters in the query of a request. -/
def queryNames (text : Bytes) (t : Timestamp) : List Bytes :=
  match freshRequest text t with
  | some req => (queryParams req.query).map Prod.fst
  | none => []

/-- A request written out is whole. -/
theorem RequestText.WellFormed.isWhole {q : RequestText} (h : q.WellFormed) (t : Timestamp) :
    IsWhole q.bytes t := by
  refine ⟨q.readInto {} t, ?_⟩
  have hread := parseRequest_bytes h (r := {}) rfl [] t
  rwa [List.append_nil] at hread

theorem RequestText.WellFormed.eq_readInto {q : RequestText} (h : q.WellFormed) {t : Timestamp}
    {req : HttpRequest} (hreq : parseRequest {} q.bytes t
      = .ok (true, { state := .kGotAll, request := req }, [])) : req = q.readInto {} t := by
  have hread := parseRequest_bytes h (r := {}) rfl [] t
  rw [List.append_nil, hreq] at hread
  cases hread
  rfl

theorem freshRequest_eq {text : Bytes} {t : Timestamp} {req : HttpRequest}
    (h : parseRequest {} text t = .ok (true, { state := .kGotAll, request := req }, [])) :
    freshRequest text t = some req := by
  rw [freshRequest, HttpServer.handed, h]
  rfl

theorem freshRequest_over_empty {text : Bytes} {t : Timestamp} {req : HttpRequest}
    (h : parseRequest {} text t = .ok (true, { state := .kGotAll, request := req }, [])) :
    req.over ∅ = req := by
  have hself := parseRequest_leftover ∅ text t
  rw [show ({ request := { querys := ∅ } } : HttpContext) = {} from rfl, h] at hself
  injection hself with hself
  rw [Prod.mk.injEq, Prod.mk.injEq, HttpContext.mk.injEq] at hself
  exact hself.2.1.2.symm

/-! ## Leftovers that show -/

/-- Leftovers do not show exactly where they are overwritten. -/
theorem over_eq_over_empty_iff (r : HttpRequest) (leftover : StdMap Bytes Bytes) :
    r.over leftover = r.over ∅
      ↔ ∀ key, leftover[key]?.isSome → key ∈ (queryParams r.query).map Prod.fst := by
  have hmap : r.over leftover = r.over ∅
      ↔ assign leftover (queryParams r.query) = assign ∅ (queryParams r.query) := by
    constructor
    · intro h
      exact congrArg HttpRequest.querys h
    · intro h
      unfold HttpRequest.over
      rw [h]
  rw [hmap]
  constructor
  · intro h key hkey
    rw [← isSome_getElem?_assign_empty, ← h, getElem?_assign, Option.isSome_or,
      Bool.or_eq_true]
    exact Or.inr hkey
  · intro h
    refine Std.ExtTreeMap.ext_getElem? (fun key => ?_)
    rw [getElem?_assign]
    cases hkey : leftover[key]? with
    | none => rw [Option.or_none]
    | some v =>
      have hset := (isSome_getElem?_assign_empty (queryParams r.query) key).mpr
        (h key (by rw [hkey]; rfl))
      exact Option.or_of_isSome hset

/-- What is left over after a request is what was left over before it and
what its own query names. -/
theorem isSome_over_querys (r : HttpRequest) (leftover : StdMap Bytes Bytes) (key : Bytes) :
    (r.over leftover).querys[key]?.isSome
      ↔ key ∈ (queryParams r.query).map Prod.fst ∨ leftover[key]?.isSome := by
  unfold HttpRequest.over
  rw [getElem?_assign, Option.isSome_or, Bool.or_eq_true, isSome_getElem?_assign_empty]

/-! ## Connections -/

/-- **The requests of a connection are isolated**: over the whole connection,
with one request for each call of `onMessage` and whatever the callback does,
each request handed to it is what a fresh context produces from its bytes
alone. -/
def Isolated (requests : List (Bytes × Timestamp)) : Prop :=
  ∀ httpCallback : HttpCallback,
    HttpServer.handedRequests httpCallback {} [] requests
      <+: requests.map (fun r => freshRequest r.1 r.2)

/-- Whether each query of a connection names all the parameters that the
queries before it named. -/
def KeepsNames (requests : List (Bytes × Timestamp)) : Prop :=
  requests.Pairwise (fun r r' => ∀ key ∈ queryNames r.1 r.2, key ∈ queryNames r'.1 r'.2)

section Leftovers

variable {text : Bytes} {t : Timestamp} {req : HttpRequest}

theorem handed_leftover
    (h : parseRequest {} text t = .ok (true, { state := .kGotAll, request := req }, []))
    (leftover : StdMap Bytes Bytes) :
    HttpServer.handed { request := { querys := leftover } } text t
      = some (req.over leftover) := by
  rw [HttpServer.handed, parseRequest_leftover, h]
  rfl

theorem onMessage_leftover (httpCallback : HttpCallback)
    (h : parseRequest {} text t = .ok (true, { state := .kGotAll, request := req }, []))
    (leftover : StdMap Bytes Bytes) :
    HttpServer.onMessage httpCallback { request := { querys := leftover } } text t
      = (HttpServer.onRequest httpCallback (req.over leftover)).map (fun effects =>
          { context := { request := { querys := (req.over leftover).querys } },
            buf := [], effects }) := by
  have hparse : parseRequest { request := { querys := leftover } } text t
      = .ok (true, { state := .kGotAll, request := req.over leftover }, []) := by
    rw [parseRequest_leftover, h]
    rfl
  rw [HttpServer.onMessage_of_gotAll hparse]
  rfl

theorem over_eq_iff_queryNames
    (h : parseRequest {} text t = .ok (true, { state := .kGotAll, request := req }, []))
    (leftover : StdMap Bytes Bytes) :
    req.over leftover = req ↔ ∀ key, leftover[key]?.isSome → key ∈ queryNames text t := by
  have hiff := over_eq_over_empty_iff req leftover
  rw [freshRequest_over_empty h] at hiff
  rw [hiff, queryNames, freshRequest_eq h]

theorem isSome_over_querys_iff_queryNames
    (h : parseRequest {} text t = .ok (true, { state := .kGotAll, request := req }, []))
    (leftover : StdMap Bytes Bytes) (key : Bytes) :
    (req.over leftover).querys[key]?.isSome
      ↔ key ∈ queryNames text t ∨ leftover[key]?.isSome := by
  rw [isSome_over_querys, queryNames, freshRequest_eq h]

end Leftovers

/-- **Leftovers that every query names do not show**, over a whole
connection. -/
theorem handedRequests_of_keepsNames (httpCallback : HttpCallback)
    (requests : List (Bytes × Timestamp)) (hwhole : ∀ r ∈ requests, IsWhole r.1 r.2)
    (leftover : StdMap Bytes Bytes)
    (hnamed : ∀ r ∈ requests, ∀ key, leftover[key]?.isSome → key ∈ queryNames r.1 r.2)
    (hkeeps : KeepsNames requests) :
    HttpServer.handedRequests httpCallback { request := { querys := leftover } } [] requests
      <+: requests.map (fun r => freshRequest r.1 r.2) := by
  induction requests generalizing leftover with
  | nil => exact List.nil_prefix
  | cons r requests ih =>
    obtain ⟨text, t⟩ := r
    obtain ⟨req, hreq⟩ := hwhole (text, t) List.mem_cons_self
    obtain ⟨hhead, hkeeps⟩ := List.pairwise_cons.mp hkeeps
    have hover := (over_eq_iff_queryNames hreq leftover).mpr (hnamed (text, t) List.mem_cons_self)
    rw [HttpServer.handedRequests, List.nil_append, handed_leftover hreq,
      onMessage_leftover httpCallback hreq, List.map_cons, freshRequest_eq hreq,
      List.cons_prefix_cons]
    refine ⟨congrArg some hover, ?_⟩
    cases HttpServer.onRequest httpCallback (req.over leftover) with
    | error e => exact List.nil_prefix
    | ok effects =>
      refine ih (fun r hr => hwhole r (List.mem_cons_of_mem _ hr)) _ ?_ hkeeps
      intro r hr key hkey
      rcases (isSome_over_querys_iff_queryNames hreq leftover key).mp hkey with hkey | hkey
      · exact hhead r hr key hkey
      · exact hnamed r (List.mem_cons_of_mem _ hr) key hkey

/-- **Leftovers that some query does not name show**, whenever the callback
answers. -/
theorem keepsNames_of_handedRequests (requests : List (Bytes × Timestamp))
    (hwhole : ∀ r ∈ requests, IsWhole r.1 r.2) (leftover : StdMap Bytes Bytes)
    (h : HttpServer.handedRequests defaultHttpCallback { request := { querys := leftover } } []
        requests <+: requests.map (fun r => freshRequest r.1 r.2)) :
    (∀ r ∈ requests, ∀ key, leftover[key]?.isSome → key ∈ queryNames r.1 r.2)
      ∧ KeepsNames requests := by
  induction requests generalizing leftover with
  | nil => exact ⟨fun r hr => absurd hr List.not_mem_nil, List.Pairwise.nil⟩
  | cons r requests ih =>
    obtain ⟨text, t⟩ := r
    obtain ⟨req, hreq⟩ := hwhole (text, t) List.mem_cons_self
    rw [HttpServer.handedRequests, List.nil_append, handed_leftover hreq,
      onMessage_leftover defaultHttpCallback hreq, List.map_cons, freshRequest_eq hreq,
      List.cons_prefix_cons, Option.some.injEq] at h
    obtain ⟨hover, hrest⟩ := h
    have hhead := (over_eq_iff_queryNames hreq leftover).mp hover
    obtain ⟨hnamed, hkeeps⟩ :=
      ih (fun r hr => hwhole r (List.mem_cons_of_mem _ hr)) _ hrest
    have hafter := isSome_over_querys_iff_queryNames hreq leftover
    constructor
    · intro r hr key hkey
      rcases List.mem_cons.mp hr with rfl | hr
      · exact hhead key hkey
      · exact hnamed r hr key ((hafter key).mpr (Or.inr hkey))
    · exact List.pairwise_cons.mpr
        ⟨fun r hr key hkey => hnamed r hr key ((hafter key).mpr (Or.inl hkey)), hkeeps⟩

/-- **Requests are isolated exactly when no query forgets a parameter**:
each names every parameter that the queries before it on the connection
named.

`HttpContext::reset` swaps in a new request and leaves the parameters of the old one
behind, since `swap` forgets them. The next query assigns its own parameters over
these. So what a request is parsed to does not depend on the ones before it exactly if
it overwrites all that is left. -/
theorem isolated_iff (requests : List (Bytes × Timestamp))
    (hwhole : ∀ r ∈ requests, IsWhole r.1 r.2) :
    Isolated requests ↔ KeepsNames requests := by
  constructor
  · intro h
    exact (keepsNames_of_handedRequests requests hwhole ∅ (h defaultHttpCallback)).2
  · intro h httpCallback
    refine handedRequests_of_keepsNames httpCallback requests hwhole ∅ ?_ h
    intro r _ key hkey
    rw [Std.ExtTreeMap.getElem?_empty] at hkey
    exact absurd hkey (by simp)

/-- Two purchases. -/
def purchases : List RequestText :=
  [{ method := bytes "GET", target := bytes "/10001/buy/?commodity_id=1&num=2",
     version := bytes "HTTP/1.1", headers := [] },
   { method := bytes "GET", target := bytes "/10001/buy/?commodity_id=5&num=1",
     version := bytes "HTTP/1.1", headers := [] }]

theorem purchases_wellFormed : ∀ q ∈ purchases, q.WellFormed := by
  intro q hq
  unfold purchases at hq
  simp only [List.mem_cons, List.not_mem_nil, or_false] at hq
  rcases hq with rfl | rfl
  all_goals exact ⟨by decide, by decide +kernel, Or.inl rfl, by simp⟩

/-- Both purchases name the same parameters, and the second does not see the
first. -/
theorem isolated_purchases : Isolated (purchases.map (fun q => (q.bytes, 0))) := by
  refine (isolated_iff _ ?_).mpr ?_
  · intro r hr
    obtain ⟨q, hq, rfl⟩ := List.mem_map.mp hr
    exact (purchases_wellFormed q hq).isWhole 0
  · unfold KeepsNames
    decide +kernel

/-- **A purchase without parameters is handed the ones of the purchase before
it.** -/
theorem not_isolated_purchase_without_query :
    ¬ Isolated [(bytes "GET /10001/buy/?commodity_id=1&num=2 HTTP/1.1\r\n\r\n", 0),
      (bytes "GET /10001/buy/ HTTP/1.1\r\n\r\n", 0)] := by
  intro h
  have h := h defaultHttpCallback
  revert h
  decide +kernel

end MicroBusiness
