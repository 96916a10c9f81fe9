import MicroBusiness.HttpRequest

/-!
# The parser of the backend

`HttpContext::parseRequest` consumes an input buffer line by line: a request
line, then header lines up to a line without a colon. It stops for want of a
complete line, at a request line it rejects, or after the last line of the
request, and it never returns from a context that has already got everything.

What it does to the headers is stated once for every buffer: `splitHeaders`
cuts a buffer into the header lines the parser reads, and
`parseRequest_headers` says that parsing adds exactly these, in order. A
header map keeps the last value given under a name
(`getElem?_addHeaderLines`).

A request written out – a request line, header lines with a colon, an empty
line – is a `RequestText`, and `parseRequest_requestText` is its reading.
-/

namespace MicroBusiness

open Search

/-- `HttpContext::HttpRequestParseState`. -/
inductive HttpRequestParseState
  | kExpectRequestLine | kExpectHeaders | kExpectBody | kGotAll
  deriving DecidableEq, Repr

/-- `class HttpContext`. -/
structure HttpContext where
  state : HttpRequestParseState := .kExpectRequestLine
  request : HttpRequest := {}
  deriving DecidableEq

namespace HttpContext

def gotAll (ctx : HttpContext) : Bool := ctx.state = .kGotAll

theorem gotAll_of_expectRequestLine {ctx : HttpContext} (h : ctx.state = .kExpectRequestLine) :
    ctx.gotAll = false := by
  unfold gotAll
  rw [h]
  rfl

/-- `reset`, which swaps the request with a fresh one. -/
def reset (ctx : HttpContext) : HttpContext :=
  { state := .kExpectRequestLine, request := (ctx.request.swap {}).1 }

end HttpContext

/-- The last part of a request line, which sets the version. -/
def setProtocol (r : HttpRequest) (protocol : Bytes) : Bool × HttpRequest :=
  if protocol.length = 8 ∧ protocol.take 7 = bytes "HTTP/1." then
    if protocol.drop 7 = bytes "1" then (true, r.setVersion .kHttp11)
    else if protocol.drop 7 = bytes "0" then (true, r.setVersion .kHttp10)
    else (false, r)
  else (false, r)

/-- The middle part of a request line: path, and query from the first `?`
on. -/
def setTarget (r : HttpRequest) (target : Bytes) : HttpRequest :=
  match target.idxOf? question with
  | some q => (r.setPath (target.take q)).setQuery (target.drop q)
  | none => r.setPath target

/-- `processRequestLine`. The assertion is the one `setMethod` begins
with. -/
def processRequestLine (r : HttpRequest) (line : Bytes) : Except Fault (Bool × HttpRequest) :=
  match line.idxOf? blank with
  | none => .ok (false, r)
  | some space =>
    if r.method ≠ .kInvalid then .error .assertion
    else
      match r.setMethod (line.take space) with
      | (false, r) => .ok (false, r)
      | (true, r) =>
        let rest := line.drop (space + 1)
        match rest.idxOf? blank with
        | none => .ok (false, r)
        | some space => .ok (setProtocol (setTarget r (rest.take space)) (rest.drop (space + 1)))

/-- The first complete line of a buffer and what follows its line end
(`findCRLF`, `peek` and `retrieveUntil` of the library's `Buffer`, which is
represented by its unread bytes). -/
def cutLine (buf : Bytes) : Option (Bytes × Bytes) :=
  (findSub crlf buf).map (fun pos => (buf.take pos, buf.drop (pos + 2)))

theorem cutLine_eq_some {buf line rest : Bytes} (h : cutLine buf = some (line, rest)) :
    buf = line ++ (crlf ++ rest) ∧ findSub crlf buf = some line.length := by
  obtain ⟨pos, hpos, heq⟩ := Option.map_eq_some_iff.mp h
  obtain ⟨l, t, rfl, rfl⟩ := exists_of_findSub_eq_some hpos
  rw [Prod.mk.injEq] at heq
  obtain ⟨hl, ht⟩ := heq
  rw [List.take_left] at hl
  rw [← List.drop_drop, List.drop_left] at ht
  subst hl
  refine ⟨?_, hpos⟩
  rw [← ht]
  rfl

theorem cutLine_append {line : Bytes} (rest : Bytes) (h : findSub crlf line = none) :
    cutLine (line ++ (crlf ++ rest)) = some (line, rest) := by
  unfold cutLine
  rw [show line ++ (crlf ++ rest) = line ++ cr :: lf :: rest from rfl,
    findSub_pair rest (by decide) h, Option.map_some, List.take_left, ← List.drop_drop,
    List.drop_left]
  rfl

theorem length_lt_of_cutLine {buf line rest : Bytes} (h : cutLine buf = some (line, rest)) :
    rest.length < buf.length := by
  rw [(cutLine_eq_some h).1]
  simp only [List.length_append, List.length_cons]
  omega

/-- `parseRequest`: the value returned, the context, and what stays unread in
the buffer. In the states `kExpectBody` and `kGotAll` the loop has nothing to
do and goes round for ever. -/
def parseRequest (ctx : HttpContext) (buf : Bytes) (receiveTime : Timestamp) :
    Except Fault (Bool × HttpContext × Bytes) :=
  match ctx.state with
  | .kExpectRequestLine =>
    match _hline : cutLine buf with
    | none => .ok (true, ctx, buf)
    | some (line, rest) =>
      match processRequestLine ctx.request line with
      | .error e => .error e
      | .ok (false, r) => .ok (false, { ctx with request := r }, buf)
      | .ok (true, r) =>
        parseRequest { state := .kExpectHeaders, request := r.setReceiveTime receiveTime }
          rest receiveTime
  | .kExpectHeaders =>
    match _hline : cutLine buf with
    | none => .ok (true, ctx, buf)
    | some (line, rest) =>
      match line.idxOf? colon with
      | some pos =>
        parseRequest { ctx with request := ctx.request.addHeader line pos } rest receiveTime
      | none => .ok (true, { ctx with state := .kGotAll }, rest)
  | .kExpectBody => .error .endlessLoop
  | .kGotAll => .error .endlessLoop
termination_by buf.length
decreasing_by
  all_goals exact length_lt_of_cutLine _hline

theorem parseRequest_expectRequestLine (r : HttpRequest) (buf : Bytes) (t : Timestamp) :
    parseRequest { state := .kExpectRequestLine, request := r } buf t
      = match cutLine buf with
        | none => .ok (true, { state := .kExpectRequestLine, request := r }, buf)
        | some (line, rest) =>
          match processRequestLine r line with
          | .error e => .error e
          | .ok (false, r) => .ok (false, { state := .kExpectRequestLine, request := r }, buf)
          | .ok (true, r) =>
            parseRequest { state := .kExpectHeaders, request := r.setReceiveTime t } rest t := by
  rw [parseRequest]
  dsimp only
  split
  · next h => rw [h]
  · next h => rw [h]

theorem parseRequest_expectHeaders (r : HttpRequest) (buf : Bytes) (t : Timestamp) :
    parseRequest { state := .kExpectHeaders, request := r } buf t
      = match cutLine buf with
        | none => .ok (true, { state := .kExpectHeaders, request := r }, buf)
        | some (line, rest) =>
          match line.idxOf? colon with
          | some pos =>
            parseRequest { state := .kExpectHeaders, request := r.addHeader line pos } rest t
          | none => .ok (true, { state := .kGotAll, request := r }, rest) := by
  rw [parseRequest]
  dsimp only
  split
  · next h => rw [h]
  · next h => rw [h]

/-! ## Header lines -/

/-- Add a header line, split at its first colon. -/
def HttpRequest.addHeaderLine (r : HttpRequest) (line : Bytes) : HttpRequest :=
  match line.idxOf? colon with
  | some pos => r.addHeader line pos
  | none => r

/-- Add header lines in order. -/
def HttpRequest.addHeaderLines (r : HttpRequest) (lines : List Bytes) : HttpRequest :=
  lines.foldl HttpRequest.addHeaderLine r

/-- The header lines the parser reads from a buffer, whether it comes to the
line that ends them, and what it leaves unread. -/
def splitHeaders (buf : Bytes) : List Bytes × Bool × Bytes :=
  match _hline : cutLine buf with
  | none => ([], false, buf)
  | some (line, rest) =>
    if colon ∈ line then
      let r := splitHeaders rest
      (line :: r.1, r.2)
    else ([], true, rest)
termination_by buf.length
decreasing_by exact length_lt_of_cutLine _hline

theorem splitHeaders_of_none {buf : Bytes} (h : cutLine buf = none) :
    splitHeaders buf = ([], false, buf) := by
  rw [splitHeaders]
  split
  · rfl
  · next h' => rw [h] at h'; cases h'

theorem splitHeaders_of_line {buf line rest : Bytes} (h : cutLine buf = some (line, rest)) :
    splitHeaders buf
      = if colon ∈ line then (line :: (splitHeaders rest).1, (splitHeaders rest).2)
        else ([], true, rest) := by
  rw [splitHeaders]
  split
  · next h' => rw [h] at h'; cases h'
  · next h' =>
    rw [h, Option.some.injEq, Prod.mk.injEq] at h'
    obtain ⟨rfl, rfl⟩ := h'
    rfl

theorem colon_mem_of_mem_splitHeaders {buf line : Bytes} (h : line ∈ (splitHeaders buf).1) :
    colon ∈ line := by
  induction buf using splitHeaders.induct with
  | case1 buf hline =>
    rw [splitHeaders_of_none hline] at h
    cases h
  | case2 buf line' rest hline hcolon ih =>
    rw [splitHeaders_of_line hline, if_pos hcolon] at h
    rcases List.mem_cons.mp h with rfl | h
    · exact hcolon
    · exact ih h
  | case3 buf line' rest hline hcolon =>
    rw [splitHeaders_of_line hline, if_neg hcolon] at h
    cases h

/-- The state the parser is in after the header lines of a buffer. -/
def stateAfterHeaders (ended : Bool) : HttpRequestParseState :=
  if ended then .kGotAll else .kExpectHeaders

/-- **Parsing headers adds the header lines of the buffer**, and nothing
else happens. -/
theorem parseRequest_headers (r : HttpRequest) (buf : Bytes) (t : Timestamp) :
    parseRequest { state := .kExpectHeaders, request := r } buf t
      = .ok (true,
          { state := stateAfterHeaders (splitHeaders buf).2.1,
            request := r.addHeaderLines (splitHeaders buf).1 },
          (splitHeaders buf).2.2) := by
  induction buf using splitHeaders.induct generalizing r with
  | case1 buf hline =>
    rw [parseRequest_expectHeaders, hline, splitHeaders_of_none hline]
    rfl
  | case2 buf line rest hline hcolon ih =>
    obtain ⟨l, u, rfl, hl⟩ := exists_eq_append_cons_of_mem hcolon
    rw [parseRequest_expectHeaders, hline, splitHeaders_of_line hline, if_pos hcolon]
    dsimp only
    have hstep : r.addHeaderLine (l ++ colon :: u)
        = r.addHeader (l ++ colon :: u) l.length := by
      rw [HttpRequest.addHeaderLine, idxOf?_append_cons u hl]
    rw [idxOf?_append_cons u hl]
    dsimp only
    rw [ih, ← hstep]
    rfl
  | case3 buf line rest hline hcolon =>
    rw [parseRequest_expectHeaders, hline, splitHeaders_of_line hline, if_neg hcolon]
    dsimp only
    rw [List.idxOf?_eq_none_iff.mpr hcolon]
    rfl

/-- The name a header line gives: what stands before its first colon. -/
def headerName (line : Bytes) : Bytes := line.takeWhile (· ≠ colon)

/-- The value a header line gives: what stands after its first colon,
trimmed. -/
def headerValue (line : Bytes) : Bytes := trim ((line.dropWhile (· ≠ colon)).drop 1)

theorem headerName_append {l : Bytes} (u : Bytes) (hl : colon ∉ l) :
    headerName (l ++ colon :: u) = l ∧ headerValue (l ++ colon :: u) = trim u := by
  have hall : ∀ b ∈ l, (decide (b ≠ colon)) = true := by
    intro b hb
    rw [decide_eq_true_eq]
    rintro rfl
    exact hl hb
  unfold headerName headerValue
  rw [List.takeWhile_append_of_pos hall, List.dropWhile_append_of_pos hall,
    List.takeWhile_cons_of_neg (by simp), List.dropWhile_cons_of_neg (by simp)]
  exact ⟨List.append_nil l, rfl⟩

/-- The last value header lines give for a name. -/
def lastHeader (field : Bytes) (lines : List Bytes) : Option Bytes :=
  (lines.reverse.find? (fun line => headerName line = field)).map headerValue

theorem lastHeader_cons (field line : Bytes) (lines : List Bytes) :
    lastHeader field (line :: lines)
      = (lastHeader field lines).or
          (if headerName line = field then some (headerValue line) else none) := by
  unfold lastHeader
  rw [List.reverse_cons, List.find?_append, Option.map_or]
  congr 1
  by_cases h : headerName line = field
  · simp [h]
  · simp [h]

theorem lastHeader_eq_none {field : Bytes} {lines : List Bytes}
    (h : ∀ line ∈ lines, headerName line ≠ field) : lastHeader field lines = none := by
  unfold lastHeader
  rw [Option.map_eq_none_iff, List.find?_eq_none]
  intro line hline
  rw [decide_eq_true_eq]
  exact h line (List.mem_reverse.mp hline)

theorem HttpRequest.addHeaderLine_eq (r : HttpRequest) (line : Bytes) :
    r.addHeaderLine line = { r with headers := (r.addHeaderLine line).headers } := by
  unfold addHeaderLine
  split
  · rfl
  · rfl

theorem HttpRequest.addHeaderLines_eq (r : HttpRequest) (lines : List Bytes) :
    r.addHeaderLines lines = { r with headers := (r.addHeaderLines lines).headers } := by
  induction lines using List.reverseRecOn with
  | nil => rfl
  | append_singleton lines line ih =>
    have hlast : r.addHeaderLines (lines ++ [line])
        = (r.addHeaderLines lines).addHeaderLine line := by
      unfold addHeaderLines
      rw [List.foldl_append]
      rfl
    rw [hlast, addHeaderLine_eq, ih]

/-- **A header map keeps the last value given under a name.** -/
theorem getElem?_addHeaderLines (r : HttpRequest) (lines : List Bytes) (field : Bytes)
    (hcolon : ∀ line ∈ lines, colon ∈ line) :
    (r.addHeaderLines lines).headers[field]?
      = (lastHeader field lines).or r.headers[field]? := by
  induction lines using List.reverseRecOn with
  | nil => rfl
  | append_singleton lines line ih =>
    obtain ⟨l, u, rfl, hl⟩ := exists_eq_append_cons_of_mem (hcolon line (by simp))
    obtain ⟨hname, hvalue⟩ := headerName_append u hl
    have hadd : r.addHeaderLines (lines ++ [l ++ colon :: u])
        = (r.addHeaderLines lines).addHeader (l ++ colon :: u) l.length := by
      unfold HttpRequest.addHeaderLines
      rw [List.foldl_append, List.foldl_cons, List.foldl_nil,
        HttpRequest.addHeaderLine, idxOf?_append_cons u hl]
    have hdrop : (l ++ colon :: u).drop (l.length + 1) = u := by
      rw [← List.drop_drop, List.drop_left]
      rfl
    rw [hadd, HttpRequest.getElem?_addHeader, List.take_left, hdrop, lastHeader,
      List.reverse_append, List.reverse_singleton, List.singleton_append,
      List.find?_cons]
    by_cases hf : l = field
    · rw [if_pos hf, hname, decide_eq_true hf]
      dsimp only
      rw [Option.map_some, hvalue]
      rfl
    · rw [if_neg hf, hname, decide_eq_false hf]
      exact ih (fun line' h => hcolon line' (List.mem_append_left _ h))

/-! ## Request lines -/

/-- A request line with its two blanks is split there. -/
theorem processRequestLine_append {r : HttpRequest} {m target : Bytes} (protocol : Bytes)
    (hr : r.method = .kInvalid) (hm : blank ∉ m) (ht : blank ∉ target)
    (hknown : methodOf m ≠ .kInvalid) :
    processRequestLine r (m ++ blank :: (target ++ blank :: protocol))
      = .ok (setProtocol (setTarget { r with method := methodOf m } target) protocol) := by
  have hdrop : ∀ l u : Bytes, (l ++ blank :: u).drop (l.length + 1) = u := by
    intro l u
    rw [← List.drop_drop, List.drop_left]
    rfl
  rw [processRequestLine, idxOf?_append_cons _ hm]
  dsimp only
  rw [if_neg (not_not.mpr hr), List.take_left, hdrop, HttpRequest.setMethod,
    decide_eq_true hknown]
  dsimp only
  rw [idxOf?_append_cons _ ht]
  dsimp only
  rw [List.take_left, hdrop]

theorem setTarget_headers (r : HttpRequest) (target : Bytes) :
    (setTarget r target).headers = r.headers := by
  unfold setTarget
  split <;> rfl

theorem setTarget_method (r : HttpRequest) (target : Bytes) :
    (setTarget r target).method = r.method := by
  unfold setTarget
  split <;> rfl

theorem exists_setProtocol_eq (r : HttpRequest) (protocol : Bytes) :
    ∃ v, (setProtocol r protocol).2 = r.setVersion v := by
  unfold setProtocol
  split
  · split
    · exact ⟨_, rfl⟩
    · split <;> exact ⟨_, rfl⟩
  · exact ⟨r.version, rfl⟩

theorem setProtocol_headers (r : HttpRequest) (protocol : Bytes) :
    (setProtocol r protocol).2.headers = r.headers := by
  obtain ⟨v, hv⟩ := exists_setProtocol_eq r protocol
  rw [hv]
  rfl

theorem setProtocol_path (r : HttpRequest) (protocol : Bytes) :
    (setProtocol r protocol).2.path = r.path := by
  obtain ⟨v, hv⟩ := exists_setProtocol_eq r protocol
  rw [hv]
  rfl

theorem setProtocol_of_length_ne (r : HttpRequest) {protocol : Bytes}
    (h : protocol.length ≠ 8) : setProtocol r protocol = (false, r) := by
  unfold setProtocol
  rw [if_neg (fun hp => h hp.1)]

theorem parseRequest_of_refused {r r' : HttpRequest} {buf line rest : Bytes}
    (hline : cutLine buf = some (line, rest))
    (hrefused : processRequestLine r line = .ok (false, r')) (t : Timestamp) :
    parseRequest { state := .kExpectRequestLine, request := r } buf t
      = .ok (false, { state := .kExpectRequestLine, request := r' }, buf) := by
  rw [parseRequest_expectRequestLine, hline]
  dsimp only
  rw [hrefused]

theorem parseRequest_of_accepted {r r' : HttpRequest} {buf line rest : Bytes}
    (hline : cutLine buf = some (line, rest))
    (haccepted : processRequestLine r line = .ok (true, r')) (t : Timestamp) :
    parseRequest { state := .kExpectRequestLine, request := r } buf t
      = .ok (true,
          { state := stateAfterHeaders (splitHeaders rest).2.1,
            request := (r'.setReceiveTime t).addHeaderLines (splitHeaders rest).1 },
          (splitHeaders rest).2.2) := by
  rw [parseRequest_expectRequestLine, hline]
  dsimp only
  rw [haccepted]
  dsimp only
  rw [parseRequest_headers]

/-- A request written out, without a body. -/
structure RequestText where
  method : Bytes
  target : Bytes
  version : Bytes
  headers : List Bytes

namespace RequestText

/-- The request line. -/
def line (q : RequestText) : Bytes :=
  q.method ++ blank :: (q.target ++ blank :: q.version)

/-- The bytes of a request: the request line, the header lines, an empty
line. -/
def bytes (q : RequestText) : Bytes :=
  q.line ++ (crlf ++ (q.headers.flatMap (· ++ crlf) ++ crlf))

/-- **A well-formed request**: a method of the library, a target without
white space, a version of HTTP, and header lines that are lines and hold a
colon. -/
structure WellFormed (q : RequestText) : Prop where
  method : methodOf q.method ≠ .kInvalid
  target : ∀ b ∈ q.target, isspace b = false
  version : q.version = MicroBusiness.bytes "HTTP/1.1" ∨ q.version = MicroBusiness.bytes "HTTP/1.0"
  headers : ∀ h ∈ q.headers, colon ∈ h ∧ findSub crlf h = none

/-- The request a context that expects one reads from the text, with what
was in the request before. -/
def readInto (q : RequestText) (r : HttpRequest) (t : Timestamp) : HttpRequest :=
  (((setProtocol (setTarget { r with method := methodOf q.method } q.target)
    q.version).2).setReceiveTime t).addHeaderLines q.headers

end RequestText

theorem notMem_of_methodOf {m : Bytes} (h : methodOf m ≠ .kInvalid) :
    ∀ b ∈ m, isspace b = false := by
  have hm : m ∈ [bytes "GET", bytes "POST", bytes "HEAD", bytes "PUT", bytes "DELETE"] := by
    by_contra hnot
    simp only [List.mem_cons, List.not_mem_nil, or_false, not_or] at hnot
    obtain ⟨hget, hpost, hhead, hput, hdelete⟩ := hnot
    exact h (by rw [methodOf, if_neg hget, if_neg hpost, if_neg hhead, if_neg hput,
      if_neg hdelete])
  have hnames : ∀ m ∈ [bytes "GET", bytes "POST", bytes "HEAD", bytes "PUT", bytes "DELETE"],
      ∀ b ∈ m, isspace b = false := by decide +kernel
  exact hnames m hm

theorem notMem_of_isspace {b : UInt8} {s : Bytes} (hb : isspace b = true)
    (h : ∀ c ∈ s, isspace c = false) : b ∉ s := by
  intro hm
  rw [h b hm] at hb
  exact absurd hb (by decide)

theorem setProtocol_fst (r : HttpRequest) {v : Bytes}
    (h : v = bytes "HTTP/1.1" ∨ v = bytes "HTTP/1.0") : (setProtocol r v).1 = true := by
  rcases h with rfl | rfl <;> rfl

namespace RequestText

variable {q : RequestText}

theorem WellFormed.lf_notMem_line (h : q.WellFormed) : lf ∉ q.line := by
  have hm := notMem_of_isspace (b := lf) rfl (notMem_of_methodOf h.method)
  have ht := notMem_of_isspace (b := lf) rfl h.target
  have hv : lf ∉ q.version := by
    rcases h.version with hv | hv <;> rw [hv] <;> decide
  unfold line
  simp only [List.mem_append, List.mem_cons, not_or]
  exact ⟨hm, by decide, ht, by decide, hv⟩

theorem splitHeaders_until {hs : List Bytes} {last : Bytes} (rest : Bytes)
    (h : ∀ l ∈ hs, colon ∈ l ∧ findSub crlf l = none) (hcolon : colon ∉ last)
    (hlast : findSub crlf last = none) :
    splitHeaders (hs.flatMap (· ++ crlf) ++ (last ++ (crlf ++ rest))) = (hs, true, rest) := by
  induction hs with
  | nil =>
    rw [List.flatMap_nil, List.nil_append, splitHeaders_of_line (cutLine_append rest hlast),
      if_neg hcolon]
  | cons l hs ih =>
    have hl := h l List.mem_cons_self
    rw [List.flatMap_cons, List.append_assoc, List.append_assoc,
      splitHeaders_of_line (cutLine_append _ hl.2), if_pos hl.1,
      ih (fun l' hl' => h l' (List.mem_cons_of_mem l hl'))]

theorem splitHeaders_lines {hs : List Bytes} (rest : Bytes)
    (h : ∀ l ∈ hs, colon ∈ l ∧ findSub crlf l = none) :
    splitHeaders (hs.flatMap (· ++ crlf) ++ (crlf ++ rest)) = (hs, true, rest) :=
  splitHeaders_until rest h (List.not_mem_nil : colon ∉ ([] : Bytes)) (by decide)

/-- **A well-formed request is read whole**, into whatever request the
context holds, with nothing left of it in the buffer. -/
theorem parseRequest_bytes (h : q.WellFormed) {r : HttpRequest} (hr : r.method = .kInvalid)
    (rest : Bytes) (t : Timestamp) :
    parseRequest { state := .kExpectRequestLine, request := r } (q.bytes ++ rest) t
      = .ok (true, { state := .kGotAll, request := q.readInto r t }, rest) := by
  have hline : cutLine (q.bytes ++ rest)
      = some (q.line, q.headers.flatMap (· ++ crlf) ++ (crlf ++ rest)) := by
    unfold bytes
    rw [List.append_assoc, List.append_assoc, List.append_assoc]
    exact cutLine_append _ (findSub_pair_eq_none h.lf_notMem_line)
  have hproc := processRequestLine_append q.version hr
    (notMem_of_isspace (b := blank) rfl (notMem_of_methodOf h.method))
    (notMem_of_isspace (b := blank) rfl h.target) h.method
  have hfst := setProtocol_fst (setTarget { r with method := methodOf q.method } q.target)
    h.version
  rw [← Prod.mk.eta (p := setProtocol _ _), hfst] at hproc
  rw [parseRequest_of_accepted hline hproc t, splitHeaders_lines rest h.headers]
  rfl

end RequestText

end MicroBusiness
