import MicroBusiness.Framing
import MicroBusiness.RequestBodies

/-!
# Responses in a stream

On a connection that is kept open the responses follow one another, and their
reader has to see where one ends: behind a body as long as the header lines
declare (`readResponse`). `appendToBuffer` writes a `Content-Length` line in
front of the other headers, in a buffer of 32 bytes. The line fits as long as
the length has no more than thirteen digits. Then what was written is read back,
whatever comes behind it; else the line runs on into the next one
(`HttpResponse.readBack_iff`).

So the responses on a connection are read one by one, in whatever pieces they
arrive (`responseReader`).
-/

namespace MicroBusiness

open Search

/-- A response as it is read: the status line, the header lines, and the
body. -/
structure ResponseText where
  statusLine : Bytes
  headers : List Bytes
  body : Bytes
  deriving DecidableEq

/-- **The first response of a text**, once it is there as a whole: a status
line, header lines, the line that ends them, and a body of the length that they
declare. -/
def readResponse (text : Bytes) : Option (ResponseText × Bytes) :=
  match cutLine text with
  | none => none
  | some (statusLine, rest) =>
    match splitHeaders rest with
    | (_, false, _) => none
    | (headers, true, rest) =>
      if contentLength headers ≤ rest.length then
        some (⟨statusLine, headers, rest.take (contentLength headers)⟩,
          rest.drop (contentLength headers))
      else none

/-- What it takes for a response to be read. -/
theorem readResponse_eq_some {text rest : Bytes} {r : ResponseText}
    (h : readResponse text = some (r, rest)) :
    ∃ behind behind', cutLine text = some (r.statusLine, behind) ∧
      splitHeaders behind = (r.headers, true, behind') ∧
      contentLength r.headers ≤ behind'.length ∧
      r.body = behind'.take (contentLength r.headers) ∧
      rest = behind'.drop (contentLength r.headers) := by
  unfold readResponse at h
  cases hline : cutLine text with
  | none =>
    rw [hline] at h
    cases h
  | some x =>
    obtain ⟨statusLine, behind⟩ := x
    rw [hline] at h
    dsimp only at h
    rcases hsplit : splitHeaders behind with ⟨headers, ended, behind'⟩
    rw [hsplit] at h
    cases ended with
    | false => cases h
    | true =>
      dsimp only at h
      split at h
      · next hlength =>
        cases h
        exact ⟨behind, behind', rfl, hsplit, hlength, rfl, rfl⟩
      · cases h

theorem readResponse_of_parts {text statusLine behind behind' : Bytes} {headers : List Bytes}
    (hline : cutLine text = some (statusLine, behind))
    (hsplit : splitHeaders behind = (headers, true, behind'))
    (hlength : contentLength headers ≤ behind'.length) :
    readResponse text = some (⟨statusLine, headers, behind'.take (contentLength headers)⟩,
      behind'.drop (contentLength headers)) := by
  unfold readResponse
  rw [hline]
  dsimp only
  rw [hsplit]
  exact if_pos hlength

/-- **The reader of the responses on a connection.** -/
def responseReader : Framing.Reader UInt8 ResponseText where
  read := readResponse
  shorter := by
    intro text r rest h
    obtain ⟨behind, behind', hline, hsplit, -, -, rfl⟩ := readResponse_eq_some h
    have hsuffix := splitHeaders_suffix behind
    rw [hsplit] at hsuffix
    have hlength : behind'.length ≤ behind.length := hsuffix.length_le
    have hbehind := length_lt_of_cutLine hline
    rw [List.length_drop]
    omega
  extend := by
    intro text r rest h more
    obtain ⟨behind, behind', hline, hsplit, hlength, hbody, rfl⟩ := readResponse_eq_some h
    have hsplit' : splitHeaders (behind ++ more) = (r.headers, true, behind' ++ more) := by
      rw [splitHeaders_append, hsplit]
      rfl
    have hlength' : contentLength r.headers ≤ (behind' ++ more).length := by
      rw [List.length_append]
      omega
    rw [readResponse_of_parts (cutLine_append_right more hline) hsplit' hlength',
      List.take_append_of_le_length hlength, List.drop_append_of_le_length hlength, ← hbody]

/-! ## Responses written out -/

namespace HttpResponse

/-- The status line of a response. -/
def statusLine (r : HttpResponse) : Bytes :=
  bytes "HTTP/1.1 " ++ (decimal r.statusCode.toNat ++ blank :: r.statusMessage)

/-- The header lines of a response on a connection that is kept open. -/
def headerLines (r : HttpResponse) : List Bytes :=
  (bytes "Content-Length: " ++ decimal r.body.length) :: bytes "Connection: Keep-Alive"
    :: r.headers.toList.map (fun h => h.1 ++ (bytes ": " ++ h.2))

/-- What is to be read of a response. -/
def text (r : HttpResponse) : ResponseText := ⟨r.statusLine, r.headerLines, r.body⟩

/-- **A response that is made of lines**, on a connection that is kept open. -/
structure Lined (r : HttpResponse) : Prop where
  keeps : r.closeConnection = false
  statusMessage : lf ∉ r.statusMessage
  headers : ∀ h ∈ r.headers.toList, lf ∉ h.1 ∧ lf ∉ h.2

variable {r : HttpResponse}

theorem Lined.lf_notMem_statusLine (h : r.Lined) : lf ∉ r.statusLine := by
  unfold statusLine
  simp only [List.mem_append, List.mem_cons, not_or]
  exact ⟨by decide, notMem_decimal _ (by decide), by decide, h.statusMessage⟩

/-- The header lines are lines and hold a colon. -/
theorem Lined.headerLines (h : r.Lined) :
    ∀ l ∈ r.headerLines, colon ∈ l ∧ findSub crlf l = none := by
  have hlines : ∀ l ∈ r.headerLines, colon ∈ l ∧ lf ∉ l := by
    refine List.forall_mem_cons.mpr ⟨⟨List.mem_append_left _ (by decide), ?_⟩,
      List.forall_mem_cons.mpr ⟨by decide, fun l hl => ?_⟩⟩
    · rw [List.mem_append, not_or]
      exact ⟨by decide, notMem_decimal _ (by decide)⟩
    · obtain ⟨⟨key, value⟩, hmem, rfl⟩ := List.mem_map.mp hl
      obtain ⟨hkey, hvalue⟩ := h.headers _ hmem
      rw [List.mem_append, List.mem_append, List.mem_append, List.mem_append, not_or, not_or]
      exact ⟨Or.inr (Or.inl (by decide)), hkey, by decide, hvalue⟩
  exact fun l hl => (hlines l hl).imp_right findSub_pair_eq_none

/-- **The length that the header lines declare is the one of the body.** -/
theorem contentLength_headerLines (r : HttpResponse) :
    contentLength r.headerLines = r.body.length := by
  have hname : headerName (bytes "Content-Length: " ++ decimal r.body.length)
      = bytes "Content-Length" ∧
        headerValue (bytes "Content-Length: " ++ decimal r.body.length)
          = decimal r.body.length := by
    have hsplit := headerName_append (l := bytes "Content-Length")
      (blank :: decimal r.body.length) (by decide)
    refine hsplit.imp_right fun hvalue => hvalue.trans ?_
    rw [trim_cons_blank]
    refine trim_eq_self fun b hb => ?_
    have hdigit := isDigit_of_mem_decimal hb
    unfold isDigit at hdigit
    unfold isspace
    grind
  unfold contentLength headerLines
  rw [List.find?_cons_of_pos (by rw [hname.1]; decide +kernel)]
  dsimp only
  rw [hname.2, List.takeWhile_eq_self_iff.mpr fun b hb => isDigit_of_mem_decimal hb,
    natOfDigits_decimal]

theorem appendToBuffer_eq_statusLine (r : HttpResponse) :
    r.appendToBuffer = r.statusLine ++ (crlf ++ (r.connectionLines
      ++ (r.headers.toList.flatMap (fun h => h.1 ++ (bytes ": " ++ (h.2 ++ crlf)))
      ++ (crlf ++ r.body)))) := by
  have hstatus : (bytes "HTTP/1.1 " ++ (decimal r.statusCode.toNat ++ [blank])).length < 32 := by
    cases r.statusCode <;> decide
  unfold appendToBuffer statusLine
  rw [snprintf_of_length_lt hstatus]
  simp only [List.append_assoc, List.cons_append, List.nil_append]

/-- **The bytes of a response**, when the line with the length fits. -/
theorem Lined.appendToBuffer_eq (h : r.Lined) (hbody : r.body.length < 10 ^ 13) :
    r.appendToBuffer
      = r.statusLine ++ (crlf ++ (r.headerLines.flatMap (· ++ crlf) ++ (crlf ++ r.body))) := by
  have hlength : (bytes "Content-Length: " ++ (decimal r.body.length ++ crlf)).length < 32 := by
    have hdigits : (decimal r.body.length).length ≤ 13 := by
      unfold decimal
      rw [List.length_map]
      exact (Nat.length_toDigits_le_iff (by decide) (by decide)).mpr hbody
    have hkey : (bytes "Content-Length: ").length = 16 := by decide
    rw [List.length_append, List.length_append, hkey]
    show 16 + ((decimal r.body.length).length + 2) < 32
    omega
  have hconnection : bytes "Connection: Keep-Alive\r\n" = bytes "Connection: Keep-Alive" ++ crlf :=
    rfl
  rw [appendToBuffer_eq_statusLine]
  unfold connectionLines HttpResponse.headerLines
  rw [h.keeps, if_neg Bool.false_ne_true, snprintf_of_length_lt hlength, hconnection,
    List.flatMap_cons, List.flatMap_cons, List.flatMap_map]
  simp only [List.append_assoc, List.cons_append, List.nil_append]

/-- A length of more than thirteen digits fills the buffer, and the line about
the connection follows without a line end. -/
theorem Lined.connectionLines_of_le (h : r.Lined) (hbody : 10 ^ 13 ≤ r.body.length) :
    ∃ cut, lf ∉ cut ∧ r.connectionLines
      = (bytes "Content-Length: " ++ (cut ++ bytes "Connection: Keep-Alive")) ++ crlf := by
  have hdigits : 14 ≤ (decimal r.body.length).length := by
    unfold decimal
    rw [List.length_map]
    by_contra hlt
    have hle : (Nat.toDigits 10 r.body.length).length ≤ 13 := by omega
    exact absurd ((Nat.length_toDigits_le_iff (by decide) (by decide)).mp hle) (not_lt.mpr hbody)
  refine ⟨(decimal r.body.length ++ [cr]).take 15, fun hlf => ?_, ?_⟩
  · have hlf := List.mem_of_mem_take hlf
    rw [List.mem_append] at hlf
    exact hlf.elim (notMem_decimal _ (by decide)) (by decide)
  · have hroom : 15 ≤ (decimal r.body.length ++ [cr]).length := by
      rw [List.length_append, List.length_singleton]
      omega
    have hline : snprintf 32 (bytes "Content-Length: " ++ (decimal r.body.length ++ crlf))
        = bytes "Content-Length: " ++ (decimal r.body.length ++ [cr]).take 15 := by
      have hkey : (bytes "Content-Length: ").length = 16 := by decide
      unfold snprintf
      rw [List.take_append, hkey, List.take_of_length_le (by rw [hkey]; decide),
        show decimal r.body.length ++ crlf = decimal r.body.length ++ [cr] ++ [lf] from
          (List.append_assoc _ [cr] [lf]).symm, List.take_append_of_le_length hroom]
    unfold connectionLines
    rw [h.keeps, if_neg Bool.false_ne_true, hline]
    simp only [List.append_assoc]
    rfl

/-- **A response that was written is read back**, whatever comes behind it. -/
theorem readResponse_appendToBuffer (h : r.Lined) (hbody : r.body.length < 10 ^ 13)
    (more : Bytes) : readResponse (r.appendToBuffer ++ more) = some (r.text, more) := by
  have hline : cutLine (r.appendToBuffer ++ more) = some (r.statusLine,
      r.headerLines.flatMap (· ++ crlf) ++ (crlf ++ (r.body ++ more))) := by
    rw [h.appendToBuffer_eq hbody]
    simp only [List.append_assoc]
    exact cutLine_append _ (findSub_pair_eq_none h.lf_notMem_statusLine)
  have hlength : contentLength r.headerLines ≤ (r.body ++ more).length := by
    rw [contentLength_headerLines, List.length_append]
    exact Nat.le_add_right _ _
  rw [readResponse_of_parts hline (RequestText.splitHeaders_lines _ h.headerLines) hlength,
    contentLength_headerLines, List.take_left, List.drop_left]
  rfl

/-- A response with a longer body is not read back: what is read for the length
goes on with the line about the connection. -/
theorem readResponse_ne_of_le (h : r.Lined) (hbody : 10 ^ 13 ≤ r.body.length) (more : Bytes) :
    readResponse (r.appendToBuffer ++ more) ≠ some (r.text, more) := by
  obtain ⟨cut, hcut, hconnection⟩ := h.connectionLines_of_le hbody
  intro hread
  obtain ⟨behind, behind', hline, hsplit, -⟩ := readResponse_eq_some hread
  rw [appendToBuffer_eq_statusLine, List.append_assoc, List.append_assoc,
    cutLine_append _ (findSub_pair_eq_none h.lf_notMem_statusLine)] at hline
  cases hline
  -- the first header line that is read
  have hfirst : lf ∉ bytes "Content-Length: " ++ (cut ++ bytes "Connection: Keep-Alive") := by
    rw [List.mem_append, List.mem_append, not_or, not_or]
    exact ⟨by decide, hcut, by decide⟩
  rw [hconnection, List.append_assoc, List.append_assoc,
    splitHeaders_of_line (cutLine_append _ (findSub_pair_eq_none hfirst)),
    if_pos (List.mem_append_left _ (by decide))] at hsplit
  have hhead := (List.cons.inj (congrArg Prod.fst hsplit)).1
  -- the letter K is in it, and not in the line with the length
  have hletter : (75 : UInt8) ∈ bytes "Content-Length: " ++ decimal r.body.length := by
    rw [← hhead]
    exact List.mem_append_right _ (List.mem_append_right _ (by decide))
  rw [List.mem_append] at hletter
  exact hletter.elim (by decide) (notMem_decimal _ (by decide))

/-- **When responses are read back**: exactly if the number of bytes of the body
has no more than thirteen digits.

`appendToBuffer` writes the line with the length by `snprintf` into an array of 32 bytes.
A number with more digits leaves no room for the line end: the line is cut, and runs on
into the header line behind it. -/
theorem readBack_iff (h : r.Lined) :
    (∀ more, readResponse (r.appendToBuffer ++ more) = some (r.text, more))
      ↔ r.body.length < 10 ^ 13 := by
  refine ⟨fun hread => ?_, fun hbody more => readResponse_appendToBuffer h hbody more⟩
  by_contra hbody
  exact readResponse_ne_of_le h (not_lt.mp hbody) [] (hread [])

/-- An answer to a client. -/
def soldForNothing : HttpResponse where
  headers := (∅ : StdMap Bytes Bytes).insert (bytes "Client") (bytes "10.0.0.1:1000")
  statusCode := .k200Ok
  statusMessage := bytes "OK"
  closeConnection := false
  body := bytes "[]"

/-- It is read back when it is there twice. -/
theorem readBack_soldForNothing :
    readResponse (soldForNothing.appendToBuffer ++ soldForNothing.appendToBuffer)
      = some (soldForNothing.text, soldForNothing.appendToBuffer) := by
  have hlined : soldForNothing.Lined := ⟨rfl, by decide, by decide +kernel⟩
  exact (readBack_iff hlined).mpr (by decide) _

end HttpResponse

end MicroBusiness
