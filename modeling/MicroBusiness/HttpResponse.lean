import MicroBusiness.Text

/-!
# The response of the backend's HTTP library

`HttpResponse` is what a handler fills in, and `appendToBuffer` writes it
out: status line, a `Connection` line (and a `Content-Length` line where the
connection stays open), the header map in the order of its names, an empty
line, the body.

Both handler helpers of the backends leave a response with exactly the
headers `Client` and `Content-Type` (`AddressedTo`). Written out, the first
`Client: ` in such a response is the one of its header line: what stands
before it is skipped by a search for the word (`appendToBuffer_eq_of_addressedTo`).
-/

namespace MicroBusiness

open Search

/-- `HttpResponse::HttpStatusCode`. -/
inductive HttpStatusCode
  | kUnknown | k200Ok | k301MovedPermanently | k400BadRequest | k404NotFound
  deriving DecidableEq, Repr

/-- The number of a status code. -/
def HttpStatusCode.toNat : HttpStatusCode → ℕ
  | .kUnknown => 0
  | .k200Ok => 200
  | .k301MovedPermanently => 301
  | .k400BadRequest => 400
  | .k404NotFound => 404

/-- `class HttpResponse`. -/
structure HttpResponse where
  headers : StdMap Bytes Bytes := ∅
  statusCode : HttpStatusCode := .kUnknown
  statusMessage : Bytes := []
  closeConnection : Bool
  body : Bytes := []
  deriving DecidableEq

namespace HttpResponse

def setStatusCode (r : HttpResponse) (code : HttpStatusCode) : HttpResponse :=
  { r with statusCode := code }

def setStatusMessage (r : HttpResponse) (message : Bytes) : HttpResponse :=
  { r with statusMessage := message }

def addHeader (r : HttpResponse) (key value : Bytes) : HttpResponse :=
  { r with headers := r.headers.insert key value }

def setContentType (r : HttpResponse) (contentType : Bytes) : HttpResponse :=
  r.addHeader (bytes "Content-Type") contentType

def setBody (r : HttpResponse) (body : Bytes) : HttpResponse := { r with body := body }

/-- The lines about the connection that `appendToBuffer` writes. -/
def connectionLines (r : HttpResponse) : Bytes :=
  if r.closeConnection then bytes "Connection: close\r\n"
  else snprintf 32 (bytes "Content-Length: " ++ (decimal r.body.length ++ crlf))
    ++ bytes "Connection: Keep-Alive\r\n"

/-- `appendToBuffer`: the bytes of the response. -/
def appendToBuffer (r : HttpResponse) : Bytes :=
  snprintf 32 (bytes "HTTP/1.1 " ++ (decimal r.statusCode.toNat ++ [blank]))
    ++ (r.statusMessage ++ (crlf ++ (r.connectionLines
    ++ (r.headers.toList.flatMap (fun h => h.1 ++ (bytes ": " ++ (h.2 ++ crlf)))
    ++ (crlf ++ r.body)))))

end HttpResponse

/-! ## The client header of a response -/

/-- **A response addressed to a client**: one with exactly the headers
`Client` and `Content-Type`, the first of which names the client, and with no
text in its status message that could be taken for a client header. -/
structure AddressedTo (r : HttpResponse) (client : Bytes) : Prop where
  headers : ∃ contentType, r.headers
    = ((∅ : StdMap Bytes Bytes).insert (bytes "Content-Type") contentType).insert
        (bytes "Client") client
  statusMessage : findSub clientKey r.statusMessage = none

/-- The header of a response addressed to a client gives the client. -/
theorem AddressedTo.client {r : HttpResponse} {client : Bytes} (h : AddressedTo r client) :
    r.headers[bytes "Client"]? = some client := by
  obtain ⟨contentType, hheaders⟩ := h.headers
  rw [hheaders, getElem?_insert_ite, if_pos rfl]

theorem clientKey_eq : clientKey = 67 :: 108 :: bytes "ient: " := rfl

/-- The search for a client header passes over the connection lines. -/
theorem clientKey_skips_connectionLines (r : HttpResponse) :
    Skips clientKey r.connectionLines := by
  rw [clientKey_eq, HttpResponse.connectionLines]
  split
  · exact skips_cons_of_ne (l := bytes "nnection: close\r\n") (by decide) (by decide)
  · refine Skips.append ?_
      (skips_cons_of_ne (l := bytes "nnection: Keep-Alive\r\n") (by decide) (by decide))
    have hlen : (67 : UInt8) ∉ (111 :: (bytes "ntent-Length: "
        ++ (decimal r.body.length ++ crlf))).take 30 := by
      intro hm
      have hm := List.mem_of_mem_take hm
      rw [List.mem_cons, List.mem_append, List.mem_append] at hm
      rcases hm with hm | hm | hm | hm
      · exact absurd hm (by decide)
      · exact absurd hm (by decide)
      · exact notMem_decimal _ (by decide) hm
      · exact absurd hm (by decide)
    exact skips_cons_of_ne (by decide) hlen

/-- **The first client header of a response is the one of its header
line**: what `appendToBuffer` writes in front of it is passed over by a
search for the word. -/
theorem appendToBuffer_eq_of_addressedTo {r : HttpResponse} {client : Bytes}
    (h : AddressedTo r client) :
    ∃ head tail, r.appendToBuffer = head ++ (clientKey ++ (client ++ (crlf ++ tail)))
      ∧ Skips clientKey head := by
  obtain ⟨contentType, hheaders⟩ := h.headers
  have hlist : r.headers.toList
      = [(bytes "Client", client), (bytes "Content-Type", contentType)] := by
    rw [hheaders]
    rfl
  have hstatus : Skips clientKey
      (snprintf 32 (bytes "HTTP/1.1 " ++ (decimal r.statusCode.toNat ++ [blank]))) := by
    rw [clientKey_eq]
    refine skips_of_head_notMem (fun hm => ?_)
    have hm := List.mem_of_mem_take hm
    rw [List.mem_append, List.mem_append] at hm
    rcases hm with hm | hm | hm
    · exact absurd hm (by decide)
    · exact notMem_decimal _ (by decide) hm
    · exact absurd hm (by decide)
  have hmessage : Skips clientKey (r.statusMessage ++ [cr]) :=
    skips_of_separator (by decide) h.statusMessage
  have hlf : Skips clientKey [lf] := by
    rw [clientKey_eq]
    exact skips_of_head_notMem (by decide)
  refine ⟨snprintf 32 (bytes "HTTP/1.1 " ++ (decimal r.statusCode.toNat ++ [blank]))
      ++ ((r.statusMessage ++ [cr]) ++ ([lf] ++ r.connectionLines)),
    bytes "Content-Type: " ++ (contentType ++ (crlf ++ (crlf ++ r.body))), ?_,
    hstatus.append (hmessage.append (hlf.append (clientKey_skips_connectionLines r)))⟩
  rw [HttpResponse.appendToBuffer, hlist]
  simp only [List.flatMap_cons, List.flatMap_nil, List.append_nil, List.append_assoc]
  rfl

end MicroBusiness
