import MicroBusiness.HandlerAnswer

/-!
# Which responses are addressed

A response finds its way back to a client by its `Client` header, which the
two helpers `sucess_handle` and `error_handle` copy from the request. A handler
that returns without having called either leaves a response that no one can be
given.

What a response is in the end does not tell which helpers were called on it, as
each of them overwrites what the other one has left. So the calls are recorded
here: the handlers run on a response that keeps a list of them (`Recorded`). That
is the same program with something more in its result, and every response that a
handler returns comes with such a record (`returns_iff_recorded`).

There is one way for a handler to leave without a call: a purchase whose parameter
`commodity_id` is empty, or whose parameter `num` is, is left at once
(`LeavesEarly`). On every other way out, whatever the database replies, exactly one
helper has been called, for the client of the request (`handled_iff`).
-/

namespace MicroBusiness

open Program

/-! ## The calls of the helpers -/

/-- A call of one of the two helpers. -/
inductive HelperCall
  | sucessHandle (code : HttpStatusCode) (message : Bytes) (item : Json) (client : Bytes)
  | errorHandle (code : HttpStatusCode) (message client : Bytes)

/-- **A response, and the helpers that have been called on it**, in their order. -/
structure Recorded where
  response : HttpResponse
  calls : List HelperCall := []

instance : Helpers Recorded where
  callSucessHandle json r code message item client :=
    ⟨Task.sucessHandle json r.response code message item client,
      r.calls ++ [.sucessHandle code message item client]⟩
  callErrorHandle json s r code message client :=
    ⟨Task.errorHandle json s r.response code message client,
      r.calls ++ [.errorHandle code message client]⟩

section Record

variable {json : JsonWriter} {s : Server} {req : HttpRequest} {r : Recorded} {id num : Bytes}
  {conn : Conn}

theorem map_buyFinish {n : ℤ} {result : MysqlRes} {row : MysqlRow} :
    (Task.buyFinish json s req r n result row).map Recorded.response
      = Task.buyFinish json s req r.response n result row := by
  unfold Task.buyFinish
  dsimp only
  cases row.price with
  | none => cases s.guardEndsEarly <;> rfl
  | some price => cases s.guardEndsEarly <;> rfl

theorem map_buyFetch {result : MysqlRes} :
    (Task.buyFetch json s req r id num conn result).map Recorded.response
      = Task.buyFetch json s req r.response id num conn result := by
  refine congrArg (Prog.op _) (funext fun _ => ?_)
  cases result.rows.head? with
  | none => rfl
  | some row =>
    dsimp only
    unfold Task.buyCompare
    cases row.num with
    | none => rfl
    | some stock =>
      cases stoi num with
      | error e => rfl
      | ok n =>
        dsimp only
        split
        · rfl
        · refine congrArg (Prog.op _) (funext fun failed => ?_)
          cases failed with
          | true => rfl
          | false => exact map_buyFinish

theorem map_buyWith :
    (Task.buyWith json s req r id num).map Recorded.response
      = Task.buyWith json s req r.response id num := by
  refine congrArg (Prog.op _) (funext fun conn => ?_)
  refine congrArg (Prog.op _) (funext fun _ => ?_)
  refine congrArg (Prog.op _) (funext fun _ => ?_)
  refine congrArg (Prog.op _) (funext fun failed => ?_)
  cases failed with
  | true => rfl
  | false =>
    refine congrArg (Prog.op _) (funext fun result => ?_)
    cases result with
    | none => rfl
    | some result => exact map_buyFetch

theorem map_showItems {result : MysqlRes} {rows : List MysqlRow} (items : List Json) :
    (Task.showItems result (Task.showFinish json req r result) rows items).map Recorded.response
      = Task.showItems result (Task.showFinish json req r.response result) rows items := by
  induction rows generalizing items with
  | nil => rfl
  | cons row rows ih =>
    refine congrArg (Prog.op _) (funext fun _ => ?_)
    dsimp only
    cases Task.rowItem row with
    | error e => rfl
    | ok item => exact ih _

theorem map_doShow :
    (Task.doShow json s req r).map Recorded.response = Task.doShow json s req r.response := by
  refine congrArg (Prog.op _) (funext fun conn => ?_)
  refine congrArg (Prog.op _) (funext fun _ => ?_)
  refine congrArg (Prog.op _) (funext fun failed => ?_)
  cases failed with
  | true => rfl
  | false =>
    refine congrArg (Prog.op _) (funext fun result => ?_)
    cases result with
    | none => rfl
    | some result => exact congrArg (Prog.op _) (funext fun _ => map_showItems [])

/-- **Recording the calls changes nothing else**: without the record, the handler is the
one that runs on the response. -/
theorem map_onRequest :
    (Task.onRequest json s req r).map Recorded.response
      = Task.onRequest json s req r.response := by
  unfold Task.onRequest
  split
  · unfold Task.doBuy
    cases req.getQuery (bytes "commodity_id") with
    | error e => rfl
    | ok id =>
      dsimp only
      split
      · rfl
      · cases req.getQuery (bytes "num") with
        | error e => rfl
        | ok num =>
          dsimp only
          split
          · rfl
          · exact map_buyWith
  · split
    · exact map_doShow
    · rfl

end Record

/-! ## Responses with a client -/

/-- What a handler may return: the result it comes to with some replies of the
database. -/
def Returns {ρ : Type} (p : Handler ρ) (r : ρ) : Prop :=
  p.Exec (fun _ _ _ => True) () (.ok r) ()

/-- **Every response that a handler returns has a record of the helpers** that were called
on it. -/
theorem returns_iff_recorded {json : JsonWriter} {s : Server} {req : HttpRequest}
    {resp r : HttpResponse} :
    Returns (Task.onRequest json s req resp) r
      ↔ ∃ calls, Returns (Task.onRequest json s req (⟨resp, []⟩ : Recorded)) ⟨r, calls⟩ := by
  have hmap := @map_onRequest json s req ⟨resp, []⟩
  unfold Returns
  rw [← hmap, Prog.exec_map_iff]
  constructor
  · rintro ⟨y, hexec, hy⟩
    match y, hy with
    | .ok ⟨_, calls⟩, rfl => exact ⟨calls, hexec⟩
  · rintro ⟨calls, hexec⟩
    exact ⟨_, hexec, rfl⟩

/-- **A response is handled**: exactly one call of a helper has been made on it, and it is
addressed to the client. -/
structure Handled (client : Bytes) (r : Recorded) : Prop where
  calledOnce : ∃ call, r.calls = [call]
  client : r.response.headers[bytes "Client"]? = some client

section Handled

variable {json : JsonWriter} {s : Server} {resp : HttpResponse} {client : Bytes}

theorem handled_sucessHandle (code : HttpStatusCode) (message : Bytes) (item : Json) :
    Handled client (Helpers.callSucessHandle json (⟨resp, []⟩ : Recorded) code message item
      client) where
  calledOnce := ⟨.sucessHandle code message item client, rfl⟩
  client := by
    show ((resp.headers.insert _ _).insert (bytes "Client") client)[bytes "Client"]? = _
    rw [getElem?_insert_ite, if_pos rfl]

theorem handled_errorHandle (code : HttpStatusCode) (message : Bytes) :
    Handled client (Helpers.callErrorHandle json s (⟨resp, []⟩ : Recorded) code message
      client) where
  calledOnce := ⟨.errorHandle code message client, rfl⟩
  client := by
    show ((resp.headers.insert (bytes "Client") client).insert (bytes "Content-Type")
      s.errorContentType)[bytes "Client"]? = _
    rw [getElem?_insert_ite, if_neg (by decide), getElem?_insert_ite, if_pos rfl]

variable (json s resp) in
theorem exits_handled {req : HttpRequest} (hclient : req.getHeader (bytes "Client") = client) :
    Exits json s req (⟨resp, []⟩ : Recorded) (fun _ => True)
      (fun x => ∀ r, x = .ok r → Handled client r) where
  success := by
    rintro item _ ⟨⟩
    rw [hclient]
    exact handled_sucessHandle _ _ item
  error := by
    rintro code message - _ ⟨⟩
    rw [hclient]
    exact handled_errorHandle code message
  null := Or.inl (fun _ h => by cases h)

theorem returns_of_leavesEarly {req : HttpRequest} {r : Recorded} (h : LeavesEarly s req) :
    Returns (Task.onRequest json s req r) r := by
  unfold Returns
  rw [onRequest_of_leavesEarly h]
  exact .ret r ()

end Handled

/-- **Which responses are addressed**: whatever the database replies, every
response that a handler returns has had exactly one of the helpers called on it, and
its header is the client of the request, exactly if the handler does not leave
early. -/
theorem handled_iff (json : JsonWriter) (s : Server) {req : HttpRequest} {client : Bytes}
    (hclient : req.headers[bytes "Client"]? = some client) (closes : Bool) :
    (∀ r, Returns (Task.onRequest json s req
        (⟨{ closeConnection := closes }, []⟩ : Recorded)) r → Handled client r)
      ↔ ¬ LeavesEarly s req := by
  constructor
  · intro h hearly
    have huntouched := (h _ (returns_of_leavesEarly hearly)).client
    rw [Std.ExtTreeMap.getElem?_empty] at huntouched
    cases huntouched
  · intro hearly r hr
    have hget : req.getHeader (bytes "Client") = client := by
      unfold HttpRequest.getHeader
      rw [hclient]
      rfl
    have hleads := (exits_handled json s { closeConnection := closes } hget).onRequest hearly
      (Or.inr (fun _ _ h => by cases h))
    exact Prog.wp_iff.mp hleads _ () hr r rfl

/-- The address of a client. -/
def clientAddress : Bytes := bytes "10.0.0.1:1000"

/-- A purchase in the form in which the backend reads it. -/
def purchaseRequest (query : String) : HttpRequest :=
  ({ method := .kGet, version := .kHttp11, path := bytes "/10001/buy/",
     headers := (∅ : StdMap Bytes Bytes).insert (bytes "Client") clientAddress } :
    HttpRequest).setQuery (bytes query)

/-- A purchase with both parameters is not left early, and is answered to its
client, whatever the database replies. -/
theorem handled_purchase :
    ¬ LeavesEarly server1 (purchaseRequest "?commodity_id=1&num=2")
      ∧ ∀ r, Returns (Task.onRequest silentWriter server1
          (purchaseRequest "?commodity_id=1&num=2")
          (⟨{ closeConnection := false }, []⟩ : Recorded)) r → Handled clientAddress r := by
  have hearly : ¬ LeavesEarly server1 (purchaseRequest "?commodity_id=1&num=2") := by
    rintro ⟨-, hid | ⟨id, -, hnum⟩⟩
    · revert hid
      decide +kernel
    · revert hnum
      decide +kernel
  exact ⟨hearly, (handled_iff silentWriter server1 (by decide +kernel) false).mpr hearly⟩

/-- **A purchase of nothing is left without an answer.** -/
theorem not_handled_empty :
    ¬ ∀ (json : JsonWriter) (s : Server) (req : HttpRequest) (client : Bytes),
      req.headers[bytes "Client"]? = some client →
      ∀ (closes : Bool) (r : Recorded),
        Returns (Task.onRequest json s req (⟨{ closeConnection := closes }, []⟩ : Recorded)) r →
        Handled client r := by
  intro h
  have hearly : LeavesEarly server1 (purchaseRequest "?commodity_id=&num=2") :=
    ⟨by decide +kernel, Or.inl (by decide +kernel)⟩
  have huntouched := (h silentWriter server1 _ clientAddress (by decide +kernel) false _
    (returns_of_leavesEarly hearly)).client
  rw [Std.ExtTreeMap.getElem?_empty] at huntouched
  cases huntouched

end MicroBusiness
