import MicroBusiness.Task

/-!
# What the handlers answer

Whatever the database replies, as long as no field of a row is null, a
handler that is asked properly comes to an end and leaves a response that is
addressed to the client the request names (`exists_of_mayAnswer`). Asked
properly is anything but a purchase whose parameters are missing, empty, or
without a number.
-/

namespace MicroBusiness

open Program Search

/-- The replies of a database without null fields. -/
def NonNullReply : DbEvent → Prop
  | ⟨.storeResult _, some result⟩ => ∀ row ∈ result.rows, row.NonNull
  | _ => True

/-- **A possible outcome of a handler**: what it comes to with some replies of a
database without null fields. -/
def MayAnswer (p : Handler HttpResponse) (x : Except Fault HttpResponse) : Prop :=
  p.Exec (fun _ e _ => NonNullReply e) () x ()

/-- A handler whose call is replied to. -/
theorem MayAnswer.op {o : DbOp} {k : DbOp.Reply o → Handler HttpResponse} (r : DbOp.Reply o)
    {x : Except Fault HttpResponse} (hr : NonNullReply ⟨o, r⟩) (hk : MayAnswer (k r) x) :
    MayAnswer (.op o k) x :=
  Prog.Exec.op hr hk

/-- **A request that asks properly**: if it is a purchase, both parameters are
there and are not empty, and the quantity is a number. -/
def AsksProperly (s : Server) (req : HttpRequest) : Prop :=
  req.path = s.buyPath → ∃ id num n, req.getQuery (bytes "commodity_id") = .ok id ∧ id ≠ [] ∧
    req.getQuery (bytes "num") = .ok num ∧ num ≠ [] ∧ stoi num = .ok n

/-- A handler's outcome is an answer to a client: a response addressed to it,
on a connection that is to be closed or not as before. -/
def Answers (client : Bytes) (closes : Bool) (x : Except Fault HttpResponse) : Prop :=
  ∃ r, x = .ok r ∧ AddressedTo r client ∧ r.closeConnection = closes

theorem insert_insert_comm {m : StdMap Bytes Bytes} {k k' v v' : Bytes} (hne : k ≠ k') :
    (m.insert k v).insert k' v' = (m.insert k' v').insert k v := by
  refine Std.ExtTreeMap.ext_getElem? (fun key => ?_)
  simp only [getElem?_insert_ite]
  by_cases hk : k = key
  · rw [if_pos hk, if_neg (fun h => hne (hk.trans h.symm)), if_pos hk]
  · rw [if_neg hk, if_neg hk]

section Answers

variable {json : JsonWriter} {s : Server} {req : HttpRequest} {resp : HttpResponse}
  {id num client : Bytes} {conn : Conn}

theorem addressedTo_sucessHandle (hresp : resp.headers = ∅) {code : HttpStatusCode}
    {message : Bytes} (item : Json) (hmessage : findSub clientKey message = none) :
    AddressedTo (Task.sucessHandle json resp code message item client) client where
  headers := ⟨bytes "application/json", by
    show (resp.headers.insert _ _).insert _ _ = _
    rw [hresp]⟩
  statusMessage := hmessage

theorem addressedTo_errorHandle (hresp : resp.headers = ∅) {code : HttpStatusCode}
    {message : Bytes} (hmessage : findSub clientKey message = none) :
    AddressedTo (Task.errorHandle json s resp code message client) client where
  headers := ⟨s.errorContentType, by
    show (resp.headers.insert _ _).insert _ _ = _
    rw [hresp, insert_insert_comm (by decide)]⟩
  statusMessage := hmessage

/-- The answer of `sucess_handle`. -/
theorem answers_sucessHandle (hresp : resp.headers = ∅) (item : Json) :
    Answers client resp.closeConnection
      (.ok (Task.sucessHandle json resp .k200Ok (bytes "OK") item client)) :=
  ⟨_, rfl, addressedTo_sucessHandle hresp item (by decide), rfl⟩

/-- An answer of `error_handle`. -/
theorem answers_errorHandle (hresp : resp.headers = ∅) {code : HttpStatusCode} {message : Bytes}
    (hmessage : findSub clientKey message = none) :
    Answers client resp.closeConnection
      (.ok (Task.errorHandle json s resp code message client)) :=
  ⟨_, rfl, addressedTo_errorHandle hresp hmessage, rfl⟩

variable (req resp) in
/-- A program answers the client of the request, whatever the replies. -/
abbrev AlwaysAnswers (p : Handler HttpResponse) : Prop :=
  p.Wp (fun _ e _ => NonNullReply e)
    (fun x (_ : Unit) => Answers (req.getHeader (bytes "Client")) resp.closeConnection x) ()

end Answers

/-! ## The exits of a handler -/

/-- **Whether a handler returns early**, with the response untouched: a purchase
whose first parameter is empty, or whose second is. -/
def LeavesEarly (s : Server) (req : HttpRequest) : Prop :=
  req.path = s.buyPath ∧ (req.getQuery (bytes "commodity_id") = .ok []
    ∨ ∃ id, req.getQuery (bytes "commodity_id") = .ok id ∧ req.getQuery (bytes "num") = .ok [])

theorem onRequest_of_leavesEarly {ρ : Type} [Helpers ρ] {json : JsonWriter} {s : Server}
    {req : HttpRequest} {resp : ρ} (h : LeavesEarly s req) :
    Task.onRequest json s req resp = .ret resp := by
  obtain ⟨hpath, hearly⟩ := h
  unfold Task.onRequest
  rw [if_pos hpath]
  unfold Task.doBuy
  rcases hearly with hid | ⟨id, hid, hnum⟩
  · rw [hid]
    exact if_pos rfl
  · rw [hid]
    dsimp only
    split
    · rfl
    · rw [hnum]
      exact if_pos rfl

/-- **A postcondition of the exits of a handler**: it holds of the responses
that the two helpers fill in for the client, and of a null field, unless the
replies have none. -/
structure Exits {ρ : Type} [Helpers ρ] (json : JsonWriter) (s : Server) (req : HttpRequest)
    (resp : ρ) (replies : DbEvent → Prop) (post : Except Fault ρ → Prop) : Prop where
  success : ∀ item, post (.ok (Helpers.callSucessHandle json resp .k200Ok (bytes "OK") item
    (req.getHeader (bytes "Client"))))
  error : ∀ {code message}, findSub clientKey message = none →
    post (.ok (Helpers.callErrorHandle json s resp code message
      (req.getHeader (bytes "Client"))))
  null : post (.error .nullPointer) ∨ ∀ e, replies e → NonNullReply e

/-- A program leads to a postcondition, whatever the replies. -/
abbrev Leads {ρ : Type} (replies : DbEvent → Prop) (post : Except Fault ρ → Prop)
    (p : Handler ρ) : Prop :=
  p.Wp (fun _ e _ => replies e) (fun x (_ : Unit) => post x) ()

namespace Exits

variable {ρ : Type} [Helpers ρ] {json : JsonWriter} {s : Server} {req : HttpRequest} {resp : ρ}
  {id num : Bytes} {conn : Conn} {replies : DbEvent → Prop} {post : Except Fault ρ → Prop}

/-- The rows of a result have no null field, or that is allowed for. -/
theorem row (h : Exits json s req resp replies post) {result : MysqlRes}
    (hreply : replies ⟨.storeResult conn, some result⟩) {row : MysqlRow}
    (hrow : row ∈ result.rows) : row.NonNull ∨ post (.error .nullPointer) :=
  h.null.symm.imp_left (fun hreplies => hreplies _ hreply row hrow)

theorem networkError (h : Exits json s req resp replies post) :
    post (.ok (Task.networkError json s req resp)) :=
  h.error (by decide +kernel)

theorem buyFinish (h : Exits json s req resp replies post) {n : ℤ} {result : MysqlRes}
    {row : MysqlRow} (hrow : row.NonNull ∨ post (.error .nullPointer)) :
    Leads replies post (Task.buyFinish json s req resp n result row) := by
  have hsuccess := h.success
  unfold Task.buyFinish
  dsimp only
  cases hprice : row.price with
  | none =>
    have hnull : post (.error .nullPointer) := by
      refine hrow.resolve_left (fun hrow => ?_)
      have hsome := hrow.2.2.2.1
      rw [hprice] at hsome
      cases hsome
    split
    · exact fun _ _ _ _ _ _ => hnull
    · exact fun _ _ _ => hnull
  | some price =>
    split
    · exact fun _ _ _ _ _ _ _ _ _ => hsuccess _
    · exact fun _ _ _ _ _ _ _ _ _ => hsuccess _

theorem buyCompare (h : Exits json s req resp replies post)
    (hnum : (∃ n, stoi num = .ok n) ∨ ∀ e, post (.error e)) {result : MysqlRes} {row : MysqlRow}
    (hrow : row.NonNull ∨ post (.error .nullPointer)) :
    Leads replies post (Task.buyCompare json s req resp id num conn result row) := by
  unfold Task.buyCompare
  cases hstock : row.num with
  | none =>
    refine hrow.resolve_left (fun hrow => ?_)
    have hsome := hrow.2.2.1
    rw [hstock] at hsome
    cases hsome
  | some stock =>
    dsimp only
    cases hn : stoi num with
    | error e =>
      intro _ _ _
      refine hnum.resolve_left ?_ e
      rintro ⟨n, hn'⟩
      rw [hn] at hn'
      cases hn'
    | ok n =>
      dsimp only
      split
      · exact fun _ _ _ => h.error (by decide +kernel)
      · intro failed _ _
        dsimp only
        split
        · exact fun _ _ _ _ _ _ => h.networkError
        · exact h.buyFinish hrow

theorem buySelect (h : Exits json s req resp replies post)
    (hnum : (∃ n, stoi num = .ok n) ∨ ∀ e, post (.error e)) :
    Leads replies post (Task.buySelect json s req resp id num conn) := by
  intro failed _ _
  dsimp only
  split
  · exact fun _ _ _ _ _ _ => h.networkError
  intro result _ hreply
  match result with
  | none => exact fun _ _ _ _ _ _ => h.networkError
  | some result =>
    intro _ _ _
    dsimp only
    split
    · exact fun _ _ _ => h.error (by decide +kernel)
    · next row hhead => exact h.buyCompare hnum (h.row hreply (List.mem_of_mem_head? hhead))

theorem rowItem_of_nonNull {row : MysqlRow} (hrow : row.NonNull) :
    ∃ item, Task.rowItem row = .ok item := by
  obtain ⟨id, name, num, price, des⟩ := row
  obtain ⟨hid, hname, hnum, hprice, hdes⟩ := hrow
  dsimp only at hid hname hnum hprice hdes
  obtain ⟨id, rfl⟩ := Option.isSome_iff_exists.mp hid
  obtain ⟨name, rfl⟩ := Option.isSome_iff_exists.mp hname
  obtain ⟨num, rfl⟩ := Option.isSome_iff_exists.mp hnum
  obtain ⟨price, rfl⟩ := Option.isSome_iff_exists.mp hprice
  obtain ⟨des, rfl⟩ := Option.isSome_iff_exists.mp hdes
  exact ⟨_, rfl⟩

theorem rowItem_eq_error {row : MysqlRow} {e : Fault} (h : Task.rowItem row = .error e) :
    e = .nullPointer := by
  unfold Task.rowItem at h
  split at h
  · cases h
  · cases h
    rfl

omit [Helpers ρ] in
/-- The loop over the rows comes to its end, or to a null field. -/
theorem showItems {result : MysqlRes} {k : List Json → Handler ρ}
    (hk : ∀ items, Leads replies post (k items)) {rows : List MysqlRow}
    (hrows : ∀ row ∈ rows, row.NonNull ∨ post (.error .nullPointer)) (items : List Json) :
    Leads replies post (Task.showItems result k rows items) := by
  induction rows generalizing items with
  | nil => exact fun _ _ _ => hk items
  | cons row rows ih =>
    intro _ _ _
    dsimp only
    cases hitem : Task.rowItem row with
    | error e =>
      obtain rfl := rowItem_eq_error hitem
      refine (hrows row List.mem_cons_self).resolve_left (fun hrow => ?_)
      obtain ⟨item, hitem'⟩ := rowItem_of_nonNull hrow
      rw [hitem] at hitem'
      cases hitem'
    | ok item => exact ih (fun row h => hrows row (List.mem_cons_of_mem _ h)) _

theorem showFinish (h : Exits json s req resp replies post) {result : MysqlRes}
    (items : List Json) : Leads replies post (Task.showFinish json req resp result items) :=
  fun _ _ _ => h.success _

theorem doShow (h : Exits json s req resp replies post) :
    Leads replies post (Task.doShow json s req resp) := by
  intro conn _ _ _ _ _ failed _ _
  dsimp only
  split
  · exact h.networkError
  intro result _ hreply
  match result with
  | none => exact fun _ _ _ => h.networkError
  | some result =>
    intro _ _ _
    exact showItems h.showFinish (fun row hrow => h.row hreply hrow) []

/-- The two parameters of a purchase are read in order. -/
theorem doBuy (h : Exits json s req resp replies post)
    (hearly : ¬ (req.getQuery (bytes "commodity_id") = .ok []
      ∨ ∃ id, req.getQuery (bytes "commodity_id") = .ok id ∧ req.getQuery (bytes "num") = .ok []))
    (hparams : (∃ id num n, req.getQuery (bytes "commodity_id") = .ok id ∧ id ≠ [] ∧
      req.getQuery (bytes "num") = .ok num ∧ num ≠ [] ∧ stoi num = .ok n)
      ∨ ∀ e, post (.error e)) :
    Leads replies post (Task.doBuy json s req resp) := by
  rw [not_or] at hearly
  unfold Task.doBuy
  cases hid : req.getQuery (bytes "commodity_id") with
  | error e =>
    refine hparams.resolve_left ?_ e
    rintro ⟨id, num, n, hid', -⟩
    cases hid.symm.trans hid'
  | ok id =>
    dsimp only
    rw [if_neg (fun hnil => hearly.1 (by rw [hid, hnil]))]
    cases hnum : req.getQuery (bytes "num") with
    | error e =>
      refine hparams.resolve_left ?_ e
      rintro ⟨id, num, n, -, -, hnum', -⟩
      cases hnum.symm.trans hnum'
    | ok num =>
      dsimp only
      rw [if_neg (fun hnil => hearly.2 ⟨id, hid, by rw [hnum, hnil]⟩)]
      have hnumber : (∃ n, stoi num = .ok n) ∨ ∀ e, post (.error e) := by
        refine hparams.imp_left ?_
        rintro ⟨id', num', n, -, -, hnum', -, hn⟩
        cases hnum.symm.trans hnum'
        exact ⟨n, hn⟩
      exact fun conn _ _ _ _ _ _ _ _ => h.buySelect hnumber

/-- **A handler that does not leave early leads to every postcondition of its
exits**: the faults that its parameters can cause must meet it too, unless the
request asks properly. -/
theorem onRequest (h : Exits json s req resp replies post) (hearly : ¬ LeavesEarly s req)
    (hparams : AsksProperly s req ∨ ∀ e, post (.error e)) :
    Leads replies post (Task.onRequest json s req resp) := by
  unfold Task.onRequest
  split
  · next hpath =>
    exact h.doBuy (fun hearly' => hearly ⟨hpath, hearly'⟩)
      (hparams.imp_left (fun hasks => hasks hpath))
  split
  · exact h.doShow
  · exact h.error (by decide)

end Exits

section Answers

variable {json : JsonWriter} {s : Server} {req : HttpRequest} {resp : HttpResponse}

theorem exits_answers (hresp : resp.headers = ∅) :
    Exits json s req resp NonNullReply
      (Answers (req.getHeader (bytes "Client")) resp.closeConnection) where
  success := answers_sucessHandle hresp
  error := answers_errorHandle hresp
  null := Or.inr fun _ h => h

theorem AsksProperly.not_leavesEarly (h : AsksProperly s req) : ¬ LeavesEarly s req := by
  rintro ⟨hpath, hearly⟩
  obtain ⟨id, num, n, hid, hid', hnum, hnum', -⟩ := h hpath
  rcases hearly with hempty | ⟨id', -, hempty⟩
  · exact hid' (Except.ok.inj (hid.symm.trans hempty))
  · exact hnum' (Except.ok.inj (hnum.symm.trans hempty))

/-- **A handler that is asked properly answers the client that the request
names.** -/
theorem exists_of_mayAnswer (hresp : resp.headers = ∅) (hreq : AsksProperly s req)
    {x : Except Fault HttpResponse} (h : MayAnswer (Task.onRequest json s req resp) x) :
    Answers (req.getHeader (bytes "Client")) resp.closeConnection x := by
  have hanswers : AlwaysAnswers req resp (Task.onRequest json s req resp) :=
    (exits_answers hresp).onRequest hreq.not_leavesEarly (Or.inl hreq)
  exact Prog.wp_iff.mp hanswers x () h

/-- **A request that a handler survives**: one that it leaves early, or that asks
properly. -/
def Survives (s : Server) (req : HttpRequest) : Prop := LeavesEarly s req ∨ AsksProperly s req

/-- A handler's outcome is a response, on a connection that is to be closed or
not as before. -/
def Responds (closes : Bool) (x : Except Fault HttpResponse) : Prop :=
  ∃ r, x = .ok r ∧ r.closeConnection = closes

theorem exits_responds {replies : DbEvent → Prop} (hreplies : ∀ e, replies e → NonNullReply e) :
    Exits json s req resp replies (Responds resp.closeConnection) where
  success := fun _ => ⟨_, rfl, rfl⟩
  error := fun _ => ⟨_, rfl, rfl⟩
  null := Or.inr hreplies

/-- **A handler that survives a request responds**, and changes nothing about
whether the connection is to be closed. -/
theorem leads_responds {replies : DbEvent → Prop} (hreplies : ∀ e, replies e → NonNullReply e)
    (h : Survives s req) :
    Leads replies (Responds resp.closeConnection) (Task.onRequest json s req resp) := by
  rcases h with hearly | hasks
  · rw [onRequest_of_leavesEarly hearly]
    exact ⟨resp, rfl, rfl⟩
  · exact (exits_responds hreplies).onRequest hasks.not_leavesEarly (Or.inl hasks)

end Answers

end MicroBusiness
