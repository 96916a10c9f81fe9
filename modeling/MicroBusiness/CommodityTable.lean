import MicroBusiness.Task

/-!
# What MySQL does to the stock of a commodity

The handlers send MySQL two kinds of text about one commodity: a select, and
an update that ends in the text the client gave for the quantity. This module
says what MySQL is taken to do with them, as a relation between the table
before a call, the call with its reply, and the table after it (`ShopStep`).

The update `SET num=num-⟨text⟩` is evaluated as it stands when the text is a
chain of signed integer literals (`Chain`): all literals of the chain count,
each with the sign in front of it. `std::stoi` reads the first literal of the
same text and no more (`Chain.strtol_append`).

MySQL gets a C string, so a zero byte in the quantity cuts off the rest of the
statement, the condition that names the row included. What is left is an update
of all rows when the quantity in front of the zero is a chain, and the usual
update when the quantity has brought the condition itself (`updates_iff`).
Either way the row loses what a chain says that the quantity begins with, and
`std::stoi`, which stops at the zero as well, has read its first literal.

A failure of a call is always possible, and leaves the table as it was.
-/

namespace MicroBusiness

open Program

/-! ## Signed integer literals -/

/-- A signed integer literal. -/
structure Literal where
  sign : Option Bool
  digits : Bytes
  ne_nil : digits ≠ []
  isDigit : ∀ b ∈ digits, isDigit b = true

namespace Literal

def text (l : Literal) : Bytes := signText l.sign ++ l.digits

def value (l : Literal) : ℤ := signed l.sign (natOfDigits l.digits)

end Literal

/-- The sign of an operator between two literals of a chain. -/
def operatorText (isMinus : Bool) : Bytes := if isMinus then [minus] else [plus]

/-- **A chain of signed integer literals**: a literal, and further ones each
behind an operator, which is a minus if its flag is set. -/
structure Chain where
  first : Literal
  rest : List (Bool × Literal)

namespace Chain

def text (c : Chain) : Bytes :=
  c.first.text ++ c.rest.flatMap (fun t => operatorText t.1 ++ t.2.text)

/-- The value of the expression `stock-⟨text⟩`, from left to right. -/
def takenFrom (c : Chain) (stock : ℤ) : ℤ :=
  c.rest.foldl (fun n t => if t.1 then n - t.2.value else n + t.2.value) (stock - c.first.value)

/-- What the literals behind the first one take from a number. -/
def others (c : Chain) : ℤ := (c.rest.map (fun t => if t.1 then t.2.value else -t.2.value)).sum

/-- **An update takes away what all literals of the text say.** -/
theorem takenFrom_eq (c : Chain) (stock : ℤ) :
    c.takenFrom stock = stock - (c.first.value + c.others) := by
  have hfold : ∀ (rest : List (Bool × Literal)) (n : ℤ),
      rest.foldl (fun n t => if t.1 then n - t.2.value else n + t.2.value) n
        = n - (rest.map (fun t => if t.1 then t.2.value else -t.2.value)).sum := by
    intro rest
    induction rest with
    | nil =>
      intro n
      exact (Int.sub_zero n).symm
    | cons t rest ih =>
      intro n
      rw [List.foldl_cons, ih, List.map_cons, List.sum_cons]
      split <;> ring
  unfold takenFrom others
  rw [hfold]
  ring

/-- **`strtol` reads the first literal of a chain** and no more, whatever follows that
is not a digit. -/
theorem strtol_append (c : Chain) {t : Bytes} (ht : t.takeWhile isDigit = []) :
    strtol (c.text ++ t) = some c.first.value := by
  have hrest : (c.rest.flatMap (fun t => operatorText t.1 ++ t.2.text) ++ t).takeWhile isDigit
      = [] := by
    match c.rest with
    | [] => exact ht
    | (true, l) :: rest => rfl
    | (false, l) :: rest => rfl
  unfold text Literal.text
  rw [List.append_assoc, List.append_assoc]
  exact strtol_signed c.first.sign _ c.first.ne_nil c.first.isDigit hrest

/-- There are no bytes in a chain but digits and signs. -/
theorem of_mem_text {c : Chain} {b : UInt8} (h : b ∈ c.text) :
    isDigit b = true ∨ b = plus ∨ b = minus := by
  have hsign : ∀ (sign : Option Bool), b ∈ signText sign → b = plus ∨ b = minus := by
    rintro (_ | _ | _) hb
    · exact absurd hb List.not_mem_nil
    · exact Or.inl (List.mem_singleton.mp hb)
    · exact Or.inr (List.mem_singleton.mp hb)
  have hliteral : ∀ l : Literal, b ∈ l.text → isDigit b = true ∨ b = plus ∨ b = minus := by
    intro l hb
    rcases List.mem_append.mp hb with hb | hb
    · exact Or.inr (hsign l.sign hb)
    · exact Or.inl (l.isDigit b hb)
  rcases List.mem_append.mp h with hb | hb
  · exact hliteral c.first hb
  · obtain ⟨⟨isMinus, l⟩, -, hb⟩ := List.mem_flatMap.mp hb
    rcases List.mem_append.mp hb with hb | hb
    · exact Or.inr (hsign (some isMinus) (by cases isMinus <;> exact hb))
    · exact hliteral l hb

/-- **A chain that consists of digits is one literal**: nothing else takes
part in the update. -/
theorem takenFrom_of_digits {c : Chain} (h : ∀ b ∈ c.text, isDigit b = true) (stock : ℤ) :
    c.takenFrom stock = stock - natOfDigits c.text := by
  obtain ⟨⟨sign, digits, hne, hdigits⟩, rest⟩ := c
  have hsign : sign = none := by
    match sign with
    | none => rfl
    | some true => exact absurd (h minus List.mem_cons_self) (by decide)
    | some false => exact absurd (h plus List.mem_cons_self) (by decide)
  have hrest : rest = [] := by
    match rest with
    | [] => rfl
    | (isMinus, l) :: rest =>
      have hop : ∀ b ∈ operatorText isMinus, isDigit b = true := by
        intro b hb
        refine h b (List.mem_append_right _ ?_)
        exact List.mem_append_left _ (List.mem_append_left _ hb)
      cases isMinus with
      | true => exact absurd (hop minus List.mem_cons_self) (by decide)
      | false => exact absurd (hop plus List.mem_cons_self) (by decide)
  subst hsign hrest
  show stock - signed none (natOfDigits digits) = stock - natOfDigits (digits ++ [])
  rw [List.append_nil]
  rfl

end Chain

/-! ## The row of a commodity and the calls on it -/

/-- A commodity: its row without the stock. The price is not null. -/
structure Commodity where
  id : Option Bytes
  name : Option Bytes
  price : Bytes
  des : Option Bytes

/-- The row of a commodity as a select delivers it. -/
def Commodity.row (item : Commodity) (stock : ℤ) : MysqlRow where
  id := item.id
  name := item.name
  num := some (intText stock)
  price := some item.price
  des := item.des

/-- A commodity. -/
def lipstick : Commodity where
  id := some (bytes "1")
  name := some (bytes "lipstick")
  price := bytes "9.90"
  des := none

theorem lipstick_id_ne_nil : bytes "1" ≠ [] := by
  decide

/-! ## The texts that MySQL gets -/

/-- The text of an update in front of the quantity. -/
def updateHead (s : Server) : Bytes := bytes "UPDATE " ++ s.table ++ bytes " SET num=num-"

/-- The condition of a text. -/
def condition (id : Bytes) : Bytes := bytes " WHERE id=" ++ id

theorem updateText_eq (s : Server) (num id : Bytes) :
    Task.updateText s num id = updateHead s ++ (num ++ condition id) := by
  unfold Task.updateText updateHead condition
  simp only [List.append_assoc]

/-- **A select names the row up to the first zero byte.** -/
theorem cString_selectText (s : Server) (id : Bytes) :
    cString (Task.selectText s id) = Task.selectText s (cString id) := by
  have hselect : 0 ∉ bytes "SELECT * FROM " ++ s.table ++ bytes " WHERE id=" := by
    simp only [List.mem_append, not_or]
    exact ⟨⟨by decide +kernel, s.notMem_table⟩, by decide +kernel⟩
  exact cString_append id hselect

theorem cString_condition (id : Bytes) : cString (condition id) = condition (cString id) :=
  cString_append id (by decide +kernel)

/-- **What is left of an update.** A zero byte in the quantity cuts off the condition. -/
theorem cString_updateText (s : Server) (num id : Bytes) :
    cString (Task.updateText s num id) = updateHead s ++
      (if 0 ∈ num then cString num else num ++ condition (cString id)) := by
  have hhead : 0 ∉ updateHead s := by
    unfold updateHead
    simp only [List.mem_append, not_or]
    exact ⟨⟨by decide +kernel, s.notMem_table⟩, by decide +kernel⟩
  rw [updateText_eq, cString_append _ hhead]
  split
  · next h => rw [cString_append_of_mem h]
  · next h => rw [cString_append _ h, cString_condition]

/-- **The updates of a row that MySQL accepts**, by their text: the quantity is a chain,
and behind it stands the condition that names the row, or nothing, which makes it an
update of all rows. -/
def Updates (s : Server) (id text : Bytes) (c : Chain) : Prop :=
  text = updateHead s ++ (c.text ++ condition (cString id)) ∨ text = updateHead s ++ c.text

/-- **How MySQL reads a quantity**: as the chain that it is up to its first zero byte. If
there is such a byte, the part in front of it may also be a chain with the condition
behind it, and is read as this chain then. -/
def ReadAs (id num : Bytes) (c : Chain) : Prop :=
  cString num = c.text ∨ (0 ∈ num ∧ cString num = c.text ++ condition (cString id))

/-- **What MySQL accepts of the updates of `do_buy`.** -/
theorem updates_iff {s : Server} {id num : Bytes} {c : Chain} :
    Updates s id (cString (Task.updateText s num id)) c ↔ ReadAs id num c := by
  unfold Updates ReadAs
  rw [cString_updateText, List.append_cancel_left_eq, List.append_cancel_left_eq]
  split
  · next h => rw [and_iff_right h, or_comm]
  · next h =>
    have hblank : num ++ condition (cString id) ≠ c.text := by
      intro heq
      have hmem : (32 : UInt8) ∈ c.text := heq ▸ List.mem_append_right num List.mem_cons_self
      exact absurd (Chain.of_mem_text hmem) (by decide)
    rw [cString_eq_self h, List.append_cancel_right_eq, or_iff_left hblank,
      or_iff_left fun hmem => h hmem.1]

namespace ReadAs

variable {id num : Bytes} {c : Chain}

theorem exists_eq_append (h : ReadAs id num c) :
    ∃ t, num = c.text ++ t ∧ t.takeWhile isDigit = [] := by
  rcases h with h | ⟨hmem, h⟩
  · by_cases hmem : 0 ∈ num
    · obtain ⟨t, ht⟩ := exists_eq_cString_append hmem
      exact ⟨0 :: t, h ▸ ht, rfl⟩
    · rw [cString_eq_self hmem] at h
      exact ⟨[], h.trans (List.append_nil _).symm, rfl⟩
  · obtain ⟨t, ht⟩ := exists_eq_cString_append hmem
    rw [h, List.append_assoc] at ht
    exact ⟨_, ht, rfl⟩

/-- **`std::stoi` reads the first literal of the chain**, if it fits an `int`. -/
theorem stoi_eq (h : ReadAs id num c) :
    stoi num = if IsInt c.first.value then .ok c.first.value else .error .outOfRange := by
  obtain ⟨t, rfl, ht⟩ := h.exists_eq_append
  unfold stoi
  rw [c.strtol_append ht]

/-- **Plain digits are read as they are.** -/
theorem text_eq (h : ReadAs id num c) (hnum : ∀ b ∈ num, isDigit b = true) : c.text = num := by
  rcases h with h | ⟨hmem, -⟩
  · exact h.symm.trans (cString_eq_self (notMem_of_digits hnum))
  · exact absurd hmem (notMem_of_digits hnum)

end ReadAs

/-! ## What the calls do to the row -/

/-- The table, as far as it is about one commodity: its stock, the row that a
select on a connection found and that was not stored yet, and the updates
that were executed, each with its execution of a handler and its quantity
text. -/
structure Shop (ι : Type) where
  stock : ℤ
  pending : Conn → Option MysqlRow := fun _ => none
  log : List (ι × Bytes) := []

/-- **What the calls of the execution `i` of a handler do to the table**, where `id` names
the row of the commodity in the texts of the execution. A query may fail, and then has no
effect. -/
inductive ShopStep {ι : Type} (s : Server) (item : Commodity) (id : Bytes) (i : ι) :
    Shop ι → DbEvent → Shop ι → Prop
  | getConnection (shop : Shop ι) (conn : Conn) :
    ShopStep s item id i shop ⟨.getConnection, conn⟩ shop
  | releaseConnection (shop : Shop ι) (conn : Conn) :
    ShopStep s item id i shop ⟨.releaseConnection conn, ()⟩ shop
  | lock (shop : Shop ι) : ShopStep s item id i shop ⟨.lock, ()⟩ shop
  | unlock (shop : Shop ι) : ShopStep s item id i shop ⟨.unlock, ()⟩ shop
  | queryFailed (shop : Shop ι) (conn : Conn) (text : Bytes) :
    ShopStep s item id i shop ⟨.query conn text, true⟩ shop
  | select {text : Bytes} (shop : Shop ι) (conn : Conn)
    (htext : text = cString (Task.selectText s id)) :
    ShopStep s item id i shop ⟨.query conn text, false⟩
      { shop with pending := Function.update shop.pending conn (some (item.row shop.stock)) }
  | update {text : Bytes} (shop : Shop ι) (conn : Conn) (c : Chain)
    (htext : Updates s id text c) :
    ShopStep s item id i shop ⟨.query conn text, false⟩
      { shop with stock := c.takenFrom shop.stock, log := shop.log ++ [(i, c.text)] }
  | storeFailed (shop : Shop ι) (conn : Conn) :
    ShopStep s item id i shop ⟨.storeResult conn, none⟩ shop
  | store {row : MysqlRow} (shop : Shop ι) (conn : Conn) (handle : ℕ)
    (hrow : shop.pending conn = some row) :
    ShopStep s item id i shop ⟨.storeResult conn, some ⟨handle, [row]⟩⟩
      { shop with pending := Function.update shop.pending conn none }
  | error (shop : Shop ι) (conn : Conn) : ShopStep s item id i shop ⟨.error conn, ()⟩ shop
  | useResult (shop : Shop ι) (result : MysqlRes) :
    ShopStep s item id i shop ⟨.useResult result, ()⟩ shop
  | freeResult (shop : Shop ι) (result : MysqlRes) :
    ShopStep s item id i shop ⟨.freeResult result, ()⟩ shop

/-- Whether a call sends MySQL a text or asks it for a result. -/
def DbOp.IsQuery : DbOp → Prop
  | .query _ _ => True
  | .storeResult _ => True
  | _ => False

section ShopStep

variable {ι : Type} {s : Server} {item : Commodity} {id : Bytes} {i : ι} {shop shop' : Shop ι}

theorem ShopStep.eq_of_not_isQuery {e : DbEvent} (h : ShopStep s item id i shop e shop')
    (he : ¬ e.1.IsQuery) : shop' = shop := by
  cases h with
  | queryFailed => exact absurd trivial he
  | select => exact absurd trivial he
  | update => exact absurd trivial he
  | storeFailed => exact absurd trivial he
  | store => exact absurd trivial he
  | _ => rfl

theorem not_updates_selectText (s : Server) (id : Bytes) (c : Chain) :
    ¬ Updates s id (cString (Task.selectText s id)) c := by
  rw [cString_selectText]
  rintro (h | h) <;> cases congrArg List.head? h

/-- **What a select can do**: fail, or find the row with the stock as it is. -/
theorem ShopStep.of_select {conn : Conn} {failed : Bool}
    (h : ShopStep s item id i shop ⟨.query conn (cString (Task.selectText s id)), failed⟩ shop') :
    (failed = true ∧ shop' = shop) ∨ (failed = false ∧ shop' =
      { shop with pending := Function.update shop.pending conn (some (item.row shop.stock)) }) := by
  cases h with
  | queryFailed => exact Or.inl ⟨rfl, rfl⟩
  | select => exact Or.inr ⟨rfl, rfl⟩
  | update _ _ c htext => exact absurd htext (not_updates_selectText s id c)

theorem cString_updateText_ne (s : Server) (num id id' : Bytes) :
    cString (Task.updateText s num id) ≠ Task.selectText s id' := by
  rw [cString_updateText]
  intro h
  cases congrArg List.head? h

/-- **What an update can do**: fail, or take away what the chain says that its
quantity is read as. -/
theorem ShopStep.of_update {conn : Conn} {num : Bytes} {failed : Bool}
    (h : ShopStep s item id i shop
      ⟨.query conn (cString (Task.updateText s num id)), failed⟩ shop') :
    (failed = true ∧ shop' = shop) ∨ (failed = false ∧ ∃ c : Chain, ReadAs id num c ∧ shop' =
      { shop with stock := c.takenFrom shop.stock, log := shop.log ++ [(i, c.text)] }) := by
  cases h with
  | queryFailed => exact Or.inl ⟨rfl, rfl⟩
  | select _ _ htext =>
    rw [cString_selectText] at htext
    exact absurd htext (cString_updateText_ne s num id _)
  | update _ _ c htext => exact Or.inr ⟨rfl, c, updates_iff.mp htext, rfl⟩

/-- **What storing a result can do**: fail, or deliver the row that is
pending. -/
theorem ShopStep.of_storeResult {conn : Conn} {result : Option MysqlRes}
    (h : ShopStep s item id i shop ⟨.storeResult conn, result⟩ shop') :
    (result = none ∧ shop' = shop) ∨ ∃ handle row, shop.pending conn = some row ∧
      result = some ⟨handle, [row]⟩ ∧
      shop' = { shop with pending := Function.update shop.pending conn none } := by
  cases h with
  | storeFailed => exact Or.inl ⟨rfl, rfl⟩
  | @store row _ _ handle hrow => exact Or.inr ⟨handle, row, hrow, rfl, rfl⟩

end ShopStep

/-! ## A purchase -/

/-- **A request to buy**: one whose parameters `commodity_id` and `num` are
there and are not empty. -/
structure Order where
  req : HttpRequest
  id : Bytes
  num : Bytes
  getQuery_id : req.getQuery (bytes "commodity_id") = .ok id
  getQuery_num : req.getQuery (bytes "num") = .ok num
  id_ne_nil : id ≠ []
  num_ne_nil : num ≠ []

/-- `do_buy` of a request to buy goes to work on its parameters. -/
theorem Order.doBuy_eq (order : Order) (json : JsonWriter) (s : Server) (resp : HttpResponse) :
    Task.doBuy json s order.req resp = Task.buyWith json s order.req resp order.id order.num := by
  unfold Task.doBuy
  rw [order.getQuery_id, order.getQuery_num]
  dsimp only
  rw [if_neg order.id_ne_nil, if_neg order.num_ne_nil]

/-- Whether a handler answers success. -/
def Succeeds : Except Fault HttpResponse → Prop
  | .ok r => r.statusCode = .k200Ok
  | .error _ => False

end MicroBusiness
