import MicroBusiness.Program
import MicroBusiness.Json
import MicroBusiness.HttpRequest
import MicroBusiness.HttpResponse

/-!
# The handlers of the two backends

`Task::onRequest` of `server1.cc` and of `server2.cc`: buying a commodity,
showing the commodities, and an error for any other path. A handler is a
program (`Program.Prog`) over the calls it makes on its surroundings: the
connection pool, the mutex `conn_mutex`, and the MySQL client library. What
these calls reply is left open here; what is computed from the replies is
the source's.

The two files differ in their paths, in the name of the table, in the
content type of an error, and in where the guard of `conn_mutex` ends: in
`server1.cc` with the function, in `server2.cc` right after the update.
A `Server` holds these differences.

The two functions that fill in a response, `sucess_handle` and `error_handle`, are
arguments of a handler (`Helpers`). With the ones of the source a handler computes
the response that it sends. With ones that write down that they were called, the
same text of the handler tells which of them it has called on the way to each of
its exits, and how often.

Three things are as in the source though they may not look it. The object
`connectionRAII(&conn, sql_conn_pool)` is a temporary: the connection it
takes is given back at the end of that statement, before `conn` is first
used. Then `num` is read twice, as a number by `stoi` and as text in the
update. And MySQL is handed `query.c_str()`, a C string: of a text with a zero
byte in it, which a parameter can bring, it sees what is in front of the zero.
-/

namespace MicroBusiness

open Program

/-- A `MYSQL *`. -/
abbrev Conn := ℕ

/-- A `MYSQL_ROW` of the commodity tables. A field is null where it is
`none`. -/
structure MysqlRow where
  id : Option Bytes
  name : Option Bytes
  num : Option Bytes
  price : Option Bytes
  des : Option Bytes
  deriving DecidableEq, Repr

/-- Whether no field of a row is null. -/
def MysqlRow.NonNull (row : MysqlRow) : Prop :=
  row.id.isSome ∧ row.name.isSome ∧ row.num.isSome ∧ row.price.isSome ∧ row.des.isSome

/-- A `MYSQL_RES *`: the rows of a result, read to the client when it was
stored. -/
structure MysqlRes where
  handle : ℕ
  rows : List MysqlRow
  deriving DecidableEq, Repr

/-- The calls of a handler on its surroundings. -/
inductive DbOp
  /-- `connection_pool::GetConnection`. -/
  | getConnection
  /-- `connection_pool::ReleaseConnection`. -/
  | releaseConnection (conn : Conn)
  /-- `conn_mutex.lock()`. -/
  | lock
  /-- `conn_mutex.unlock()`. -/
  | unlock
  /-- `mysql_query` of a C string, which replies whether it failed. -/
  | query (conn : Conn) (text : Bytes)
  /-- `mysql_store_result`. -/
  | storeResult (conn : Conn)
  /-- `mysql_error`. -/
  | error (conn : Conn)
  /-- A row of a result is fetched or read. -/
  | useResult (result : MysqlRes)
  /-- `mysql_free_result`. -/
  | freeResult (result : MysqlRes)
  deriving DecidableEq, Repr

/-- What a call replies. -/
@[reducible] def DbOp.Reply : DbOp → Type
  | .getConnection => Conn
  | .query _ _ => Bool
  | .storeResult _ => Option MysqlRes
  | _ => Unit

/-- A call of a handler and its reply. -/
abbrev DbEvent := Event DbOp.Reply

/-- A program of a handler. -/
abbrev Handler := Prog DbOp DbOp.Reply Fault

/-- What the two servers differ in. The name of a table is a C string. -/
structure Server where
  buyPath : Bytes
  showPath : Bytes
  table : Bytes
  notMem_table : 0 ∉ table
  errorContentType : Bytes
  /-- Whether the guard of `conn_mutex` ends before the response is built. -/
  guardEndsEarly : Bool

def server1 : Server where
  buyPath := bytes "/10001/buy/"
  showPath := bytes "/10001/show/"
  table := bytes "cosmetics"
  notMem_table := by decide +kernel
  errorContentType := bytes "text/plain;charset=UTF-8"
  guardEndsEarly := false

def server2 : Server where
  buyPath := bytes "/10002/buy/"
  showPath := bytes "/10002/show/"
  table := bytes "wines"
  notMem_table := by decide +kernel
  errorContentType := bytes "application/json"
  guardEndsEarly := true

namespace Task

variable (json : JsonWriter) (s : Server)

/-- `sucess_handle`. -/
def sucessHandle (resp : HttpResponse) (code : HttpStatusCode) (message : Bytes) (item : Json)
    (client : Bytes) : HttpResponse :=
  ((((resp.setStatusCode code).setStatusMessage message).setContentType
    (bytes "application/json")).addHeader (bytes "Client") client).setBody
    (json.writeString (.object [(bytes "code", .int HttpStatusCode.k200Ok.toNat),
      (bytes "message", .string message), (bytes "data", item)]))

/-- `error_handle`. -/
def errorHandle (resp : HttpResponse) (code : HttpStatusCode) (message : Bytes)
    (client : Bytes) : HttpResponse :=
  ((((resp.setStatusCode code).setStatusMessage message).addHeader
    (bytes "Client") client).setContentType s.errorContentType).setBody
    (json.fastWrite (.object [(bytes "code", .int code.toNat),
      (bytes "message", .string message)]))

end Task

/-- **A response as a handler sees it**: something that it calls the two helpers on. It
does nothing else with it, so the handlers are written for any kind of response. -/
class Helpers (ρ : Type) where
  /-- `sucess_handle` is called. -/
  callSucessHandle : JsonWriter → ρ → HttpStatusCode → Bytes → Json → Bytes → ρ
  /-- `error_handle` is called. -/
  callErrorHandle : JsonWriter → Server → ρ → HttpStatusCode → Bytes → Bytes → ρ

@[default_instance]
instance : Helpers HttpResponse where
  callSucessHandle := Task.sucessHandle
  callErrorHandle := Task.errorHandle

namespace Task

open Helpers

variable {ρ : Type} [Helpers ρ] (json : JsonWriter) (s : Server)

/-- The `std::string` of the select. -/
def selectText (id : Bytes) : Bytes :=
  bytes "SELECT * FROM " ++ s.table ++ bytes " WHERE id=" ++ id

/-- The `std::string` of the update. -/
def updateText (num id : Bytes) : Bytes :=
  bytes "UPDATE " ++ s.table ++ bytes " SET num=num-" ++ num ++ bytes " WHERE id=" ++ id

section DoBuy

variable (req : HttpRequest) (resp : ρ) (id num : Bytes) (conn : Conn)

/-- The answer to a failure of the database. -/
def networkError : ρ :=
  callErrorHandle json s resp .kUnknown (bytes "网络出错") (req.getHeader (bytes "Client"))

/-- The end of `do_buy` after an update that went through. -/
def buyFinish (n : ℤ) (result : MysqlRes) (row : MysqlRow) : Handler ρ :=
  let respond (k : ρ → Handler ρ) : Handler ρ :=
    .op (.useResult result) fun _ =>
      match row.price with
      | none => .fail .nullPointer
      | some price =>
        .op (.freeResult result) fun _ =>
          k (callSucessHandle json resp .k200Ok (bytes "OK")
            (.object [(bytes "price", .product n price)]) (req.getHeader (bytes "Client")))
  if s.guardEndsEarly then .op .unlock fun _ => respond .ret
  else respond fun r => .op .unlock fun _ => .ret r

/-- The update of `do_buy`. -/
def buyUpdate (n : ℤ) (result : MysqlRes) (row : MysqlRow) : Handler ρ :=
  .op (.query conn (cString (updateText s num id))) fun failed =>
    if failed then
      .op (.error conn) fun _ => .op .unlock fun _ => .ret (networkError json s req resp)
    else buyFinish json s req resp n result row

/-- `do_buy` from the fetched row on: the comparison of what is asked for
with what is there. -/
def buyCompare (result : MysqlRes) (row : MysqlRow) : Handler ρ :=
  match row.num with
  | none => .fail .nullPointer
  | some stock =>
    match stoi num with
    | .error e => .op .unlock fun _ => .fail e
    | .ok n =>
      if n > atoi stock then
        .op .unlock fun _ => .ret (callErrorHandle json s resp .k400BadRequest (bytes "商品数量不足")
          (req.getHeader (bytes "Client")))
      else buyUpdate json s req resp id num conn n result row

/-- `do_buy` from the stored result on. -/
def buyFetch (result : MysqlRes) : Handler ρ :=
  .op (.useResult result) fun _ =>
    match result.rows.head? with
    | none =>
      .op .unlock fun _ => .ret (callErrorHandle json s resp .k400BadRequest (bytes "未找到商品")
        (req.getHeader (bytes "Client")))
    | some row => buyCompare json s req resp id num conn result row

/-- `do_buy` from the select that went through on. -/
def buyStore : Handler ρ :=
  .op (.storeResult conn) fun result =>
    match result with
    | none => .op (.error conn) fun _ => .op .unlock fun _ => .ret (networkError json s req resp)
    | some result => buyFetch json s req resp id num conn result

/-- `do_buy` under the mutex. -/
def buySelect : Handler ρ :=
  .op (.query conn (cString (selectText s id))) fun failed =>
    if failed then
      .op (.error conn) fun _ => .op .unlock fun _ => .ret (networkError json s req resp)
    else buyStore json s req resp id num conn

/-- `do_buy` with its two parameters at hand. -/
def buyWith : Handler ρ :=
  .op .getConnection fun conn =>
    -- the temporary `connectionRAII` ends with its statement
    .op (.releaseConnection conn) fun _ =>
      .op .lock fun _ => buySelect json s req resp id num conn

/-- `do_buy`. -/
def doBuy : Handler ρ :=
  match req.getQuery (bytes "commodity_id") with
  | .error e => .fail e
  | .ok id =>
    if id = [] then .ret resp
    else
      match req.getQuery (bytes "num") with
      | .error e => .fail e
      | .ok num => if num = [] then .ret resp else buyWith json s req resp id num

end DoBuy

section DoShow

variable (req : HttpRequest) (resp : ρ)

/-- The JSON object of a row. -/
def rowItem (row : MysqlRow) : Except Fault Json :=
  match row.id, row.name, row.num, row.price, row.des with
  | some id, some name, some num, some price, some des =>
    .ok (.object [(bytes "id", .string id), (bytes "name", .string name),
      (bytes "num", .string num), (bytes "price", .string price), (bytes "des", .string des)])
  | _, _, _, _, _ => .error .nullPointer

/-- The loop of `do_show` over the rows of the result. -/
def showItems (result : MysqlRes) (k : List Json → Handler ρ) :
    List MysqlRow → List Json → Handler ρ
  | [], items => .op (.useResult result) fun _ => k items
  | row :: rows, items =>
    .op (.useResult result) fun _ =>
      match rowItem row with
      | .error e => .fail e
      | .ok item => showItems result k rows (items ++ [item])

/-- The end of `do_show`. -/
def showFinish (result : MysqlRes) (items : List Json) : Handler ρ :=
  .op (.freeResult result) fun _ =>
    .ret (callSucessHandle json resp .k200Ok (bytes "OK") (.array items)
      (req.getHeader (bytes "Client")))

/-- `do_show` from the select that went through on. -/
def showStore (conn : Conn) : Handler ρ :=
  .op (.storeResult conn) fun result =>
    match result with
    | none => .op (.error conn) fun _ => .ret (networkError json s req resp)
    | some result =>
      -- `mysql_fetch_fields`, whose reply is not used
      .op (.useResult result) fun _ =>
        showItems result (showFinish json req resp result) result.rows []

/-- `do_show`. -/
def doShow : Handler ρ :=
  .op .getConnection fun conn =>
    -- the temporary `connectionRAII` ends with its statement
    .op (.releaseConnection conn) fun _ =>
      .op (.query conn (bytes "select * from " ++ s.table)) fun failed =>
        if failed then .ret (networkError json s req resp)
        else showStore json s req resp conn

end DoShow

/-- `onRequest`. -/
def onRequest (req : HttpRequest) (resp : ρ) : Handler ρ :=
  if req.path = s.buyPath then doBuy json s req resp
  else if req.path = s.showPath then doShow json s req resp
  else .ret (callErrorHandle json s resp .k400BadRequest (bytes "Not Found!")
    (req.getHeader (bytes "Client")))

end Task

end MicroBusiness
