import MicroBusiness.HttpContext
import MicroBusiness.HttpResponse

/-!
# The server loop of the backend

`HttpServer::onMessage` is called with what a connection has received and
not yet consumed. It parses, and when a request is complete it has it
answered (`onRequest`) and makes the context ready for the next. The handler
behind `httpCallback` is a parameter: a function from the request and the
response to fill in to the response filled in, or to a failure that leaves
the loop.

What a call does to the connection is a list of effects, in order: bytes sent
and the write side shut down.
-/

namespace MicroBusiness

/-- What the server does to a connection. -/
inductive ConnEffect
  | send (message : Bytes)
  | shutdown
  deriving DecidableEq, Repr

/-- `HttpCallback`. -/
abbrev HttpCallback := HttpRequest → HttpResponse → Except Fault HttpResponse

/-- `detail::defaultHttpCallback`. -/
def defaultHttpCallback : HttpCallback := fun _ resp =>
  .ok { (resp.setStatusCode .k404NotFound).setStatusMessage (bytes "Not Found") with
    closeConnection := true }

namespace HttpServer

/-- Whether the connection is to be closed after the answer to a request. -/
def closes (req : HttpRequest) : Bool :=
  req.getHeader (bytes "Connection") = bytes "close"
    || (req.version = .kHttp10 && req.getHeader (bytes "Connection") ≠ bytes "Keep-Alive")

/-- `onRequest`. -/
def onRequest (httpCallback : HttpCallback) (req : HttpRequest) :
    Except Fault (List ConnEffect) :=
  match httpCallback req { closeConnection := closes req } with
  | .error e => .error e
  | .ok response =>
    .ok (.send response.appendToBuffer :: if response.closeConnection then [.shutdown] else [])

/-- What a call of `onMessage` leaves: the context, the unread bytes, and the
effects on the connection. -/
structure Received where
  context : HttpContext
  buf : Bytes
  effects : List ConnEffect

/-- `onMessage`. -/
def onMessage (httpCallback : HttpCallback) (context : HttpContext) (buf : Bytes)
    (receiveTime : Timestamp) : Except Fault Received :=
  match parseRequest context buf receiveTime with
  | .error e => .error e
  | .ok (ok, context, buf) =>
    let refused : List ConnEffect :=
      if ok then [] else [.send (bytes "HTTP/1.1 400 Bad Request\r\n\r\n"), .shutdown]
    if context.gotAll then
      match onRequest httpCallback context.request with
      | .error e => .error e
      | .ok effects =>
        .ok { context := context.reset, buf, effects := refused ++ effects }
    else .ok { context, buf, effects := refused }

/-- The request a call of `onMessage` hands to the callback. -/
def handed (context : HttpContext) (buf : Bytes) (receiveTime : Timestamp) :
    Option HttpRequest :=
  match parseRequest context buf receiveTime with
  | .error _ => none
  | .ok (_, context, _) => if context.gotAll then some context.request else none

/-- The requests handed to the callback over successive calls, each of which
finds one more piece of input behind what was left unread, until a call
fails. -/
def handedRequests (httpCallback : HttpCallback) :
    HttpContext → Bytes → List (Bytes × Timestamp) → List (Option HttpRequest)
  | _, _, [] => []
  | context, buf, (piece, t) :: pieces =>
    handed context (buf ++ piece) t ::
      match onMessage httpCallback context (buf ++ piece) t with
      | .error _ => []
      | .ok r => handedRequests httpCallback r.context r.buf pieces

/-- What a call does with a request that was read whole: it has it answered,
and makes the context ready for the next. -/
theorem onMessage_of_gotAll {httpCallback : HttpCallback} {context : HttpContext} {buf : Bytes}
    {t : Timestamp} {req : HttpRequest} {rest : Bytes}
    (hparse : parseRequest context buf t
      = .ok (true, { state := .kGotAll, request := req }, rest)) :
    onMessage httpCallback context buf t
      = (onRequest httpCallback req).map (fun effects =>
          { context := { request := (req.swap {}).1 }, buf := rest, effects }) := by
  rw [onMessage, hparse]
  dsimp only
  rw [show HttpContext.gotAll { state := .kGotAll, request := req } = true from rfl, if_pos rfl]
  cases onRequest httpCallback req with
  | error e => rfl
  | ok effects => rfl

end HttpServer

end MicroBusiness
