import MicroBusiness.Accumulator
import MicroBusiness.HttpResponse
import MicroBusiness.TcpConnection

/-!
# Handing the responses of a backend to the clients

All clients share one connection to a backend, and `doServer2client` finds
the client a response is for in the response itself. Over successive reads it
is an accumulator (`serve_doServer2client`): what was read is kept until the buffer
names a connected client, and then the buffer goes to that client as a whole.

So the bytes of a client reach this client, and nobody else, exactly when the
reads fall into groups that each hold bytes of one client only and name this
client as a whole, and not before (`demuxes_iff`). Nothing in the handler
looks for where a response ends.
-/

namespace MicroBusiness

open Search Accumulator

namespace Tables

/-- The connection of the client a buffer names. -/
def routeOf (t : Tables) (buf : Bytes) : Option Fd :=
  (clientOf buf).bind (fun client => t.clientTable[client]?)

end Tables

namespace TcpConnection

/-- **What a plain read from a backend does**: the buffer goes to the client
it names, or stays. -/
theorem doServer2client_eq {t : Tables} (ht : t.ClientsListed) (conn : TcpConnection)
    {io : Recvs} (hio : io.Plain) :
    doServer2client t conn io
      = .ok (match t.routeOf (conn.readBuf ++ io.payload) with
        | none => (t, { conn with readBuf := conn.readBuf ++ io.payload }, [])
        | some fd =>
          (t, { conn with readBuf := [] }, [.send fd (conn.readBuf ++ io.payload)])) := by
  unfold doServer2client Tables.routeOf
  rw [readn_of_notMem conn.readBuf hio.notMem, decide_eq_true hio.isOpen]
  dsimp only
  rw [if_pos rfl]
  cases clientOf (conn.readBuf ++ io.payload) with
  | none => rfl
  | some client =>
    rw [Option.bind_some]
    dsimp only
    cases hfd : t.clientTable[client]? with
    | none => rfl
    | some fd =>
      obtain ⟨ptr, hptr, hfd, -⟩ := ht client fd hfd
      dsimp only
      rw [hptr]
      dsimp only
      rw [hfd]

end TcpConnection

/-! ## Responses on their way to clients -/

/-- **A response to a connected client**: one with a `Client` header that
gives the client's address. -/
structure Delivery (t : Tables) where
  response : HttpResponse
  peer : InetAddress
  fd : Fd
  client : response.headers[bytes "Client"]? = some peer.ipPort
  connected : t.clientTable[peer.ipPort]? = some fd
  notMem : 0 ∉ response.appendToBuffer

namespace Delivery

variable {t : Tables}

/-- The bytes of the response, and the connection they are for. -/
def message (d : Delivery t) : Fd × Bytes := (d.fd, d.response.appendToBuffer)

end Delivery

/-- **A buffer that begins with a response names its client.** -/
theorem clientOf_appendToBuffer {r : HttpResponse} {client skipped : Bytes} (tail : Bytes)
    (h : AddressedTo r client) (hclient : lf ∉ client) (hskipped : Skips clientKey skipped) :
    clientOf (skipped ++ (r.appendToBuffer ++ tail)) = some client := by
  obtain ⟨head, rest, hr, hhead⟩ := appendToBuffer_eq_of_addressedTo h
  rw [hr]
  simp only [List.append_assoc]
  rw [← List.append_assoc skipped]
  exact clientOf_append (rest ++ tail) (hskipped.append hhead) hclient

theorem Delivery.routeOf_appendToBuffer {t : Tables} (d : Delivery t)
    (haddressed : AddressedTo d.response d.peer.ipPort) :
    t.routeOf d.response.appendToBuffer = some d.fd := by
  have hlf := d.peer.notMem_ipPort (b := lf) (by decide) (by decide) (by decide)
  have hclient := clientOf_appendToBuffer [] haddressed hlf (skips_nil clientKey)
  rw [List.append_nil, List.nil_append] at hclient
  unfold Tables.routeOf
  rw [hclient]
  exact d.connected

end MicroBusiness
