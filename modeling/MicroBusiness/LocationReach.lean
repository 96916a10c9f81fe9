import MicroBusiness.Routing
import MicroBusiness.HttpContext
import MicroBusiness.ConfigStartup

/-!
# Which targets reach a location

The proxy keeps the whole target of a request as its path, with the query, and
looks for a location from its end. A query behind a path takes one boundary prefix
from it, the path itself where it does not end with a slash
(`Segments.boundaryPrefix_append_cons_iff`), and adds none that could be a location.
So the query is ignored, as the backend ignores it, except for a path that is a
location itself (`checkedFindForward_query_iff`).

The search stops before the first letter. So every location that has been configured
is found by its own path, except one of a single letter
(`Parser.reached_location_iff`).

Both hold of targets shorter than `2 ^ 31` bytes, the longest an `int` position goes
through. A query that makes the target longer makes it a target without a location
(`routedAlike_query_of_lt`), and a location that is longer is never found, not even by
its own path.
-/

namespace MicroBusiness

open Search Positions

/-! ## The path of a target -/

theorem setTarget_path_of_notMem (r : HttpRequest) {p : Bytes} (hp : question ∉ p) :
    (setTarget r p).path = p := by
  unfold setTarget
  rw [List.idxOf?_eq_none_iff.mpr hp]
  rfl

theorem setTarget_path_append (r : HttpRequest) {p : Bytes} (hp : question ∉ p) (q : Bytes) :
    (setTarget r (p ++ question :: q)).path = p := by
  unfold setTarget
  rw [idxOf?_append_cons q hp]
  exact List.take_left

theorem setTarget_path_congr (r r' : HttpRequest) (target : Bytes) :
    (setTarget r target).path = (setTarget r' target).path := by
  unfold setTarget
  split <;> rfl

/-- **The path a request line sets** is the path of its target, if the line gets
that far. -/
theorem processRequestLine_path (r : HttpRequest) {m target : Bytes} (hm : blank ∉ m)
    (htarget : blank ∉ target) (protocol : Bytes) :
    (processRequestLine r (m ++ blank :: (target ++ blank :: protocol))).map (·.2.path)
      = if r.method ≠ .kInvalid then .error .assertion
        else if methodOf m = .kInvalid then .ok r.path else .ok (setTarget r target).path := by
  by_cases hr : r.method = .kInvalid
  · rw [if_neg (not_not.mpr hr)]
    by_cases hknown : methodOf m = .kInvalid
    · rw [if_pos hknown, processRequestLine, idxOf?_append_cons _ hm]
      dsimp only
      rw [if_neg (not_not.mpr hr), List.take_left, HttpRequest.setMethod,
        decide_eq_false (not_not.mpr hknown)]
      rfl
    · rw [if_neg hknown, processRequestLine_append protocol hr hm htarget hknown]
      show Except.ok (setProtocol _ protocol).2.path = _
      rw [setProtocol_path, setTarget_path_congr]
  · rw [if_pos hr, processRequestLine, idxOf?_append_cons _ hm]
    dsimp only
    rw [if_pos hr]
    rfl

/-- **The backend ignores the query**: it sets the same path, or fails alike, for
a target with a query and without, whatever the rest of the line. -/
theorem processRequestLine_query (r : HttpRequest) {m p : Bytes} (hm : blank ∉ m)
    (hp : question ∉ p) (q protocol : Bytes) :
    (processRequestLine r (m ++ blank :: (p ++ question :: q ++ blank :: protocol))).map (·.2.path)
      = (processRequestLine r (m ++ blank :: (p ++ blank :: protocol))).map (·.2.path) := by
  by_cases hblank : blank ∈ p
  · -- a blank in the path ends both targets
    obtain ⟨target, rest, rfl, htarget⟩ := exists_eq_append_cons_of_mem hblank
    simp only [List.append_assoc, List.cons_append]
    rw [processRequestLine_path r hm htarget, processRequestLine_path r hm htarget]
  · obtain ⟨q', protocol', heq, hq'⟩ :=
      exists_eq_append_cons_of_mem (List.mem_append_right q (List.mem_cons_self (a := blank)
        (l := protocol)))
    have htarget : blank ∉ p ++ question :: q' := by
      simp [hblank, hq', show blank ≠ question by decide]
    have hline : p ++ question :: q ++ blank :: protocol
        = p ++ question :: q' ++ blank :: protocol' := by
      simp only [List.append_assoc, List.cons_append, heq]
    rw [hline, processRequestLine_path r hm htarget, processRequestLine_path r hm hblank,
      setTarget_path_append r hp, setTarget_path_of_notMem r hp]

namespace TcpConnection

variable {forwardingTable : StdMap Bytes (List Fd)} {p : Bytes}

/-! ## A path with a query -/

/-- **What the query takes away**: the path itself, unless it ends with a slash. -/
theorem routeTo_query_iff (hkeys : ∀ key : Bytes, forwardingTable.contains key → question ∉ key)
    (q : Bytes) {key : Bytes} :
    RouteTo forwardingTable (p ++ question :: q) key
      ↔ RouteTo forwardingTable p key ∧ (key = p → p.getLast? = some slash) := by
  have hboundary := fun hlisted => Segments.boundaryPrefix_append_cons_iff
    (show question ≠ slash by decide) (hkeys key hlisted) p q
  constructor
  · rintro ⟨hlisted, hlength, hbegins⟩
    obtain ⟨hbegins, hslash⟩ := (hboundary hlisted).mp hbegins
    exact ⟨⟨hlisted, hlength, hbegins⟩, hslash⟩
  · rintro ⟨⟨hlisted, hlength, hbegins⟩, hslash⟩
    exact ⟨hlisted, hlength, (hboundary hlisted).mpr ⟨hbegins, hslash⟩⟩

theorem findForwardPath_congr {p p' : Bytes}
    (h : ∀ key, RouteTo forwardingTable p key ↔ RouteTo forwardingTable p' key) :
    findForwardPath forwardingTable p = findForwardPath forwardingTable p' := by
  refine Option.ext fun key => ?_
  simp only [findForwardPath_eq_some_iff, h]

/-- **A path that is a location only as it stands**: one longer than a slash that does
not end with a slash. -/
def Exact (forwardingTable : StdMap Bytes (List Fd)) (p : Bytes) : Prop :=
  forwardingTable.contains p ∧ 2 ≤ p.length ∧ p.getLast? ≠ some slash

/-- **When a location is found in spite of the query.** -/
theorem findForwardPath_query_iff
    (hkeys : ∀ key : Bytes, forwardingTable.contains key → question ∉ key) (q : Bytes) :
    findForwardPath forwardingTable p = findForwardPath forwardingTable (p ++ question :: q)
      ↔ ¬ Exact forwardingTable p := by
  constructor
  · rintro heq ⟨hlisted, hlength, hslash⟩
    rw [findForwardPath_self_iff.mpr ⟨hlisted, hlength⟩] at heq
    have hroute := (findForwardPath_eq_some_iff.mp heq.symm).1
    exact hslash (((routeTo_query_iff hkeys q).mp hroute).2 rfl)
  · intro hexact
    refine findForwardPath_congr fun key => ?_
    rw [routeTo_query_iff hkeys q]
    refine (and_iff_left_of_imp ?_).symm
    rintro hroute rfl
    by_contra hslash
    exact hexact ⟨hroute.listed, hroute.length, hslash⟩

/-- **Two targets are routed alike**: `find_forward_path` returns the same for both and
leaves the same business code. -/
def RoutedAlike (forwardingTable : StdMap Bytes (List Fd)) (conn : TcpConnection)
    (p p' : Bytes) : Prop :=
  ∃ result result',
    checkedFindForward forwardingTable { conn with path := p } = .ok result
      ∧ checkedFindForward forwardingTable { conn with path := p' } = .ok result'
      ∧ result.1 = result'.1 ∧ result.2.businessCode = result'.2.businessCode

theorem routedAlike_iff (conn : TcpConnection) {p p' : Bytes} (hp : p.length < 2 ^ 31)
    (hp' : p'.length < 2 ^ 31) :
    RoutedAlike forwardingTable conn p p'
      ↔ findForwardPath forwardingTable p = findForwardPath forwardingTable p' := by
  have hcode := checkedFindForward_eq forwardingTable ({ conn with path := p }) hp
  have hcode' := checkedFindForward_eq forwardingTable ({ conn with path := p' }) hp'
  unfold RoutedAlike
  rw [hcode, hcode']
  simp only [Except.ok.injEq, exists_eq_left', exists_and_left]
  unfold findForward
  cases findForwardPath forwardingTable p <;> cases findForwardPath forwardingTable p' <;> simp

/-- **Routing and the query.** Where no location has a question mark in it, a path is
routed alike with a query and without, exactly if it is not a location only as it
stands; the backend sets the same path for both. The two targets are as long as an `int`
can tell. -/
theorem checkedFindForward_query_iff
    (hkeys : ∀ key : Bytes, forwardingTable.contains key → question ∉ key) (hp : question ∉ p)
    (q : Bytes) (hlen : (p ++ question :: q).length < 2 ^ 31) (conn : TcpConnection) :
    (RoutedAlike forwardingTable conn p (p ++ question :: q) ↔ ¬ Exact forwardingTable p)
      ∧ ∀ (r : HttpRequest) (m protocol : Bytes), blank ∉ m →
        (processRequestLine r (m ++ blank :: (p ++ blank :: protocol))).map (·.2.path)
          = (processRequestLine r
            (m ++ blank :: (p ++ question :: q ++ blank :: protocol))).map (·.2.path) := by
  have hpath : p.length < 2 ^ 31 := by
    rw [List.length_append] at hlen
    omega
  refine ⟨(routedAlike_iff conn hpath hlen).trans (findForwardPath_query_iff hkeys q), ?_⟩
  intro r m protocol hm
  exact (processRequestLine_query r hm hp q protocol).symm

/-- A purchase is routed alike with its query and without. -/
theorem checkedFindForward_query_buy :
    (RoutedAlike (oneLocation (bytes "/10001/")) ⟨7, .client, ⟨127, 0, 0, 1, 50000⟩, [], [], []⟩
        (bytes "/10001/buy") (bytes "/10001/buy" ++ question :: bytes "commodity_id=1&num=2")
      ↔ ¬ Exact (oneLocation (bytes "/10001/")) (bytes "/10001/buy"))
      ∧ ∀ (r : HttpRequest) (m protocol : Bytes), blank ∉ m →
        (processRequestLine r
          (m ++ blank :: (bytes "/10001/buy" ++ blank :: protocol))).map (·.2.path)
          = (processRequestLine r (m ++ blank :: (bytes "/10001/buy"
            ++ question :: bytes "commodity_id=1&num=2" ++ blank :: protocol))).map (·.2.path) := by
  refine checkedFindForward_query_iff (fun key hkey => ?_) (by decide +kernel) _
    (by decide +kernel) _
  rw [contains_oneLocation_iff.mp hkey]
  decide +kernel

/-- **A location without a slash at its end is lost behind its path.** -/
theorem not_routedAlike_buy :
    ¬ ∀ (forwardingTable : StdMap Bytes (List Fd)) (p q : Bytes) (conn : TcpConnection),
      (∀ key : Bytes, forwardingTable.contains key → question ∉ key) → question ∉ p →
      RoutedAlike forwardingTable conn p (p ++ question :: q) := by
  intro hall
  have halike := hall (oneLocation (bytes "/10001/buy")) (bytes "/10001/buy")
    (bytes "commodity_id=1&num=2") ⟨7, .client, ⟨127, 0, 0, 1, 50000⟩, [], [], []⟩
    (fun key hkey => by rw [contains_oneLocation_iff.mp hkey]; decide +kernel) (by decide +kernel)
  have hfound : findForwardPath (oneLocation (bytes "/10001/buy")) (bytes "/10001/buy")
      ≠ findForwardPath (oneLocation (bytes "/10001/buy"))
        (bytes "/10001/buy" ++ question :: bytes "commodity_id=1&num=2") := by
    decide +kernel
  exact hfound ((routedAlike_iff _ (by decide +kernel) (by decide +kernel)).mp halike)

/-- **A query that makes the target too long** loses every location: the path is routed
alike exactly if it has none itself. -/
theorem routedAlike_query_of_lt (conn : TcpConnection) {q : Bytes} (hp : p.length < 2 ^ 31)
    (hlt : 2 ^ 31 < (p ++ question :: q).length) (hle : (p ++ question :: q).length ≤ 2 ^ 32) :
    RoutedAlike forwardingTable conn p (p ++ question :: q)
      ↔ ∀ key, ¬ RouteTo forwardingTable p key := by
  have hcode := checkedFindForward_eq forwardingTable ({ conn with path := p }) hp
  have hlong := checkedFindForward_of_lt forwardingTable
    ({ conn with path := p ++ question :: q }) hlt hle
  unfold RoutedAlike
  rw [hcode, hlong, ← findForwardPath_eq_none_iff]
  simp only [Except.ok.injEq, exists_eq_left', exists_and_left]
  unfold findForward
  cases findForwardPath forwardingTable p <;> simp

/-! ## Configured locations -/

/-- **A location is reached** by the request the path of which it is. -/
def Reached (forwardingTable : StdMap Bytes (List Fd)) (location : Bytes) : Prop :=
  ∀ conn : TcpConnection, checkedFindForward forwardingTable { conn with path := location }
    = .ok (true, { conn with path := location, businessCode := location })

/-- Only a location that is found for its own path is reached. -/
theorem Reached.found {location : Bytes} (h : Reached forwardingTable location) :
    checkedFindForwardPath forwardingTable location = .ok (some location) := by
  have hconn := h ⟨7, .client, ⟨127, 0, 0, 1, 50000⟩, [], [], []⟩
  unfold checkedFindForward at hconn
  dsimp only at hconn
  cases hcode : checkedFindForwardPath forwardingTable location with
  | error e =>
    rw [hcode] at hconn
    cases hconn
  | ok found =>
    rw [hcode, ok_bind] at hconn
    cases found with
    | none => cases hconn
    | some businessCode =>
      exact congrArg (fun x => Except.ok (some x.2.businessCode)) (Except.ok.inj hconn)

/-- **A location of the table is reached** exactly if it is longer than a slash and an
`int` can tell its length. -/
theorem reached_iff {location : Bytes} (h : forwardingTable.contains location) :
    Reached forwardingTable location ↔ 2 ≤ location.length ∧ location.length < 2 ^ 31 := by
  constructor
  · intro hreached
    have hlen := length_lt_of_checkedFindForwardPath hreached.found
    have hfound := hreached.found
    rw [checkedFindForwardPath_eq forwardingTable hlen, Except.ok.injEq] at hfound
    exact ⟨(findForwardPath_self_iff.mp hfound).2, hlen⟩
  · rintro ⟨hlength, hlen⟩ conn
    rw [checkedFindForward_eq forwardingTable _ hlen, findForward,
      findForwardPath_self_iff.mpr ⟨h, hlength⟩]

end TcpConnection

theorem contains_of_connectToBusinessServer {config : Config} {attempts : Attempts} {proxy : Proxy}
    (h : EventLoop.connectToBusinessServer config attempts = .ok proxy) {location : Bytes}
    (hlocation : location ∈ config.locations) :
    proxy.tables.forwardingTable.contains location := by
  obtain ⟨loc, hloc⟩ := contains_iff_exists.mp
    (Std.ExtTreeMap.contains_iff_mem.mpr hlocation)
  have hvector := (filled_of_connectToBusinessServer h).vector location
  rw [hloc] at hvector
  exact contains_iff_exists.mpr ⟨_, hvector⟩

/-- **When a configured location is reached.** Whatever file has been accepted, and
whatever came of the attempts to connect, a location is reached by the path that is its
id exactly if the id has two bytes or more, and fewer than `2 ^ 31`. -/
theorem Parser.reached_location_iff (listen threadNum queSize : ℤ) (file : Bytes) :
    ∀ p, (new listen threadNum queSize).parse file = .ok p → ∀ attempts proxy,
      EventLoop.connectToBusinessServer p.config attempts = .ok proxy →
      ∀ location ∈ p.server.locations,
        TcpConnection.Reached proxy.tables.forwardingTable location
          ↔ 2 ≤ location.length ∧ location.length < 2 ^ 31 := by
  intro p _ attempts proxy hconnect location hlocation
  exact TcpConnection.reached_iff (contains_of_connectToBusinessServer hconnect hlocation)

/-- Whether a file is accepted, the proxy is started with it while every backend can be
reached, and it has the location. -/
def configures (file location : Bytes) : Bool :=
  match (Parser.new 0 0 0).parse file with
  | .error _ => false
  | .ok p =>
    match EventLoop.connectToBusinessServer p.config (attemptsFailing []) with
    | .error _ => false
    | .ok _ => p.server.locations.contains location

theorem exists_of_configures {file location : Bytes} (h : configures file location = true) :
    ∃ p proxy, (Parser.new 0 0 0).parse file = .ok p
      ∧ EventLoop.connectToBusinessServer p.config (attemptsFailing []) = .ok proxy
      ∧ location ∈ p.server.locations := by
  unfold configures at h
  split at h
  · cases h
  · next p hparse =>
    split at h
    · cases h
    · next proxy hconnect =>
      exact ⟨p, proxy, hparse, hconnect, Std.ExtTreeMap.contains_iff_mem.mp h⟩

/-- A configuration with one location and the one backend of its upstream. -/
def oneBusiness (location : Bytes) : Bytes :=
  bytes "server \x7b\n location " ++ location
    ++ bytes " \x7b\n  proxy_pass http://business1.proxy.com;\n \x7d\n\x7d\n"
    ++ bytes "upstream business1.proxy.com \x7b\n server 127.0.0.1:10002;\n\x7d\n"

/-- The location of the first business is reached. -/
theorem Parser.reached_location_business :
    ∃ p proxy, (Parser.new 0 0 0).parse (oneBusiness (bytes "/10001/")) = .ok p
      ∧ EventLoop.connectToBusinessServer p.config (attemptsFailing []) = .ok proxy
      ∧ TcpConnection.Reached proxy.tables.forwardingTable (bytes "/10001/") := by
  have hrun : configures (oneBusiness (bytes "/10001/")) (bytes "/10001/") = true := by
    decide +kernel
  obtain ⟨p, proxy, hparse, hconnect, hlocation⟩ := exists_of_configures hrun
  exact ⟨p, proxy, hparse, hconnect, (reached_location_iff 0 0 0 _ p hparse _ proxy hconnect _
    hlocation).mpr (by decide +kernel)⟩

/-- **A location `/` is configured without complaint and never reached.** -/
theorem Parser.not_reached_slash :
    ¬ ∀ (file : Bytes) (p : Parser), (new 0 0 0).parse file = .ok p → ∀ attempts proxy,
      EventLoop.connectToBusinessServer p.config attempts = .ok proxy →
      ∀ location ∈ p.server.locations, location ≠ [] →
        TcpConnection.Reached proxy.tables.forwardingTable location := by
  intro hall
  have hrun : configures (oneBusiness (bytes "/")) (bytes "/") = true := by
    decide +kernel
  obtain ⟨p, proxy, hparse, hconnect, hlocation⟩ := exists_of_configures hrun
  have hreached := hall _ p hparse _ proxy hconnect _ hlocation (by decide +kernel)
  have hlength := (TcpConnection.reached_iff
    (contains_of_connectToBusinessServer hconnect hlocation)).mp hreached
  exact absurd hlength.1 (by decide +kernel)

end MicroBusiness
