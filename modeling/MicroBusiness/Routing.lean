import MicroBusiness.StringPositions

/-!
# Where a request path is routed

`find_forward_path` walks back through the path of a request, one position at
a time over a run of slashes and otherwise from slash to slash, and takes the
first part of the path up to its position that is a location.

What it is meant to find does not speak of positions. A **boundary prefix** of
a path is a prefix that ends where a segment ends: it is the path, or it ends
with the separator, or the separator comes next. The walk stops at the end of
every boundary prefix of two bytes or more, the longer before the shorter, and
nowhere else. So it finds the longest location that is one, whatever the
table (`checkedFindForward_longest`).

The position of the source is an `int`, and the walk starts at the size of the
path minus one. The walk is studied with a natural number in place of the `int`
(`findForwardPath`), which is the same on paths shorter than `2 ^ 31` bytes
(`checkedFindForwardPath_eq`). On a longer one the `int` starts below zero and
nothing is found, whatever the table (`checkedFindForward_of_lt`), so that the
bound belongs to the main result and not to the way it is proved
(`not_checkedFindForward_longest`).
-/

/-! ## Prefixes that end at a segment -/

namespace Segments

variable {α : Type*} {sep : α} {key path : List α}

/-- **A boundary prefix**: a prefix that ends where a segment of the path
ends. -/
def BoundaryPrefix (sep : α) (key path : List α) : Prop :=
  key <+: path ∧ (key = path ∨ key.getLast? = some sep ∨ path[key.length]? = some sep)

/-- A boundary prefix, told by the position of its last letter. -/
theorem boundaryPrefix_take_iff {pos : ℕ} (hpos : pos < path.length) :
    BoundaryPrefix sep (path.take (pos + 1)) path
      ↔ pos + 1 = path.length ∨ path[pos]? = some sep ∨ path[pos + 1]? = some sep := by
  have hlength : (path.take (pos + 1)).length = pos + 1 := by
    rw [List.length_take]
    omega
  have hwhole : path.take (pos + 1) = path ↔ pos + 1 = path.length := by
    constructor
    · intro h
      rw [← hlength, h]
    · intro h
      rw [h, List.take_length]
  have hlast : (path.take (pos + 1)).getLast? = path[pos]? := by
    rw [List.getLast?_eq_getElem?, hlength, List.getElem?_take, if_pos (by omega)]
    rfl
  unfold BoundaryPrefix
  rw [hwhole, hlast, hlength]
  exact and_iff_right (List.take_prefix _ _)

theorem eq_take_of_prefix (hkey : key <+: path) (hne : 1 ≤ key.length) :
    key.length - 1 < path.length ∧ key = path.take (key.length - 1 + 1) := by
  have hle := hkey.length_le
  refine ⟨by omega, ?_⟩
  rw [Nat.sub_add_cancel hne]
  exact List.prefix_iff_eq_take.mp hkey

theorem prefix_append_cons_iff {mark : α} (hkey : mark ∉ key) (path rest : List α) :
    key <+: path ++ mark :: rest ↔ key <+: path := by
  refine ⟨fun h => ?_, fun h => h.trans (List.prefix_append _ _)⟩
  rcases Nat.lt_or_ge path.length key.length with hlt | hle
  · have hmark : path ++ [mark] <+: path ++ mark :: rest := by simp
    have hin : path ++ [mark] <+: key :=
      List.prefix_of_prefix_length_le hmark h (by rw [List.length_append]; exact hlt)
    exact absurd (hin.subset (by simp)) hkey
  · exact List.prefix_of_prefix_length_le h (List.prefix_append _ _) hle

/-- **What a mark and a text behind the path change**: the path itself stays
a boundary prefix only if it ends with the separator. -/
theorem boundaryPrefix_append_cons_iff {mark : α} (hmark : mark ≠ sep) (hkey : mark ∉ key)
    (path rest : List α) :
    BoundaryPrefix sep key (path ++ mark :: rest)
      ↔ BoundaryPrefix sep key path ∧ (key = path → path.getLast? = some sep) := by
  unfold BoundaryPrefix
  rw [prefix_append_cons_iff hkey, and_assoc]
  refine and_congr_right fun hbegins => ?_
  have hwhole : key ≠ path ++ mark :: rest := by
    rintro rfl
    exact hkey (by simp)
  rw [or_iff_right hwhole]
  rcases hbegins.length_le.lt_or_eq with hlt | heq
  · have hne : key ≠ path := by
      rintro rfl
      exact hlt.false
    rw [List.getElem?_append_left hlt, or_iff_right hne]
    exact (and_iff_left (absurd · hne)).symm
  · obtain rfl := hbegins.eq_of_length heq
    rw [List.getElem?_append_right le_rfl, Nat.sub_self, List.getElem?_cons_zero,
      Option.some.injEq, or_iff_left hmark]
    exact ⟨fun h => ⟨Or.inl rfl, fun _ => h⟩, fun h => h.2 rfl⟩

/-- **Where no separator stands there is no boundary**, except at the end of
the path. -/
theorem not_boundaryPrefix_take {pos n : ℕ} (hpos : pos < path.length) (hn : n < pos)
    (hsep : ∀ i, n ≤ i → i ≤ pos → path[i]? ≠ some sep) :
    ¬ BoundaryPrefix sep (path.take (n + 1)) path := by
  rw [boundaryPrefix_take_iff (by omega)]
  rintro (hend | hlast | hnext)
  · omega
  · exact hsep n le_rfl (by omega) hlast
  · exact hsep (n + 1) (by omega) (by omega) hnext

end Segments

namespace MicroBusiness

open Search Positions

namespace TcpConnection

variable {forwardingTable : StdMap Bytes (List Fd)} {path : Bytes}

/-! ## The walk -/

/-- **A location a path may be routed to**: a boundary prefix of the path that
is longer than a slash. -/
structure RouteTo (forwardingTable : StdMap Bytes (List Fd)) (path key : Bytes) : Prop where
  listed : forwardingTable.contains key
  length : 2 ≤ key.length
  boundary : Segments.BoundaryPrefix slash key path

/-- **What is found up to a position**: the longest location that ends there
or before, or nothing when there is none. -/
def FoundUpTo (forwardingTable : StdMap Bytes (List Fd)) (path : Bytes) (pos : ℕ) :
    Option Bytes → Prop
  | none => ∀ key, RouteTo forwardingTable path key → pos + 1 < key.length
  | some key => RouteTo forwardingTable path key
      ∧ ∀ key', RouteTo forwardingTable path key' → key'.length ≤ pos + 1 →
        key'.length ≤ key.length

/-- A position no location ends at, and none between it and an earlier one,
adds nothing to what is found. -/
theorem FoundUpTo.extend {pos q : ℕ} {found : Option Bytes}
    (h : FoundUpTo forwardingTable path q found)
    (hskip : ∀ n, q < n → n ≤ pos → ¬ RouteTo forwardingTable path (path.take (n + 1))) :
    FoundUpTo forwardingTable path pos found := by
  have hshort : ∀ key, RouteTo forwardingTable path key → key.length ≤ pos + 1 →
      key.length ≤ q + 1 := by
    intro key hkey hle
    by_contra hlong
    obtain ⟨hlt, heq⟩ := Segments.eq_take_of_prefix hkey.boundary.1 (by omega)
    refine hskip (key.length - 1) (by omega) (by omega) ?_
    rw [← heq]
    exact hkey
  cases found with
  | none =>
    intro key hkey
    by_contra hle
    have := hshort key hkey (by omega)
    have := h key hkey
    omega
  | some key => exact ⟨h.1, fun key' hkey' hle => h.2 key' hkey' (hshort key' hkey' hle)⟩

/-- **Where the walk starts at the end of a segment**, it finds the longest
location up to there. The induction follows the loop: at a slash the position
before it is the end of a segment too, and otherwise the last slash is, with
no end of a segment between the two. -/
theorem foundUpTo_findForwardPathLoop {pos : ℕ} (hpos : pos < path.length)
    (hboundary : Segments.BoundaryPrefix slash (path.take (pos + 1)) path) :
    FoundUpTo forwardingTable path pos (findForwardPathLoop forwardingTable path pos) := by
  induction pos using findForwardPathLoop.induct forwardingTable path with
  | case1 pos hpos' hcontains =>
    -- the part up to the position is a location, and no prefix up to it is longer
    rw [findForwardPathLoop, if_pos hpos', if_pos hcontains]
    have hlength : (path.take (pos + 1)).length = pos + 1 := by
      rw [List.length_take]
      omega
    refine ⟨⟨hcontains, by omega, hboundary⟩, fun key _ hle => ?_⟩
    rw [hlength]
    exact hle
  | case2 pos hpos' hcontains hslash ih =>
    rw [findForwardPathLoop, if_pos hpos', if_neg hcontains, dif_pos hslash]
    -- the position in front of a slash ends a segment
    have hbefore : Segments.BoundaryPrefix slash (path.take (pos - 1 + 1)) path := by
      rw [Segments.boundaryPrefix_take_iff (by omega), Nat.sub_add_cancel hpos']
      exact Or.inr (Or.inr hslash)
    refine (ih (by omega) hbefore).extend fun n hlt hle hroute => hcontains ?_
    rw [show pos = n by omega]
    exact hroute.listed
  | case3 pos hpos' hcontains hslash hnone =>
    rw [findForwardPathLoop, if_pos hpos', if_neg hcontains, dif_neg hslash]
    split
    · -- no slash up to the position, so no segment ends before it
      intro key hkey
      by_contra hle
      have hlength := hkey.length
      obtain ⟨hlt, heq⟩ := Segments.eq_take_of_prefix hkey.boundary.1 (by omega)
      rw [heq] at hkey
      rcases Nat.lt_or_ge (key.length - 1) pos with hn | hn
      · refine Segments.not_boundaryPrefix_take hpos hn (fun i _ hi hmem => ?_) hkey.boundary
        refine findLast_eq_none_iff.mp hnone (List.mem_of_getElem? (i := i) ?_)
        rw [List.getElem?_take, if_pos (by omega)]
        exact hmem
      · rw [show key.length - 1 = pos by omega] at hkey
        exact hcontains hkey.listed
    · next hsome =>
      rw [hnone] at hsome
      cases hsome
  | case4 pos hpos' hcontains hslash q hq ih =>
    have hlt := lt_of_findLast_take hslash hq
    rw [findForwardPathLoop, if_pos hpos', if_neg hcontains, dif_neg hslash]
    split
    · next hnone =>
      rw [hq] at hnone
      cases hnone
    · next hsome =>
      rw [hq, Option.some.injEq] at hsome
      subst hsome
      -- the last slash in front of the position ends a segment, and between the two none ends
      have hend : Segments.BoundaryPrefix slash (path.take (q + 1)) path := by
        rw [Segments.boundaryPrefix_take_iff (by omega)]
        have hget := getElem?_of_findLast hq
        rw [List.getElem?_take, if_pos (by omega)] at hget
        exact Or.inr (Or.inl hget)
      refine (ih (by omega) hend).extend fun n hqn hle hroute => ?_
      rcases Nat.lt_or_ge n pos with hn | hn
      · refine Segments.not_boundaryPrefix_take hpos hn (fun i hi hi' hmem => ?_) hroute.boundary
        refine getElem?_ne_of_findLast hq (j := i) (by omega) ?_
        rw [List.getElem?_take, if_pos (by omega)]
        exact hmem
      · rw [show n = pos by omega] at hroute
        exact hcontains hroute.listed
  | case5 pos hpos' =>
    rw [findForwardPathLoop, if_neg hpos']
    intro key hkey
    have := hkey.length
    omega

/-- **The walk over a whole path finds the longest location.** -/
theorem foundUpTo_findForwardPath (forwardingTable : StdMap Bytes (List Fd)) (path : Bytes) :
    FoundUpTo forwardingTable path (path.length - 1) (findForwardPath forwardingTable path) := by
  cases path with
  | nil =>
    unfold findForwardPath
    rw [findForwardPathLoop, if_neg (by simp)]
    intro key hkey
    have := hkey.length
    simp only [List.length_nil]
    omega
  | cons b path =>
    refine foundUpTo_findForwardPathLoop (by simp) ?_
    rw [List.length_cons, Nat.add_sub_cancel, Segments.boundaryPrefix_take_iff (by simp)]
    exact Or.inl rfl

theorem RouteTo.length_le {key : Bytes} (h : RouteTo forwardingTable path key) :
    key.length ≤ path.length - 1 + 1 := by
  have hle := h.boundary.1.length_le
  omega

theorem findForwardPath_eq_none_iff :
    findForwardPath forwardingTable path = none ↔ ∀ key, ¬ RouteTo forwardingTable path key := by
  have hfound := foundUpTo_findForwardPath forwardingTable path
  cases hcode : findForwardPath forwardingTable path with
  | none =>
    rw [hcode] at hfound
    refine iff_of_true rfl fun key hkey => ?_
    exact absurd (hfound key hkey) (not_lt.mpr hkey.length_le)
  | some key =>
    rw [hcode] at hfound
    exact iff_of_false (by simp) fun h => h key hfound.1

/-- **What is found is the longest location to route to.** -/
theorem findForwardPath_eq_some_iff {key : Bytes} :
    findForwardPath forwardingTable path = some key
      ↔ RouteTo forwardingTable path key
        ∧ ∀ key', RouteTo forwardingTable path key' → key'.length ≤ key.length := by
  have hfound := foundUpTo_findForwardPath forwardingTable path
  cases hcode : findForwardPath forwardingTable path with
  | none =>
    refine iff_of_false (by simp) fun h => ?_
    exact findForwardPath_eq_none_iff.mp hcode key h.1
  | some found =>
    rw [hcode] at hfound
    have hlongest := fun key' hkey' => hfound.2 key' hkey' hkey'.length_le
    constructor
    · intro h
      cases h
      exact ⟨hfound.1, hlongest⟩
    · rintro ⟨hkey, hmax⟩
      -- two prefixes of one length are the same
      have hlength := (hlongest key hkey).antisymm (hmax found hfound.1)
      have hbegins := List.prefix_of_prefix_length_le hfound.1.boundary.1 hkey.boundary.1 hlength.ge
      rw [hbegins.eq_of_length hlength.symm]

theorem findForwardPath_self_iff :
    findForwardPath forwardingTable path = some path
      ↔ forwardingTable.contains path ∧ 2 ≤ path.length := by
  rw [findForwardPath_eq_some_iff]
  constructor
  · rintro ⟨hroute, -⟩
    exact ⟨hroute.listed, hroute.length⟩
  · rintro ⟨hlisted, hlength⟩
    refine ⟨⟨hlisted, hlength, List.prefix_refl path, Or.inl rfl⟩, fun key hkey => ?_⟩
    exact hkey.boundary.1.length_le

/-! ## The member function -/

/-- The member function `find_forward_path`, with the `int` position of the source:
whether the path of the connection has a location, which is then its business
code. -/
def checkedFindForward (forwardingTable : StdMap Bytes (List Fd)) (conn : TcpConnection) :
    Except Misuse (Bool × TcpConnection) := do
  match ← checkedFindForwardPath forwardingTable conn.path with
  | none => .ok (false, conn)
  | some businessCode => .ok (true, { conn with businessCode })

/-- What it returns on paths shorter than `2 ^ 31` bytes (`checkedFindForward_eq`). -/
def findForward (forwardingTable : StdMap Bytes (List Fd)) (conn : TcpConnection) :
    Bool × TcpConnection :=
  match findForwardPath forwardingTable conn.path with
  | none => (false, conn)
  | some businessCode => (true, { conn with businessCode })

theorem checkedFindForward_eq (forwardingTable : StdMap Bytes (List Fd)) (conn : TcpConnection)
    (hlen : conn.path.length < 2 ^ 31) :
    checkedFindForward forwardingTable conn = .ok (findForward forwardingTable conn) := by
  unfold checkedFindForward findForward
  rw [checkedFindForwardPath_eq forwardingTable hlen, ok_bind]
  cases findForwardPath forwardingTable conn.path <;> rfl

/-- **A path too long for an `int` has no location**: its size minus one, stored in
an `int`, is below zero, and the loop is not entered. -/
theorem checkedFindForward_of_lt (forwardingTable : StdMap Bytes (List Fd)) (conn : TcpConnection)
    (hlt : 2 ^ 31 < conn.path.length) (hle : conn.path.length ≤ 2 ^ 32) :
    checkedFindForward forwardingTable conn = .ok (false, conn) := by
  have hpos : wrap (pred conn.path.length) ≤ 0 := by
    rw [pred_eq (by omega) (by omega)]
    exact wrap_natCast_nonpos (by omega) (by omega)
  unfold checkedFindForward
  rw [checkedFindForwardPath_of_nonpos forwardingTable hpos]
  rfl

/-- `parse_request_line` on a line with two blanks stores the path, has it
looked up, and only then looks at the protocol. -/
theorem parseRequestLine_findForward (conn : TcpConnection) {line method protocol : Bytes}
    (hline : line.dropLast = method ++ blank :: (path ++ blank :: protocol))
    (hm : blank ∉ method) (hp : blank ∉ protocol)
    (hmethod : method = bytes "GET" ∨ method = bytes "POST") :
    parseRequestLine forwardingTable conn line
      = match findForward forwardingTable { conn with path } with
        | (false, conn) => (.badRequest, conn)
        | (true, conn) =>
          if protocol ≠ bytes "HTTP/1.1" ∧ protocol ≠ bytes "HTTP/1.0" then (.badRequest, conn)
          else (.getRequest, conn) := by
  rw [parseRequestLine_append conn hline hm hp, if_neg (by tauto), findForward]
  cases findForwardPath forwardingTable path with
  | none => rfl
  | some businessCode => rfl

/-- **Longest segment-prefix routing.** On a path shorter than `2 ^ 31` bytes
`find_forward_path` ends without misusing a position. It returns true exactly when
some location of two bytes or more is a boundary prefix of the path, the business
code is then the longest of these, and otherwise nothing changes. -/
theorem checkedFindForward_longest (forwardingTable : StdMap Bytes (List Fd))
    (conn : TcpConnection) (hlen : conn.path.length < 2 ^ 31) :
    ∃ result, checkedFindForward forwardingTable conn = .ok result
      ∧ (result.1 = true ↔ ∃ key, RouteTo forwardingTable conn.path key)
      ∧ ((∃ key, RouteTo forwardingTable conn.path key
          ∧ (∀ key', RouteTo forwardingTable conn.path key' → key'.length ≤ key.length)
          ∧ result = (true, { conn with businessCode := key }))
        ∨ result = (false, conn)) := by
  refine ⟨_, checkedFindForward_eq forwardingTable conn hlen, ?_⟩
  unfold findForward
  cases hcode : findForwardPath forwardingTable conn.path with
  | none =>
    have hnone := findForwardPath_eq_none_iff.mp hcode
    refine ⟨iff_of_false (by simp) ?_, Or.inr rfl⟩
    rintro ⟨key, hkey⟩
    exact hnone key hkey
  | some key =>
    obtain ⟨hroute, hlongest⟩ := findForwardPath_eq_some_iff.mp hcode
    exact ⟨iff_of_true rfl ⟨key, hroute⟩, Or.inl ⟨key, hroute, hlongest, rfl⟩⟩

/-- Nested locations, the inner one without a slash at its end. -/
def nestedLocations : StdMap Bytes (List Fd) :=
  ((∅ : StdMap Bytes (List Fd)).insert (bytes "/a/") []).insert (bytes "/a/b") []

/-- A path with a run of slashes is routed to the inner one. -/
example : findForwardPath nestedLocations (bytes "/a/b//c") = some (bytes "/a/b") := by
  decide +kernel

/-- The longest of the nested locations. -/
theorem checkedFindForward_longest_nested :
    ∃ result, checkedFindForward nestedLocations
          ⟨7, .client, ⟨127, 0, 0, 1, 50000⟩, [], bytes "/a/b//c", []⟩ = .ok result
      ∧ (result.1 = true ↔ ∃ key, RouteTo nestedLocations (bytes "/a/b//c") key)
      ∧ ((∃ key, RouteTo nestedLocations (bytes "/a/b//c") key
          ∧ (∀ key', RouteTo nestedLocations (bytes "/a/b//c") key' → key'.length ≤ key.length)
          ∧ result = (true, ⟨7, .client, ⟨127, 0, 0, 1, 50000⟩, [], bytes "/a/b//c", key⟩))
        ∨ result = (false, ⟨7, .client, ⟨127, 0, 0, 1, 50000⟩, [], bytes "/a/b//c", []⟩)) :=
  checkedFindForward_longest nestedLocations
    ⟨7, .client, ⟨127, 0, 0, 1, 50000⟩, [], bytes "/a/b//c", []⟩ (by decide +kernel)

/-- A table with one location and one backend. -/
def oneLocation (location : Bytes) : StdMap Bytes (List Fd) :=
  (∅ : StdMap Bytes (List Fd)).insert location [4]

theorem contains_oneLocation_iff {location key : Bytes} :
    (oneLocation location).contains key ↔ key = location := by
  rw [contains_iff_exists]
  unfold oneLocation
  simp only [getElem?_insert_ite]
  split
  · next heq => simp [heq]
  · next hne => simp [Ne.symm hne]

/-- **A location followed by too much is not found.** The path has the location as a
boundary prefix, and `n` bytes more. -/
theorem checkedFindForward_replicate (conn : TcpConnection) (location : Bytes) (n : ℕ)
    (hlength : 2 ≤ location.length) (hslash : location.getLast? = some slash)
    (hlt : 2 ^ 31 < location.length + n) (hle : location.length + n ≤ 2 ^ 32) :
    checkedFindForward (oneLocation location)
        { conn with path := location ++ List.replicate n 97 }
      = .ok (false, { conn with path := location ++ List.replicate n 97 })
    ∧ RouteTo (oneLocation location) (location ++ List.replicate n 97) location := by
  refine ⟨checkedFindForward_of_lt _ _ ?_ ?_, contains_oneLocation_iff.mpr rfl, hlength,
    List.prefix_append _ _, Or.inr (Or.inl hslash)⟩
  · simpa using hlt
  · simpa using hle

/-- **On longer paths the longest location is not always found**: here on the
location `/10001/` with `2 ^ 31 - 6` letters behind it. -/
theorem not_checkedFindForward_longest :
    ¬ ∀ (forwardingTable : StdMap Bytes (List Fd)) (conn : TcpConnection),
      ∃ result, checkedFindForward forwardingTable conn = .ok result
        ∧ (result.1 = true ↔ ∃ key, RouteTo forwardingTable conn.path key) := by
  intro hall
  have hlength : (bytes "/10001/").length = 7 := by
    decide +kernel
  obtain ⟨hfalse, hroute⟩ := checkedFindForward_replicate
    ⟨7, .client, ⟨127, 0, 0, 1, 50000⟩, [], [], []⟩ (bytes "/10001/") (2 ^ 31 - 6) (by omega)
    (by decide +kernel) (by omega) (by omega)
  obtain ⟨result, hresult, hiff⟩ := hall _ _
  rw [hfalse] at hresult
  cases hresult
  exact absurd (hiff.mpr ⟨_, hroute⟩) (by simp)

end TcpConnection

end MicroBusiness
