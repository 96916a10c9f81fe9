import MicroBusiness.Positions
import MicroBusiness.TcpConnection
import MicroBusiness.HttpResponse

/-!
# The positions of the proxy

`do_server2client`, `parse_request_line`, `find_forward_path` and
`do_client2server` keep every position of a string in an `int`, compute with
it, compare it with `string::npos` and pass it to `substr`, `insert` and
`operator[]`. The functions of this module are these four once more, with the
`int`s of the source and with operations that check their position.

On a buffer shorter than `2 ^ 31` bytes none of the checks fails, and each of the
functions computes what its counterpart over natural numbers and failed
searches computes. Every position in a request line is one below its length;
the scan for a location goes down from the last byte of the path, and ends below
zero when no slash is left.

A buffer of `2 ^ 31 - 1` bytes that ends in `Client: ` makes `beg_pos + 1`
overflow; what that wraps to is behind the end of the buffer as well, and the
search from there fails. The scan for a location cuts off the part of the path
up to `pos + 1`, which has to be an `int` for that: a location that is found is
shorter than `2 ^ 31` bytes, whatever the path
(`length_lt_of_checkedFindForwardPath`).
-/

namespace MicroBusiness

open Search Positions

namespace TcpConnection

/-- The client a buffer names, as `do_server2client` cuts it out. -/
def checkedClientOf (buf : Bytes) : Except Misuse (Option Bytes) := do
  let begPos ← store (findSub clientKey buf)
  if toSize begPos = npos then .ok none
  else
    let begPos := wrap (begPos + 8)
    let endPos ← store (findFrom lf (toSize (wrap (begPos + 1))) buf)
    if toSize endPos = npos then .ok none
    else
      let client ← Positions.substr buf (toSize begPos) (toSize (wrap (endPos - begPos - 1)))
      .ok (some client)

/-- `do_server2client`. -/
def checkedDoServer2client (t : Tables) (conn : TcpConnection) (io : Recvs) :
    Except Misuse (Except Fault (Tables × TcpConnection × List Effect)) := do
  let (isOpen, buf) := readn io conn.readBuf
  let t := if isOpen then t else forgetServer t conn.sock
  match ← checkedClientOf buf with
  | none => .ok (.ok (t, { conn with readBuf := buf }, []))
  | some client =>
    match t.clientTable[client]? with
    | none => .ok (.ok (t, { conn with readBuf := buf }, []))
    | some fd =>
      match t.clientConns[fd]? with
      | none => .ok (.error .nullPointer)
      | some ptr => .ok (.ok (t, { conn with readBuf := [] }, [.send ptr.fd buf]))

/-- The loop of `find_forward_path`, at most `fuel` times round. -/
def checkedFindForwardPathLoop (forwardingTable : StdMap Bytes (List Fd)) (path : Bytes) :
    ℕ → ℤ → Except Misuse (Option Bytes)
  | 0, _ => .error .endless
  | fuel + 1, pos =>
    if 0 < pos then do
      let behind ← succ pos
      let location ← Positions.substr path 0 (toSize behind)
      if forwardingTable.contains location then .ok (some location)
      else
        let b ← index path (toSize pos)
        if b = slash then
          checkedFindForwardPathLoop forwardingTable path fuel (wrap (pos - 1))
        else
          let pos ← store (findLast slash (path.take (toSize pos + 1)))
          checkedFindForwardPathLoop forwardingTable path fuel pos
    else .ok none

/-- `find_forward_path`. The size of an empty path, minus one, is stored as minus
one. -/
def checkedFindForwardPath (forwardingTable : StdMap Bytes (List Fd)) (path : Bytes) :
    Except Misuse (Option Bytes) :=
  checkedFindForwardPathLoop forwardingTable path (path.length + 1) (wrap (pred path.length))

/-- `parse_request_line`. -/
def checkedParseRequestLine (forwardingTable : StdMap Bytes (List Fd)) (conn : TcpConnection)
    (line : Bytes) : Except Misuse (HttpCode × TcpConnection) := do
  let line ← Positions.substr line 0 (pred line.length)
  let blankPos1 ← store (line.idxOf? blank)
  if toSize blankPos1 = npos then .ok (.badRequest, conn)
  else
    let method ← Positions.substr line 0 (toSize blankPos1)
    if method ≠ bytes "GET" ∧ method ≠ bytes "POST" then .ok (.badRequest, conn)
    else
      let blankPos2 ← store (findLast blank line)
      if blankPos2 = blankPos1 then .ok (.badRequest, conn)
      else
        let path ← Positions.substr line (toSize (wrap (blankPos1 + 1)))
          (toSize (wrap (blankPos2 - blankPos1 - 1)))
        match ← checkedFindForwardPath forwardingTable path with
        | none => .ok (.badRequest, { conn with path })
        | some businessCode =>
          let protocol ← Positions.substr line (toSize (wrap (blankPos2 + 1))) npos
          if protocol ≠ bytes "HTTP/1.1" ∧ protocol ≠ bytes "HTTP/1.0" then
            .ok (.badRequest, { conn with path, businessCode })
          else .ok (.getRequest, { conn with path, businessCode })

/-- The message with the client line inserted, as `do_client2server` does it. -/
def checkedInsertClient (addr : InetAddress) (message : Bytes) : Except Misuse Bytes := do
  let headerPos ← store (message.idxOf? lf)
  Positions.insert message (toSize (wrap (headerPos + 1))) (clientLine addr)

/-- `do_client2server`. -/
def checkedDoClient2server (json : JsonWriter) (t : Tables) (conn : TcpConnection) (io : Recvs) :
    Except Misuse (Except Fault (Tables × TcpConnection × List Effect)) := do
  let (isOpen, buf) := readn io conn.readBuf
  let conn := { conn with readBuf := buf }
  if isOpen then
    match ← checkedParseRequestLine t.forwardingTable conn (getline buf) with
    | (.badRequest, conn) => .ok (.ok (t, conn, [notFound json]))
    | (.getRequest, conn) =>
      let message ← checkedInsertClient conn.peerAddr buf
      match t.forwardingTable[conn.businessCode]?.getD [] with
      | [] => .ok (.ok (t, conn, [notFound json]))
      | fd :: _ =>
        match t.serverConns[fd]? with
        | none => .ok (.error .nullPointer)
        | some ptr => .ok (.ok (t, { conn with readBuf := [] }, [.send ptr.fd message]))
  else .ok (.ok (forgetClient t conn.sock conn.peerAddr, conn, []))

/-! ## What the checks establish -/

theorem le_length_of_findSub_clientKey {buf : Bytes} {pos : ℕ}
    (h : findSub clientKey buf = some pos) : pos + 8 ≤ buf.length := by
  obtain ⟨l, t, rfl, rfl⟩ := exists_of_findSub_eq_some h
  have hkey : clientKey.length = 8 := rfl
  simp only [List.length_append, hkey]
  omega

/-- **The client is cut out of the buffer.** -/
theorem checkedClientOf_eq {buf : Bytes} (hlen : buf.length < 2 ^ 31) :
    checkedClientOf buf = .ok (clientOf buf) := by
  have hbeg : ∀ i, findSub clientKey buf = some i → i < 2 ^ 31 := by
    intro i hi
    have hle := le_length_of_findSub_clientKey hi
    omega
  unfold checkedClientOf clientOf
  rw [store_eq hbeg, ok_bind]
  cases hfound : findSub clientKey buf with
  | none => exact if_pos toSize_stored_none
  | some pos =>
    have hle := le_length_of_findSub_clientKey hfound
    have hadd : wrap (stored (some pos) + 8) = ((pos + 8 : ℕ) : ℤ) := by
      rw [stored, wrap_eq_self (by omega) (by omega)]
      omega
    have hfrom : findFrom lf (toSize (wrap (((pos + 8 : ℕ) : ℤ) + 1))) buf
        = findFrom lf (pos + 8 + 1) buf := by
      show findFrom lf (toSize (wrap ((pos + 8 + 1 : ℕ) : ℤ))) buf = _
      rcases Nat.lt_or_ge (pos + 8 + 1) (2 ^ 31) with hlt | hge
      · rw [toSize_wrap hlt]
      · -- `beg_pos + 1` overflows
        have hwrap := le_toSize_wrap (n := pos + 8 + 1) (by omega)
        rw [findFrom_of_length_le (by omega), findFrom_of_length_le (by omega)]
    have hend : ∀ i, findFrom lf (pos + 8 + 1) buf = some i → i < 2 ^ 31 := by
      intro i hi
      have hbounds := findFrom_bounds hi
      omega
    rw [if_neg (toSize_stored_some (hbeg pos hfound))]
    dsimp only
    rw [hadd, hfrom, store_eq hend, ok_bind]
    cases hcut : findFrom lf (pos + 8 + 1) buf with
    | none => exact if_pos toSize_stored_none
    | some e =>
      obtain ⟨hpe, he⟩ := findFrom_bounds hcut
      have hsub : (stored (some e) - ((pos + 8 : ℕ) : ℤ) - 1) = ((e - (pos + 8) - 1 : ℕ) : ℤ) := by
        rw [stored]
        omega
      rw [if_neg (toSize_stored_some (hend e hcut)), hsub, toSize_wrap (by omega),
        toSize_natCast (by omega), substr_eq hle, ok_bind]
      rfl

theorem checkedFindForwardPathLoop_of_nonpos (forwardingTable : StdMap Bytes (List Fd))
    (path : Bytes) (fuel : ℕ) {pos : ℤ} (h : pos ≤ 0) :
    checkedFindForwardPathLoop forwardingTable path (fuel + 1) pos = .ok none :=
  if_neg (by omega)

/-- **One round of the scan**, at a position of the path: the part up to it is looked
up, and the next position is in front of the slash, or at the last slash in front. -/
theorem checkedFindForwardPathLoop_succ (forwardingTable : StdMap Bytes (List Fd)) {path : Bytes}
    (hlen : path.length < 2 ^ 31) (fuel : ℕ) {pos : ℕ} (hpos : 0 < pos) (hlt : pos < path.length) :
    checkedFindForwardPathLoop forwardingTable path (fuel + 1) pos
      = if forwardingTable.contains (path.take (pos + 1)) then .ok (some (path.take (pos + 1)))
        else if path[pos]? = some slash then
          checkedFindForwardPathLoop forwardingTable path fuel ((pos - 1 : ℕ) : ℤ)
        else
          checkedFindForwardPathLoop forwardingTable path fuel
            (stored (findLast slash (path.take (pos + 1)))) := by
  have hpred : wrap ((pos : ℤ) - 1) = ((pos - 1 : ℕ) : ℤ) := by
    rw [wrap_eq_self (by omega) (by omega)]
    omega
  have hlast : ∀ i, findLast slash (path.take (pos + 1)) = some i → i < 2 ^ 31 := by
    intro i hi
    have hlast := lt_length_of_findLast hi
    rw [List.length_take] at hlast
    omega
  have hget : path[pos]? = some path[pos] := List.getElem?_eq_getElem hlt
  have hindex : index path pos = .ok path[pos] := by
    unfold index
    rw [hget]
  rw [checkedFindForwardPathLoop, if_pos (by omega), succ_eq (by omega), ok_bind,
    toSize_natCast (by omega), substr_eq (Nat.zero_le _), ok_bind, List.drop_zero,
    toSize_natCast (by omega), hindex, ok_bind, hpred, hget, store_eq hlast, ok_bind]
  simp only [Option.some.injEq]

/-- **The scan of the path stays inside it**, and finds what it finds. -/
theorem checkedFindForwardPathLoop_eq (forwardingTable : StdMap Bytes (List Fd)) {path : Bytes}
    (hlen : path.length < 2 ^ 31) {pos fuel : ℕ} (hpos : pos < path.length) (hfuel : pos < fuel) :
    checkedFindForwardPathLoop forwardingTable path fuel pos
      = .ok (findForwardPathLoop forwardingTable path pos) := by
  obtain ⟨fuel, rfl⟩ := Nat.exists_eq_succ_of_ne_zero (Nat.ne_zero_of_lt hfuel)
  induction pos using findForwardPathLoop.induct forwardingTable path generalizing fuel with
  | case1 pos hpos' hcontains =>
    rw [checkedFindForwardPathLoop_succ forwardingTable hlen fuel hpos' hpos, if_pos hcontains,
      findForwardPathLoop, if_pos hpos', if_pos hcontains]
  | case2 pos hpos' hcontains hslash ih =>
    rw [checkedFindForwardPathLoop_succ forwardingTable hlen fuel hpos' hpos, if_neg hcontains,
      if_pos hslash, findForwardPathLoop, if_pos hpos', if_neg hcontains, dif_pos hslash]
    obtain ⟨fuel, rfl⟩ : ∃ n, fuel = n + 1 := Nat.exists_eq_succ_of_ne_zero (by omega)
    exact ih (by omega) fuel (by omega)
  | case3 pos hpos' hcontains hslash hnone =>
    rw [checkedFindForwardPathLoop_succ forwardingTable hlen fuel hpos' hpos, if_neg hcontains,
      if_neg hslash, hnone, findForwardPathLoop, if_pos hpos', if_neg hcontains, dif_neg hslash]
    obtain ⟨fuel, rfl⟩ : ∃ n, fuel = n + 1 := Nat.exists_eq_succ_of_ne_zero (by omega)
    rw [checkedFindForwardPathLoop_of_nonpos forwardingTable path fuel (by decide)]
    split
    · rfl
    · next hsome =>
      rw [hnone] at hsome
      cases hsome
  | case4 pos hpos' hcontains hslash pos' hsome ih =>
    have hlt := lt_of_findLast_take hslash hsome
    rw [checkedFindForwardPathLoop_succ forwardingTable hlen fuel hpos' hpos, if_neg hcontains,
      if_neg hslash, hsome, findForwardPathLoop, if_pos hpos', if_neg hcontains, dif_neg hslash]
    obtain ⟨fuel, rfl⟩ : ∃ n, fuel = n + 1 := Nat.exists_eq_succ_of_ne_zero (by omega)
    split
    · next hnone =>
      rw [hsome] at hnone
      cases hnone
    · next hsome' =>
      rw [hsome] at hsome'
      cases hsome'
      exact ih (by omega) fuel (by omega)
  | case5 pos hpos' =>
    rw [checkedFindForwardPathLoop_of_nonpos forwardingTable path fuel (by omega),
      findForwardPathLoop, if_neg hpos']

/-- **The location of a path is looked up.** -/
theorem checkedFindForwardPath_eq (forwardingTable : StdMap Bytes (List Fd)) {path : Bytes}
    (hlen : path.length < 2 ^ 31) :
    checkedFindForwardPath forwardingTable path = .ok (findForwardPath forwardingTable path) := by
  unfold checkedFindForwardPath findForwardPath
  cases path with
  | nil =>
    rw [show wrap (pred ([] : Bytes).length) = -1 by decide,
      checkedFindForwardPathLoop_of_nonpos forwardingTable [] _ (by decide), List.length_nil,
      findForwardPathLoop, if_neg (by omega)]
  | cons b path =>
    have hpos : 0 < (b :: path).length := List.length_pos_iff.mpr (List.cons_ne_nil b path)
    rw [pred_eq hpos (by omega), wrap_eq_self (by omega) (by omega)]
    exact checkedFindForwardPathLoop_eq forwardingTable hlen (by omega) (by omega)

/-- A path whose length minus one is stored as no position above zero is not
scanned at all. -/
theorem checkedFindForwardPath_of_nonpos (forwardingTable : StdMap Bytes (List Fd)) {path : Bytes}
    (h : wrap (pred path.length) ≤ 0) :
    checkedFindForwardPath forwardingTable path = .ok none :=
  checkedFindForwardPathLoop_of_nonpos forwardingTable path path.length h

/-- **A location that is found is shorter than `2 ^ 31` bytes**, as the number of
its bytes has been an `int`. -/
theorem length_lt_of_checkedFindForwardPath {forwardingTable : StdMap Bytes (List Fd)}
    {path location : Bytes}
    (h : checkedFindForwardPath forwardingTable path = .ok (some location)) :
    location.length < 2 ^ 31 := by
  unfold checkedFindForwardPath at h
  generalize path.length + 1 = fuel at h
  generalize wrap (pred path.length) = pos at h
  -- the induction follows the rounds of the loop
  induction fuel generalizing pos with
  | zero => cases h
  | succ fuel ih =>
    rw [checkedFindForwardPathLoop] at h
    split at h
    · unfold succ at h
      split at h
      · next hpos hfits =>
        rw [ok_bind, substr_eq (Nat.zero_le _), ok_bind] at h
        split at h
        · cases h
          have hbehind : toSize (pos + 1) < 2 ^ 31 := by
            unfold toSize
            norm_num at hfits ⊢
            omega
          rw [List.drop_zero]
          exact (List.length_take_le _ _).trans_lt hbehind
        · obtain ⟨b, hb⟩ | ⟨e, he⟩ : (∃ b, index path (toSize pos) = .ok b)
              ∨ ∃ e, index path (toSize pos) = .error e := by
            cases index path (toSize pos) with
            | ok b => exact Or.inl ⟨b, rfl⟩
            | error e => exact Or.inr ⟨e, rfl⟩
          · rw [hb, ok_bind] at h
            split at h
            · exact ih _ h
            · obtain ⟨z, hz⟩ | ⟨e, he⟩ : (∃ z, store (findLast slash
                  (path.take (toSize pos + 1))) = .ok z)
                  ∨ ∃ e, store (findLast slash (path.take (toSize pos + 1))) = .error e := by
                cases store (findLast slash (path.take (toSize pos + 1))) with
                | ok z => exact Or.inl ⟨z, rfl⟩
                | error e => exact Or.inr ⟨e, rfl⟩
              · rw [hz, ok_bind] at h
                exact ih _ h
              · rw [he] at h
                cases h
          · rw [he] at h
            cases h
      · cases h
    · cases h

theorem le_of_idxOf?_of_findLast {line : Bytes} {i j : ℕ} (hi : line.idxOf? blank = some i)
    (hj : findLast blank line = some j) : i ≤ j := by
  by_contra hlt
  exact getElem?_ne_of_findLast hj (not_le.mp hlt) (getElem?_of_idxOf? hi)

/-- **The request line is cut at positions it has.** -/
theorem checkedParseRequestLine_eq (forwardingTable : StdMap Bytes (List Fd))
    (conn : TcpConnection) {line : Bytes} (hlen : line.length < 2 ^ 31) :
    checkedParseRequestLine forwardingTable conn line
      = .ok (parseRequestLine forwardingTable conn line) := by
  have hlen' : line.dropLast.length < 2 ^ 31 := by
    rw [List.length_dropLast]
    omega
  unfold checkedParseRequestLine parseRequestLine
  rw [substr_pred (by unfold npos; omega), ok_bind]
  generalize line.dropLast = line at hlen'
  dsimp only
  rw [store_eq (fun i hi => (lt_length_of_idxOf? hi).trans hlen'), ok_bind]
  cases hi : line.idxOf? blank with
  | none => exact if_pos toSize_stored_none
  | some i =>
    have hi' := lt_length_of_idxOf? hi
    rw [if_neg (toSize_stored_some (hi'.trans hlen')), stored, toSize_natCast (by omega),
      substr_eq (Nat.zero_le _), List.drop_zero, ok_bind]
    dsimp only
    by_cases hmethod : line.take i ≠ bytes "GET" ∧ line.take i ≠ bytes "POST"
    · rw [if_pos hmethod, if_pos hmethod]
    · rw [if_neg hmethod, if_neg hmethod,
        store_eq (fun j hj => (lt_length_of_findLast hj).trans hlen'), ok_bind]
      cases hj : findLast blank line with
      | none =>
        -- there is a blank
        obtain ⟨l, t, rfl, -⟩ := idxOf?_eq_some_iff.mp hi
        exact absurd (List.mem_append_right l List.mem_cons_self) (findLast_eq_none_iff.mp hj)
      | some j =>
        have hj' := lt_length_of_findLast hj
        have hle := le_of_idxOf?_of_findLast hi hj
        rw [stored]
        dsimp only
        by_cases hsame : j = i
        · rw [if_pos (congrArg Nat.cast hsame), if_pos hsame]
        · have hsub : (j : ℤ) - i - 1 = ((j - i - 1 : ℕ) : ℤ) := by omega
          have hpath : ((line.drop (i + 1)).take (j - i - 1)).length < 2 ^ 31 := by
            rw [List.length_take, List.length_drop]
            omega
          rw [if_neg (by omega : ¬ (j : ℤ) = i), if_neg hsame, hsub, toSize_wrap (by omega),
            toSize_wrap_succ (by omega), substr_eq (by omega), ok_bind,
            checkedFindForwardPath_eq forwardingTable hpath, ok_bind]
          unfold MicroBusiness.substr
          cases findForwardPath forwardingTable ((line.drop (i + 1)).take (j - i - 1)) with
          | none => rfl
          | some businessCode =>
            dsimp only
            rw [toSize_wrap_succ (by omega),
              substr_npos (by omega) (by unfold npos; omega), ok_bind]
            split <;> rfl

/-- **The client line is inserted inside the message, or in front of it.** -/
theorem checkedInsertClient_eq (addr : InetAddress) {message : Bytes}
    (hlen : message.length < 2 ^ 31) :
    checkedInsertClient addr message = .ok (insertClient addr message) := by
  unfold checkedInsertClient insertClient
  rw [store_eq (fun i hi => (lt_length_of_idxOf? hi).trans hlen), ok_bind]
  cases hi : message.idxOf? lf with
  | none =>
    rw [show toSize (wrap (stored none + 1)) = 0 by decide, insert_eq (Nat.zero_le _)]
    rfl
  | some i =>
    have hi' := lt_length_of_idxOf? hi
    rw [stored, toSize_wrap_succ (by omega), insert_eq (by omega)]

/-- What `getline` reads is not longer than the text. -/
theorem length_getline_le (s : Bytes) : (getline s).length ≤ s.length :=
  (List.takeWhile_sublist _).length_le

/-- **A task for a client runs on positions its buffer has.** -/
theorem checkedDoClient2server_eq (json : JsonWriter) (t : Tables) (conn : TcpConnection)
    (io : Recvs) (hlen : (readn io conn.readBuf).2.length < 2 ^ 31) :
    checkedDoClient2server json t conn io = .ok (doClient2server json t conn io) := by
  unfold checkedDoClient2server doClient2server
  generalize readn io conn.readBuf = r at hlen ⊢
  obtain ⟨isOpen, buf⟩ := r
  dsimp only at hlen ⊢
  cases isOpen with
  | false => rfl
  | true =>
    have hline := (length_getline_le buf).trans_lt hlen
    rw [if_pos rfl, if_pos rfl, checkedParseRequestLine_eq _ _ hline, ok_bind]
    generalize parseRequestLine t.forwardingTable { conn with readBuf := buf } (getline buf) = r
    obtain ⟨code, conn'⟩ := r
    cases code with
    | badRequest => rfl
    | getRequest =>
      dsimp only
      rw [checkedInsertClient_eq conn'.peerAddr hlen, ok_bind]
      cases t.forwardingTable[conn'.businessCode]?.getD [] with
      | nil => rfl
      | cons fd fds =>
        dsimp only
        cases t.serverConns[fd]? with
        | none => rfl
        | some ptr => rfl

/-- **A task for a backend runs on positions its buffer has.** -/
theorem checkedDoServer2client_eq (t : Tables) (conn : TcpConnection) (io : Recvs)
    (hlen : (readn io conn.readBuf).2.length < 2 ^ 31) :
    checkedDoServer2client t conn io = .ok (doServer2client t conn io) := by
  unfold checkedDoServer2client doServer2client
  generalize readn io conn.readBuf = r at hlen ⊢
  obtain ⟨isOpen, buf⟩ := r
  dsimp only at hlen ⊢
  rw [checkedClientOf_eq hlen, ok_bind]
  cases clientOf buf with
  | none => rfl
  | some client =>
    dsimp only
    cases (if isOpen = true then t else forgetServer t conn.sock).clientTable[client]? with
    | none => rfl
    | some fd =>
      dsimp only
      cases (if isOpen = true then t else forgetServer t conn.sock).clientConns[fd]? with
      | none => rfl
      | some ptr => rfl

/-- The only way for a task not to return is a null pointer. -/
theorem eq_nullPointer_of_doClient2server {json : JsonWriter} {t : Tables} {conn : TcpConnection}
    {io : Recvs} {e : Fault} (h : doClient2server json t conn io = .error e) :
    e = .nullPointer := by
  unfold doClient2server at h
  dsimp only at h
  split at h
  · split at h
    · cases h
    · split at h
      · cases h
      · split at h
        · cases h
          rfl
        · cases h
  · cases h

@[inherit_doc eq_nullPointer_of_doClient2server]
theorem eq_nullPointer_of_doServer2client {t : Tables} {conn : TcpConnection} {io : Recvs}
    {e : Fault} (h : doServer2client t conn io = .error e) : e = .nullPointer := by
  unfold doServer2client at h
  dsimp only at h
  split at h
  · cases h
  · split at h
    · cases h
    · split at h
      · cases h
        rfl
      · cases h

/-- **No bad index in the proxy.** Whatever is in the buffer after a read, and whatever
the tables hold: a task for a client and a task for a backend use only positions
that their strings have, each `int` that a search is stored in tells whether it
failed, the scan for a location ends, and what the tasks compute is what they
compute over natural numbers. No `std::out_of_range` leaves them. -/
theorem positions_inside (json : JsonWriter) (t : Tables) (conn : TcpConnection) (io : Recvs)
    (hlen : (readn io conn.readBuf).2.length < 2 ^ 31) :
    (checkedDoClient2server json t conn io = .ok (doClient2server json t conn io)
        ∧ doClient2server json t conn io ≠ .error .outOfRange)
      ∧ checkedDoServer2client t conn io = .ok (doServer2client t conn io)
        ∧ doServer2client t conn io ≠ .error .outOfRange := by
  refine ⟨⟨checkedDoClient2server_eq json t conn io hlen, fun h => ?_⟩,
    checkedDoServer2client_eq t conn io hlen, fun h => ?_⟩
  · cases eq_nullPointer_of_doClient2server h
  · cases eq_nullPointer_of_doServer2client h

/-- A buffer that ends with the text in front of a client. -/
theorem positions_inside_clientKey :
    (checkedDoClient2server silentWriter deployment { clientLinkA with readBuf := clientKey }
          ⟨[], .wouldBlock⟩
        = .ok (doClient2server silentWriter deployment { clientLinkA with readBuf := clientKey }
          ⟨[], .wouldBlock⟩)
        ∧ doClient2server silentWriter deployment { clientLinkA with readBuf := clientKey }
          ⟨[], .wouldBlock⟩ ≠ .error .outOfRange)
      ∧ checkedDoServer2client deployment { clientLinkA with readBuf := clientKey }
          ⟨[], .wouldBlock⟩
        = .ok (doServer2client deployment { clientLinkA with readBuf := clientKey }
          ⟨[], .wouldBlock⟩)
        ∧ doServer2client deployment { clientLinkA with readBuf := clientKey }
          ⟨[], .wouldBlock⟩ ≠ .error .outOfRange :=
  positions_inside silentWriter deployment { clientLinkA with readBuf := clientKey }
    ⟨[], .wouldBlock⟩ (by decide)

/-! ## The client of a response -/

/-- **Cutting out the client undoes writing it.** From the bytes of a response that
is addressed to a client, whatever the client is, `do_server2client` cuts out
exactly this client: the first `Client: ` is the one of the header, the search for
its end starts one byte into the value or its line end, and the byte in front of
the line feed is the carriage return. -/
theorem checkedClientOf_appendToBuffer {r : HttpResponse} {client : Bytes}
    (h : AddressedTo r client) (hclient : lf ∉ client)
    (hlen : r.appendToBuffer.length < 2 ^ 31) :
    checkedClientOf r.appendToBuffer = .ok (some client) := by
  rw [checkedClientOf_eq hlen]
  obtain ⟨head, tail, happend, hhead⟩ := appendToBuffer_eq_of_addressedTo h
  rw [happend, clientOf_append tail hhead hclient]

/-- A response to nobody, with a client header in its body. -/
theorem checkedClientOf_appendToBuffer_nil :
    checkedClientOf (HttpResponse.appendToBuffer
        { headers := ((∅ : StdMap Bytes Bytes).insert (bytes "Content-Type")
            (bytes "text/plain")).insert (bytes "Client") []
          statusCode := .k404NotFound
          statusMessage := bytes "Not Found"
          closeConnection := true
          body := bytes "Client: 10.0.0.1:1000\r\n" })
      = .ok (some []) :=
  checkedClientOf_appendToBuffer ⟨⟨bytes "text/plain", rfl⟩, by decide +kernel⟩ (by decide)
    (by decide +kernel)

end TcpConnection

end MicroBusiness
