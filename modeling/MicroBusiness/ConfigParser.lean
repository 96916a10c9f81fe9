import MicroBusiness.Fields
import MicroBusiness.Upstreams

/-!
# The parser of the configuration file

`class Parser` goes over the lines of a file. A line is trimmed, which also
cuts off what is behind a `#` or a `;`, and handled as the block it stands in
says: outside of all blocks, in the `server` block, in a `location` block in it,
or in an `upstream` block. Whether the `{` of a block has been there is a flag of
its own. The settings change as the lines are handled.

An `istringstream` is the list of its words. Where `>>` finds no word it leaves
the string it reads into as it is.
-/

namespace MicroBusiness

open Fields

/-- `enum CONFIG_CODE`. -/
inductive ConfigCode
  | begain | server | upstream | location
  deriving DecidableEq, Repr

/-- `enum LINE_STATUS`. -/
inductive LineStatus
  | ok | bad
  deriving DecidableEq, Repr

/-- `struct Server`. -/
structure ServerConfig where
  listen : ℤ
  serverName : Bytes := []
  locations : StdMap Bytes Location := ∅
  deriving DecidableEq

/-- What a file sets: the public members of `class Parser`. -/
structure Settings where
  server : ServerConfig
  upstreams : StdMap Bytes Upstream := ∅
  threadNum : ℤ
  queSize : ℤ
  deriving DecidableEq

/-- `class Parser`. -/
structure Parser extends Settings where
  curLocation : Bytes := []
  curUpstream : Bytes := []
  checkState : ConfigCode := .begain
  lineState : LineStatus := .ok
  serverLeftBracket : Bool := false
  locationLeftBracket : Bool := false
  upstreamLeftBracket : Bool := false
  deriving DecidableEq

/-- What `parse` throws. -/
inductive ParseError
  /-- An exception of `std::stoi`. -/
  | fault (e : Fault)
  | runtimeError (message : Bytes)
  deriving DecidableEq, Repr

/-- `"\x7b"`. -/
def leftBracket : Bytes := [123]

/-- `"\x7d"`. -/
def rightBracket : Bytes := [125]

/-- The words of a stream: what `iss >> word` reads one after the other. -/
def words (s : Bytes) : List Bytes := fields isspace s

/-- The lines of a file, as `std::getline` reads them. -/
def lines (s : Bytes) : List Bytes := records (· == 10) s

namespace Parser

/-- A new `Parser`. The numbers are not initialised. -/
def new (listen threadNum queSize : ℤ) : Parser where
  server := { listen }
  threadNum
  queSize

/-- The letters of `" \\t\\n\\r"`. -/
def isBlank (b : UInt8) : Bool := b == 32 || b == 9 || b == 10 || b == 13

/-- The letters of `"#;"`. -/
def isNote (b : UInt8) : Bool := b == 35 || b == 59

/-- `trim`. -/
def trim (str : Bytes) : Bytes :=
  -- from `first` on, and in front of it is no `note`
  let str := str.dropWhile isBlank
  if str.any isNote then str.takeWhile (fun b => !isNote b)
  else (str.reverse.dropWhile (fun b => isBlank b || b == 35)).reverse

/-- `parse_bracket`, with what is left of the stream and the flag. -/
def parseBracket : List Bytes → Bool → LineStatus × List Bytes × Bool
  | [], bracket => (.ok, [], bracket)
  | word :: iss, bracket => if word = leftBracket then (.ok, iss, true) else (.bad, iss, bracket)

/-- `server.listen = std::stoi(word)`. -/
def setListen (p : Parser) (word : Bytes) : Except ParseError Parser :=
  match stoi word with
  | .error e => .error (.fault e)
  | .ok n => .ok { p with server := { p.server with listen := n } }

/-- `parse_server`, with the words that are left of the line. -/
def parseServer : Parser → List Bytes → Except ParseError (Parser × LineStatus)
  | p, [] => .ok (p, .ok)
  | p, word :: iss =>
    if p.serverLeftBracket = false then
      if word = leftBracket then parseServer { p with serverLeftBracket := true } iss
      else .error (.runtimeError (bytes "Expected '\x7b' after 'server' "))
    else if word = bytes "server_name" then
      match iss with
      | [] => .ok (p, .ok)
      | name :: iss => parseServer { p with server := { p.server with serverName := name } } iss
    else if word = bytes "listen" then
      match iss with
      | [] => (p.setListen word).map (·, .ok)
      | value :: iss =>
        match p.setListen value with
        | .error e => .error e
        | .ok p => parseServer p iss
    else if word = bytes "location" then
      let id := iss.headD []
      .ok ({ p with
        checkState := .location
        curLocation := id
        server := { p.server with locations := p.server.locations.insertIfNew id ⟨[]⟩ }
        -- the status that `parse_bracket` returns is not looked at
        locationLeftBracket := (parseBracket iss.tail p.locationLeftBracket).2.2 }, .ok)
    else if word = rightBracket then
      parseServer { p with serverLeftBracket := false, checkState := .begain } iss
    else .ok (p, .bad)

/-- `server.locations[curLocation].proxy_pass`, after a word has been read into
it. -/
def setProxyPass (p : Parser) (value : Bytes) : Parser :=
  { p with server := { p.server with
      locations := p.server.locations.insert p.curLocation ⟨value⟩ } }

/-- `parse_location`, with the words that are left of the line. -/
def parseLocation : Parser → List Bytes → Except ParseError (Parser × LineStatus)
  | p, [] => .ok (p, .ok)
  | p, word :: iss =>
    if p.locationLeftBracket = false then
      if word = leftBracket then parseLocation { p with locationLeftBracket := true } iss
      else .error (.runtimeError (bytes "Expected '\x7b' after 'location' name"))
    else if word = bytes "proxy_pass" then
      match iss with
      | [] =>
        -- `[]` makes an entry if there is none
        .ok (p.setProxyPass (p.server.locations[p.curLocation]?.getD ⟨[]⟩).proxyPass, .ok)
      | value :: iss => parseLocation (p.setProxyPass value) iss
    else if word = rightBracket then
      parseLocation { p with locationLeftBracket := false, checkState := .server } iss
    else .ok (p, .bad)

/-- `upstreams[curUpstream].servers.push_back({ip, port})`. -/
def pushServer (p : Parser) (ip port : Bytes) : Parser :=
  let servers := (p.upstreams[p.curUpstream]?.getD {}).servers
  { p with upstreams := p.upstreams.insert p.curUpstream ⟨servers ++ [(ip, port)]⟩ }

/-- `parse_upstream`, with the words that are left of the line. -/
def parseUpstream : Parser → List Bytes → Except ParseError (Parser × LineStatus)
  | p, [] => .ok (p, .ok)
  | p, word :: iss =>
    if p.upstreamLeftBracket = false then
      if word = leftBracket then parseUpstream { p with upstreamLeftBracket := true } iss
      else .error (.runtimeError (bytes "Expected '\x7b' after 'upstream' name"))
    else if word = bytes "server" then
      match iss with
      -- there is no colon in an empty string
      | [] => .ok (p, .bad)
      | ipPort :: iss =>
        match ipPort.idxOf? colon with
        | none => .ok (p, .bad)
        | some pos => parseUpstream (p.pushServer (ipPort.take pos) (ipPort.drop (pos + 1))) iss
    else if word = rightBracket then
      parseUpstream { p with upstreamLeftBracket := false, checkState := .begain } iss
    else .ok (p, .bad)

/-- The case `BEGAIN` of `parse`. The `word` is what was read last outside of all
blocks. -/
def parseBegain (p : Parser) (word : Bytes) (iss : List Bytes) :
    Except ParseError (Parser × Bytes) :=
  let word := iss.headD word
  let iss := iss.tail
  if word = bytes "threadNum" then
    let word := iss.headD word
    match stoi word with
    | .error e => .error (.fault e)
    | .ok n => .ok ({ p with threadNum := n }, word)
  else if word = bytes "queSize" then
    let word := iss.headD word
    match stoi word with
    | .error e => .error (.fault e)
    | .ok n => .ok ({ p with queSize := n }, word)
  else if word = bytes "server" then
    .ok ({ p with
      checkState := .server
      serverLeftBracket := (parseBracket iss p.serverLeftBracket).2.2 }, word)
  else if word = bytes "upstream" then
    let name := iss.headD []
    .ok ({ p with
      checkState := .upstream
      curUpstream := name
      upstreams := p.upstreams.insertIfNew name {}
      upstreamLeftBracket := (parseBracket iss.tail p.upstreamLeftBracket).2.2 }, word)
  else .error (.runtimeError (bytes "expected server or upstream block"))

/-- `line_state = …`, where a line of a block has been handled. -/
def handled (word : Bytes) :
    Except ParseError (Parser × LineStatus) → Except ParseError (Parser × Bytes)
  | .error e => .error e
  | .ok (p, status) => .ok ({ p with lineState := status }, word)

/-- The `switch` of `parse`, with the words of the line. -/
def parseWords (p : Parser) (word : Bytes) (iss : List Bytes) :
    Except ParseError (Parser × Bytes) :=
  match p.checkState with
  | .begain => p.parseBegain word iss
  | .server => handled word (p.parseServer iss)
  | .location => handled word (p.parseLocation iss)
  | .upstream => handled word (p.parseUpstream iss)

/-- The loop of `parse`. -/
def parseLines : Parser → Bytes → List Bytes → Except ParseError Parser
  | p, _, [] => .ok p
  | p, word, line :: lines =>
    if p.lineState = .bad then .ok p
    else
      let line := trim line
      if line = [] ∨ line.head? = some 35 then parseLines p word lines
      else
        match p.parseWords word (words line) with
        | .error e => .error e
        | .ok (p, word) => parseLines p word lines

/-- `parse`, of a file with this text. -/
def parse (p : Parser) (file : Bytes) : Except ParseError Parser :=
  match p.parseLines [] (lines file) with
  | .error e => .error e
  | .ok p =>
    if p.lineState ≠ .ok ∨ p.checkState ≠ .begain then
      .error (.runtimeError (bytes "Unexpected end of configuration file"))
    else .ok p

/-! ## What is left of a line -/

/-- What is in front of the first `#` or `;` of a line. -/
def cut (line : Bytes) : Bytes := line.takeWhile (fun b => !isNote b)

theorem isspace_of_isBlank {b : UInt8} (h : isBlank b) : isspace b := by
  unfold isBlank at h
  simp only [Bool.or_eq_true, beq_iff_eq] at h
  rcases h with ((rfl | rfl) | rfl) | rfl <;> decide

theorem isNote_of_isBlank {b : UInt8} (h : isBlank b) : isNote b = false := by
  unfold isBlank at h
  simp only [Bool.or_eq_true, beq_iff_eq] at h
  rcases h with ((rfl | rfl) | rfl) | rfl <;> decide

theorem cut_append {b : Bytes} (hb : ∀ a ∈ b, isBlank a) (s : Bytes) : cut (b ++ s) = b ++ cut s :=
  List.takeWhile_append_of_pos (fun a ha => by rw [isNote_of_isBlank (hb a ha)]; rfl)

theorem isNote_of_mem_cut {line : Bytes} {b : UInt8} (hb : b ∈ cut line) : isNote b = false := by
  have hnot := List.mem_takeWhile_imp (p := fun b => !isNote b) hb
  simpa using hnot

/-- **What `trim` leaves of a line**: what is cut from it, but for blanks at the
ends. -/
theorem exists_trim (line : Bytes) :
    ∃ front back : Bytes, cut line = front ++ trim line ++ back ∧ (∀ b ∈ front, isBlank b)
      ∧ (∀ b ∈ back, isBlank b) ∧ ∀ b, (trim line).head? = some b → isBlank b = false := by
  have hfront : ∀ b ∈ line.takeWhile isBlank, isBlank b :=
    fun b hb => List.mem_takeWhile_imp hb
  have hline : cut line = line.takeWhile isBlank ++ cut (line.dropWhile isBlank) := by
    rw [← cut_append hfront, List.takeWhile_append_dropWhile]
  have hhead : ∀ b, (line.dropWhile isBlank).head? = some b → isBlank b = false := by
    intro b hb
    have hnot := List.head?_dropWhile_not isBlank line
    rw [hb] at hnot
    simpa using hnot
  unfold trim
  dsimp only
  generalize line.dropWhile isBlank = d at hline hhead ⊢
  by_cases hany : d.any isNote
  · refine ⟨_, [], ?_, hfront, List.forall_mem_nil _, fun b hb => hhead b ?_⟩
    · rw [if_pos hany, hline, List.append_nil]
      rfl
    · rw [if_pos hany] at hb
      cases d with
      | nil => exact hb
      | cons a d =>
        rw [List.takeWhile_cons] at hb
        split at hb
        · exact hb
        · cases hb
  · have hnone : ∀ b ∈ d, isNote b = false := by simpa using hany
    have hcut : cut d = d := by
      refine List.takeWhile_eq_self_iff.mpr (fun b hb => ?_)
      rw [hnone b hb]
      rfl
    -- no letter of the line is a `#`, so only blanks are taken off its end
    have hback : ∀ b ∈ (d.reverse.takeWhile (fun b => isBlank b || b == 35)).reverse,
        isBlank b := by
      intro b hb
      rw [List.mem_reverse] at hb
      have hmem := List.mem_reverse.mp ((List.takeWhile_sublist _).subset hb)
      have hor := List.mem_takeWhile_imp hb
      rw [Bool.or_eq_true, beq_iff_eq] at hor
      refine hor.resolve_right ?_
      rintro rfl
      cases hnone 35 hmem
    have hsplit : d = (d.reverse.dropWhile (fun b => isBlank b || b == 35)).reverse
        ++ (d.reverse.takeWhile (fun b => isBlank b || b == 35)).reverse := by
      rw [← List.reverse_append, List.takeWhile_append_dropWhile, List.reverse_reverse]
    refine ⟨_, _, ?_, hfront, hback, fun b hb => hhead b ?_⟩
    · rw [if_neg hany, hline, hcut, List.append_assoc, ← hsplit]
    · rw [if_neg hany] at hb
      rw [hsplit, List.head?_append, hb]
      rfl

theorem words_trim (line : Bytes) : words (trim line) = words (cut line) := by
  obtain ⟨front, back, hcut, hfront, hback, -⟩ := exists_trim line
  unfold words
  rw [hcut, fields_append_of_forall_sep (fun b hb => isspace_of_isBlank (hback b hb)),
    fields_append_of_forall_sep_left (fun b hb => isspace_of_isBlank (hfront b hb))]

theorem trim_eq_nil_iff (line : Bytes) : trim line = [] ↔ ∀ b ∈ cut line, isBlank b := by
  obtain ⟨front, back, hcut, hfront, hback, hhead⟩ := exists_trim line
  rw [hcut]
  constructor
  · intro hnil b hb
    rw [hnil, List.append_nil] at hb
    exact (List.mem_append.mp hb).elim (hfront b) (hback b)
  · intro hall
    cases htrim : trim line with
    | nil => rfl
    | cons b s =>
      rw [htrim] at hall hhead
      have hblank := hall b (by simp)
      rw [hhead b rfl] at hblank
      cases hblank

theorem head?_trim_ne (line : Bytes) : (trim line).head? ≠ some 35 := by
  obtain ⟨front, back, hcut, -, -, -⟩ := exists_trim line
  intro hhead
  have hmem : (35 : UInt8) ∈ cut line := by
    rw [hcut]
    exact List.mem_append_left _ (List.mem_append_right _ (List.mem_of_mem_head? hhead))
  exact absurd (isNote_of_mem_cut hmem) (by decide)

/-- **The loop of `parse` goes over what is cut from each line.** -/
theorem parseLines_cons {p : Parser} (hok : p.lineState = .ok) (word line : Bytes)
    (lines : List Bytes) :
    p.parseLines word (line :: lines)
      = if (cut line).all isBlank then p.parseLines word lines
        else match p.parseWords word (words (cut line)) with
          | .error e => .error e
          | .ok (p, word) => p.parseLines word lines := by
  rw [parseLines, if_neg (by rw [hok]; exact nofun)]
  dsimp only
  rw [words_trim]
  refine if_congr ?_ rfl rfl
  rw [or_iff_left (head?_trim_ne line), trim_eq_nil_iff, List.all_eq_true]

end Parser

end MicroBusiness
