import Mathlib.Data.List.Forall2
import MicroBusiness.ConfigFile
import MicroBusiness.Folds

/-!
# Well-formed configuration files are parsed

The parser keeps to a `Doc`: its settings are what has been set so far, and its
state, its flags and the names it remembers are those of the item that is begun
(`Parser.Matches`). Every phrase keeps them so, and with the phrases the lines of
a file and the whole file. So a file that is laid out as a list of items is parsed,
and leaves what the items set (`Parser.parse_laidOut`).

What the items set is in the end, for each number and name the last value that
was given for it, and for each location and upstream what stands in its block
(`Configured`).
-/

namespace MicroBusiness

open Fields Folds Transition

/-! ## The parser keeps to the file -/

/-- The state of the parser and its flags. -/
def Parser.Flags (p : Parser) (state : ConfigCode) (server location upstream : Bool) : Prop :=
  p.checkState = state ∧ p.serverLeftBracket = server ∧ p.locationLeftBracket = location
    ∧ p.upstreamLeftBracket = upstream

/-- Where the parser stands, by the item that is begun. -/
def Begun.Stands : Begun → Parser → Prop
  | none, p => p.Flags .begain false false false
  | serverHeader, p => p.Flags .server false false false
  | server _, p => p.Flags .server true false false
  | locationHeader _ id, p => p.Flags .location true false false ∧ p.curLocation = id.text
  | location _ id _, p => p.Flags .location true true false ∧ p.curLocation = id.text
  | upstreamHeader name, p => p.Flags .upstream false false false ∧ p.curUpstream = name.text
  | upstream name _, p => p.Flags .upstream false false true ∧ p.curUpstream = name.text

namespace Parser

/-- **The parser keeps to a file**: it stands where the file does, and its settings
are what has been set. -/
structure Matches (s₀ : Settings) (p : Parser) (d : Doc) : Prop where
  settings : p.toSettings = d.settings s₀
  lineState : p.lineState = .ok
  stands : d.begun.Stands p

namespace Matches

variable {s₀ : Settings} {p : Parser} {items : List Item} {entries : List Entry} {id name : Token}
  {passes : List Token} {servers : List ServerAddr}

/-- A new parser keeps to an empty file. -/
theorem new (listen threadNum queSize : ℤ) :
    Matches (Parser.new listen threadNum queSize).toSettings (Parser.new listen threadNum queSize)
      {} :=
  ⟨rfl, rfl, rfl, rfl, rfl, rfl⟩

theorem threadNum (h : Matches s₀ p ⟨items, .none⟩) (n : Number) :
    Matches s₀ { p with threadNum := n.value } ⟨items ++ [.threadNum n], .none⟩ where
  settings := by
    rw [show p.toSettings = _ from h.settings]
    simp [Doc.settings, Begun.apply, Item.apply]
  lineState := h.lineState
  stands := h.stands

theorem queSize (h : Matches s₀ p ⟨items, .none⟩) (n : Number) :
    Matches s₀ { p with queSize := n.value } ⟨items ++ [.queSize n], .none⟩ where
  settings := by
    rw [show p.toSettings = _ from h.settings]
    simp [Doc.settings, Begun.apply, Item.apply]
  lineState := h.lineState
  stands := h.stands

theorem serverHeader (h : Matches s₀ p ⟨items, .none⟩) :
    Matches s₀ { p with checkState := .server, serverLeftBracket := false }
      ⟨items, .serverHeader⟩ where
  settings := h.settings
  lineState := h.lineState
  stands := ⟨rfl, rfl, h.stands.2.2⟩

theorem openServer (h : Matches s₀ p ⟨items, .serverHeader⟩) :
    Matches s₀ { p with serverLeftBracket := true } ⟨items, .server []⟩ where
  settings := h.settings
  lineState := h.lineState
  stands := ⟨h.stands.1, rfl, h.stands.2.2⟩

theorem listen (h : Matches s₀ p ⟨items, .server entries⟩) (n : Number) :
    Matches s₀ { p with server := { p.server with listen := n.value } }
      ⟨items, .server (entries ++ [.listen n])⟩ where
  settings := by
    rw [show p.toSettings = _ from h.settings]
    simp [Doc.settings, Begun.apply, Entry.apply]
  lineState := h.lineState
  stands := h.stands

theorem serverName (h : Matches s₀ p ⟨items, .server entries⟩) (name : Token) :
    Matches s₀ { p with server := { p.server with serverName := name.text } }
      ⟨items, .server (entries ++ [.serverName name])⟩ where
  settings := by
    rw [show p.toSettings = _ from h.settings]
    simp [Doc.settings, Begun.apply, Entry.apply]
  lineState := h.lineState
  stands := h.stands

theorem locationHeader (h : Matches s₀ p ⟨items, .server entries⟩) (id : Token) :
    Matches s₀ { p with
      checkState := .location
      curLocation := id.text
      server := { p.server with locations := p.server.locations.insertIfNew id.text ⟨[]⟩ }
      locationLeftBracket := false } ⟨items, .locationHeader entries id⟩ where
  settings := by
    rw [show p.toSettings = _ from h.settings]
    simp [Doc.settings, Begun.apply, ServerConfig.declareLocation]
  lineState := h.lineState
  stands := ⟨⟨rfl, h.stands.2.1, rfl, h.stands.2.2.2⟩, rfl⟩

theorem openLocation (h : Matches s₀ p ⟨items, .locationHeader entries id⟩) :
    Matches s₀ { p with locationLeftBracket := true } ⟨items, .location entries id []⟩ where
  settings := h.settings
  lineState := h.lineState
  stands := ⟨⟨h.stands.1.1, h.stands.1.2.1, rfl, h.stands.1.2.2.2⟩, h.stands.2⟩

theorem proxyPass (h : Matches s₀ p ⟨items, .location entries id passes⟩) (u : Token) :
    Matches s₀ (p.setProxyPass u.text) ⟨items, .location entries id (passes ++ [u])⟩ where
  settings := by
    unfold setProxyPass
    rw [show p.toSettings = _ from h.settings, show p.curLocation = id.text from h.stands.2]
    simp [Doc.settings, Begun.apply, ServerConfig.setProxyPass]
  lineState := h.lineState
  stands := h.stands

theorem closeLocation (h : Matches s₀ p ⟨items, .location entries id passes⟩) :
    Matches s₀ { p with locationLeftBracket := false, checkState := .server }
      ⟨items, .server (entries ++ [.location id passes])⟩ where
  settings := by
    rw [show p.toSettings = _ from h.settings]
    simp [Doc.settings, Begun.apply, Entry.apply]
  lineState := h.lineState
  stands := ⟨rfl, h.stands.1.2.1, rfl, h.stands.1.2.2.2⟩

theorem closeServer (h : Matches s₀ p ⟨items, .server entries⟩) :
    Matches s₀ { p with serverLeftBracket := false, checkState := .begain }
      ⟨items ++ [.server entries], .none⟩ where
  settings := by
    rw [show p.toSettings = _ from h.settings]
    simp [Doc.settings, Begun.apply, Item.apply]
  lineState := h.lineState
  stands := ⟨rfl, rfl, h.stands.2.2⟩

theorem upstreamHeader (h : Matches s₀ p ⟨items, .none⟩) (name : Token) :
    Matches s₀ { p with
      checkState := .upstream
      curUpstream := name.text
      upstreams := p.upstreams.insertIfNew name.text {}
      upstreamLeftBracket := false } ⟨items, .upstreamHeader name⟩ where
  settings := by
    rw [show p.toSettings = _ from h.settings]
    simp [Doc.settings, Begun.apply, Settings.declareUpstream]
  lineState := h.lineState
  stands := ⟨⟨rfl, h.stands.2.1, h.stands.2.2.1, rfl⟩, rfl⟩

theorem openUpstream (h : Matches s₀ p ⟨items, .upstreamHeader name⟩) :
    Matches s₀ { p with upstreamLeftBracket := true } ⟨items, .upstream name []⟩ where
  settings := h.settings
  lineState := h.lineState
  stands := ⟨⟨h.stands.1.1, h.stands.1.2.1, h.stands.1.2.2.1, rfl⟩, h.stands.2⟩

theorem upstreamServer (h : Matches s₀ p ⟨items, .upstream name servers⟩) (a : ServerAddr) :
    Matches s₀ (p.pushServer a.ip a.port) ⟨items, .upstream name (servers ++ [a])⟩ where
  settings := by
    unfold pushServer
    rw [show p.toSettings = _ from h.settings, show p.curUpstream = name.text from h.stands.2]
    simp [Doc.settings, Begun.apply, Settings.pushServer]
  lineState := h.lineState
  stands := h.stands

theorem closeUpstream (h : Matches s₀ p ⟨items, .upstream name servers⟩) :
    Matches s₀ { p with upstreamLeftBracket := false, checkState := .begain }
      ⟨items ++ [.upstream name servers], .none⟩ where
  settings := by
    rw [show p.toSettings = _ from h.settings]
    simp [Doc.settings, Begun.apply, Item.apply]
  lineState := h.lineState
  stands := ⟨rfl, h.stands.1.2.1, h.stands.1.2.2.1, rfl⟩

end Matches

/-! ## One phrase -/

section Phrases

variable {p : Parser} (iss : List Bytes)

theorem parseServer_leftBracket (hflag : p.serverLeftBracket = false) :
    p.parseServer (leftBracket :: iss) = parseServer { p with serverLeftBracket := true } iss := by
  rw [parseServer.eq_def]
  dsimp only
  rw [if_pos hflag, if_pos rfl]

theorem parseServer_serverName (hflag : p.serverLeftBracket = true) (name : Bytes) :
    p.parseServer (bytes "server_name" :: name :: iss)
      = parseServer { p with server := { p.server with serverName := name } } iss := by
  rw [parseServer.eq_def]
  dsimp only
  rw [if_neg (by rw [hflag]; exact nofun), if_pos rfl]

theorem parseServer_listen (hflag : p.serverLeftBracket = true) {value : Bytes} {n : ℤ}
    (hn : stoi value = .ok n) :
    p.parseServer (bytes "listen" :: value :: iss)
      = parseServer { p with server := { p.server with listen := n } } iss := by
  rw [parseServer.eq_def]
  dsimp only
  rw [if_neg (by rw [hflag]; exact nofun), if_neg (by decide +kernel), if_pos rfl]
  unfold setListen
  rw [hn]

theorem parseServer_location (hflag : p.serverLeftBracket = true) (id : Bytes) :
    p.parseServer (bytes "location" :: id :: iss) = .ok ({ p with
      checkState := .location
      curLocation := id
      server := { p.server with locations := p.server.locations.insertIfNew id ⟨[]⟩ }
      locationLeftBracket := (parseBracket iss p.locationLeftBracket).2.2 }, .ok) := by
  rw [parseServer.eq_def]
  dsimp only
  rw [if_neg (by rw [hflag]; exact nofun), if_neg (by decide +kernel),
    if_neg (by decide +kernel), if_pos rfl]
  rfl

theorem parseServer_rightBracket (hflag : p.serverLeftBracket = true) :
    p.parseServer (rightBracket :: iss)
      = parseServer { p with serverLeftBracket := false, checkState := .begain } iss := by
  rw [parseServer.eq_def]
  dsimp only
  rw [if_neg (by rw [hflag]; exact nofun), if_neg (by decide +kernel),
    if_neg (by decide +kernel), if_neg (by decide +kernel), if_pos rfl]

theorem parseLocation_leftBracket (hflag : p.locationLeftBracket = false) :
    p.parseLocation (leftBracket :: iss)
      = parseLocation { p with locationLeftBracket := true } iss := by
  rw [parseLocation.eq_def]
  dsimp only
  rw [if_pos hflag, if_pos rfl]

theorem parseLocation_proxyPass (hflag : p.locationLeftBracket = true) (value : Bytes) :
    p.parseLocation (bytes "proxy_pass" :: value :: iss)
      = parseLocation (p.setProxyPass value) iss := by
  rw [parseLocation.eq_def]
  dsimp only
  rw [if_neg (by rw [hflag]; exact nofun), if_pos rfl]

theorem parseLocation_rightBracket (hflag : p.locationLeftBracket = true) :
    p.parseLocation (rightBracket :: iss)
      = parseLocation { p with locationLeftBracket := false, checkState := .server } iss := by
  rw [parseLocation.eq_def]
  dsimp only
  rw [if_neg (by rw [hflag]; exact nofun), if_neg (by decide +kernel), if_pos rfl]

theorem parseUpstream_leftBracket (hflag : p.upstreamLeftBracket = false) :
    p.parseUpstream (leftBracket :: iss)
      = parseUpstream { p with upstreamLeftBracket := true } iss := by
  rw [parseUpstream.eq_def]
  dsimp only
  rw [if_pos hflag, if_pos rfl]

theorem parseUpstream_server (hflag : p.upstreamLeftBracket = true) (a : ServerAddr) :
    p.parseUpstream (bytes "server" :: a.text :: iss)
      = parseUpstream (p.pushServer a.ip a.port) iss := by
  have hpos : a.text.idxOf? colon = some a.ip.length := Search.idxOf?_append_cons a.port a.noColon
  rw [parseUpstream.eq_def]
  dsimp only
  rw [if_neg (by rw [hflag]; exact nofun), if_pos rfl, hpos]
  unfold ServerAddr.text
  simp

theorem parseUpstream_rightBracket (hflag : p.upstreamLeftBracket = true) :
    p.parseUpstream (rightBracket :: iss)
      = parseUpstream { p with upstreamLeftBracket := false, checkState := .begain } iss := by
  rw [parseUpstream.eq_def]
  dsimp only
  rw [if_neg (by rw [hflag]; exact nofun), if_neg (by decide +kernel), if_pos rfl]

end Phrases

theorem handled_ok {p : Parser} (hok : p.lineState = .ok) (word : Bytes) :
    handled word (.ok (p, .ok)) = .ok (p, word) := by
  unfold handled
  dsimp only
  rw [← hok]

theorem parseWords_begain {p : Parser} (hstate : p.checkState = .begain) (word : Bytes)
    (iss : List Bytes) : p.parseWords word iss = p.parseBegain word iss := by
  unfold parseWords
  rw [hstate]

/-- A line of a `server` block, handled to its end. -/
theorem parseWords_server {p p' : Parser} (hstate : p.checkState = .server) (word : Bytes)
    {iss : List Bytes} (hrun : p.parseServer iss = .ok (p', .ok)) (hok : p'.lineState = .ok) :
    p.parseWords word iss = .ok (p', word) := by
  unfold parseWords
  rw [hstate]
  dsimp only
  rw [hrun, handled_ok hok]

/-- A line of a `location` block, handled to its end. -/
theorem parseWords_location {p p' : Parser} (hstate : p.checkState = .location) (word : Bytes)
    {iss : List Bytes} (hrun : p.parseLocation iss = .ok (p', .ok)) (hok : p'.lineState = .ok) :
    p.parseWords word iss = .ok (p', word) := by
  unfold parseWords
  rw [hstate]
  dsimp only
  rw [hrun, handled_ok hok]

/-- A line of an `upstream` block, handled to its end. -/
theorem parseWords_upstream {p p' : Parser} (hstate : p.checkState = .upstream) (word : Bytes)
    {iss : List Bytes} (hrun : p.parseUpstream iss = .ok (p', .ok)) (hok : p'.lineState = .ok) :
    p.parseWords word iss = .ok (p', word) := by
  unfold parseWords
  rw [hstate]
  dsimp only
  rw [hrun, handled_ok hok]

theorem parseBegain_threadNum (p : Parser) (word : Bytes) (n : Number) :
    p.parseBegain word [bytes "threadNum", n.text]
      = .ok ({ p with threadNum := n.value }, n.text) := by
  unfold parseBegain
  simp only [List.headD_cons, List.tail_cons, if_true, n.read]

theorem parseBegain_queSize (p : Parser) (word : Bytes) (n : Number) :
    p.parseBegain word [bytes "queSize", n.text] = .ok ({ p with queSize := n.value }, n.text) := by
  unfold parseBegain
  dsimp only [List.headD_cons, List.tail_cons]
  rw [if_neg (by decide +kernel), if_pos rfl, n.read]

theorem parseBegain_server (p : Parser) (word : Bytes) (iss : List Bytes) :
    p.parseBegain word (bytes "server" :: iss) = .ok ({ p with
      checkState := .server
      serverLeftBracket := (parseBracket iss p.serverLeftBracket).2.2 }, bytes "server") := by
  unfold parseBegain
  dsimp only [List.headD_cons, List.tail_cons]
  rw [if_neg (by decide +kernel), if_neg (by decide +kernel), if_pos rfl]

theorem parseBegain_upstream (p : Parser) (word name : Bytes) (iss : List Bytes) :
    p.parseBegain word (bytes "upstream" :: name :: iss) = .ok ({ p with
      checkState := .upstream
      curUpstream := name
      upstreams := p.upstreams.insertIfNew name {}
      upstreamLeftBracket := (parseBracket iss p.upstreamLeftBracket).2.2 }, bytes "upstream") := by
  unfold parseBegain
  dsimp only [List.headD_cons, List.tail_cons]
  rw [if_neg (by decide +kernel), if_neg (by decide +kernel), if_neg (by decide +kernel),
    if_pos rfl]

/-- **A phrase on a line of its own** takes the parser on. -/
theorem parseWords_of_advance {s₀ : Settings} {p : Parser} {d d' : Doc} {ws : List Bytes}
    (h : p.Matches s₀ d) (hstep : Advance d ws d') (word : Bytes) :
    ∃ p' word', p.parseWords word ws = .ok (p', word') ∧ p'.Matches s₀ d' := by
  cases hstep with
  -- outside of all blocks
  | threadNum n =>
    exact ⟨_, _, (parseWords_begain h.stands.1 word _).trans (parseBegain_threadNum p word n),
      h.threadNum n⟩
  | queSize n =>
    exact ⟨_, _, (parseWords_begain h.stands.1 word _).trans (parseBegain_queSize p word n),
      h.queSize n⟩
  | server =>
    refine ⟨_, _, (parseWords_begain h.stands.1 word _).trans (parseBegain_server p word []), ?_⟩
    dsimp only [parseBracket]
    rw [h.stands.2.1]
    exact h.serverHeader
  | upstream name =>
    refine ⟨_, _, (parseWords_begain h.stands.1 word _).trans
      (parseBegain_upstream p word name.text []), ?_⟩
    dsimp only [parseBracket]
    rw [h.stands.2.2.2]
    exact h.upstreamHeader name
  -- inside of a `server` block, where the flag tells whether its brace has come
  | openServer =>
    exact ⟨_, _, parseWords_server h.stands.1 word (parseServer_leftBracket [] h.stands.2.1)
      h.openServer.lineState, h.openServer⟩
  | listen n =>
    exact ⟨_, _, parseWords_server h.stands.1 word (parseServer_listen [] h.stands.2.1 n.read)
      (h.listen n).lineState, h.listen n⟩
  | serverName name =>
    exact ⟨_, _, parseWords_server h.stands.1 word
      (parseServer_serverName [] h.stands.2.1 name.text) (h.serverName name).lineState,
      h.serverName name⟩
  | location id =>
    have hflag : p.locationLeftBracket = false := h.stands.2.2.1
    have hrun := parseServer_location [] h.stands.2.1 id.text
    dsimp only [parseBracket] at hrun
    rw [hflag] at hrun
    exact ⟨_, _, parseWords_server h.stands.1 word hrun (h.locationHeader id).lineState,
      h.locationHeader id⟩
  | closeServer =>
    exact ⟨_, _, parseWords_server h.stands.1 word (parseServer_rightBracket [] h.stands.2.1)
      h.closeServer.lineState, h.closeServer⟩
  -- inside of a `location` block
  | openLocation =>
    exact ⟨_, _, parseWords_location h.stands.1.1 word
      (parseLocation_leftBracket [] h.stands.1.2.2.1) h.openLocation.lineState, h.openLocation⟩
  | proxyPass u =>
    exact ⟨_, _, parseWords_location h.stands.1.1 word
      (parseLocation_proxyPass [] h.stands.1.2.2.1 u.text) (h.proxyPass u).lineState,
      h.proxyPass u⟩
  | closeLocation =>
    exact ⟨_, _, parseWords_location h.stands.1.1 word
      (parseLocation_rightBracket [] h.stands.1.2.2.1) h.closeLocation.lineState,
      h.closeLocation⟩
  -- inside of an `upstream` block
  | openUpstream =>
    exact ⟨_, _, parseWords_upstream h.stands.1.1 word
      (parseUpstream_leftBracket [] h.stands.1.2.2.2) h.openUpstream.lineState, h.openUpstream⟩
  | upstreamServer a =>
    exact ⟨_, _, parseWords_upstream h.stands.1.1 word
      (parseUpstream_server [] h.stands.1.2.2.2 a) (h.upstreamServer a).lineState,
      h.upstreamServer a⟩
  | closeUpstream =>
    exact ⟨_, _, parseWords_upstream h.stands.1.1 word
      (parseUpstream_rightBracket [] h.stands.1.2.2.2) h.closeUpstream.lineState,
      h.closeUpstream⟩

/-- **A line** takes the parser on. -/
theorem parseWords_of_lineAdvance {s₀ : Settings} {p : Parser} {d d' : Doc} {ws : List Bytes}
    (h : p.Matches s₀ d) (hstep : LineAdvance d ws d') (word : Bytes) :
    ∃ p' word', p.parseWords word ws = .ok (p', word') ∧ p'.Matches s₀ d' := by
  cases hstep with
  | phrase hstep => exact parseWords_of_advance h hstep word
  | header hheader hbracket =>
    -- only three phrases are followed by the brace of a block
    cases hheader with
    | server =>
      cases hbracket with
      | openServer =>
        exact ⟨_, _, (parseWords_begain h.stands.1 word _).trans
          (parseBegain_server p word [leftBracket]), h.serverHeader.openServer⟩
    | upstream name =>
      cases hbracket with
      | openUpstream =>
        exact ⟨_, _, (parseWords_begain h.stands.1 word _).trans
          (parseBegain_upstream p word name.text [leftBracket]),
          (h.upstreamHeader name).openUpstream⟩
    | location id =>
      cases hbracket with
      | openLocation =>
        exact ⟨_, _, parseWords_server h.stands.1 word
          (parseServer_location [leftBracket] h.stands.2.1 id.text)
          (h.locationHeader id).openLocation.lineState, (h.locationHeader id).openLocation⟩
    | _ => cases hbracket

end Parser

/-! ## A file -/

/-- What is read of a line that is written with these words. -/
theorem Written.words_cut {line : Bytes} {ws : List Bytes} (h : Written line ws)
    (hplain : ∀ w ∈ ws, Plain w) :
    words (Parser.cut line) = ws ∧ ((∀ b ∈ Parser.cut line, Parser.isBlank b) ↔ ws = []) := by
  obtain ⟨text, note, rfl, hspaced, hnote⟩ := h
  have htext : ∀ b ∈ text, Parser.isNote b = false := by
    intro b hb
    rcases hspaced.of_mem hb with hblank | ⟨w, hw, hbw⟩
    · exact Parser.isNote_of_isBlank hblank
    · exact ((hplain w hw).2 b hbw).2
  have hcut : Parser.cut (text ++ note) = text := by
    unfold Parser.cut
    rw [List.takeWhile_append_of_pos (fun b hb => by rw [htext b hb]; rfl)]
    cases note with
    | nil => rw [List.takeWhile_nil, List.append_nil]
    | cons b note => rw [List.takeWhile_cons_of_neg (by rw [hnote b rfl]; decide), List.append_nil]
  have hwords : words text = ws := hspaced.fields_eq (fun _ => Parser.isspace_of_isBlank)
    (fun w hw => ⟨(hplain w hw).1, fun b hb => ((hplain w hw).2 b hb).1⟩)
  rw [hcut]
  refine ⟨hwords, fun hblank => ?_, ?_⟩
  · rw [← hwords]
    exact fields_of_forall_sep (fun b hb => Parser.isspace_of_isBlank (hblank b hb))
  · rintro rfl b hb
    refine (hspaced.of_mem hb).resolve_right ?_
    rintro ⟨w, hw, -⟩
    exact absurd hw List.not_mem_nil

namespace Parser

/-- **The loop of `parse` follows the lines of a file.** -/
theorem parseLines_of_run {s₀ : Settings} {ls : List Bytes} {wss : List (List Bytes)}
    (hwritten : List.Forall₂ Written ls wss) {p : Parser} {d d' : Doc} (h : p.Matches s₀ d)
    {steps : List (Doc × List Bytes)} (hrun : Run LineAdvance d steps d')
    (hsteps : wss.filter (· ≠ []) = steps.map Prod.snd) (word : Bytes) :
    ∃ p', p.parseLines word ls = .ok p' ∧ p'.Matches s₀ d' := by
  induction hwritten generalizing p d steps word with
  | nil =>
    cases hrun with
    | nil => exact ⟨p, rfl, h⟩
    | cons _ _ => cases hsteps
  | @cons line ws ls wss hline _ ih =>
    rw [parseLines_cons h.lineState]
    by_cases hws : ws = []
    · subst hws
      rw [if_pos (List.all_eq_true.mpr ((hline.words_cut (List.forall_mem_nil _)).2.mpr rfl))]
      exact ih h hrun hsteps word
    · rw [List.filter_cons_of_pos (by simpa using hws)] at hsteps
      cases hrun with
      | nil => cases hsteps
      | @cons _ d₁ _ _ steps hstep hrun =>
        obtain ⟨rfl, hrest⟩ := List.cons.inj hsteps
        obtain ⟨hwords, hblank⟩ := hline.words_cut hstep.plain.2
        obtain ⟨p₁, word₁, hparse, h₁⟩ := parseWords_of_lineAdvance h hstep word
        rw [if_neg (fun hall => hws (hblank.mp (List.all_eq_true.mp hall))), hwords, hparse]
        exact ih h₁ hrun hrest word₁

/-- **A file that is laid out as a list of items is parsed**, and leaves what they
set. -/
theorem parse_laidOut {file : Bytes} {items : List Item} (h : LaidOut file items)
    (listen threadNum queSize : ℤ) :
    ∃ p, (new listen threadNum queSize).parse file = .ok p
      ∧ p.toSettings = items.foldl Item.apply (new listen threadNum queSize).toSettings := by
  obtain ⟨wss, body, hwritten, hbody, hwss⟩ := h
  obtain ⟨steps, hrun, hsteps⟩ :=
    Goes.flatten (g := fun items => ⟨items, .none⟩) Goes.item hbody []
  obtain ⟨p, hparse, hmatches⟩ := parseLines_of_run hwritten (Matches.new listen threadNum queSize)
    hrun (hwss.trans hsteps.symm) []
  refine ⟨p, ?_, hmatches.settings⟩
  unfold parse
  rw [hparse]
  dsimp only
  rw [if_neg (by rw [hmatches.lineState, hmatches.stands.1]; simp)]

end Parser

/-! ## What is set in the end -/

/-- The number of threads, if that is what an item gives. -/
def Item.threadNum? : Item → Option ℤ
  | .threadNum n => some n.value
  | _ => none

/-- The size of the queue. -/
def Item.queSize? : Item → Option ℤ
  | .queSize n => some n.value
  | _ => none

/-- What a `server` block consists of. -/
def Item.entries : Item → List Entry
  | .server entries => entries
  | _ => []

/-- An upstream with its servers. -/
def Item.upstream? : Item → Option (Bytes × Upstream)
  | .upstream name servers => some (name.text, ⟨servers.map (fun a => (a.ip, a.port))⟩)
  | _ => none

/-- The port to listen on. -/
def Entry.listen? : Entry → Option ℤ
  | .listen n => some n.value
  | _ => none

/-- The name of the server. -/
def Entry.serverName? : Entry → Option Bytes
  | .serverName name => some name.text
  | _ => none

/-- A location with its last `proxy_pass`. -/
def Entry.location? : Entry → Option (Bytes × Location)
  | .location id passes => some (id.text, ⟨(passes.map Token.text).getLastD []⟩)
  | _ => none

/-- The entries of all `server` blocks. -/
def entriesOf (items : List Item) : List Entry := items.flatMap Item.entries

/-- The locations of a file. -/
def locationsOf (items : List Item) : List (Bytes × Location) :=
  (entriesOf items).filterMap Entry.location?

/-- The upstreams of a file. -/
def upstreamsOf (items : List Item) : List (Bytes × Upstream) := items.filterMap Item.upstream?

/-- **The settings a file gives**: of each number and name the last value, or what
was there before, of each location its last `proxy_pass`, and of each upstream its
servers. -/
structure Configured (s₀ : Settings) (items : List Item) (s : Settings) : Prop where
  threadNum : s.threadNum = (items.filterMap Item.threadNum?).getLastD s₀.threadNum
  queSize : s.queSize = (items.filterMap Item.queSize?).getLastD s₀.queSize
  listen : s.server.listen = ((entriesOf items).filterMap Entry.listen?).getLastD s₀.server.listen
  serverName : s.server.serverName
    = ((entriesOf items).filterMap Entry.serverName?).getLastD s₀.server.serverName
  locations : ∀ id : Bytes, s.server.locations[id]? = (locationsOf items).lookup id
  upstreams : ∀ name : Bytes, s.upstreams[name]? = (upstreamsOf items).lookup name

theorem apply_location_eq {β : Type} {g : ServerConfig → β}
    (hg : ∀ (s : ServerConfig) locations, g { s with locations } = g s) (s : ServerConfig)
    (id : Token) (passes : List Token) : g (Entry.apply s (.location id passes)) = g s := by
  have hpasses := foldl_eq_of_forall (f := ServerConfig.setProxyPass id) (fun s u => hg s _)
    (s.declareLocation id) passes
  exact hpasses.trans (hg s _)

theorem apply_upstream_eq {β : Type} {g : Settings → β}
    (hg : ∀ (s : Settings) upstreams, g { s with upstreams } = g s) (s : Settings)
    (name : Token) (servers : List ServerAddr) :
    g (Item.apply s (.upstream name servers)) = g s := by
  have hservers := foldl_eq_of_forall (f := Settings.pushServer name) (fun s a => hg s _)
    (s.declareUpstream name) servers
  exact hservers.trans (hg s _)

/-- What the `server` blocks of a file set is set by their entries, one after the
other. -/
theorem server_foldl (items : List Item) (s : Settings) :
    (items.foldl Item.apply s).server = (entriesOf items).foldl Entry.apply s.server := by
  have hitem : ∀ (s : Settings) (i : Item),
      i.entries.foldl Entry.apply s.server = (i.apply s).server := by
    intro s i
    cases i with
    | upstream name servers =>
      exact (apply_upstream_eq (g := Settings.server) (fun _ _ => rfl) s name servers).symm
    | _ => rfl
  unfold entriesOf
  rw [List.foldl_flatMap]
  exact (List.foldl_hom Settings.server hitem).symm

/-- What a location sets is its last `proxy_pass`. -/
theorem getElem?_location {s : ServerConfig} {id : Token} (hid : s.locations[id.text]? = none)
    (passes : List Token) (k : Bytes) :
    (Entry.apply s (.location id passes)).locations[k]?
      = if id.text = k then some ⟨(passes.map Token.text).getLastD []⟩ else s.locations[k]? := by
  have hdeclared : (s.declareLocation id).locations[k]?
      = if id.text = k then some ⟨[]⟩ else s.locations[k]? := getElem?_insertIfNew_of_none hid k _
  unfold Entry.apply
  dsimp only
  by_cases hk : id.text = k
  · have hset : ∀ (s : ServerConfig) (u : Token), (s.setProxyPass id u).locations[k]?
        = (some (some (Location.mk u.text))).getD s.locations[k]? :=
      fun s u => (getElem?_insert_ite _ _ _ _).trans (if_pos hk)
    have hfold := foldl_eq_getLastD (f := ServerConfig.setProxyPass id)
      (g := fun s => s.locations[k]?) hset (s.declareLocation id) passes
    rw [if_pos hk] at hdeclared ⊢
    have hlast := List.getLastD_map (f := fun t => some (Location.mk t))
      (l := passes.map Token.text) (a := [])
    rw [List.map_map] at hlast
    rw [hfold, hdeclared, List.filterMap_eq_map']
    exact hlast
  · have hset : ∀ (s : ServerConfig) (u : Token),
        (s.setProxyPass id u).locations[k]? = s.locations[k]? :=
      fun s u => (getElem?_insert_ite _ _ _ _).trans (if_neg hk)
    rw [if_neg hk] at hdeclared ⊢
    exact (foldl_eq_of_forall (g := fun s : ServerConfig => s.locations[k]?) hset _ passes).trans
      hdeclared

/-- What an upstream sets are its servers. -/
theorem getElem?_upstream {s : Settings} {name : Token} (hname : s.upstreams[name.text]? = none)
    (servers : List ServerAddr) (k : Bytes) :
    (Item.apply s (.upstream name servers)).upstreams[k]?
      = if name.text = k then some ⟨servers.map (fun a => (a.ip, a.port))⟩
        else s.upstreams[k]? := by
  have hdeclared : (s.declareUpstream name).upstreams[k]?
      = if name.text = k then some {} else s.upstreams[k]? := getElem?_insertIfNew_of_none hname k _
  unfold Item.apply
  dsimp only
  -- each server stands behind those there are
  have hpush : ∀ (done : List (Bytes × Bytes)) (t : Settings),
      t.upstreams[k]? = (if name.text = k then some ⟨done⟩ else s.upstreams[k]?) →
      (servers.foldl (Settings.pushServer name) t).upstreams[k]?
        = if name.text = k then some ⟨done ++ servers.map (fun a => (a.ip, a.port))⟩
          else s.upstreams[k]? := by
    induction servers with
    | nil =>
      intro done t ht
      rw [List.map_nil, List.append_nil]
      exact ht
    | cons a servers ih =>
      intro done t ht
      rw [List.foldl_cons, List.map_cons, ← List.singleton_append, ← List.append_assoc]
      refine ih (done ++ [(a.ip, a.port)]) _ ?_
      unfold Settings.pushServer
      dsimp only
      rw [getElem?_insert_ite]
      by_cases hk : name.text = k
      · rw [if_pos hk] at ht
        rw [if_pos hk, if_pos hk, hk, ht]
        rfl
      · rw [if_neg hk] at ht
        rw [if_neg hk, if_neg hk, ht]
  exact hpush [] _ hdeclared

/-- **What the items of a file set**, from settings without locations and upstreams
and where no name is declared twice. -/
theorem configured_foldl {items : List Item} {s₀ : Settings}
    (hlocations : s₀.server.locations = ∅) (hupstreams : s₀.upstreams = ∅)
    (hids : ((locationsOf items).map Prod.fst).Nodup)
    (hnames : ((upstreamsOf items).map Prod.fst).Nodup) :
    Configured s₀ items (items.foldl Item.apply s₀) := by
  refine ⟨?_, ?_, ?_, ?_, fun id => ?_, fun name => ?_⟩
  · -- a number is what the last item about it says
    refine foldl_eq_getLastD (g := Settings.threadNum) (fun s i => ?_) s₀ items
    cases i with
    | upstream name servers => exact apply_upstream_eq (fun _ _ => rfl) s name servers
    | _ => rfl
  · refine foldl_eq_getLastD (g := Settings.queSize) (fun s i => ?_) s₀ items
    cases i with
    | upstream name servers => exact apply_upstream_eq (fun _ _ => rfl) s name servers
    | _ => rfl
  · rw [server_foldl]
    refine foldl_eq_getLastD (g := ServerConfig.listen) (fun s e => ?_) _ _
    cases e with
    | location id passes => exact apply_location_eq (fun _ _ => rfl) s id passes
    | _ => rfl
  · rw [server_foldl]
    refine foldl_eq_getLastD (g := ServerConfig.serverName) (fun s e => ?_) _ _
    cases e with
    | location id passes => exact apply_location_eq (fun _ _ => rfl) s id passes
    | _ => rfl
  · rw [server_foldl]
    -- no id is given twice, so each location is what its item says
    have hempty : ∀ k : Bytes, s₀.server.locations[k]? = none := fun k => by
      rw [hlocations, Std.ExtTreeMap.getElem?_empty]
    rw [foldl_lookup (g := fun (s : ServerConfig) (k : Bytes) => s.locations[k]?)
      (d := Entry.location?) ?_ ?_ hids (fun k _ => hempty k) id, hempty, Option.or_none]
    · rfl
    · intro s e he k
      cases e with
      | location id passes => cases he
      | _ => rfl
    · intro s e id v he hid k
      cases e with
      | location id passes =>
        cases he
        exact getElem?_location hid passes k
      | _ => cases he
  · -- and the same of the upstreams
    have hempty : ∀ k : Bytes, s₀.upstreams[k]? = none := fun k => by
      rw [hupstreams, Std.ExtTreeMap.getElem?_empty]
    rw [foldl_lookup (g := fun (s : Settings) (k : Bytes) => s.upstreams[k]?)
      (d := Item.upstream?) ?_ ?_ hnames (fun k _ => hempty k) name, hempty, Option.or_none]
    · rfl
    · intro s i hi k
      cases i with
      | upstream name servers => cases hi
      | _ => rfl
    · intro s i name v hi hname k
      cases i with
      | upstream name servers =>
        cases hi
        exact getElem?_upstream hname servers k
      | _ => cases hi

/-! ## Well-formed files -/

/-- **A well-formed file**: laid out as items, no location and no upstream of which
is declared twice. -/
structure WellFormed (file : Bytes) (items : List Item) : Prop where
  laidOut : LaidOut file items
  ids : ((locationsOf items).map Prod.fst).Nodup
  names : ((upstreamsOf items).map Prod.fst).Nodup

/-- **Well-formed files are parsed** into the settings they give.

A file is well formed if it is items in some layout: blanks, comments and empty lines
anywhere between the lines, and the brace of a block on its header line or on one of its
own. The settings are those that the items say, the last one where several say
something about the same; what no item is about stays as the parser began. -/
theorem Parser.parse_wellFormed {file : Bytes} {items : List Item} (h : WellFormed file items)
    (listen threadNum queSize : ℤ) :
    ∃ p, (Parser.new listen threadNum queSize).parse file = .ok p
      ∧ Configured (Parser.new listen threadNum queSize).toSettings items p.toSettings := by
  obtain ⟨p, hparse, hsettings⟩ := parse_laidOut h.laidOut listen threadNum queSize
  refine ⟨p, hparse, ?_⟩
  rw [hsettings]
  exact configured_foldl rfl rfl h.ids h.names

/-- A small file. -/
def smallFile : Bytes :=
  bytes "# small\nthreadNum 8;\nserver\n\x7b\n location /a/ \x7b\n\tproxy_pass http://u; # u\n"
    ++ bytes " \x7d\n\x7d\n\nupstream u \x7b\nserver h:1\n\x7d\n"

/-- Its items. -/
def smallItems : List Item :=
  [.threadNum (.ofDigits none [56] (by decide) (by decide +kernel) (by decide +kernel)),
    .server [.location ⟨bytes "/a/", by decide +kernel, by decide +kernel⟩
      [⟨bytes "http://u", by decide +kernel, by decide +kernel⟩]],
    .upstream ⟨bytes "u", by decide +kernel, by decide +kernel⟩
      [⟨bytes "h", bytes "1", by decide +kernel, by decide +kernel⟩]]

theorem laidOut_smallFile : LaidOut smallFile smallItems := by
  refine ⟨(lines smallFile).map (fun line => fields Parser.isBlank (Parser.cut line)),
    [[[bytes "threadNum", [56]]],
      [[bytes "server"], [leftBracket], [bytes "location", bytes "/a/", leftBracket],
        [bytes "proxy_pass", bytes "http://u"], [rightBracket], [rightBracket]],
      [[bytes "upstream", bytes "u", leftBracket], [bytes "server", bytes "h:1"],
        [rightBracket]]], ?_, ?_, ?_⟩
  · rw [List.forall₂_map_right_iff]
    exact List.forall₂_same.mpr (fun line _ => written_fields line)
  · refine .cons (.threadNum _) (.cons ?_ (.cons ?_ .nil))
    · exact .server (Or.inr rfl) (.cons (.location _ (Or.inl rfl)) .nil)
    · exact .upstream _ (Or.inl rfl)
  · decide +kernel

/-- So the small file is parsed. -/
theorem parse_smallFile :
    ∃ p, (Parser.new 0 0 0).parse smallFile = .ok p ∧ p.threadNum = 8
      ∧ p.server.locations[bytes "/a/"]? = some ⟨bytes "http://u"⟩
      ∧ p.upstreams[bytes "u"]? = some ⟨[(bytes "h", bytes "1")]⟩ := by
  obtain ⟨p, hparse, hconfigured⟩ :=
    Parser.parse_wellFormed ⟨laidOut_smallFile, by decide +kernel, by decide +kernel⟩ 0 0 0
  refine ⟨p, hparse, hconfigured.threadNum.trans rfl, ?_, ?_⟩
  · exact (hconfigured.locations _).trans (by decide +kernel)
  · exact (hconfigured.upstreams _).trans (by decide +kernel)

end MicroBusiness
