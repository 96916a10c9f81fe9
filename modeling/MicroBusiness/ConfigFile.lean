import MicroBusiness.ConfigParser
import MicroBusiness.Transition

/-!
# What a configuration file says

A configuration file is a list of items: numbers, `server` blocks with their
entries and `location` blocks, and `upstream` blocks with their servers. This
module says how items are spelled in tokens and what they set, without the
parser.

A `Doc` is a file up to some place: the items in front of it, and the part of
an item that is begun. `Advance` reads one more phrase, which is a directive
with its argument, the header of a block, or a brace. What has been read is
spelled by the tokens of its phrases (`Advance.tokens_eq`), and what it sets so
far is the settings of the `Doc`.
-/

namespace MicroBusiness

open Transition

/-! ## Tokens -/

/-- What is neither white space nor one of `#`, `;`, and the braces. -/
def isTokenByte (b : UInt8) : Bool := !isspace b && !Parser.isNote b && b != 123 && b != 125

theorem isTokenByte_of_isDigit {b : UInt8} (h : isDigit b = true) : isTokenByte b := by
  have hne : ∀ c : UInt8, isDigit c = false → b ≠ c := by
    rintro c hc rfl
    cases h.symm.trans hc
  unfold isTokenByte Parser.isNote
  rw [isspace_of_isDigit h]
  simp [hne 35 (by decide), hne 59 (by decide), hne 123 (by decide), hne 125 (by decide)]

/-- A name or a value. -/
structure Token where
  text : Bytes
  ne_nil : text ≠ []
  plain : ∀ b ∈ text, isTokenByte b

/-- A token that `std::stoi` reads a number from. -/
structure Number extends Token where
  value : ℤ
  read : stoi text = .ok value

/-- **A decimal number that fits an `int`**, with or without a sign. -/
def Number.ofDigits (sign : Option Bool) (digits : Bytes) (hne : digits ≠ [])
    (hdigits : ∀ b ∈ digits, isDigit b = true) (hfit : IsInt (signed sign (natOfDigits digits))) :
    Number where
  text := signText sign ++ digits
  ne_nil := List.append_ne_nil_of_right_ne_nil _ hne
  plain := by
    intro b hb
    rcases List.mem_append.mp hb with hb | hb
    · have hsign : ∀ b ∈ [minus, plus], isTokenByte b := by decide +kernel
      refine hsign b ?_
      match sign with
      | none => cases hb
      | some true => exact List.mem_cons.mpr (Or.inl (List.mem_singleton.mp hb))
      | some false => exact List.mem_cons_of_mem minus hb
    · exact isTokenByte_of_isDigit (hdigits b hb)
  value := signed sign (natOfDigits digits)
  read := by
    have hread := strtol_signed sign [] hne hdigits rfl
    rw [List.append_nil] at hread
    unfold stoi
    rw [hread]
    exact if_pos hfit

/-- `IP:PORT`. -/
structure ServerAddr where
  ip : Bytes
  port : Bytes
  noColon : colon ∉ ip
  plain : ∀ b ∈ ip ++ colon :: port, isTokenByte b

/-- How it is written. -/
def ServerAddr.text (a : ServerAddr) : Bytes := a.ip ++ colon :: a.port

/-! ## Items -/

/-- What a `server` block consists of. -/
inductive Entry
  | listen (n : Number)
  | serverName (name : Token)
  | location (id : Token) (passes : List Token)

/-- What a file consists of. -/
inductive Item
  | threadNum (n : Number)
  | queSize (n : Number)
  | server (entries : List Entry)
  | upstream (name : Token) (servers : List ServerAddr)

/-- The tokens of `proxy_pass`. -/
def passTokens (u : Token) : List Bytes := [bytes "proxy_pass", u.text]

/-- The tokens of a server of an upstream. -/
def serverTokens (a : ServerAddr) : List Bytes := [bytes "server", a.text]

/-- The tokens of an entry. -/
def Entry.tokens : Entry → List Bytes
  | .listen n => [bytes "listen", n.text]
  | .serverName name => [bytes "server_name", name.text]
  | .location id passes =>
    [bytes "location", id.text, leftBracket] ++ passes.flatMap passTokens ++ [rightBracket]

/-- The tokens of an item. -/
def Item.tokens : Item → List Bytes
  | .threadNum n => [bytes "threadNum", n.text]
  | .queSize n => [bytes "queSize", n.text]
  | .server entries =>
    [bytes "server", leftBracket] ++ entries.flatMap Entry.tokens ++ [rightBracket]
  | .upstream name servers =>
    [bytes "upstream", name.text, leftBracket] ++ servers.flatMap serverTokens ++ [rightBracket]

/-! ## What they set -/

namespace ServerConfig

/-- A location, without a `proxy_pass` unless it has one already. -/
def declareLocation (s : ServerConfig) (id : Token) : ServerConfig :=
  { s with locations := s.locations.insertIfNew id.text ⟨[]⟩ }

/-- The `proxy_pass` of a location. -/
def setProxyPass (id : Token) (s : ServerConfig) (u : Token) : ServerConfig :=
  { s with locations := s.locations.insert id.text ⟨u.text⟩ }

end ServerConfig

namespace Settings

/-- An upstream, without servers unless it has some already. -/
def declareUpstream (s : Settings) (name : Token) : Settings :=
  { s with upstreams := s.upstreams.insertIfNew name.text {} }

/-- One more server of an upstream. -/
def pushServer (name : Token) (s : Settings) (a : ServerAddr) : Settings :=
  let servers := (s.upstreams[name.text]?.getD {}).servers
  { s with upstreams := s.upstreams.insert name.text ⟨servers ++ [(a.ip, a.port)]⟩ }

end Settings

/-- What an entry sets. -/
def Entry.apply (s : ServerConfig) : Entry → ServerConfig
  | .listen n => { s with listen := n.value }
  | .serverName name => { s with serverName := name.text }
  | .location id passes => passes.foldl (ServerConfig.setProxyPass id) (s.declareLocation id)

/-- What an item sets. -/
def Item.apply (s : Settings) : Item → Settings
  | .threadNum n => { s with threadNum := n.value }
  | .queSize n => { s with queSize := n.value }
  | .server entries => { s with server := entries.foldl Entry.apply s.server }
  | .upstream name servers => servers.foldl (Settings.pushServer name) (s.declareUpstream name)

/-! ## Files that are begun -/

/-- The item that is begun. -/
inductive Begun
  | none
  | serverHeader
  | server (entries : List Entry)
  | locationHeader (entries : List Entry) (id : Token)
  | location (entries : List Entry) (id : Token) (passes : List Token)
  | upstreamHeader (name : Token)
  | upstream (name : Token) (servers : List ServerAddr)

namespace Begun

/-- The tokens of what is begun. -/
def tokens : Begun → List Bytes
  | none => []
  | serverHeader => [bytes "server"]
  | server entries => [bytes "server", leftBracket] ++ entries.flatMap Entry.tokens
  | locationHeader entries id =>
    [bytes "server", leftBracket] ++ entries.flatMap Entry.tokens ++ [bytes "location", id.text]
  | location entries id passes =>
    [bytes "server", leftBracket] ++ entries.flatMap Entry.tokens
      ++ ([bytes "location", id.text, leftBracket] ++ passes.flatMap passTokens)
  | upstreamHeader name => [bytes "upstream", name.text]
  | upstream name servers =>
    [bytes "upstream", name.text, leftBracket] ++ servers.flatMap serverTokens

/-- What has been set by it. -/
def apply (s : Settings) : Begun → Settings
  | none => s
  | serverHeader => s
  | server entries => { s with server := entries.foldl Entry.apply s.server }
  | locationHeader entries id =>
    { s with server := (entries.foldl Entry.apply s.server).declareLocation id }
  | location entries id passes =>
    let declared := (entries.foldl Entry.apply s.server).declareLocation id
    { s with server := passes.foldl (ServerConfig.setProxyPass id) declared }
  | upstreamHeader name => s.declareUpstream name
  | upstream name servers => servers.foldl (Settings.pushServer name) (s.declareUpstream name)

end Begun

/-- A file up to some place. -/
structure Doc where
  items : List Item := []
  begun : Begun := .none

namespace Doc

/-- The tokens of a file up to some place. -/
def tokens (d : Doc) : List Bytes := d.items.flatMap Item.tokens ++ d.begun.tokens

/-- What has been set up to some place. -/
def settings (s : Settings) (d : Doc) : Settings := d.begun.apply (d.items.foldl Item.apply s)

end Doc

/-- **One more phrase**: a directive with its argument, the header of a block, or
a brace. -/
inductive Advance : Doc → List Bytes → Doc → Prop
  | threadNum {items : List Item} (n : Number) :
      Advance ⟨items, .none⟩ [bytes "threadNum", n.text] ⟨items ++ [.threadNum n], .none⟩
  | queSize {items : List Item} (n : Number) :
      Advance ⟨items, .none⟩ [bytes "queSize", n.text] ⟨items ++ [.queSize n], .none⟩
  | server {items : List Item} :
      Advance ⟨items, .none⟩ [bytes "server"] ⟨items, .serverHeader⟩
  | upstream {items : List Item} (name : Token) :
      Advance ⟨items, .none⟩ [bytes "upstream", name.text] ⟨items, .upstreamHeader name⟩
  | openServer {items : List Item} :
      Advance ⟨items, .serverHeader⟩ [leftBracket] ⟨items, .server []⟩
  | listen {items : List Item} {entries : List Entry} (n : Number) :
      Advance ⟨items, .server entries⟩ [bytes "listen", n.text]
        ⟨items, .server (entries ++ [.listen n])⟩
  | serverName {items : List Item} {entries : List Entry} (name : Token) :
      Advance ⟨items, .server entries⟩ [bytes "server_name", name.text]
        ⟨items, .server (entries ++ [.serverName name])⟩
  | location {items : List Item} {entries : List Entry} (id : Token) :
      Advance ⟨items, .server entries⟩ [bytes "location", id.text]
        ⟨items, .locationHeader entries id⟩
  | closeServer {items : List Item} {entries : List Entry} :
      Advance ⟨items, .server entries⟩ [rightBracket] ⟨items ++ [.server entries], .none⟩
  | openLocation {items : List Item} {entries : List Entry} {id : Token} :
      Advance ⟨items, .locationHeader entries id⟩ [leftBracket] ⟨items, .location entries id []⟩
  | proxyPass {items : List Item} {entries : List Entry} {id : Token} {passes : List Token}
      (u : Token) :
      Advance ⟨items, .location entries id passes⟩ (passTokens u)
        ⟨items, .location entries id (passes ++ [u])⟩
  | closeLocation {items : List Item} {entries : List Entry} {id : Token} {passes : List Token} :
      Advance ⟨items, .location entries id passes⟩ [rightBracket]
        ⟨items, .server (entries ++ [.location id passes])⟩
  | openUpstream {items : List Item} {name : Token} :
      Advance ⟨items, .upstreamHeader name⟩ [leftBracket] ⟨items, .upstream name []⟩
  | upstreamServer {items : List Item} {name : Token} {servers : List ServerAddr}
      (a : ServerAddr) :
      Advance ⟨items, .upstream name servers⟩ (serverTokens a)
        ⟨items, .upstream name (servers ++ [a])⟩
  | closeUpstream {items : List Item} {name : Token} {servers : List ServerAddr} :
      Advance ⟨items, .upstream name servers⟩ [rightBracket]
        ⟨items ++ [.upstream name servers], .none⟩

/-- **What has been read is spelled by its phrases.** -/
theorem Advance.tokens_eq {d d' : Doc} {phrase : List Bytes} (h : Advance d phrase d') :
    d'.tokens = d.tokens ++ phrase := by
  unfold Doc.tokens
  cases h <;> simp [Begun.tokens, Item.tokens, Entry.tokens]

theorem tokens_of_run {d d' : Doc} {steps : List (Doc × List Bytes)} (h : Run Advance d steps d') :
    d'.tokens = d.tokens ++ steps.flatMap Prod.snd := by
  induction h with
  | nil d => rw [List.flatMap_nil, List.append_nil]
  | cons hstep _ ih => rw [ih, hstep.tokens_eq, List.flatMap_cons, List.append_assoc]

/-! ## How files are laid out -/

/-- What a token, a keyword or a brace is free of. -/
def Plain (w : Bytes) : Prop := w ≠ [] ∧ ∀ b ∈ w, isspace b = false ∧ Parser.isNote b = false

/-- **A line with these words**: set apart by blanks, with blanks around them and a
comment behind them. -/
def Written (line : Bytes) (ws : List Bytes) : Prop :=
  ∃ text note : Bytes, line = text ++ note ∧ Fields.Spaced Parser.isBlank ws text
    ∧ ∀ b, note.head? = some b → Parser.isNote b

theorem written_fields (line : Bytes) :
    Written line (Fields.fields Parser.isBlank (Parser.cut line)) := by
  refine ⟨Parser.cut line, line.dropWhile (fun b => !Parser.isNote b),
    List.takeWhile_append_dropWhile.symm, Fields.spaced_fields _, fun b hb => ?_⟩
  have hnot := List.head?_dropWhile_not (fun b => !Parser.isNote b) line
  rw [hb] at hnot
  simpa using hnot

/-- The header of a block with its brace, on one line or on two. -/
def Header (phrase : List Bytes) (ls : List (List Bytes)) : Prop :=
  ls = [phrase ++ [leftBracket]] ∨ ls = [phrase, [leftBracket]]

/-- The lines of an entry. -/
inductive Entry.Lines : Entry → List (List Bytes) → Prop
  | listen (n : Number) : Lines (.listen n) [[bytes "listen", n.text]]
  | serverName (name : Token) : Lines (.serverName name) [[bytes "server_name", name.text]]
  | location {id : Token} {header : List (List Bytes)} (passes : List Token) :
      Header [bytes "location", id.text] header →
      Lines (.location id passes) (header ++ passes.map passTokens ++ [[rightBracket]])

/-- The lines of an item. -/
inductive Item.Lines : Item → List (List Bytes) → Prop
  | threadNum (n : Number) : Lines (.threadNum n) [[bytes "threadNum", n.text]]
  | queSize (n : Number) : Lines (.queSize n) [[bytes "queSize", n.text]]
  | server {entries : List Entry} {header : List (List Bytes)} {body : List (List (List Bytes))} :
      Header [bytes "server"] header → List.Forall₂ Entry.Lines entries body →
      Lines (.server entries) (header ++ body.flatten ++ [[rightBracket]])
  | upstream {name : Token} {header : List (List Bytes)} (servers : List ServerAddr) :
      Header [bytes "upstream", name.text] header →
      Lines (.upstream name servers) (header ++ servers.map serverTokens ++ [[rightBracket]])

/-- **A file is laid out as these items**: line by line, where lines without words
may stand anywhere. -/
def LaidOut (file : Bytes) (items : List Item) : Prop :=
  ∃ (wss : List (List Bytes)) (body : List (List (List Bytes))),
    List.Forall₂ Written (lines file) wss ∧ List.Forall₂ Item.Lines items body
      ∧ wss.filter (· ≠ []) = body.flatten

theorem plain_of_isTokenByte {w : Bytes} (hne : w ≠ []) (h : ∀ b ∈ w, isTokenByte b) : Plain w := by
  refine ⟨hne, fun b hb => ?_⟩
  have htoken := h b hb
  unfold isTokenByte at htoken
  simp only [Bool.and_eq_true, Bool.not_eq_true'] at htoken
  exact ⟨htoken.1.1.1, htoken.1.1.2⟩

/-- Phrases are made of plain words. -/
theorem Advance.plain {d d' : Doc} {phrase : List Bytes} (h : Advance d phrase d') :
    phrase ≠ [] ∧ ∀ w ∈ phrase, Plain w := by
  have htoken : ∀ t : Token, Plain t.text := fun t => plain_of_isTokenByte t.ne_nil t.plain
  have haddr : ∀ a : ServerAddr, Plain a.text := fun a =>
    plain_of_isTokenByte (List.append_ne_nil_of_right_ne_nil _ (List.cons_ne_nil _ _)) a.plain
  have hkeyword : ∀ w ∈ [bytes "threadNum", bytes "queSize", bytes "server", bytes "upstream",
      bytes "listen", bytes "server_name", bytes "location", bytes "proxy_pass", leftBracket,
      rightBracket], w ≠ [] ∧ ∀ b ∈ w, isspace b = false ∧ Parser.isNote b = false := by
    decide +kernel
  refine ⟨by cases h <;> exact List.cons_ne_nil _ _, ?_⟩
  cases h <;> simp only [passTokens, serverTokens, List.forall_mem_cons, List.not_mem_nil,
    false_implies, implies_true, and_true] <;>
    first
      | exact ⟨hkeyword _ (by simp), htoken _⟩
      | exact ⟨hkeyword _ (by simp), haddr _⟩
      | exact hkeyword _ (by simp)

/-- **One more line**: a phrase, or the header of a block with its brace. -/
inductive LineAdvance : Doc → List Bytes → Doc → Prop
  | phrase {d d' : Doc} {ws : List Bytes} : Advance d ws d' → LineAdvance d ws d'
  | header {d d₁ d' : Doc} {ws : List Bytes} : Advance d ws d₁ → Advance d₁ [leftBracket] d' →
      LineAdvance d (ws ++ [leftBracket]) d'

/-- The words of a line are plain. -/
theorem LineAdvance.plain {d d' : Doc} {ws : List Bytes} (h : LineAdvance d ws d') :
    ws ≠ [] ∧ ∀ w ∈ ws, Plain w := by
  cases h with
  | phrase h => exact h.plain
  | header h h' =>
    refine ⟨List.append_ne_nil_of_left_ne_nil h.plain.1 _, fun w hw => ?_⟩
    exact (List.mem_append.mp hw).elim (h.plain.2 w) (h'.plain.2 w)

/-- A run of lines. -/
def Goes (d : Doc) (ls : List (List Bytes)) (d' : Doc) : Prop :=
  ∃ steps, Run LineAdvance d steps d' ∧ steps.map Prod.snd = ls

namespace Goes

variable {d d₁ d' : Doc}

theorem nil (d : Doc) : Goes d [] d := ⟨[], .nil d, rfl⟩

theorem cons {ws : List Bytes} {ls : List (List Bytes)} (h : LineAdvance d ws d₁)
    (hrest : Goes d₁ ls d') : Goes d (ws :: ls) d' := by
  obtain ⟨steps, hrun, rfl⟩ := hrest
  exact ⟨_, .cons h hrun, rfl⟩

theorem append {ls ls' : List (List Bytes)} (h : Goes d ls d₁) (hrest : Goes d₁ ls' d') :
    Goes d (ls ++ ls') d' := by
  obtain ⟨steps, hrun, rfl⟩ := h
  obtain ⟨steps', hrun', rfl⟩ := hrest
  exact ⟨_, hrun.append hrun', List.map_append⟩

/-- A phrase on a line of its own. -/
theorem phrase {ws : List Bytes} (h : Advance d ws d') : Goes d [ws] d' :=
  cons (.phrase h) (nil d')

/-- A header is read however it is laid out. -/
theorem header {ws : List Bytes} {ls : List (List Bytes)} (hls : Header ws ls)
    (h : Advance d ws d₁) (h' : Advance d₁ [leftBracket] d') : Goes d ls d' := by
  rcases hls with rfl | rfl
  · exact cons (.header h h') (nil d')
  · exact cons (.phrase h) (phrase h')

/-- Lines that each add an element to a list add all of them. -/
theorem map {α : Type} {f : α → List Bytes} {g : List α → Doc}
    (h : ∀ xs a, Advance (g xs) (f a) (g (xs ++ [a]))) (xs ys : List α) :
    Goes (g xs) (ys.map f) (g (xs ++ ys)) := by
  induction ys generalizing xs with
  | nil =>
    rw [List.append_nil]
    exact nil _
  | cons a ys ih =>
    have hrest := ih (xs ++ [a])
    rw [List.append_assoc] at hrest
    exact cons (.phrase (h xs a)) hrest

/-- Groups of lines that each add an element to a list add all of them. -/
theorem flatten {α : Type} {R : α → List (List Bytes) → Prop} {g : List α → Doc}
    (h : ∀ xs a ls, R a ls → Goes (g xs) ls (g (xs ++ [a]))) {ys : List α}
    {body : List (List (List Bytes))} (hbody : List.Forall₂ R ys body) (xs : List α) :
    Goes (g xs) body.flatten (g (xs ++ ys)) := by
  induction hbody generalizing xs with
  | nil =>
    rw [List.append_nil]
    exact nil _
  | @cons a _ _ _ hls _ ih =>
    have hrest := ih (xs ++ [a])
    rw [List.append_assoc] at hrest
    exact append (h xs _ _ hls) hrest

/-- The lines of an entry are read as the entry. -/
theorem entry {items : List Item} (entries : List Entry) (e : Entry) (ls : List (List Bytes))
    (h : Entry.Lines e ls) :
    Goes ⟨items, .server entries⟩ ls ⟨items, .server (entries ++ [e])⟩ := by
  cases h with
  | listen n => exact phrase (.listen n)
  | serverName name => exact phrase (.serverName name)
  | @location id _ passes hheader =>
    refine append (append (header hheader (.location id) .openLocation) ?_)
      (phrase .closeLocation)
    exact map (g := fun passes => ⟨items, .location entries id passes⟩)
      (fun _ u => .proxyPass u) [] passes

/-- **The lines of an item are read as the item.** -/
theorem item (items : List Item) (i : Item) (ls : List (List Bytes)) (h : Item.Lines i ls) :
    Goes ⟨items, .none⟩ ls ⟨items ++ [i], .none⟩ := by
  cases h with
  | threadNum n => exact phrase (.threadNum n)
  | queSize n => exact phrase (.queSize n)
  | server hheader hbody =>
    refine append (append (header hheader .server .openServer) ?_) (phrase .closeServer)
    exact flatten (g := fun entries => ⟨items, .server entries⟩) entry hbody []
  | @upstream name _ servers hheader =>
    refine append (append (header hheader (.upstream name) .openUpstream) ?_)
      (phrase .closeUpstream)
    exact map (g := fun servers => ⟨items, .upstream name servers⟩)
      (fun _ a => .upstreamServer a) [] servers

end Goes

end MicroBusiness
