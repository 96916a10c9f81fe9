import MicroBusiness.ConfigParsing

/-!
# What the parser of the configuration leaves out

A file that is accepted should be made of blocks that are properly nested, and
everything in it should have been set (`Sound`). The parser sees to that only in
part. Of a line it may leave words unread: what is behind a `;`, behind the number of
`threadNum` and `queSize`, and behind the `{` of a header; and where it looks for the
`{` it passes over another word. It does not ask for the value of `server_name` or
`proxy_pass`, or for the name of a block. Behind a `}` it goes on with the line as if
the block had not been left, and a line of white space that `trim` does not know
is taken for the last word read outside of all blocks.

`Heeds` says of a line that there is nothing of this. If all lines of a file are
heeded, then every line is read as phrases whose tokens are the tokens of the
line, and so the file is sound if it is accepted (`Parser.sound_of_heeded`).
-/

namespace MicroBusiness

open Fields Folds Transition

/-! ## Sound files -/

/-- The tokens of a line: a `#` starts a comment, and a `;` ends a token. -/
def lineTokens (line : Bytes) : List Bytes :=
  fields (fun b => isspace b || b == 59) (line.takeWhile (fun b => b != 35))

/-- The tokens of a file. -/
def fileTokens (file : Bytes) : List Bytes := (lines file).flatMap lineTokens

/-- **A file is sound**: its tokens are those of a list of items, and the settings
are what the items set. -/
def Sound (s₀ : Settings) (file : Bytes) (s : Settings) : Prop :=
  ∃ items : List Item, fileTokens file = items.flatMap Item.tokens ∧ s = items.foldl Item.apply s₀

/-! ## Heeded lines -/

/-- There is no brace in a word. -/
def Braceless (w : Bytes) : Prop := ∀ b ∈ w, b ≠ 123 ∧ b ≠ 125

instance : DecidablePred Braceless := fun w => inferInstanceAs (Decidable (∀ b ∈ w, _))

/-- Behind the name of a block stands its brace, on the same line or on another. -/
def HeedsHeader (iss : List Bytes) : Prop := iss = [] ∨ iss = [leftBracket]

instance : DecidablePred HeedsHeader := fun iss => inferInstanceAs (Decidable (iss = [] ∨ _))

/-- **A line outside of all blocks is heeded**: a header of a block, or a number and
its value. -/
def HeedsTop : List Bytes → Prop
  | [] => False
  | word :: iss =>
    if word = bytes "server" then HeedsHeader iss
    else
      match iss with
      | [] => False
      | value :: iss =>
        Braceless value ∧ if word = bytes "upstream" then HeedsHeader iss else iss = []

instance : DecidablePred HeedsTop
  | [] => .isFalse id
  | [word] =>
    inferInstanceAs (Decidable (if word = bytes "server" then HeedsHeader [] else False))
  | word :: value :: iss =>
    inferInstanceAs (Decidable (if word = bytes "server" then HeedsHeader (value :: iss)
      else Braceless value ∧ if word = bytes "upstream" then HeedsHeader iss else iss = []))

/-- **A line of a block is heeded**: every directive has its value, and nothing is
behind the header of a block and behind a brace that closes one. The flag says
whether the `{` of the block has been there. -/
def HeedsBlock : Bool → List Bytes → Prop
  | _, [] => True
  | false, _ :: iss => HeedsBlock true iss
  | true, word :: iss =>
    if word = rightBracket then iss = []
    else
      match iss with
      | [] => False
      | value :: iss =>
        Braceless value ∧ if word = bytes "location" then HeedsHeader iss else HeedsBlock true iss

instance decidableHeedsBlock : ∀ (flag : Bool) (iss : List Bytes), Decidable (HeedsBlock flag iss)
  | _, [] => .isTrue (by cases ‹Bool› <;> exact trivial)
  | false, _ :: iss => decidableHeedsBlock true iss
  | true, [word] => inferInstanceAs (Decidable (if word = rightBracket then _ else False))
  | true, word :: value :: iss =>
    have := decidableHeedsBlock true iss
    inferInstanceAs (Decidable (if word = rightBracket then value :: iss = []
      else Braceless value
        ∧ if word = bytes "location" then HeedsHeader iss else HeedsBlock true iss))

namespace Parser

/-- The words of a line are heeded, by where the parser stands. -/
def Heeds (p : Parser) (iss : List Bytes) : Prop :=
  match p.checkState with
  | .begain => HeedsTop iss
  | .server => HeedsBlock p.serverLeftBracket iss
  | .location => HeedsBlock p.locationLeftBracket iss
  | .upstream => HeedsBlock p.upstreamLeftBracket iss

instance (p : Parser) : DecidablePred p.Heeds := fun iss =>
  match h : p.checkState with
  | .begain => decidable_of_iff (HeedsTop iss) (by unfold Heeds; rw [h])
  | .server => decidable_of_iff (HeedsBlock p.serverLeftBracket iss) (by unfold Heeds; rw [h])
  | .location => decidable_of_iff (HeedsBlock p.locationLeftBracket iss) (by unfold Heeds; rw [h])
  | .upstream => decidable_of_iff (HeedsBlock p.upstreamLeftBracket iss) (by unfold Heeds; rw [h])

/-- **All lines are heeded**: all their tokens are in front of the first `;`, and
where there is more than blanks and the line is not refused its words are heeded. -/
def Heeded : Parser → Bytes → List Bytes → Prop
  | _, _, [] => True
  | p, word, line :: lines =>
    lineTokens line = words (cut line)
      ∧ if (cut line).all isBlank then Heeded p word lines
        else ∀ r ∈ (p.parseWords word (words (cut line))).toOption, r.1.lineState = .ok →
          p.Heeds (words (cut line)) ∧ Heeded r.1 r.2 lines

instance decidableHeeded :
    ∀ (p : Parser) (word : Bytes) (ls : List Bytes), Decidable (p.Heeded word ls)
  | _, _, [] => .isTrue trivial
  | p, word, line :: lines =>
    have := fun r : Parser × Bytes => decidableHeeded r.1 r.2 lines
    have := decidableHeeded p word lines
    inferInstanceAs (Decidable (lineTokens line = words (cut line)
      ∧ if (cut line).all isBlank then Heeded p word lines
        else ∀ r ∈ (p.parseWords word (words (cut line))).toOption, r.1.lineState = .ok →
          p.Heeds (words (cut line)) ∧ Heeded r.1 r.2 lines))

end Parser

/-! ## Reading phrases -/

/-- Words are read as phrases. -/
def Reads (d : Doc) (ws : List Bytes) (d' : Doc) : Prop :=
  ∃ steps, Run Advance d steps d' ∧ steps.flatMap Prod.snd = ws

namespace Reads

variable {d d₁ d' : Doc}

theorem nil (d : Doc) : Reads d [] d := ⟨[], .nil d, rfl⟩

/-- A phrase is read in front. -/
theorem cons {phrase ws : List Bytes} (h : Advance d phrase d₁) (hrest : Reads d₁ ws d') :
    Reads d (phrase ++ ws) d' := by
  obtain ⟨steps, hrun, rfl⟩ := hrest
  exact ⟨_, .cons h hrun, List.flatMap_cons⟩

/-- Words are read one list after the other. -/
theorem append {ws ws' : List Bytes} (h : Reads d ws d₁) (hrest : Reads d₁ ws' d') :
    Reads d (ws ++ ws') d' := by
  obtain ⟨steps, hrun, rfl⟩ := h
  obtain ⟨steps', hrun', rfl⟩ := hrest
  exact ⟨_, hrun.append hrun', List.flatMap_append⟩

/-- A phrase is read. -/
theorem phrase {ws : List Bytes} (h : Advance d ws d') : Reads d ws d' := by
  have hreads := cons h (nil d')
  rwa [List.append_nil] at hreads

theorem tokens_eq {ws : List Bytes} (h : Reads d ws d') : d'.tokens = d.tokens ++ ws := by
  obtain ⟨steps, hrun, rfl⟩ := h
  exact tokens_of_run hrun

end Reads

/-- A plain word without braces is a token. -/
def Token.ofPlain {w : Bytes} (hplain : Plain w) (hbraceless : Braceless w) : Token where
  text := w
  ne_nil := hplain.1
  plain := by
    intro b hb
    unfold isTokenByte
    rw [(hplain.2 b hb).1, (hplain.2 b hb).2]
    simp [(hbraceless b hb).1, (hbraceless b hb).2]

theorem Token.exists_serverAddr (t : Token) {pos : ℕ} (hpos : t.text.idxOf? colon = some pos) :
    ∃ a : ServerAddr, a.text = t.text ∧ a.ip = t.text.take pos
      ∧ a.port = t.text.drop (pos + 1) := by
  obtain ⟨ip, port, htext, hip, rfl⟩ := Search.idxOf?_eq_some_iff.mp hpos
  have hplain := t.plain
  rw [htext] at hplain ⊢
  exact ⟨⟨ip, port, hip, hplain⟩, rfl, (List.take_left' rfl).symm, by simp⟩

/-! ## What is heeded -/

/-- **A heeded line outside of all blocks** is the header of a block or two words. -/
theorem HeedsTop.cases {ws : List Bytes} (h : HeedsTop ws) (hplain : ∀ w ∈ ws, Plain w) :
    (∃ rest, ws = bytes "server" :: rest ∧ HeedsHeader rest)
      ∨ (∃ (name : Token) (rest : List Bytes), ws = bytes "upstream" :: name.text :: rest
        ∧ HeedsHeader rest)
      ∨ ∃ (word : Bytes) (value : Token), ws = [word, value.text] ∧ word ≠ bytes "server"
        ∧ word ≠ bytes "upstream" := by
  cases ws with
  | nil => exact h.elim
  | cons word iss =>
    unfold HeedsTop at h
    dsimp only at h
    by_cases hserver : word = bytes "server"
    · rw [if_pos hserver] at h
      exact Or.inl ⟨iss, by rw [hserver], h⟩
    · rw [if_neg hserver] at h
      cases iss with
      | nil => exact h.elim
      | cons value iss =>
        obtain ⟨hvalue, h⟩ := h
        have hvaluePlain := hplain value (List.mem_cons_of_mem _ List.mem_cons_self)
        by_cases hupstream : word = bytes "upstream"
        · rw [if_pos hupstream] at h
          exact Or.inr (Or.inl ⟨.ofPlain hvaluePlain hvalue, iss, by rw [hupstream]; rfl, h⟩)
        · rw [if_neg hupstream] at h
          exact Or.inr (Or.inr ⟨word, .ofPlain hvaluePlain hvalue, by rw [h]; rfl, hserver,
            hupstream⟩)

namespace HeedsBlock

variable {word value : Bytes} {iss : List Bytes}

theorem ne_singleton (hword : word ≠ rightBracket) : ¬ HeedsBlock true [word] := by
  intro h
  rw [HeedsBlock.eq_def] at h
  dsimp only at h
  rw [if_neg hword] at h
  exact h

/-- The value of a directive is a token, and what is behind it is heeded. -/
theorem directive (h : HeedsBlock true (word :: value :: iss))
    (hplain : ∀ w ∈ word :: value :: iss, Plain w) (hword : word ≠ rightBracket)
    (hlocation : word ≠ bytes "location") :
    ∃ t : Token, t.text = value ∧ HeedsBlock true iss ∧ ∀ w ∈ iss, Plain w := by
  rw [HeedsBlock.eq_def] at h
  dsimp only at h
  rw [if_neg hword] at h
  rw [if_neg hlocation] at h
  obtain ⟨-, hvaluePlain, hissPlain⟩ := List.forall_mem_cons.mp hplain |>.imp_right
    List.forall_mem_cons.mp
  exact ⟨.ofPlain hvaluePlain h.1, rfl, h.2, hissPlain⟩

/-- The name of a location is a token. -/
theorem header (h : HeedsBlock true (bytes "location" :: iss))
    (hplain : ∀ w ∈ bytes "location" :: iss, Plain w) :
    ∃ (id : Token) (rest : List Bytes), iss = id.text :: rest ∧ HeedsHeader rest := by
  rw [HeedsBlock.eq_def] at h
  dsimp only at h
  rw [if_neg (by decide +kernel)] at h
  cases iss with
  | nil => exact h.elim
  | cons id rest =>
    dsimp only at h
    rw [if_pos rfl] at h
    have hidPlain := hplain id (List.mem_cons_of_mem _ List.mem_cons_self)
    exact ⟨.ofPlain hidPlain h.1, rest, rfl, h.2⟩

/-- Nothing is behind a closing brace. -/
theorem close (h : HeedsBlock true (rightBracket :: iss)) : iss = [] := by
  rw [HeedsBlock.eq_def] at h
  dsimp only at h
  rwa [if_pos rfl] at h

end HeedsBlock

namespace Parser

variable {s₀ : Settings} {p p' : Parser} {ws : List Bytes}

/-- What `stoi` has read into a setting. -/
theorem exists_of_setListen {value : Bytes} (h : p.setListen value = .ok p') :
    ∃ n, stoi value = .ok n ∧ p' = { p with server := { p.server with listen := n } } := by
  unfold setListen at h
  split at h
  · cases h
  · next n hn => exact ⟨n, hn, (Except.ok.inj h).symm⟩

/-- **A heeded line of a `server` block is read as phrases.** -/
theorem reads_of_parseServer (hrun : p.parseServer ws = .ok (p', .ok)) {items : List Item}
    {b : Begun} (h : p.Matches s₀ ⟨items, b⟩) (hb : b = .serverHeader ∨ ∃ es, b = .server es)
    (hheeds : HeedsBlock p.serverLeftBracket ws) (hplain : ∀ w ∈ ws, Plain w) :
    ∃ d', Reads ⟨items, b⟩ ws d' ∧ p'.Matches s₀ d' := by
  -- behind the `{` the block is open
  have hopen : ∀ {p : Parser} {b : Begun}, p.Matches s₀ ⟨items, b⟩ →
      (b = .serverHeader ∨ ∃ es, b = .server es) → ¬ p.serverLeftBracket = false →
      p.serverLeftBracket = true ∧ ∃ es, b = .server es := by
    rintro p b h (rfl | hb) hflag
    · exact absurd h.stands.2.1 hflag
    · exact ⟨Bool.not_eq_false _ |>.mp hflag, hb⟩
  induction p, ws using parseServer.induct generalizing b with
  | case1 p =>
    cases hrun
    exact ⟨_, .nil _, h⟩
  | case2 p iss hflag ih =>
    rw [parseServer_leftBracket iss hflag] at hrun
    rcases hb with rfl | ⟨es, rfl⟩
    · rw [hflag] at hheeds
      obtain ⟨d', hreads, hmatches⟩ := ih hrun h.openServer (Or.inr ⟨[], rfl⟩) hheeds
        (List.forall_mem_cons.mp hplain).2
      exact ⟨d', .cons .openServer hreads, hmatches⟩
    · cases hflag.symm.trans h.stands.2.1
  | case3 p word iss hflag hword =>
    rw [parseServer.eq_def] at hrun
    dsimp only at hrun
    rw [if_pos hflag, if_neg hword] at hrun
    cases hrun
  | case4 p hflag =>
    rw [(hopen h hb hflag).1] at hheeds
    exact absurd hheeds (HeedsBlock.ne_singleton (by decide +kernel))
  | case5 p hflag name iss ih =>
    obtain ⟨hflag, es, rfl⟩ := hopen h hb hflag
    rw [parseServer_serverName iss hflag] at hrun
    rw [hflag] at hheeds
    obtain ⟨t, rfl, hrest, hissPlain⟩ :=
      hheeds.directive hplain (by decide +kernel) (by decide +kernel)
    obtain ⟨d', hreads, hmatches⟩ := ih hrun (h.serverName t) (Or.inr ⟨_, rfl⟩)
      (by rw [hflag]; exact hrest) hissPlain
    exact ⟨d', .cons (.serverName t) hreads, hmatches⟩
  | case6 p hflag _ =>
    rw [(hopen h hb hflag).1] at hheeds
    exact absurd hheeds (HeedsBlock.ne_singleton (by decide +kernel))
  | case7 p hflag value iss e he hword =>
    rw [parseServer.eq_def] at hrun
    dsimp only at hrun
    rw [if_neg hflag, if_neg hword, if_pos rfl, he] at hrun
    cases hrun
  | case8 p hflag value iss p₁ hset _ ih =>
    obtain ⟨hflag, es, rfl⟩ := hopen h hb hflag
    obtain ⟨n, hn, rfl⟩ := exists_of_setListen hset
    rw [parseServer_listen iss hflag hn] at hrun
    rw [hflag] at hheeds
    obtain ⟨t, rfl, hrest, hissPlain⟩ :=
      hheeds.directive hplain (by decide +kernel) (by decide +kernel)
    let number : Number := ⟨t, n, hn⟩
    obtain ⟨d', hreads, hmatches⟩ := ih hrun (h.listen number) (Or.inr ⟨_, rfl⟩)
      (by rw [hflag]; exact hrest) hissPlain
    exact ⟨d', .cons (.listen number) hreads, hmatches⟩
  | case9 p iss hflag _ _ =>
    obtain ⟨hflag, es, rfl⟩ := hopen h hb hflag
    rw [hflag] at hheeds
    obtain ⟨id, rest, rfl, hheader⟩ := hheeds.header hplain
    have hlocation := h.locationHeader id
    rw [parseServer_location rest hflag] at hrun
    cases hrun
    rcases hheader with rfl | rfl
    · refine ⟨_, .phrase (.location id), ?_⟩
      dsimp only [parseBracket]
      rw [show p.locationLeftBracket = false from h.stands.2.2.1]
      exact hlocation
    · exact ⟨_, .cons (.location id) (.phrase .openLocation), hlocation.openLocation⟩
  | case10 p iss hflag _ _ _ _ =>
    obtain ⟨hflag, es, rfl⟩ := hopen h hb hflag
    rw [hflag] at hheeds
    obtain rfl := hheeds.close
    rw [parseServer_rightBracket [] hflag] at hrun
    cases hrun
    exact ⟨_, .phrase .closeServer, h.closeServer⟩
  | case11 p word iss hflag h₁ h₂ h₃ h₄ =>
    rw [parseServer.eq_def] at hrun
    dsimp only at hrun
    rw [if_neg hflag, if_neg h₁, if_neg h₂, if_neg h₃, if_neg h₄] at hrun
    cases hrun

/-- **A heeded line of a `location` block is read as phrases.** -/
theorem reads_of_parseLocation (hrun : p.parseLocation ws = .ok (p', .ok)) {items : List Item}
    {b : Begun} (h : p.Matches s₀ ⟨items, b⟩)
    (hb : (∃ es id, b = .locationHeader es id) ∨ ∃ es id us, b = .location es id us)
    (hheeds : HeedsBlock p.locationLeftBracket ws) (hplain : ∀ w ∈ ws, Plain w) :
    ∃ d', Reads ⟨items, b⟩ ws d' ∧ p'.Matches s₀ d' := by
  have hopen : ∀ {p : Parser} {b : Begun}, p.Matches s₀ ⟨items, b⟩ →
      ((∃ es id, b = .locationHeader es id) ∨ ∃ es id us, b = .location es id us) →
      ¬ p.locationLeftBracket = false →
      p.locationLeftBracket = true ∧ ∃ es id us, b = .location es id us := by
    rintro p b h (⟨es, id, rfl⟩ | hb) hflag
    · exact absurd h.stands.1.2.2.1 hflag
    · exact ⟨Bool.not_eq_false _ |>.mp hflag, hb⟩
  induction p, ws using parseLocation.induct generalizing b with
  | case1 p =>
    cases hrun
    exact ⟨_, .nil _, h⟩
  | case2 p iss hflag ih =>
    rw [parseLocation_leftBracket iss hflag] at hrun
    rcases hb with ⟨es, id, rfl⟩ | ⟨es, id, us, rfl⟩
    · rw [hflag] at hheeds
      obtain ⟨d', hreads, hmatches⟩ := ih hrun h.openLocation (Or.inr ⟨es, id, [], rfl⟩) hheeds
        (List.forall_mem_cons.mp hplain).2
      exact ⟨d', .cons .openLocation hreads, hmatches⟩
    · cases hflag.symm.trans h.stands.1.2.2.1
  | case3 p word iss hflag hword =>
    rw [parseLocation.eq_def] at hrun
    dsimp only at hrun
    rw [if_pos hflag, if_neg hword] at hrun
    cases hrun
  | case4 p hflag =>
    rw [(hopen h hb hflag).1] at hheeds
    exact absurd hheeds (HeedsBlock.ne_singleton (by decide +kernel))
  | case5 p hflag value iss ih =>
    obtain ⟨hflag, es, id, us, rfl⟩ := hopen h hb hflag
    rw [parseLocation_proxyPass iss hflag] at hrun
    rw [hflag] at hheeds
    obtain ⟨u, rfl, hrest, hissPlain⟩ :=
      hheeds.directive hplain (by decide +kernel) (by decide +kernel)
    obtain ⟨d', hreads, hmatches⟩ := ih hrun (h.proxyPass u) (Or.inr ⟨_, _, _, rfl⟩)
      (by rw [show (p.setProxyPass u.text).locationLeftBracket = true from hflag]; exact hrest)
      hissPlain
    exact ⟨d', .cons (.proxyPass u) hreads, hmatches⟩
  | case6 p iss hflag _ _ =>
    obtain ⟨hflag, es, id, us, rfl⟩ := hopen h hb hflag
    rw [hflag] at hheeds
    obtain rfl := hheeds.close
    rw [parseLocation_rightBracket [] hflag] at hrun
    cases hrun
    exact ⟨_, .phrase .closeLocation, h.closeLocation⟩
  | case7 p word iss hflag h₁ h₂ =>
    rw [parseLocation.eq_def] at hrun
    dsimp only at hrun
    rw [if_neg hflag, if_neg h₁, if_neg h₂] at hrun
    cases hrun

/-- **A heeded line of an `upstream` block is read as phrases.** -/
theorem reads_of_parseUpstream (hrun : p.parseUpstream ws = .ok (p', .ok)) {items : List Item}
    {b : Begun} (h : p.Matches s₀ ⟨items, b⟩)
    (hb : (∃ name, b = .upstreamHeader name) ∨ ∃ name servers, b = .upstream name servers)
    (hheeds : HeedsBlock p.upstreamLeftBracket ws) (hplain : ∀ w ∈ ws, Plain w) :
    ∃ d', Reads ⟨items, b⟩ ws d' ∧ p'.Matches s₀ d' := by
  -- inside of the block its name is known, and the brace has come
  have hopen : ∀ {p : Parser} {b : Begun}, p.Matches s₀ ⟨items, b⟩ →
      ((∃ name, b = .upstreamHeader name) ∨ ∃ name servers, b = .upstream name servers) →
      ¬ p.upstreamLeftBracket = false →
      p.upstreamLeftBracket = true ∧ ∃ name servers, b = .upstream name servers := by
    rintro p b h (⟨name, rfl⟩ | hb) hflag
    · exact absurd h.stands.1.2.2.2 hflag
    · exact ⟨Bool.not_eq_false _ |>.mp hflag, hb⟩
  induction p, ws using parseUpstream.induct generalizing b with
  | case1 p =>
    cases hrun
    exact ⟨_, .nil _, h⟩
  | case2 p iss hflag ih =>
    rw [parseUpstream_leftBracket iss hflag] at hrun
    -- the brace: it opens the block, and comes once
    rcases hb with ⟨name, rfl⟩ | ⟨name, servers, rfl⟩
    · rw [hflag] at hheeds
      obtain ⟨d', hreads, hmatches⟩ := ih hrun h.openUpstream (Or.inr ⟨name, [], rfl⟩) hheeds
        (List.forall_mem_cons.mp hplain).2
      exact ⟨d', .cons .openUpstream hreads, hmatches⟩
    · cases hflag.symm.trans h.stands.1.2.2.2
  | case3 p word iss hflag hword =>
    rw [parseUpstream.eq_def] at hrun
    dsimp only at hrun
    rw [if_pos hflag, if_neg hword] at hrun
    cases hrun
  | case4 p hflag =>
    rw [(hopen h hb hflag).1] at hheeds
    exact absurd hheeds (HeedsBlock.ne_singleton (by decide +kernel))
  | case5 p hflag ipPort iss hnone =>
    rw [parseUpstream.eq_def] at hrun
    dsimp only at hrun
    rw [if_neg hflag, if_pos rfl, hnone] at hrun
    cases hrun
  | case6 p hflag ipPort iss pos hpos ih =>
    obtain ⟨hflag, name, servers, rfl⟩ := hopen h hb hflag
    rw [hflag] at hheeds
    -- a server: its address is a token, and the rest of the line is heeded
    obtain ⟨t, rfl, hrest, hissPlain⟩ :=
      hheeds.directive hplain (by decide +kernel) (by decide +kernel)
    obtain ⟨a, ha, hip, hport⟩ := t.exists_serverAddr hpos
    rw [← ha] at hrun ⊢
    rw [parseUpstream_server iss hflag a] at hrun
    rw [← hip, ← hport] at ih
    obtain ⟨d', hreads, hmatches⟩ := ih hrun (h.upstreamServer a) (Or.inr ⟨_, _, rfl⟩)
      (by rw [show (p.pushServer a.ip a.port).upstreamLeftBracket = true from hflag]; exact hrest)
      hissPlain
    exact ⟨d', .cons (.upstreamServer a) hreads, hmatches⟩
  | case7 p iss hflag _ _ =>
    obtain ⟨hflag, name, servers, rfl⟩ := hopen h hb hflag
    rw [hflag] at hheeds
    -- the closing brace: nothing is behind it on the line
    obtain rfl := hheeds.close
    rw [parseUpstream_rightBracket [] hflag] at hrun
    cases hrun
    exact ⟨_, .phrase .closeUpstream, h.closeUpstream⟩
  | case8 p word iss hflag h₁ h₂ =>
    rw [parseUpstream.eq_def] at hrun
    dsimp only at hrun
    rw [if_neg hflag, if_neg h₁, if_neg h₂] at hrun
    cases hrun

/-- A number outside of all blocks. -/
theorem exists_of_parseBegain {word name value word' : Bytes}
    (hrun : p.parseBegain word [name, value] = .ok (p', word')) (hserver : name ≠ bytes "server")
    (hupstream : name ≠ bytes "upstream") :
    ∃ n, stoi value = .ok n ∧ (name = bytes "threadNum" ∧ p' = { p with threadNum := n }
      ∨ name = bytes "queSize" ∧ p' = { p with queSize := n }) := by
  unfold parseBegain at hrun
  dsimp only [List.headD_cons, List.tail_cons] at hrun
  split at hrun
  · next hname =>
    split at hrun
    · cases hrun
    · next n hn =>
      cases hrun
      exact ⟨n, hn, Or.inl ⟨hname, rfl⟩⟩
  · split at hrun
    · next hname =>
      split at hrun
      · cases hrun
      · next n hn =>
        cases hrun
        exact ⟨n, hn, Or.inr ⟨hname, rfl⟩⟩
    · cases hrun

/-- **A heeded line outside of all blocks is read as phrases.** -/
theorem reads_of_parseBegain {word word' : Bytes}
    (hrun : p.parseBegain word ws = .ok (p', word')) {items : List Item}
    (h : p.Matches s₀ ⟨items, .none⟩) (hheeds : HeedsTop ws) (hplain : ∀ w ∈ ws, Plain w) :
    ∃ d', Reads ⟨items, .none⟩ ws d' ∧ p'.Matches s₀ d' := by
  rcases hheeds.cases hplain with ⟨rest, rfl, hheader⟩ | ⟨name, rest, rfl, hheader⟩
    | ⟨name, value, rfl, hserver, hupstream⟩
  · rw [parseBegain_server] at hrun
    cases hrun
    rw [show p.serverLeftBracket = false from h.stands.2.1]
    rcases hheader with rfl | rfl
    · exact ⟨_, .phrase .server, h.serverHeader⟩
    · exact ⟨_, .cons .server (.phrase .openServer), h.serverHeader.openServer⟩
  · rw [parseBegain_upstream] at hrun
    cases hrun
    rw [show p.upstreamLeftBracket = false from h.stands.2.2.2]
    rcases hheader with rfl | rfl
    · exact ⟨_, .phrase (.upstream name), h.upstreamHeader name⟩
    · exact ⟨_, .cons (.upstream name) (.phrase .openUpstream),
        (h.upstreamHeader name).openUpstream⟩
  · obtain ⟨n, hn, hset⟩ := exists_of_parseBegain hrun hserver hupstream
    let number : Number := ⟨value, n, hn⟩
    rcases hset with ⟨rfl, rfl⟩ | ⟨rfl, rfl⟩
    · exact ⟨_, .phrase (.threadNum number), h.threadNum number⟩
    · exact ⟨_, .phrase (.queSize number), h.queSize number⟩

/-- **A line of a block** that leaves the line state good has been handled to its
end, so what was read of it is what is read of the line. -/
theorem reads_of_handled {word word' : Bytes} {r : Except ParseError (Parser × LineStatus)}
    (hrun : handled word r = .ok (p', word')) (hok : p'.lineState = .ok) {d : Doc}
    (hreads : ∀ p₁, r = .ok (p₁, .ok) → ∃ d', Reads d ws d' ∧ p₁.Matches s₀ d') :
    ∃ d', Reads d ws d' ∧ p'.Matches s₀ d' := by
  match r with
  | .error e => cases hrun
  | .ok (p₁, status) =>
    cases hrun
    obtain rfl : status = .ok := hok
    obtain ⟨d', hreads, h⟩ := hreads p₁ rfl
    refine ⟨d', hreads, ?_⟩
    rw [← h.lineState]
    exact h

/-- **A heeded line is read as phrases** if it is not bad. -/
theorem reads_of_parseWords {word word' : Bytes} (hrun : p.parseWords word ws = .ok (p', word'))
    (hok : p'.lineState = .ok) {d : Doc} (h : p.Matches s₀ d) (hheeds : p.Heeds ws)
    (hplain : ∀ w ∈ ws, Plain w) : ∃ d', Reads d ws d' ∧ p'.Matches s₀ d' := by
  obtain ⟨items, b⟩ := d
  unfold parseWords at hrun
  unfold Heeds at hheeds
  cases b with
  | none =>
    rw [h.stands.1] at hrun hheeds
    exact reads_of_parseBegain hrun h hheeds hplain
  | serverHeader =>
    rw [h.stands.1] at hrun hheeds
    exact reads_of_handled hrun hok
      (fun _ hr => reads_of_parseServer hr h (Or.inl rfl) hheeds hplain)
  | server entries =>
    rw [h.stands.1] at hrun hheeds
    exact reads_of_handled hrun hok
      (fun _ hr => reads_of_parseServer hr h (Or.inr ⟨_, rfl⟩) hheeds hplain)
  | locationHeader entries id =>
    rw [h.stands.1.1] at hrun hheeds
    exact reads_of_handled hrun hok
      (fun _ hr => reads_of_parseLocation hr h (Or.inl ⟨_, _, rfl⟩) hheeds hplain)
  | location entries id passes =>
    rw [h.stands.1.1] at hrun hheeds
    exact reads_of_handled hrun hok
      (fun _ hr => reads_of_parseLocation hr h (Or.inr ⟨_, _, _, rfl⟩) hheeds hplain)
  | upstreamHeader name =>
    rw [h.stands.1.1] at hrun hheeds
    exact reads_of_handled hrun hok
      (fun _ hr => reads_of_parseUpstream hr h (Or.inl ⟨_, rfl⟩) hheeds hplain)
  | upstream name servers =>
    rw [h.stands.1.1] at hrun hheeds
    exact reads_of_handled hrun hok
      (fun _ hr => reads_of_parseUpstream hr h (Or.inr ⟨_, _, rfl⟩) hheeds hplain)

/-! ## Files -/

theorem plain_of_mem_words_cut {line w : Bytes} (hw : w ∈ words (cut line)) : Plain w := by
  obtain ⟨hne, hmem⟩ := of_mem_fields hw
  exact ⟨hne, fun b hb => ⟨(hmem b hb).1, isNote_of_mem_cut (hmem b hb).2⟩⟩

/-- A bad line ends the loop of `parse`. -/
theorem parseLines_of_bad (hbad : p.lineState = .bad) (word : Bytes) (ls : List Bytes) :
    p.parseLines word ls = .ok p := by
  cases ls with
  | nil => rfl
  | cons line ls => rw [parseLines, if_pos hbad]

/-- **Heeded lines are read as phrases** whose tokens are those of the lines. -/
theorem reads_of_parseLines {ls : List Bytes} {word : Bytes}
    (hrun : p.parseLines word ls = .ok p') (hok : p'.lineState = .ok) {d : Doc}
    (h : p.Matches s₀ d) (hheeded : p.Heeded word ls) :
    ∃ d', Reads d (ls.flatMap lineTokens) d' ∧ p'.Matches s₀ d' := by
  induction ls generalizing p word d with
  | nil =>
    cases hrun
    exact ⟨d, .nil d, h⟩
  | cons line ls ih =>
    obtain ⟨htokens, hline⟩ := hheeded
    rw [parseLines_cons h.lineState] at hrun
    rw [List.flatMap_cons, htokens]
    by_cases hblank : (cut line).all isBlank
    · rw [if_pos hblank] at hrun hline
      rw [show words (cut line) = [] from
        fields_of_forall_sep (fun b hb => isspace_of_isBlank (List.all_eq_true.mp hblank b hb)),
        List.nil_append]
      exact ih hrun h hline
    · rw [if_neg hblank] at hrun hline
      cases hwords : p.parseWords word (words (cut line)) with
      | error e =>
        rw [hwords] at hrun
        cases hrun
      | ok r =>
        obtain ⟨p₁, word₁⟩ := r
        rw [hwords] at hrun
        dsimp only at hrun
        -- a bad line would have been the last one
        have hok₁ : p₁.lineState = .ok := by
          cases hstate : p₁.lineState with
          | ok => rfl
          | bad =>
            rw [parseLines_of_bad hstate] at hrun
            cases hrun
            cases hstate.symm.trans hok
        obtain ⟨hheeds, hnext⟩ := hline (p₁, word₁) (by rw [hwords]; rfl) hok₁
        obtain ⟨d₁, hreads, h₁⟩ := reads_of_parseWords hwords hok₁ h hheeds
          (fun w hw => plain_of_mem_words_cut hw)
        obtain ⟨d', hreads', h'⟩ := ih hrun h₁ hnext
        exact ⟨d', hreads.append hreads', h'⟩

theorem Matches.begun_eq_none {items : List Item} {b : Begun} (h : p.Matches s₀ ⟨items, b⟩)
    (hstate : p.checkState = .begain) : b = .none := by
  cases b with
  | none => rfl
  | serverHeader => cases hstate.symm.trans h.stands.1
  | server entries => cases hstate.symm.trans h.stands.1
  | locationHeader entries id => cases hstate.symm.trans h.stands.1.1
  | location entries id passes => cases hstate.symm.trans h.stands.1.1
  | upstreamHeader name => cases hstate.symm.trans h.stands.1.1
  | upstream name servers => cases hstate.symm.trans h.stands.1.1

/-- **A file whose lines are heeded is sound if it is accepted.**

Sound means that there are items that the words of the file spell out, and that the
settings are what these items say. The parser also accepts files that no items spell
out, since it passes over some words without a look at them, such as those behind a
value or behind a brace. Whether a line is heeded (`Heeded`) is told from the state in
which the parser comes to it and from its words. -/
theorem sound_of_heeded {listen threadNum queSize : ℤ} {file : Bytes}
    (hheeded : (new listen threadNum queSize).Heeded [] (lines file)) {p : Parser}
    (hparse : (new listen threadNum queSize).parse file = .ok p) :
    Sound (new listen threadNum queSize).toSettings file p.toSettings := by
  unfold parse at hparse
  split at hparse
  · cases hparse
  · next p' hlines =>
    split at hparse
    · cases hparse
    · next hend =>
      cases hparse
      obtain ⟨hok, hstate⟩ := not_or.mp hend
      obtain ⟨⟨items, b⟩, hreads, h⟩ := reads_of_parseLines hlines (not_not.mp hok)
        (.new listen threadNum queSize) hheeded
      obtain rfl := h.begun_eq_none (not_not.mp hstate)
      refine ⟨items, ?_, h.settings⟩
      have htokens := hreads.tokens_eq
      unfold fileTokens
      simpa [Doc.tokens, Begun.tokens] using htokens.symm

end Parser

/-- The lines of the small file are heeded, so it is sound. -/
theorem sound_smallFile :
    ∃ p, (Parser.new 0 0 0).parse smallFile = .ok p
      ∧ Sound (Parser.new 0 0 0).toSettings smallFile p.toSettings := by
  have hok : ((Parser.new 0 0 0).parse smallFile).isOk := by decide +kernel
  cases hparse : (Parser.new 0 0 0).parse smallFile with
  | error e =>
    rw [hparse] at hok
    cases hok
  | ok p => exact ⟨p, rfl, Parser.sound_of_heeded (by decide +kernel) hparse⟩

/-- **A file may be sound though its lines are not heeded**: what is not looked at
gives the value that is there. -/
theorem exists_sound_not_heeded :
    ∃ (file : Bytes) (p : Parser), (Parser.new 0 0 0).parse file = .ok p
      ∧ Sound (Parser.new 0 0 0).toSettings file p.toSettings
      ∧ ¬ (Parser.new 0 0 0).Heeded [] (lines file) := by
  let eight : Number := .ofDigits none [56] (by decide) (by decide +kernel) (by decide +kernel)
  refine ⟨bytes "threadNum 8 threadNum 8", { Parser.new 0 0 0 with threadNum := 8 },
    by decide +kernel, ⟨[.threadNum eight, .threadNum eight], by decide +kernel, rfl⟩,
    by decide +kernel⟩

/-! ## What is left out -/

theorem exists_of_tokens_eq {items : List Item} {value : Bytes} {ws : List Bytes} :
    (items.flatMap Item.tokens = bytes "threadNum" :: value :: ws →
      ∃ n rest, items = .threadNum n :: rest ∧ n.text = value
        ∧ rest.flatMap Item.tokens = ws)
    ∧ (items.flatMap Item.tokens = bytes "queSize" :: value :: ws →
      ∃ n rest, items = .queSize n :: rest ∧ n.text = value
        ∧ rest.flatMap Item.tokens = ws) := by
  have hne : bytes "threadNum" ≠ bytes "queSize" ∧ bytes "server" ≠ bytes "threadNum"
      ∧ bytes "server" ≠ bytes "queSize" ∧ bytes "upstream" ≠ bytes "threadNum"
      ∧ bytes "upstream" ≠ bytes "queSize" := by decide +kernel
  obtain ⟨h₁, h₂, h₃, h₄, h₅⟩ := hne
  cases items with
  | nil => exact ⟨nofun, nofun⟩
  | cons i items => cases i <;> simp [Item.tokens, h₁, h₁.symm, h₂, h₃, h₄, h₅]

/-- **Behind a number the rest of the line is not looked at**: `queSize` is not set
here, and the file is accepted. -/
theorem not_sound_threadNum_queSize :
    ¬ ∀ (file : Bytes) (p : Parser), (Parser.new 0 0 0).parse file = .ok p →
      Sound (Parser.new 0 0 0).toSettings file p.toSettings := by
  intro hall
  obtain ⟨items, htokens, hsettings⟩ := hall (bytes "threadNum 8 queSize 5")
    { Parser.new 0 0 0 with threadNum := 8 } (by decide +kernel)
  rw [show fileTokens (bytes "threadNum 8 queSize 5")
    = [bytes "threadNum", bytes "8", bytes "queSize", bytes "5"] by decide +kernel] at htokens
  obtain ⟨n, rest, rfl, -, htokens⟩ := exists_of_tokens_eq.1 htokens.symm
  obtain ⟨m, rest, rfl, hm, htokens⟩ := exists_of_tokens_eq.2 htokens
  have hread := m.read
  rw [hm] at hread
  have hvalue : m.value = 5 := by
    have hfive : stoi (bytes "5") = .ok 5 := by decide +kernel
    exact Except.ok.inj (hread.symm.trans hfive)
  cases rest with
  | nil =>
    have hsize : (0 : ℤ) = m.value := congrArg Settings.queSize hsettings
    rw [hvalue] at hsize
    cases hsize
  | cons i rest => cases i <;> simp [Item.tokens] at htokens

end MicroBusiness
