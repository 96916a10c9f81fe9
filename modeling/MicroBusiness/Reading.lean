import MicroBusiness.Deployment
import MicroBusiness.ResponseFraming

/-!
# What the clients read

The proxy hands the answers of the backends to the clients as they are. A client
that has sent several requests gets the answers on one connection, one behind
the other and in whatever pieces the network makes of them.

`read_of_run` follows the answers to the end: over any part of a run of the
whole system, a client that reads its connection response by response reads
what the trading post has handed to it in this part, in this order. So every
answer to its wishes is read, with the status line, the header lines, and the
body that it was given, and nothing else is.
-/

namespace MicroBusiness

open Accumulator Framing Transition

/-! ## The answers are made of lines -/

section Lined

variable {json : JsonWriter} {s : Server} {resp : HttpResponse} {client message : Bytes}
  {code : HttpStatusCode}

theorem HttpResponse.lined_of_headers {r : HttpResponse} {contentType : Bytes}
    (hkeeps : r.closeConnection = false) (hmessage : lf ∉ r.statusMessage)
    (hheaders : r.headers = ((∅ : StdMap Bytes Bytes).insert (bytes "Content-Type")
      contentType).insert (bytes "Client") client)
    (hclient : lf ∉ client) (hcontentType : lf ∉ contentType) : r.Lined := by
  have hlist : r.headers.toList
      = [(bytes "Client", client), (bytes "Content-Type", contentType)] := by
    rw [hheaders]
    rfl
  refine ⟨hkeeps, hmessage, fun h hmem => ?_⟩
  rw [hlist, List.mem_cons, List.mem_singleton] at hmem
  rcases hmem with rfl | rfl
  · exact ⟨(by decide : lf ∉ bytes "Client"), hclient⟩
  · exact ⟨(by decide : lf ∉ bytes "Content-Type"), hcontentType⟩

/-- What `sucess_handle` fills in is made of lines. -/
theorem lined_sucessHandle (hkeeps : resp.closeConnection = false) (hresp : resp.headers = ∅)
    (item : Json) (hmessage : lf ∉ message) (hclient : lf ∉ client) :
    (Task.sucessHandle json resp code message item client).Lined := by
  refine HttpResponse.lined_of_headers hkeeps hmessage ?_ hclient
    (by decide : lf ∉ bytes "application/json")
  show (resp.headers.insert _ _).insert _ _ = _
  rw [hresp]

/-- What `error_handle` fills in is made of lines. -/
theorem lined_errorHandle (hkeeps : resp.closeConnection = false) (hresp : resp.headers = ∅)
    (hmessage : lf ∉ message) (hclient : lf ∉ client) (hserver : lf ∉ s.errorContentType) :
    (Task.errorHandle json s resp code message client).Lined := by
  refine HttpResponse.lined_of_headers hkeeps hmessage ?_ hclient hserver
  show (resp.headers.insert _ _).insert _ _ = _
  rw [hresp, insert_insert_comm (by decide)]

/-- **What is granted is made of lines.** -/
theorem Shelf.lined_grant {shelf : Shelf} {stock stock' : ℕ → ℕ} {w : Wish} {r : HttpResponse}
    (hkeeps : resp.closeConnection = false) (hresp : resp.headers = ∅) (hclient : lf ∉ client)
    (hserver : lf ∉ s.errorContentType)
    (h : (Except.ok r, stock') = shelf.grant json s resp client stock w) : r.Lined := by
  have hanswer := congrArg Prod.fst h
  cases w with
  | buy n quantity =>
    rw [Except.ok.inj hanswer]
    unfold Shelf.sell
    split
    · exact lined_errorHandle hkeeps hresp (by decide +kernel) hclient hserver
    · split
      · exact lined_errorHandle hkeeps hresp (by decide +kernel) hclient hserver
      · exact lined_sucessHandle hkeeps hresp _ (by decide) hclient
  | look =>
    dsimp only [Shelf.grant, Shelf.exhibit] at hanswer
    cases hrows : (shelf.rows (fun n => stock n) shelf.numbers).mapM Task.rowItem with
    | error fault =>
      rw [hrows] at hanswer
      cases hanswer
    | ok items =>
      rw [hrows] at hanswer
      rw [Except.ok.inj hanswer]
      exact lined_sucessHandle hkeeps hresp _ (by decide) hclient
  | other =>
    rw [Except.ok.inj hanswer]
    exact lined_errorHandle hkeeps hresp (by decide) hclient hserver

end Lined

/-! ## What the trading post hands out -/

section HandedTo

variable {π δ : Type} [DecidableEq π] [DecidableEq δ] {json : JsonWriter} {d : Deployment π δ}
  {s s' : Traffic} {room room' : Stockroom π δ} {post post' : TradingPost δ}
  {label : TrafficAct × List (Fd × Bytes)} {client : Fd}

/-- The responses that a client is handed in a step. -/
def TradingPost.handedTo (client : Fd) (post : TradingPost δ)
    (label : TrafficAct × List (Fd × Bytes)) : List HttpResponse :=
  match label.1 with
  | .answer fd => ((post.due fd).head?.toList.filter (fun a => a.1.client = client)).map Prod.snd
  | _ => []

omit [DecidableEq π] [DecidableEq δ] in
/-- What becomes of a wish is made of lines. -/
theorem Deployment.Grants.lined {fd : Fd} {v : Visit} {stock stock' : ℕ → ℕ}
    {failures failures' : ℕ} {response : HttpResponse}
    (h : d.Grants json fd v stock failures response stock' failures')
    (hserver : lf ∉ (d.server fd).errorContentType) : response.Lined := by
  have hclient : lf ∉ v.addr.ipPort :=
    v.addr.notMem_ipPort (by decide) (by decide) (by decide)
  rcases h with ⟨hgranted, -⟩ | ⟨haway, -⟩
  · exact Shelf.lined_grant rfl rfl hclient hserver hgranted
  · rw [(Prod.mk.inj haway).1]
    exact lined_errorHandle rfl rfl (by decide +kernel) hclient hserver

omit [DecidableEq π] in
/-- What is due stays made of lines. -/
theorem TradeStep.lined (hserver : ∀ fd, lf ∉ (d.server fd).errorContentType)
    (hdue : ∀ fd, ∀ a ∈ post.due fd, a.2.Lined) (h : TradeStep json d post label post') :
    ∀ fd, ∀ a ∈ post'.due fd, a.2.Lined := by
  intro fd' a ha
  cases h with
  | accept => exact hdue fd' a ha
  | leave => exact hdue fd' a ha
  | ask => exact hdue fd' a ha
  | @serve fd v rest response stock failures _ _ hgrants =>
    dsimp only at ha
    rw [Function.update_apply] at ha
    split at ha
    · next heq =>
      subst heq
      rcases List.mem_append.mp ha with ha | ha
      · exact hdue fd' a ha
      · rw [List.mem_singleton.mp ha]
        exact hgrants.lined (hserver fd')
    · exact hdue fd' a ha
  | @answer fd v response rest _ hfirst =>
    dsimp only at ha
    rw [Function.update_apply] at ha
    split at ha
    · next heq =>
      subst heq
      exact hdue fd' a (hfirst ▸ List.mem_cons_of_mem _ ha)
    · exact hdue fd' a ha

/-- A step of the whole system is one of the traffic. -/
theorem DeployedStep.traffic (h : DeployedStep json d (s, room) label (s', room')) :
    TrafficStep json s label s' := by
  cases h with
  | serve _ _ _ hstep => exact hstep
  | other _ _ hstep => exact hstep

omit [DecidableEq π] in
/-- **What a client is written in a step** is what the trading post hands to it. -/
theorem Keeps.sentTo_eq (h : Keeps json d s room post) (hproper : s.Proper json d.server label)
    (htraffic : TrafficStep json s label s') (htrade : TradeStep json d post label post')
    (hclient : s.system.proxy.tables.serverConns[client]? = none) :
    sentTo client label.2
      = (post.handedTo client label).flatMap HttpResponse.appendToBuffer := by
  obtain ⟨-, hwrites⟩ := h.sound.step hproper htraffic
  cases htrade with
  | accept => rfl
  | leave => rfl
  | serve => rfl
  | @ask x fd wish _ addr _ =>
    obtain ⟨fd', addr', hway, hwritten⟩ := hwrites
    obtain rfl : fd = fd' := congrArg Prod.fst (List.cons.inj hwritten).1
    have hne : fd ≠ client := by
      rintro rfl
      obtain ⟨ptr, hptr⟩ := contains_iff_exists.mp hway.backend
      rw [hclient] at hptr
      cases hptr
    unfold sentTo
    dsimp only
    rw [List.flatMap_singleton, if_neg hne]
    rfl
  | @answer fd v response rest _ hfirst =>
    unfold sentTo TradingPost.handedTo
    dsimp only
    rw [hfirst, List.flatMap_singleton, List.head?_cons, Option.toList_some, List.filter_cons]
    by_cases hv : v.client = client
    · rw [if_pos hv, if_pos (decide_eq_true hv)]
      exact (List.append_nil _).symm
    · rw [if_neg hv, if_neg (by simpa only [decide_eq_true_eq] using hv)]
      rfl

omit [DecidableEq δ] in
theorem TradingPost.lined_handedTo (hdue : ∀ fd, ∀ a ∈ post.due fd, a.2.Lined)
    {r : HttpResponse} (hr : r ∈ post.handedTo client label) : r.Lined := by
  unfold TradingPost.handedTo at hr
  split at hr
  · next fd _ =>
    obtain ⟨a, ha, rfl⟩ := List.mem_map.mp hr
    exact hdue fd a (List.mem_of_mem_head? (Option.mem_toList.mp (List.mem_filter.mp ha).1))
  · cases hr

omit [DecidableEq π] in
/-- What is handed to a client is written to it. -/
theorem TradeStep.mem_of_handedTo (h : TradeStep json d post label post') {r : HttpResponse}
    (hr : r ∈ post.handedTo client label) : (client, r.appendToBuffer) ∈ label.2 := by
  unfold TradingPost.handedTo at hr
  cases h with
  | accept => cases hr
  | leave => cases hr
  | ask => cases hr
  | serve => cases hr
  | @answer fd v response rest _ hfirst =>
    dsimp only at hr
    rw [hfirst, List.head?_cons, Option.toList_some] at hr
    obtain ⟨a, ha, rfl⟩ := List.mem_map.mp hr
    obtain ⟨ha, hclient⟩ := List.mem_filter.mp ha
    obtain rfl := List.mem_singleton.mp ha
    rw [← of_decide_eq_true hclient]
    exact List.mem_singleton_self _

variable (json d) in
/-- The system keeps a trading post whose answers are made of lines, and has
these backends. -/
structure KeepsLines (serverConns : StdMap Fd TcpConnectionPtr)
    (x : (Traffic × Stockroom π δ) × TradingPost δ) : Prop where
  keeps : Keeps json d x.1.1 x.1.2 x.2
  backends : x.1.1.system.proxy.tables.serverConns = serverConns
  lined : ∀ fd, ∀ a ∈ x.2.due fd, a.2.Lined

/-- **A step keeps the answers made of lines.** -/
theorem KeepsLines.step {serverConns : StdMap Fd TcpConnectionPtr}
    {x y : Traffic × Stockroom π δ} (h : KeepsLines json d serverConns (x, post))
    (hserver : ∀ fd, lf ∉ (d.server fd).errorContentType)
    (hproper : x.1.Proper json d.server label ∧ x.1.MakesSense d label)
    (hstep : DeployedStep json d x label y) :
    ∃ post', (DeployedStep json d x label y ∧ TradeStep json d post label post') ∧
      KeepsLines json d serverConns (y, post') := by
  obtain ⟨post', hjoint, hkeeps⟩ := h.keeps.step hproper hstep
  exact ⟨post', hjoint, hkeeps,
    (h.keeps.sound.backends_eq hproper.1 hstep.traffic).2.trans h.backends,
    hjoint.2.lined hserver h.lined⟩

end HandedTo

theorem HttpResponse.length_body_le (r : HttpResponse) :
    r.body.length ≤ r.appendToBuffer.length := by
  unfold appendToBuffer
  simp only [List.length_append]
  omega

/-! ## The clients of a run -/

/-- **Clients read what they are answered**: in every run from a system between
two requests on in which the requests are proper and make sense to their
backends, clients that leave have none on their way, and no message has 10^13
bytes, the same happens at a trading post, and over any part of the run what is
written to a client is what the trading post hands to it. Read response by
response, in whatever pieces it arrives, this is the responses that were handed
to it, in their order, as far as they have arrived. -/
theorem read_of_run {π δ : Type} [DecidableEq π] [DecidableEq δ] {json : JsonWriter}
    {d : Deployment π δ} (hserver : ∀ fd, lf ∉ (d.server fd).errorContentType) {sys : System}
    (hready : sys.Ready) {room : Stockroom π δ} {stock : δ → ℕ → ℕ}
    (hstock : ∀ b n, (room.store b).stock n = stock b n ∧ stock b n < 2 ^ 31)
    {steps : List ((Traffic × Stockroom π δ) × (TrafficAct × List (Fd × Bytes)))}
    {s : Traffic × Stockroom π δ}
    (hrun : Run (DeployedStep json d) ({ system := sys }, room) steps s)
    (hproper : Meets (fun x label => x.1.Proper json d.server label ∧ x.1.MakesSense d label)
      steps)
    (hlength : Meets (fun _ label => ∀ m ∈ label.2, m.2.length < 10 ^ 13) steps) :
    ∃ steps' post, Run (fun x label y => DeployedStep json d x.1 label y.1 ∧
          TradeStep json d x.2 label y.2) (({ system := sys }, room), room.opened stock) steps'
        (s, post)
      ∧ steps'.map (fun x => (x.1.1, x.2)) = steps
      ∧ ∀ client, sys.proxy.tables.serverConns[client]? = none → ∀ part, part <:+: steps' →
          sentTo client (part.flatMap fun x => x.2.2)
            = (part.flatMap fun x => x.1.2.handedTo client x.2).flatMap
                HttpResponse.appendToBuffer
          ∧ ∀ pieces : List Bytes,
              pieces.flatten <+: sentTo client (part.flatMap fun x => x.2.2) →
              responseReader.Follows HttpResponse.appendToBuffer HttpResponse.text
                (part.flatMap fun x => x.1.2.handedTo client x.2) pieces := by
  -- the run of the trading post goes along with the one of the system
  have hstart : KeepsLines json d sys.proxy.tables.serverConns
      (({ system := sys }, room), room.opened stock) :=
    ⟨⟨⟨hready, fun _ _ h => absurd h List.not_mem_nil, fun _ _ h => absurd h List.not_mem_nil⟩,
      hstock, fun _ => rfl, fun _ => .nil, fun _ => .nil⟩, rfl,
      fun _ _ h => absurd h List.not_mem_nil⟩
  have hcompanion : ∃ steps' post, Run (fun x label y => DeployedStep json d x.1 label y.1 ∧
        TradeStep json d x.2 label y.2) (({ system := sys }, room), room.opened stock) steps'
          (s, post)
      ∧ steps'.map (fun x => (x.1.1, x.2)) = steps
      ∧ KeepsLines json d sys.proxy.tables.serverConns (s, post)
      ∧ Meets (fun x _ => KeepsLines json d sys.proxy.tables.serverConns x) steps' :=
    @Run.exists_companion _ _ (DeployedStep json d) _ _
      (KeepsLines json d sys.proxy.tables.serverConns) _
      (fun _ _ _ _ hkeeps hproper hstep => hkeeps.step hserver hproper hstep) _ _ _ hrun hproper _
      hstart
  obtain ⟨steps', post, hjoint, hmap, -, hkeeps⟩ := hcompanion
  refine ⟨steps', post, hjoint, hmap, fun client hclient part hpart => ?_⟩
  have hmem : ∀ x ∈ part, (x.1.1, x.2) ∈ steps := by
    intro x hx
    rw [← hmap]
    exact List.mem_map_of_mem (hpart.subset hx)
  -- step by step, what is written to the client is what the trading post hands out
  have hwritten : ∀ x ∈ part, sentTo client x.2.2
      = (x.1.2.handedTo client x.2).flatMap HttpResponse.appendToBuffer := by
    intro x hx
    have hx' := hkeeps x (hpart.subset hx)
    obtain ⟨y, hdeployed, htrade⟩ := hjoint.taken x (hpart.subset hx)
    exact hx'.keeps.sentTo_eq (hproper _ (hmem x hx)).1 hdeployed.traffic htrade
      (hx'.backends ▸ hclient)
  have hsent : sentTo client (part.flatMap fun x => x.2.2)
      = (part.flatMap fun x => x.1.2.handedTo client x.2).flatMap HttpResponse.appendToBuffer := by
    unfold sentTo at hwritten ⊢
    rw [List.flatMap_assoc, List.flatMap_assoc]
    exact List.flatMap_congr hwritten
  -- each of these responses is read back from its bytes, whatever follows
  refine ⟨hsent, fun pieces harrived => ?_⟩
  rw [hsent] at harrived
  refine Reader.follows_of_written (fun r hr more => ?_) harrived
  obtain ⟨x, hx, hr⟩ := List.mem_flatMap.mp hr
  have hlined : r.Lined := TradingPost.lined_handedTo (hkeeps x (hpart.subset hx)).lined hr
  obtain ⟨y, -, htrade⟩ := hjoint.taken x (hpart.subset hx)
  have hmessage := hlength _ (hmem x hx) _ (htrade.mem_of_handedTo hr)
  exact HttpResponse.readResponse_appendToBuffer hlined
    (lt_of_le_of_lt r.length_body_le hmessage) more

/-- The client that buys two pieces, and asks for two more, reads both answers, however they
arrive. -/
theorem read_creamShop : ∃ steps s steps' post fd fd',
    Run (DeployedStep silentWriter creamShop) ({ system := twoClients }, creamRoom) steps s ∧
      steps.map Prod.snd = asksTwice fd fd' ∧
      Run (fun x label y => DeployedStep silentWriter creamShop x.1 label y.1 ∧
          TradeStep silentWriter creamShop x.2 label y.2)
        (({ system := twoClients }, creamRoom), creamRoom.opened fun _ => threeEach) steps'
        (s, post) ∧
      steps'.map (fun x => (x.1.1, x.2)) = steps ∧
      ∀ pieces : List Bytes, pieces.flatten
          = (twoAnswer threeEach).appendToBuffer ++ (twoAnswer oneLeft).appendToBuffer →
        responseReader.receive [] pieces
          = ((steps'.flatMap fun x => x.1.2.handedTo 7 x.2).map HttpResponse.text, []) := by
  obtain ⟨steps, s, fd, fd', hrun, hlabels, hfd, hfd', hproper, -⟩ := creamShop_run
  have hserver : ∀ fd, lf ∉ (creamShop.server fd).errorContentType := fun _ =>
    (by decide : lf ∉ server1.errorContentType)
  have hlength : Meets (fun _ label => ∀ m ∈ label.2, m.2.length < 10 ^ 13) steps := by
    have hforwarded : (buyTwo.withClient clientA).bytes.length < 10 ^ 13 := by decide +kernel
    have hsold : (twoAnswer threeEach).appendToBuffer.length < 10 ^ 13 := by decide +kernel
    have hrefused : (twoAnswer oneLeft).appendToBuffer.length < 10 ^ 13 := by decide +kernel
    intro x hx m hm
    have hlabel : x.2 ∈ asksTwice fd fd' := hlabels ▸ List.mem_map_of_mem hx
    unfold asksTwice at hlabel
    simp only [List.mem_cons, List.not_mem_nil, or_false] at hlabel
    rcases hlabel with hlabel | hlabel | hlabel | hlabel | hlabel | hlabel
    all_goals rw [hlabel] at hm
    · rw [List.mem_singleton.mp hm]
      exact hforwarded
    · cases hm
    · rw [List.mem_singleton.mp hm]
      exact hsold
    · rw [List.mem_singleton.mp hm]
      exact hforwarded
    · cases hm
    · rw [List.mem_singleton.mp hm]
      exact hrefused
  obtain ⟨steps', post, hjoint, hmap, hread⟩ :=
    read_of_run hserver twoClients_ready creamRoom_stock hrun hproper hlength
  obtain ⟨hhanded, hfollows⟩ := hread 7 (by decide +kernel) steps' List.infix_rfl
  -- all that is written to the client are the two answers
  have hsent : sentTo 7 (steps'.flatMap fun x => x.2.2)
      = (twoAnswer threeEach).appendToBuffer ++ (twoAnswer oneLeft).appendToBuffer := by
    have hmessages : steps'.flatMap (fun x => x.2.2) = (steps.map Prod.snd).flatMap Prod.snd := by
      rw [← hmap, List.map_map, List.flatMap_map]
      rfl
    rw [hmessages, hlabels]
    unfold sentTo asksTwice
    simp only [List.flatMap_cons, List.flatMap_nil, List.append_nil, List.cons_append,
      List.nil_append, if_neg hfd, if_neg hfd', if_pos]
  refine ⟨steps, s, steps', post, fd, fd', hrun, hlabels, hjoint, hmap, fun pieces hpieces => ?_⟩
  rw [← hsent] at hpieces
  exact (hfollows pieces (hpieces ▸ List.prefix_rfl)).all (hpieces.trans hhanded)

end MicroBusiness
