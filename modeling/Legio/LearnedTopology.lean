import Legio.BoundedTraffic
import Legio.QuiescentAgreement

set_option linter.style.header false

/-! Nodes learn the topology. A Hello that has been put on an open channel is not lost, so
once the channels are empty it has been answered; from then on every State tells the
neighbours that the node really has. -/
namespace LearnedTopology

open LegioBinary LegioCrypto LegioMessage LegioNode Containers RoutingTableSearch
open ExceptionStates LinkStateStore GraphUpdates GraphRuns LocalLinks ChannelTopology NodeNetwork
open TransportSteps MessageRelay StateMessages LinkStateSteps LinkStateNetwork LinkStateAgreement
open LinkStateRuns QuiescentAgreement BoundedTraffic
open VersionedFlooding (Joined)

variable {V Id Pair Ecdh Chan : Type} [DecidableEq V] [LinearOrder Id] [DecidableEq Chan]

/-- The far side has handled a Hello from this side of the channel, or one is on its way. -/
def Greeting (K : CryptoPP Id Pair Ecdh) (net : Network V Id Chan)
    (w : World V Id Pair Ecdh Chan) (c : Chan) : Prop :=
  w.greeted (net.peer c) = true ∨ ∃ data ∈ inFlight net w.nodes c,
    carriesType K (net.host (net.remote c)).byteOrder MessageType.Hello data = true

section Steps
variable {K : CryptoPP Id Pair Ecdh} {net : Network V Id Chan} {id : V → Id} {key : V → Binary}
  {w : World V Id Pair Ecdh Chan} {items : Chan → List (Message Id × Option (V × ℕ))}
  {a : VersionedFlooding.State V Chan} {c : Chan}

omit [DecidableEq V] in
theorem tracks_sealed (h : Tracks K net id key w items a) (v : V) :
    Sealed K (w.nodes v).ecdsaPair (w.nodes v).graph.mEcdh (w.nodes v) := by
  obtain ⟨s, hs, hkey, _⟩ := (h.valid v).current
  refine ⟨rfl, rfl, (h.valid v).rooted, ⟨s, hs, hkey⟩, fun port => ?_⟩
  have htyped := h.simulates.consistent.typed v
  cases port with
  | signaling => exact htyped.signaling
  | user => exact htyped.user

omit [DecidableEq V] in
theorem tracks_honest (hid : Function.Injective id) (h : Tracks K net id key w items a) (x : V)
    {p : Message Id × Option (V × ℕ)} (hp : p ∈ items c) :
    Honest K (w.nodes x).ecdsaPair (w.nodes x).graph.mEcdh p.1 := by
  cases h.simulates.carried c p hp with
  | hello signed author type destination =>
    refine honest_of_type ?_
    rw [type]
    decide
  | @state m pair s v i carries author number =>
    intro s' hs' hown
    rw [carries.state] at hs'
    cases hs'
    obtain ⟨hsid, _, hkey⟩ := h.simulates.history v i s number
    have hsame : id v = id x := by
      rw [← hsid, hown]
      exact h.simulates.consistent.identity x
    rw [hkey, hid hsame]
    exact (h.simulates.consistent.ecdhKey x).symm
  | other signed hello state => exact honest_of_type state

omit [LinearOrder Id] [DecidableEq Chan] in
theorem inFlight_grows {x : V} {n' : Node Id Pair Ecdh Chan} {k : ℕ}
    (h : Handed k (w.nodes x) n') (c : Chan) :
    inFlight net w.nodes c <+: inFlight net (Function.update w.nodes x n') c := by
  unfold inFlight
  by_cases hx : net.owner c = x
  · rw [hx, Function.update_self]
    exact (h c).1
  · rw [Function.update_of_ne hx]

omit [LinearOrder Id] [DecidableEq Chan] in
theorem inFlight_same {x : V} {n' : Node Id Pair Ecdh Chan}
    (h : n'.wire.outbox = (w.nodes x).wire.outbox) (c : Chan) :
    inFlight net w.nodes c <+: inFlight net (Function.update w.nodes x n') c := by
  rw [inFlight, inFlight, read_update (fun n => n.wire.outbox) h]

omit [LinearOrder Id] in
theorem inFlight_popAt (σ : Nodes V Id Pair Ecdh Chan) (c c' : Chan) :
    inFlight net (popAt net σ c') c =
      if c = c' then (inFlight net σ c).tail else inFlight net σ c := by
  unfold inFlight popAt
  by_cases howner : net.owner c = net.owner c'
  · rw [howner, Function.update_self]
    by_cases hc : c = c'
    · subst hc
      simp [Wire.pop]
    · simp [Wire.pop, hc]
  · have hc : c ≠ c' := fun heq => howner (congrArg net.owner heq)
    rw [Function.update_of_ne howner, if_neg hc]

omit [DecidableEq V] [DecidableEq Chan] in
theorem carried_parse (hK : EcdsaLaws K) (o : ByteOrder) {announced : V → List (State Id)}
    {p : Message Id × Option (V × ℕ)} (hp : Carried K net id announced c p) :
    Message.parse K o (frame K p.1) = .ok p.1 := by
  cases hp with
  | hello signed author type destination => exact parse_signed hK o signed
  | state carries author number => exact parse_signed hK o carries.signed
  | other signed hello state => exact parse_signed hK o signed

section Laws
variable (hK : EcdsaLaws K) (hid : Function.Injective id)
include hK hid

theorem arrive_grows (h : Tracks K net id key w items a) {c' : Chan} {data : Binary}
    {rest : List Binary} (hflight : inFlight net w.nodes c' = data :: rest) (c : Chan) :
    inFlight net w.nodes c <+: inFlight net (Function.update w.nodes (net.remote c')
      (arrive K (net.host (net.remote c')) (w.nodes (net.remote c')) (net.peer c') data)) c := by
  rw [arrive]
  split_ifs
  · have hout := h.simulates.outbox c'
    rw [hflight] at hout
    have hmem : data ∈ (items c').map fun p => frame K p.1 := by
      rw [← hout]
      exact List.mem_cons_self
    obtain ⟨p, hp, rfl⟩ := List.mem_map.mp hmem
    have hunforged : NodeEvent.Unforged K (net.host (net.remote c'))
        (w.nodes (net.remote c')).ecdsaPair (w.nodes (net.remote c')).graph.mEcdh
        (.received (net.peer c') (frame K p.1)) := by
      intro data hdata message hparse
      obtain rfl := List.mem_singleton.mp hdata
      rw [carried_parse hK _ (h.simulates.carried c' p hp)] at hparse
      cases hparse
      exact tracks_honest hid h _ hp
    exact inFlight_grows (event_step _ hunforged (tracks_sealed h _)).1 c
  · rw [Function.update_eq_self]

theorem greeting_step (h : Tracks K net id key w items a) (hlive : live net w.nodes c = true)
    (hc : Greeting K net w c) (ev : Event V Id Chan) : Greeting K net (ev.apply K net w) c := by
  have hstay : ∀ σ : Nodes V Id Pair Ecdh Chan, ev.act K net w = σ →
      inFlight net w.nodes c <+: inFlight net σ c →
      (∀ c', w.greeted c' = true → ev.greetedAfter K net w c' = true) →
      Greeting K net (ev.apply K net w) c := by
    intro σ hact hpre hgreeted
    rcases hc with hdone | ⟨data, hdata, hhello⟩
    · exact Or.inl (hgreeted _ hdone)
    · refine Or.inr ⟨data, ?_, hhello⟩
      change data ∈ inFlight net (ev.act K net w) c
      rw [hact]
      exact hpre.subset hdata
  cases ev with
  | connect c' =>
    refine hstay _ rfl ?_ fun _ hg => hg
    rw [Event.act]
    split_ifs
    · exact List.prefix_rfl
    · refine inFlight_same ?_ c
      rfl
  | disconnect c' =>
    refine hstay _ rfl ?_ fun _ hg => hg
    rw [Event.act]
    refine inFlight_same ?_ c
    rfl
  | removeChannel c' =>
    refine hstay _ rfl ?_ fun _ hg => hg
    rw [Event.act]
    refine inFlight_same ?_ c
    rfl
  | lose c' =>
    refine hstay _ rfl ?_ fun _ hg => hg
    rw [Event.act]
    split_ifs with hlive'
    · exact List.prefix_rfl
    · have hne : c ≠ c' := fun heq => hlive' (heq ▸ hlive)
      rw [inFlight_popAt, if_neg hne]
  | update v =>
    exact hstay _ rfl (inFlight_grows (update_step (tracks_sealed h v)).1 c) fun _ hg => hg
  | broadcast v port payload =>
    exact hstay _ rfl
      (inFlight_grows (transportBroadcast_step port payload (tracks_sealed h v)).1 c)
      fun _ hg => hg
  | send v port remoteId payload random =>
    exact hstay _ rfl
      (inFlight_grows (transportSend_step port remoteId payload random (tracks_sealed h v)).1 c)
      fun _ hg => hg
  | deliver c' =>
    have hkeeps : ∀ x, w.greeted x = true → (Event.deliver c').greetedAfter K net w x = true := by
      intro x hx
      rw [Event.greetedAfter]
      split_ifs
      · rw [Function.update_apply, hx, ite_self]
      · exact hx
    cases hflight : inFlight net w.nodes c' with
    | nil =>
      have hact : (Event.deliver c').act K net w = w.nodes := by
        rw [Event.act, NodeNetwork.deliver, hflight]
      exact hstay _ hact List.prefix_rfl hkeeps
    | cons head rest =>
      have hgrows := arrive_grows hK hid h hflight c
      set nodes := Function.update w.nodes (net.remote c') (arrive K (net.host (net.remote c'))
        (w.nodes (net.remote c')) (net.peer c') head) with hnodes
      have hact : (Event.deliver c').act K net w = popAt net nodes c' := by
        rw [Event.act, NodeNetwork.deliver, hflight]
      by_cases hne : c = c'
      · subst hne
        rcases hc with hdone | ⟨data, hdata, hhello⟩
        · exact Or.inl (hkeeps _ hdone)
        · rw [hflight] at hdata hgrows
          obtain ⟨more, hmore⟩ := hgrows
          rcases List.mem_cons.mp hdata with rfl | hmem
          · -- the Hello is the message that is handled
            left
            have hregistered : net.peer c ∈ (w.nodes (net.remote c)).routing.mChannels :=
              of_decide_eq_true (Bool.and_eq_true_iff.mp (Bool.and_eq_true_iff.mp hlive).2).1
            have hgreets : greets K net w.nodes c = true := by
              rw [greets, hflight, decide_eq_true hregistered, Bool.true_and]
              exact hhello
            change (Event.deliver c).greetedAfter K net w (net.peer c) = true
            rw [Event.greetedAfter, if_pos hgreets, Function.update_self]
          · refine Or.inr ⟨data, ?_, hhello⟩
            change data ∈ inFlight net ((Event.deliver c).act K net w) c
            rw [hact, inFlight_popAt, if_pos rfl, ← hmore]
            exact List.mem_append_left more hmem
      · refine hstay _ hact ?_ hkeeps
        rw [inFlight_popAt, if_neg hne]
        exact hgrows

theorem up_step (hE : EcdhLaws K) (h : Tracks K net id key w items a) (ev : Event V Id Chan)
    (hwithin : ∀ v, Within ((ev.apply K net w).nodes v)) (hopens : ev.closes = false)
    (hc : up net w.nodes c = true) : up net (ev.apply K net w).nodes c = true := by
  have hkept : ∀ {x : V} {n' : Node Id Pair Ecdh Chan}, Kept (w.nodes x) n' →
      up net (Function.update w.nodes x n') c = true := by
    intro x n' hk
    rw [up_update hk.mChannels hk.isOpen]
    exact hc
  change up net (ev.act K net w) c = true
  cases ev with
  | connect c' =>
    rw [Event.act]
    split_ifs
    · exact hc
    · rw [up_connect, Function.update_apply, hc, ite_self]
  | disconnect c' => cases hopens
  | removeChannel c' => cases hopens
  | lose c' =>
    rw [Event.act]
    split_ifs
    · exact hc
    · rw [up_popAt]
      exact hc
  | update v =>
    obtain ⟨m, _, _, _, hrun⟩ := update_spec (K := K) (net.host v) (w.nodes v)
    rw [Event.act, hrun]
    exact hkept (emits_greet (w.nodes v) m).kept
  | broadcast v port payload =>
    obtain ⟨m, targets, hposts, _⟩ := broadcast_sends (K := K) (net.host v) (w.nodes v) port payload
    exact hkept (emits_of_posts hposts).kept
  | send v port remoteId payload random =>
    obtain ⟨m, targets, hposts, _⟩ := send_sends (K := K) (net.host v)
      (h.simulates.consistent.typed v) port remoteId payload random
    exact hkept (emits_of_posts hposts).kept
  | deliver c' =>
    cases hhead : items c' with
    | nil =>
      have hout := h.simulates.outbox c'
      rw [hhead] at hout
      simp only [Event.act, NodeNetwork.deliver, hout, List.map_nil]
      exact hc
    | cons p rest =>
      have hout := h.simulates.outbox c'
      rw [hhead, List.map_cons] at hout
      by_cases hregistered : net.peer c' ∈ (w.nodes (net.remote c')).routing.mChannels
      · set n' := Node.onMessage K (net.host (net.remote c')) (w.nodes (net.remote c'))
          (net.peer c') (frame K p.1) with hn'
        have hact : (Event.deliver c').act K net w =
            popAt net (Function.update w.nodes (net.remote c') n') c' := by
          simp only [Event.act, NodeNetwork.deliver, hout, arrive, if_pos hregistered]
          rfl
        have hbound : Bounded n' := by
          have hx := (hwithin (net.remote c')).1
          have hnodes : ((Event.deliver c' : Event V Id Chan).apply K net w).nodes =
              popAt net (Function.update w.nodes (net.remote c') n') c' := hact
          rw [hnodes, read_popAt net _ c' (fun n => n.routing) fun _ => rfl,
            Function.update_self] at hx
          exact hx
        obtain ⟨_, _, hr⟩ := receive hK hE hid h.simulates h.invariant (h.valid _)
          (net.host (net.remote c')) h.limit (by rw [hhead]; exact List.mem_cons_self)
          hregistered hbound
        rw [hact, up_popAt]
        exact hkept hr.moves.kept
      · simp only [Event.act, NodeNetwork.deliver, hout, arrive, if_neg hregistered,
          Function.update_eq_self, up_popAt]
        exact hc

theorem live_step (hE : EcdhLaws K) (h : Tracks K net id key w items a) (ev : Event V Id Chan)
    (hwithin : ∀ v, Within ((ev.apply K net w).nodes v)) (hopens : ev.closes = false)
    (hc : live net w.nodes c = true) : live net (ev.apply K net w).nodes c = true := by
  obtain ⟨hself, hpeer⟩ := Bool.and_eq_true_iff.mp hc
  exact Bool.and_eq_true_iff.mpr ⟨up_step hK hid hE h ev hwithin hopens hself,
    up_step hK hid hE h ev hwithin hopens hpeer⟩

omit hid in
theorem update_greets (h : Tracks K net id key w items a) (hc : live net w.nodes c = true) :
    Greeting K net ((Event.update (net.owner c) : Event V Id Chan).apply K net w) c := by
  obtain ⟨m, hsigned, htype, _, hrun⟩ :=
    update_spec (K := K) (net.host (net.owner c)) (w.nodes (net.owner c))
  have htarget : reached (w.nodes (net.owner c)).routing (w.nodes (net.owner c)).wire none c =
      true := by
    rw [reached_iff h.simulates.consistent]
    exact ⟨⟨(Bool.and_eq_true_iff.mp hc).1, rfl⟩, Option.some_ne_none c⟩
  refine Or.inr ⟨frame K m, ?_, ?_⟩
  · change frame K m ∈ inFlight net (Function.update w.nodes (net.owner c)
      (final (Graph.update K (net.host (net.owner c)) (w.nodes (net.owner c))))) c
    rw [hrun, inFlight, Function.update_self]
    exact mem_push.mpr (Or.inr ⟨htarget, rfl⟩)
  · rw [carriesType_signed hK _ hsigned, htype]
    rfl

/-- The Hello stays in flight or is handled, as long as no channel goes down. -/
theorem greeting_run (hE : EcdhLaws K) (events : List (Event V Id Chan)) :
    ∀ (w : World V Id Pair Ecdh Chan) (items : Chan → List (Message Id × Option (V × ℕ)))
      (a : VersionedFlooding.State V Chan), Tracks K net id key w items a →
      Guarded K net w events → (∀ ev ∈ events, ev.closes = false) →
      live net w.nodes c = true → Greeting K net w c →
      Greeting K net (LinkStateNetwork.run K net w events) c := by
  induction events with
  | nil => exact fun w items a _ _ _ _ hc => hc
  | cons ev events ih =>
    intro w items a h hg hopens hlive hc
    obtain ⟨hwithin, hrest⟩ := hg
    have hopen := hopens ev List.mem_cons_self
    obtain ⟨items₁, a₁, h₁, _⟩ := event_followed hK hE hid h ev hwithin
    exact ih _ _ _ h₁ hrest (fun ev' hev' => hopens ev' (List.mem_cons_of_mem _ hev'))
      (live_step hK hid hE h ev hwithin hopen hlive) (greeting_step hK hid h hlive hc ev)

end Laws

end Steps

section Runs
variable {K : CryptoPP Id Pair Ecdh} {net : Network V Id Chan} {σ : Nodes V Id Pair Ecdh Chan}

/-- At both ends of every channel that is open in the end, the node has called `update` since
the channel opened. -/
def Refreshed (K : CryptoPP Id Pair Ecdh) (net : Network V Id Chan)
    (w : World V Id Pair Ecdh Chan) (events : List (Event V Id Chan)) : Prop :=
  ∀ c, live net (LinkStateNetwork.run K net w events).nodes c = true → ∃ before after,
    events = before ++ .update (net.owner c) :: after ∧
      live net (LinkStateNetwork.run K net w before).nodes c = true

theorem guarded_append (w : World V Id Pair Ecdh Chan) (before after : List (Event V Id Chan)) :
    Guarded K net w (before ++ after) ↔
      Guarded K net w before ∧ Guarded K net (LinkStateNetwork.run K net w before) after := by
  induction before generalizing w with
  | nil => exact ⟨fun h => ⟨trivial, h⟩, fun h => h.2⟩
  | cons ev before ih =>
    constructor
    · rintro ⟨hev, hrest⟩
      obtain ⟨hbefore, hafter⟩ := (ih _).mp hrest
      exact ⟨⟨hev, hbefore⟩, hafter⟩
    · rintro ⟨⟨hev, hbefore⟩, hafter⟩
      exact ⟨hev, (ih _).mpr ⟨hbefore, hafter⟩⟩

variable (hK : EcdsaLaws K) (hE : EcdhLaws K)
include hK hE

theorem refreshed_greeted (h : Started K net σ) {events : List (Event V Id Chan)}
    (hg : Guarded K net (World.initial σ) events) (hopens : ∀ ev ∈ events, ev.closes = false)
    (hfresh : Refreshed K net (World.initial σ) events) {c : Chan}
    (hlive : live net (LinkStateNetwork.run K net (World.initial σ) events).nodes c = true) :
    Greeting K net (LinkStateNetwork.run K net (World.initial σ) events) c := by
  obtain ⟨before, after, rfl, hbefore⟩ := hfresh c hlive
  obtain ⟨hg₁, hwithin, hg₂⟩ := (guarded_append _ before _).mp hg
  obtain ⟨items, a, htracks, _⟩ := run_tracks hK hE h.identities before _ _ _
    (started_tracks hK hE h) hg₁
  obtain ⟨items₁, a₁, h₁, _⟩ := event_followed hK hE h.identities htracks _ hwithin
  have hlive₁ := live_step hK h.identities hE htracks (.update (net.owner c)) hwithin rfl hbefore
  have hrun : LinkStateNetwork.run K net (World.initial σ)
      (before ++ .update (net.owner c) :: after) =
        LinkStateNetwork.run K net ((Event.update (net.owner c) : Event V Id Chan).apply K net
          (LinkStateNetwork.run K net (World.initial σ) before)) after := by
    rw [LinkStateNetwork.run, List.foldl_append]
    rfl
  rw [hrun]
  refine greeting_run hK h.identities hE after _ items₁ a₁ h₁ hg₂ (fun ev hev => ?_) hlive₁
    (update_greets hK htracks hbefore)
  exact hopens ev (List.mem_append_right _ (List.mem_cons_of_mem _ hev))

/-- What every node has learned when all messages have been handled: the State it stores of
any node joined to it by open channels names the nodes at the far sides of that node's open
channels, and no others. -/
theorem topology_learned (h : Started K net σ) (events : List (Event V Id Chan))
    (hg : Guarded K net (World.initial σ) events) (hopens : ∀ ev ∈ events, ev.closes = false)
    (hfresh : Refreshed K net (World.initial σ) events) :
    let w := LinkStateNetwork.run K net (World.initial σ) events
    (∀ c, live net w.nodes c = true → inFlight net w.nodes c = []) →
      ∀ u v, Joined net.toCabling (live net w.nodes) v u →
        ∃ s, (w.nodes u).graph.stateOf ((σ v).id K) = some s ∧ ∀ b, b ∈ s.neighbors ↔
          ∃ c, live net w.nodes c = true ∧ net.owner c = v ∧ (σ (net.remote c)).id K = b := by
  intro w hempty u v hj
  obtain ⟨items, a, htracks, hfamiliar⟩ := run_tracks hK hE h.identities events _ _ _
    (started_tracks hK hE h) hg
  have hf := hfamiliar hopens (started_familiar hK hE h)
  have hquiet : Quiet K net w := by
    intro c hc data hdata
    rw [hempty c hc] at hdata
    cases hdata
  have hgreeted : ∀ c, live net w.nodes c = true → w.greeted c = true := by
    intro c hc
    have hpeer : live net w.nodes (net.peer c) = true := by
      rw [live, net.peer_peer, Bool.and_comm]
      exact hc
    rcases refreshed_greeted hK hE h hg hopens hfresh hpeer with hdone | ⟨data, hdata, _⟩
    · rwa [net.peer_peer] at hdone
    · rw [hempty _ hpeer] at hdata
      cases hdata
  have hqueue := quiet_queue hK htracks hquiet
  -- the announcements that go around are those made since the channels opened
  have hsince : Joined net.toCabling (a.since v) v u := by
    rw [← live_eq htracks] at hj
    refine VersionedFlooding.joined_since htracks.invariant hf.growing hqueue (fun c hc => ?_) hj
    rw [live_eq htracks] at hc
    exact familiar_greet h.identities htracks hf (hgreeted c hc)
  obtain ⟨s, t, hs, ht, _, hneighbors⟩ :=
    agreeOn_of_known htracks (VersionedFlooding.agreement htracks.invariant hqueue hsince)
  obtain ⟨_, t', ht', hown⟩ := (agrees_iff (htracks.valid v)).mpr (hf.inStep v)
  rw [ht, Option.some.injEq] at ht'
  subst ht'
  have hid := htracks.simulates.consistent.identity v
  refine ⟨s, hid ▸ hs, fun b => ?_⟩
  rw [hneighbors, hown, Routing.neighbors, mem_keySet, mem_iff_lookup]
  constructor
  · rintro ⟨c, hc⟩
    obtain ⟨hleads, hlive⟩ := hf.bound v b c hc
    exact ⟨c, since_live htracks v c hlive, htracks.simulates.consistent.leads v b c hc, hleads⟩
  · rintro ⟨c, hc, rfl, rfl⟩
    exact mem_iff_lookup.mp (hf.greeted c (hgreeted c hc))

end Runs

namespace Sample
open QuiescentAgreement.Sample

theorem meeting_refreshed : Refreshed crypto line (World.initial nodes) meeting := by
  have hlive : ∀ c, live line (LinkStateNetwork.run crypto line (World.initial nodes)
      meeting).nodes c = true → c = 0 ∨ c = 1 := by
    decide +kernel
  intro c hc
  rcases hlive c hc with rfl | rfl
  · exact ⟨[.connect 0, .connect 1], _, rfl, by decide +kernel⟩
  · exact ⟨[.connect 0, .connect 1, .update 0], _, rfl, by decide +kernel⟩

theorem meeting_learned :
    let w := LinkStateNetwork.run crypto line (World.initial nodes) meeting
    ∃ s, (w.nodes 2).graph.stateOf 0 = some s ∧ ∀ b, b ∈ s.neighbors ↔
      ∃ c, live line w.nodes c = true ∧ line.owner c = 0 ∧
        (nodes (line.remote c)).id crypto = b := by
  have hempty : ∀ c, live line (LinkStateNetwork.run crypto line (World.initial nodes)
      meeting).nodes c = true → inFlight line (LinkStateNetwork.run crypto line
        (World.initial nodes) meeting).nodes c = [] := by
    decide +kernel
  have hlive : live line (LinkStateNetwork.run crypto line (World.initial nodes)
      meeting).nodes 0 = true := by
    decide +kernel
  exact topology_learned LegioCrypto.Sample.ecdsaLaws LegioCrypto.Sample.ecdhLaws started_nodes
    meeting (by decide +kernel) (by decide) meeting_refreshed hempty 2 0
      (.single ⟨0, hlive, rfl, rfl⟩)

end Sample

end LearnedTopology
