import Legio.LinkStateRuns
import Mathlib.Data.Fin.VecNotation

set_option linter.style.header false

/-! Agreement on the link state in quiescent networks, from constructed nodes on. -/
namespace QuiescentAgreement

open LegioBinary LegioCrypto LegioMessage LegioNode Containers RoutingTableSearch
open ExceptionStates LinkStateStore GraphUpdates GraphRuns LocalLinks ChannelTopology NodeNetwork
open TransportSteps MessageRelay StateMessages LinkStateSteps LinkStateNetwork LinkStateAgreement
open LinkStateRuns
open VersionedFlooding (Joined Growing)

variable {V Id Pair Ecdh Chan : Type} [DecidableEq V] [LinearOrder Id] [DecidableEq Chan]

/-- A constructed node has announced itself once, with nobody listening. -/
structure Alone (K : CryptoPP Id Pair Ecdh) (n : Node Id Pair Ecdh Chan) (s : State Id) :
    Prop where
  id : s.id = n.id K
  sequence : s.sequence = 0
  ecdhPublic : s.ecdhPublic = K.ecdhPublicKey n.graph.mEcdh
  announced : n.graph.announced = [s]
  stored : n.graph.stateOf = Function.update (fun _ => none) s.id (some s)
  mChannels : n.routing.mChannels = ∅
  mNeighbors : n.routing.mNeighbors = ∅

theorem started_alone {K : CryptoPP Id Pair Ecdh} (hK : EcdsaLaws K) (hE : EcdhLaws K)
    {H : Host Id} {n : Node Id Pair Ecdh Chan} (h : LocalLinks.Started K H n) :
    ∃ s, Alone K n s := by
  obtain ⟨n₀, mEcdh, hrouting, hrun⟩ := h
  have hb : n₀.routing.neighbors.card ≤ neighborLimit := by
    rw [hrouting]
    exact Nat.zero_le _
  obtain ⟨n', message, hrun', _, _, hview, hann⟩ := construct_spec H hK hE n₀ mEcdh hb
  rw [hrun] at hrun'
  cases hrun'
  have hid := announced_id H hann
  have hkept := hann.kept
  simp only [surroundings, Surroundings.mk.injEq] at hkept
  obtain ⟨_, _, hchannels, hneighbors, hecdh, _, _, hannounced, _, _⟩ := hkept
  refine ⟨({ n₀ with graph := emptyGraph (n₀.id K) mEcdh } : Node Id Pair Ecdh Chan).localState K,
    ⟨hid.symm, rfl, ?_, hannounced, ?_, ?_, ?_⟩⟩
  · rw [hecdh]
    rfl
  · rw [← view_states, hview, accept_states]
    rfl
  · rw [hchannels, hrouting]
    rfl
  · rw [hneighbors, hrouting]
    rfl

def unheard (V Chan : Type) [DecidableEq V] : VersionedFlooding.State V Chan where
  ver _ := 1
  known x v := if x = v then 1 else 0
  queue _ := []
  up _ := false
  since _ _ := false

omit [DecidableEq Chan] in
theorem unheard_invariant (N : Cabling V Chan) :
    VersionedFlooding.Invariant N (unheard V Chan) := by
  constructor
  · exact fun v => if_pos rfl
  · exact fun _ => Nat.one_pos
  · intro x v
    change (if x = v then 1 else 0) ≤ 1
    split_ifs <;> omega
  · intro _ _ _ h
    cases h
  · intro _ _ h
    cases h
  · intro _ _ h
    cases h
  · intro _ _ h
    cases h

omit [DecidableEq Chan] in
theorem unheard_growing (N : Cabling V Chan) : Growing N (unheard V Chan) := by
  constructor
  · exact fun _ _ => Or.inl fun _ h => h
  · intro x v h
    by_cases hxv : x = v
    · subst hxv
      exact .refl
    · simp only [unheard, if_neg hxv] at h
      omega
  · exact fun c hc => absurd rfl hc

section Runs
variable {K : CryptoPP Id Pair Ecdh} (hK : EcdsaLaws K) (hE : EcdhLaws K)
  {net : Network V Id Chan} {σ : Nodes V Id Pair Ecdh Chan}
include hK hE

omit [DecidableEq V] in
theorem started_consistent (h : Started K net σ) :
    Consistent K net (fun v => (σ v).id K) (fun v => K.ecdhPublicKey (σ v).graph.mEcdh) σ := by
  have halone := fun v => started_alone hK hE (h.constructed v)
  constructor
  · exact fun _ => rfl
  · exact fun _ => rfl
  · exact h.typed
  · intro v c hc
    obtain ⟨s, hs⟩ := halone v
    rw [hs.mChannels] at hc
    cases hc
  · intro v b c hc
    obtain ⟨s, hs⟩ := halone v
    rw [hs.mNeighbors] at hc
    cases hc

theorem started_tracks (h : Started K net σ) :
    Tracks K net (fun v => (σ v).id K) (fun v => K.ecdhPublicKey (σ v).graph.mEcdh)
      (World.initial σ) (fun _ => []) (unheard V Chan) := by
  have halone := fun v => started_alone hK hE (h.constructed v)
  have hlength : ∀ v, (σ v).graph.announced.length = 1 := by
    intro v
    obtain ⟨s, hs⟩ := halone v
    rw [hs.announced]
    rfl
  constructor
  · constructor
    · exact started_consistent hK hE h
    · intro v i s hi
      obtain ⟨t, ht⟩ := halone v
      rw [World.initial, ht.announced, List.getElem?_singleton] at hi
      split_ifs at hi with hzero
      cases hi
      rw [hzero]
      exact ⟨ht.id, ht.sequence, ht.ecdhPublic⟩
    · exact h.quiet
    · intro _ _ hp
      cases hp
    · exact fun v => (hlength v).symm
    · intro x v
      obtain ⟨s, hs⟩ := halone x
      change (σ x).graph.stateOf ((σ v).id K) =
        version (σ v).graph.announced (if x = v then 1 else 0)
      by_cases hxv : x = v
      · subst hxv
        rw [if_pos rfl, hs.announced, ← hs.id, hs.stored, Function.update_self]
        rfl
      · have hne : (σ v).id K ≠ s.id := fun heq => hxv (h.identities (hs.id.symm.trans heq.symm))
        rw [if_neg hxv, hs.stored, Function.update_of_ne hne]
        rfl
    · exact fun _ => rfl
    · funext c
      change false = up net σ c
      rw [up, h.closed, Bool.and_false]
  · exact unheard_invariant net.toCabling
  · rfl
  · exact fun v => (started_inStep (net.host v) hK hE (h.constructed v)).1
  · intro v
    change (σ v).graph.announced.length < broadcastLimit
    rw [hlength, broadcastLimit]
    omega

theorem started_familiar (h : Started K net σ) :
    Familiar K net (fun v => (σ v).id K) (World.initial σ) (fun _ => []) (unheard V Chan) := by
  have halone := fun v => started_alone hK hE (h.constructed v)
  constructor
  · exact unheard_growing net.toCabling
  · exact fun v => (started_inStep (net.host v) hK hE (h.constructed v)).2
  · intro v c hc
    obtain ⟨s, hs⟩ := halone v
    rw [World.initial, hs.mChannels] at hc
    cases hc
  · intro v b c hc
    obtain ⟨s, hs⟩ := halone v
    rw [World.initial, hs.mNeighbors] at hc
    cases hc
  · exact fun c hc => absurd rfl hc
  · intro c hc
    cases hc

omit [DecidableEq V] in
theorem run_tracks [DecidableEq V] {id : V → Id} {key : V → Binary}
    (hid : Function.Injective id) (events : List (Event V Id Chan)) :
    ∀ (w : World V Id Pair Ecdh Chan) (items : Chan → List (Message Id × Option (V × ℕ)))
      (a : VersionedFlooding.State V Chan), Tracks K net id key w items a →
      Guarded K net w events →
      ∃ items' a', Tracks K net id key (run K net w events) items' a' ∧
        ((∀ ev ∈ events, ev.closes = false) → Familiar K net id w items a →
          Familiar K net id (run K net w events) items' a') := by
  induction events with
  | nil => exact fun w items a h _ => ⟨items, a, h, fun _ hf => hf⟩
  | cons ev events ih =>
    intro w items a h hg
    obtain ⟨hwithin, hrest⟩ := hg
    obtain ⟨items₁, a₁, h₁, hf₁⟩ := event_followed hK hE hid h ev hwithin
    obtain ⟨items', a', h', hf'⟩ := ih _ _ _ h₁ hrest
    refine ⟨items', a', h', fun hopens hf => ?_⟩
    have hopen : ev.closes = false := hopens ev List.mem_cons_self
    exact hf' (fun ev' hev' => hopens ev' (List.mem_cons_of_mem _ hev')) (hf₁ hopen hf)

omit [DecidableEq V] hE in
theorem quiet_queue [DecidableEq V] {id : V → Id} {key : V → Binary}
    {w : World V Id Pair Ecdh Chan} {items : Chan → List (Message Id × Option (V × ℕ))}
    {a : VersionedFlooding.State V Chan} (h : Tracks K net id key w items a)
    (hq : Quiet K net w) (c : Chan) (hc : a.live net.toCabling c = true) : a.queue c = [] := by
  rw [h.simulates.queue, List.filterMap_eq_nil_iff]
  intro p hp
  have hcarried := h.simulates.carried c p hp
  have hflight : frame K p.1 ∈ inFlight net w.nodes c := by
    rw [h.simulates.outbox]
    exact List.mem_map_of_mem hp
  have hother := hq c (live_eq h ▸ hc) _ hflight
  rw [carriesType_frame hK _ hcarried] at hother
  cases hcarried with
  | hello signed author type destination => rfl
  | state carries author number => exact absurd carries.type (of_decide_eq_false hother)
  | other signed hello state => rfl

omit [DecidableEq V] hK hE in
theorem agreeOn_of_known [DecidableEq V] {id : V → Id} {key : V → Binary}
    {w : World V Id Pair Ecdh Chan} {items : Chan → List (Message Id × Option (V × ℕ))}
    {a : VersionedFlooding.State V Chan} (h : Tracks K net id key w items a) {u v : V}
    (hknown : a.known u v = a.ver v) : AgreeOn K w.nodes u v := by
  have hid := h.simulates.consistent.identity v
  have hu := h.simulates.known u v
  have hv := h.simulates.known v v
  rw [h.invariant.own] at hv
  rw [hknown] at hu
  obtain ⟨t, ht, _⟩ := (h.valid v).current
  have hversion : version (w.nodes v).graph.announced (a.ver v) = some t := by
    rw [← hv, ← hid, ht]
  refine ⟨t, t, ?_, ht, rfl, rfl⟩
  rw [hid, hu, hversion]

omit [DecidableEq V] hK hE in
theorem familiar_greet [DecidableEq V] {id : V → Id} {key : V → Binary}
    (hid : Function.Injective id)
    {w : World V Id Pair Ecdh Chan} {items : Chan → List (Message Id × Option (V × ℕ))}
    {a : VersionedFlooding.State V Chan} (h : Tracks K net id key w items a)
    (hf : Familiar K net id w items a) {c : Chan} (hc : w.greeted c = true) :
    ∃ c', a.since (net.owner c) c' = true ∧ net.owner c' = net.owner c ∧
      net.remote c' = net.remote c := by
  have hmem := hf.greeted c hc
  rw [mem_iff_lookup] at hmem
  obtain ⟨c', hbound⟩ := hmem
  obtain ⟨hremote, hsince⟩ := hf.bound _ _ c' hbound
  refine ⟨c', ?_, h.simulates.consistent.leads _ _ c' hbound, hid hremote⟩
  rw [h.since]
  exact hsince

/-- In every quiescent state, nodes agree on `v` when they are joined by channels that have
been open since its last announcement; joined by open channels of any age, when no channel
has closed in the run and both ends of every open channel have greeted each other. -/
theorem link_state_agreement (h : Started K net σ) (events : List (Event V Id Chan))
    (hg : Guarded K net (World.initial σ) events) :
    let w := run K net (World.initial σ) events
    (Quiet K net w → ∀ u v, Joined net.toCabling (w.since v) v u → AgreeOn K w.nodes u v) ∧
    (Settled K net w → (∀ ev ∈ events, ev.closes = false) →
      ∀ u v, Joined net.toCabling (live net w.nodes) v u → AgreeOn K w.nodes u v) := by
  obtain ⟨items, a, htracks, hfamiliar⟩ := run_tracks hK hE h.identities events _ _ _
    (started_tracks hK hE h) hg
  constructor
  · intro hquiet u v hj
    rw [← htracks.since] at hj
    exact agreeOn_of_known htracks
      (VersionedFlooding.agreement htracks.invariant (quiet_queue hK htracks hquiet) hj)
  · intro hsettled hopens u v hj
    have hf := hfamiliar hopens (started_familiar hK hE h)
    have hqueue := quiet_queue hK htracks hsettled.quiet
    rw [← live_eq htracks] at hj
    have hgreet : ∀ c, a.live net.toCabling c = true → ∃ c', a.since (net.owner c) c' = true ∧
        net.owner c' = net.owner c ∧ net.remote c' = net.remote c := by
      intro c hc
      rw [live_eq htracks] at hc
      exact familiar_greet h.identities htracks hf (hsettled.greeted c hc)
    have hsince := VersionedFlooding.joined_since htracks.invariant hf.growing hqueue hgreet hj
    exact agreeOn_of_known htracks (VersionedFlooding.agreement htracks.invariant hqueue hsince)

end Runs

-- Node 2 lies between nodes 0 and 1 at first; then it loses node 0 and meets node 1, which
-- meets node 0 later on.
namespace Sample

abbrev crypto := LegioCrypto.Sample.crypto

def line : Network (Fin 3) (Fin 4) (Fin 6) where
  owner := ![0, 2, 2, 1, 0, 1]
  peer := ![1, 0, 3, 2, 5, 4]
  peer_peer := by decide
  host _ := LegioNode.Sample.host

def blank (v : Fin 3) : Node (Fin 4) (Fin 4) (Fin 4) (Fin 6) where
  ecdsaPair := v.castSucc
  wire := ⟨fun _ => false, fun _ => []⟩
  routing := .initial
  graph := emptyGraph v.castSucc v.castSucc
  signaling := .initial MessageType.Signaling 0
  userTransport := .initial MessageType.User 0

def nodes (v : Fin 3) : Node (Fin 4) (Fin 4) (Fin 4) (Fin 6) :=
  final (Graph.construct crypto LegioNode.Sample.host v.castSucc (blank v))

theorem constructed_nodes (v : Fin 3) :
    LocalLinks.Started crypto LegioNode.Sample.host (nodes v) := by
  have hb : Bounded (blank v) := Nat.zero_le _
  obtain ⟨n', hrun, _⟩ := construct_step LegioNode.Sample.host LegioCrypto.Sample.ecdsaLaws
    LegioCrypto.Sample.ecdhLaws (blank v) hb v.castSucc
  refine ⟨blank v, v.castSucc, rfl, ?_⟩
  rw [nodes, hrun]
  rfl

theorem started_nodes : Started crypto line nodes where
  identities := by unfold Function.Injective; decide +kernel
  constructed := constructed_nodes
  typed v := ⟨by revert v; decide +kernel, by revert v; decide +kernel⟩
  closed := by decide +kernel
  quiet := by unfold Quiescent; decide +kernel

def meeting : List (Event (Fin 3) (Fin 4) (Fin 6)) :=
  [.connect 0, .connect 1, .update 0, .update 2, .deliver 0, .deliver 1, .deliver 0, .deliver 1,
    .deliver 0, .deliver 1]

/-- What node 2 announces when it meets node 1 is handled there before node 1 meets node 0,
and nobody repeats it. -/
def events : List (Event (Fin 3) (Fin 4) (Fin 6)) :=
  meeting ++ [.disconnect 0, .removeChannel 0, .disconnect 1, .removeChannel 1, .connect 2,
    .connect 3, .update 1, .update 2, .deliver 2, .deliver 3, .deliver 2, .deliver 3, .deliver 2,
    .deliver 3, .connect 4, .connect 5, .update 0, .update 1, .deliver 3, .deliver 4, .deliver 3,
    .deliver 5, .deliver 4, .deliver 3, .deliver 3, .deliver 5, .deliver 4, .deliver 3,
    .deliver 5]

theorem old_state_stays : Started crypto line nodes ∧
    Guarded crypto line (World.initial nodes) events ∧
    (let w := run crypto line (World.initial nodes) events
    Settled crypto line w ∧ Joined line.toCabling (live line w.nodes) 2 0 ∧
      ¬ AgreeOn crypto w.nodes 0 2) := by
  set w := run crypto line (World.initial nodes) events with hw
  -- evaluated together, so that the run is evaluated once
  have hrun : (Guarded crypto line (World.initial nodes) events ∧ Quiet crypto line w ∧
      ∀ c, live line w.nodes c = true → w.greeted c = true) ∧
      (live line w.nodes 2 = true ∧ live line w.nodes 5 = true) ∧
      (w.nodes 2).id crypto = 2 ∧
      (w.nodes 0).graph.stateOf 2 = some ⟨2, 2, crypto.ecdhPublicKey 2, {0}⟩ ∧
      (w.nodes 2).graph.stateOf 2 = some ⟨2, 4, crypto.ecdhPublicKey 2, {1}⟩ := by
    unfold Quiet
    decide +kernel
  obtain ⟨⟨hguarded, hquiet, hgreeted⟩, ⟨hlive, hlive'⟩, hid, hstored, hcurrent⟩ := hrun
  refine ⟨started_nodes, hguarded, ⟨hquiet, hgreeted⟩, ?_, ?_⟩
  · exact .tail (.single ⟨2, hlive, rfl, rfl⟩) ⟨5, hlive', rfl, rfl⟩
  · rintro ⟨s, t, hs, ht, hsequence, _⟩
    rw [hid, hstored] at hs
    rw [hid, hcurrent] at ht
    cases hs
    cases ht
    exact absurd hsequence (by decide)

theorem meeting_agrees :
    AgreeOn crypto (run crypto line (World.initial nodes) meeting).nodes 2 0 := by
  have hsettled : Settled crypto line (run crypto line (World.initial nodes) meeting) := by
    refine ⟨?_, by decide +kernel⟩
    unfold Quiet
    decide +kernel
  have hlive : live line (run crypto line (World.initial nodes) meeting).nodes 0 = true := by
    decide +kernel
  exact (link_state_agreement LegioCrypto.Sample.ecdsaLaws LegioCrypto.Sample.ecdhLaws
    started_nodes meeting (by decide +kernel)).2 hsettled (by decide) 2 0
      (.single ⟨0, hlive, rfl, rfl⟩)

end Sample

end QuiescentAgreement
