import Legio.LinkStateAgreement

set_option linter.style.header false

/-! Runs of a network whose channels open and close, and which nodes agree when no State
message is in flight. -/
namespace LinkStateRuns

open LegioBinary LegioCrypto LegioMessage LegioNode Containers RoutingTableSearch
open ExceptionStates LinkStateStore GraphUpdates GraphRuns LocalLinks ChannelTopology NodeNetwork
open TransportSteps MessageRelay StateMessages LinkStateSteps LinkStateNetwork LinkStateAgreement
open VersionedFlooding (Joined Growing)

variable {V Id Pair Ecdh Chan : Type} [DecidableEq V] [LinearOrder Id] [DecidableEq Chan]

/-- The flooding has come to where the network is. -/
structure Tracks (K : CryptoPP Id Pair Ecdh) (net : Network V Id Chan) (id : V → Id)
    (key : V → Binary) (w : World V Id Pair Ecdh Chan)
    (items : Chan → List (Message Id × Option (V × ℕ)))
    (a : VersionedFlooding.State V Chan) : Prop where
  simulates : Simulates K net id key w.nodes items a
  invariant : VersionedFlooding.Invariant net.toCabling a
  since : a.since = w.since
  valid : ∀ v, Invariant K (w.nodes v)
  limit : ∀ v, (w.nodes v).graph.announced.length < broadcastLimit

structure Familiar (K : CryptoPP Id Pair Ecdh) (net : Network V Id Chan) (id : V → Id)
    (w : World V Id Pair Ecdh Chan) (items : Chan → List (Message Id × Option (V × ℕ)))
    (a : VersionedFlooding.State V Chan) : Prop where
  growing : Growing net.toCabling a
  inStep : ∀ v, InStep K (w.nodes v)
  registered : ∀ v, ∀ c ∈ (w.nodes v).routing.mChannels, (w.nodes v).wire.isOpen c = true
  bound : ∀ v b c, (w.nodes v).routing.mNeighbors.lookup b = some c →
    id (net.remote c) = b ∧ w.since v c = true
  sender : ∀ c, items c ≠ [] → up net w.nodes c = true
  greeted : ∀ c, w.greeted c = true →
    id (net.remote c) ∈ (w.nodes (net.owner c)).routing.mNeighbors

section Events
variable {K : CryptoPP Id Pair Ecdh} {net : Network V Id Chan} {id : V → Id} {key : V → Binary}
  {w : World V Id Pair Ecdh Chan} {items items' : Chan → List (Message Id × Option (V × ℕ))}
  {a a' : VersionedFlooding.State V Chan} {x v : V} {n' : Node Id Pair Ecdh Chan} {c : Chan}

def Followed (K : CryptoPP Id Pair Ecdh) (net : Network V Id Chan) (id : V → Id)
    (key : V → Binary) (w : World V Id Pair Ecdh Chan)
    (items : Chan → List (Message Id × Option (V × ℕ))) (a : VersionedFlooding.State V Chan)
    (ev : Event V Id Chan) : Prop :=
  ∃ items' a', Tracks K net id key (ev.apply K net w) items' a' ∧
    (ev.closes = false → Familiar K net id w items a →
      Familiar K net id (ev.apply K net w) items' a')

omit [DecidableEq V] in
theorem live_eq (h : Tracks K net id key w items a) : a.live net.toCabling = live net w.nodes := by
  funext c
  rw [VersionedFlooding.State.live, live, h.simulates.up]

omit [DecidableEq V] in
theorem since_live (h : Tracks K net id key w items a) (v : V) (c : Chan)
    (hc : w.since v c = true) : live net w.nodes c = true := by
  rw [← live_eq h]
  apply h.invariant.since_live v c
  rw [h.since]
  exact hc

structure Rewired (n n' : Node Id Pair Ecdh Chan) : Prop where
  ecdsaPair : n'.ecdsaPair = n.ecdsaPair
  graph : n'.graph = n.graph
  signaling : n'.signaling = n.signaling
  user : n'.userTransport = n.userTransport
  outbox : n'.wire.outbox = n.wire.outbox
  lookup : ∀ b c, n'.routing.mNeighbors.lookup b = some c →
    n.routing.mNeighbors.lookup b = some c

omit [DecidableEq Chan] in
theorem consistent_rewired {σ : Nodes V Id Pair Ecdh Chan} (h : Consistent K net id key σ)
    (hn : Rewired (σ x) n') (hchannels : ∀ c ∈ n'.routing.mChannels, net.owner c = x) :
    Consistent K net id key (Function.update σ x n') := by
  have htyped : Typed n' :=
    ⟨hn.signaling ▸ (h.typed x).signaling, hn.user ▸ (h.typed x).user⟩
  refine consistent_replace h hn.ecdsaPair (by rw [hn.graph]) htyped hchannels ?_
  exact fun b c hc => h.leads x b c (hn.lookup b c hc)

theorem switch_simulates {σ : Nodes V Id Pair Ecdh Chan} (h : Simulates K net id key σ items a)
    (hn : Rewired (σ x) n') (hchannels : ∀ c ∈ n'.routing.mChannels, net.owner c = x) {on : Bool}
    (hup : up net (Function.update σ x n') = Function.update (up net σ) c on) :
    Simulates K net id key (Function.update σ x n') items (a.switch net.toCabling c on) := by
  have hgraph : ∀ v, (Function.update σ x n' v).graph = (σ v).graph :=
    read_update (fun n => n.graph) hn.graph
  constructor
  · exact consistent_rewired h.consistent hn hchannels
  · intro v i s hs
    rw [hgraph] at hs
    exact h.history v i s hs
  · intro c
    have hout := read_update (σ := σ) (fun n => n.wire.outbox) hn.outbox (net.owner c)
    rw [inFlight, hout]
    exact h.outbox c
  · intro c p hp
    simp only [hgraph]
    exact h.carried c p hp
  · intro v
    rw [hgraph]
    exact h.ver v
  · intro y v
    rw [hgraph, hgraph]
    exact h.known y v
  · exact h.queue
  · rw [hup, ← h.up]
    rfl

theorem switch_tracks (h : Tracks K net id key w items a) {ev : Event V Id Chan}
    (hact : ev.act K net w = Function.update w.nodes x n') (hn : Rewired (w.nodes x) n')
    (hchannels : ∀ c ∈ n'.routing.mChannels, net.owner c = x) {on : Bool}
    (hup : up net (Function.update w.nodes x n') = Function.update (up net w.nodes) c on)
    (hwithin : ∀ v, Within ((ev.apply K net w).nodes v)) :
    Tracks K net id key (ev.apply K net w) items (a.switch net.toCabling c on) := by
  have hgraph : ∀ v, (Function.update w.nodes x n' v).graph = (w.nodes v).graph :=
    read_update (fun n => n.graph) hn.graph
  have hnodes : (ev.apply K net w).nodes = Function.update w.nodes x n' := hact
  constructor
  · rw [hnodes]
    exact switch_simulates h.simulates hn hchannels hup
  · exact VersionedFlooding.switch_invariant h.invariant c on
  · have hafter : (ev.apply K net w).since =
        w.sinceAfter net (Function.update w.nodes x n') := by
      rw [← hact]
      rfl
    rw [hafter, sinceAfter_silent fun v => by rw [hgraph]]
    funext v c'
    simp only [VersionedFlooding.State.switch, h.since, h.simulates.up, live, hup]
  · intro v
    have hv := (hwithin v).1
    rw [hnodes] at hv ⊢
    by_cases hvx : v = x
    · subst hvx
      rw [Function.update_self] at hv ⊢
      exact invariant_environment (h.valid v) hn.graph hn.ecdsaPair hv
    · rw [Function.update_of_ne hvx]
      exact h.valid v
  · exact fun v => (hwithin v).2

omit [LinearOrder Id] in
theorem up_connect (net : Network V Id Chan) (σ : Nodes V Id Pair Ecdh Chan) (c : Chan) :
    up net (Function.update σ (net.owner c)
        (final (Node.addChannel c { σ (net.owner c) with
          wire := setOpen (σ (net.owner c)).wire c true }))) =
      Function.update (up net σ) c true := by
  funext c'
  by_cases hc : c' = c
  · subst hc
    simp [up, Node.addChannel, Routing.addChannel, setOpen]
  · rw [Function.update_of_ne hc]
    by_cases howner : net.owner c' = net.owner c
    · simp [up, howner, Node.addChannel, Routing.addChannel, setOpen, hc]
    · simp only [up, Function.update_of_ne howner]

omit [LinearOrder Id] in
theorem up_disconnect (net : Network V Id Chan) (σ : Nodes V Id Pair Ecdh Chan) (c : Chan) :
    up net (Function.update σ (net.owner c) { σ (net.owner c) with
        wire := setOpen (σ (net.owner c)).wire c false }) =
      Function.update (up net σ) c false := by
  funext c'
  by_cases hc : c' = c
  · subst hc
    simp [up, setOpen]
  · rw [Function.update_of_ne hc]
    by_cases howner : net.owner c' = net.owner c
    · simp [up, howner, setOpen, hc]
    · simp only [up, Function.update_of_ne howner]

omit [LinearOrder Id] in
theorem up_removeChannel (net : Network V Id Chan) (σ : Nodes V Id Pair Ecdh Chan) (c : Chan) :
    up net (Function.update σ (net.owner c)
        (final (Node.removeChannel c (σ (net.owner c))))) =
      Function.update (up net σ) c false := by
  funext c'
  by_cases hc : c' = c
  · subst hc
    simp [up, Node.removeChannel, Routing.removeChannel]
  · rw [Function.update_of_ne hc]
    by_cases howner : net.owner c' = net.owner c
    · simp [up, howner, Node.removeChannel, Routing.removeChannel, hc]
    · simp only [up, Function.update_of_ne howner]

theorem idle_followed (h : Tracks K net id key w items a) {ev : Event V Id Chan}
    (hact : ev.act K net w = w.nodes) (hgreeted : ev.greetedAfter K net w = w.greeted) :
    Followed K net id key w items a ev := by
  have hsince : (ev.apply K net w).since = w.since := by
    change w.sinceAfter net (ev.act K net w) = w.since
    rw [hact]
    exact sinceAfter_kept (fun _ => rfl) rfl (since_live h)
  have hnodes : (ev.apply K net w).nodes = w.nodes := hact
  refine ⟨items, a, ⟨?_, h.invariant, ?_, ?_, ?_⟩, ?_⟩
  · rw [hnodes]
    exact h.simulates
  · rw [hsince]
    exact h.since
  · rw [hnodes]
    exact h.valid
  · rw [hnodes]
    exact h.limit
  · intro _ hf
    have hgreeted' : (ev.apply K net w).greeted = w.greeted := hgreeted
    constructor
    · exact hf.growing
    · rw [hnodes]
      exact hf.inStep
    · rw [hnodes]
      exact hf.registered
    · rw [hnodes, hsince]
      exact hf.bound
    · rw [hnodes]
      exact hf.sender
    · rw [hnodes, hgreeted']
      exact hf.greeted

theorem since_moves (h : Tracks K net id key w items a)
    (hm : Moves K net id key w.nodes items a x n' items' a') {nodes : Nodes V Id Pair Ecdh Chan}
    (hann : ∀ v, (nodes v).graph.announced = (Function.update w.nodes x n' v).graph.announced)
    (hup : up net nodes = up net w.nodes) : a'.since = w.sinceAfter net nodes := by
  rcases hm.since with ⟨hsame, hsince⟩ | ⟨s, hmore, hsince⟩
  · have hsilent : ∀ v, (nodes v).graph.announced = (w.nodes v).graph.announced := by
      intro v
      rw [hann]
      exact read_update (fun n => n.graph.announced) hsame v
    rw [sinceAfter_kept hsilent hup (since_live h), hsince, h.since]
  · have hself : (nodes x).graph.announced = (w.nodes x).graph.announced ++ [s] := by
      rw [hann, Function.update_self, hmore]
    have hother : ∀ v, v ≠ x → (nodes v).graph.announced = (w.nodes v).graph.announced := by
      intro v hv
      rw [hann, Function.update_of_ne hv]
    rw [sinceAfter_announced hself hother hup (since_live h), hsince, h.since, live_eq h]

omit [DecidableEq V] in
theorem usable_up (h : Tracks K net id key w items a) (hf : Familiar K net id w items a)
    (hc : Usable (w.nodes x) c) : up net w.nodes c = true := by
  obtain rfl := usable_owner h.simulates.consistent hc
  rcases hc.2 with hregistered | ⟨b, hb⟩
  · exact Bool.and_eq_true_iff.mpr ⟨decide_eq_true hregistered, hc.1⟩
  · obtain ⟨_, hsince⟩ := hf.bound _ b c hb
    exact (Bool.and_eq_true_iff.mp (since_live h _ c hsince)).1

theorem emit_followed (h : Tracks K net id key w items a) {ev : Event V Id Chan}
    (hact : ev.act K net w = Function.update w.nodes x n')
    (hgreeted : ev.greetedAfter K net w = w.greeted) {m : Message Id} {targets : Chan → Bool}
    (he : Emits K m targets (w.nodes x) n')
    (hm : ∀ c, targets c = true → net.owner c = x →
      Carried K net id (fun v => (w.nodes v).graph.announced) c (m, none))
    (hvalid : Invariant K n') (hneighbors : n'.routing.mNeighbors = (w.nodes x).routing.mNeighbors)
    (hstep : InStep K (w.nodes x) → InStep K n') : Followed K net id key w items a ev := by
  have hmoves := moves_emit h.simulates h.invariant he hm
  have hnodes : (ev.apply K net w).nodes = Function.update w.nodes x n' := hact
  have hup : up net (Function.update w.nodes x n') = up net w.nodes :=
    up_update he.kept.mChannels he.kept.isOpen
  have hsince : a.since = (ev.apply K net w).since := by
    change a.since = w.sinceAfter net (ev.act K net w)
    rw [hact]
    exact since_moves h hmoves (fun _ => rfl) hup
  have hlinks : ∀ v, (Function.update w.nodes x n' v).routing.mNeighbors =
      (w.nodes v).routing.mNeighbors :=
    read_update (fun n => n.routing.mNeighbors) hneighbors
  refine ⟨push items targets (m, none), a, ⟨?_, h.invariant, hsince, ?_, ?_⟩, ?_⟩
  · rw [hnodes]
    exact hmoves.simulates
  · intro v
    rw [hnodes]
    by_cases hv : v = x
    · subst hv
      rw [Function.update_self]
      exact hvalid
    · rw [Function.update_of_ne hv]
      exact h.valid v
  · intro v
    rw [hnodes, read_update (fun n => n.graph.announced) he.announced]
    exact h.limit v
  · intro _ hf
    have hgreeted' : (ev.apply K net w).greeted = w.greeted := hgreeted
    constructor
    · exact hf.growing
    · intro v
      rw [hnodes]
      by_cases hv : v = x
      · subst hv
        rw [Function.update_self]
        exact hstep (hf.inStep v)
      · rw [Function.update_of_ne hv]
        exact hf.inStep v
    · intro v
      rw [hnodes, read_update (fun n => n.routing.mChannels) he.kept.mChannels,
        read_update (fun n => n.wire.isOpen) he.kept.isOpen]
      exact hf.registered v
    · intro v
      rw [hnodes, hlinks, ← hsince, h.since]
      exact hf.bound v
    · intro c hc
      rw [hnodes, hup]
      rcases hmoves.sender c hc with hold | husable
      · exact hf.sender c hold
      · exact usable_up h hf husable
    · intro c
      rw [hnodes, hgreeted', hlinks]
      exact hf.greeted c

theorem sends_followed (h : Tracks K net id key w items a) {ev : Event V Id Chan}
    (hact : ev.act K net w = Function.update w.nodes x n')
    (hgreeted : ev.greetedAfter K net w = w.greeted) {port : Port}
    (hn : Sends K port (w.nodes x) n') : Followed K net id key w items a ev := by
  obtain ⟨m, targets, hposts, hmade⟩ := hn
  have hneighbors : n'.routing.mNeighbors = (w.nodes x).routing.mNeighbors :=
    congrArg (fun c : Pair × Routing Id Chan × LegioNode.Graph Id Ecdh => c.2.1.mNeighbors)
      hposts.core
  apply emit_followed h hact hgreeted (emits_of_posts hposts)
  · intro c hc _
    obtain ⟨hhello, hstate⟩ := made_other (h.simulates.consistent.typed x) (hmade c hc)
    exact .other (hmade c hc).signed hhello hstate
  · exact invariant_core (h.valid x) hposts.core
  · exact hneighbors
  · exact fun hs => inStep_core hs hposts.core

theorem update_followed (h : Tracks K net id key w items a) (v : V) :
    Followed K net id key w items a (.update v) := by
  obtain ⟨m, hsigned, htype, hto, hrun⟩ := update_spec (K := K) (net.host v) (w.nodes v)
  have hact : (Event.update v).act K net w =
      Function.update w.nodes v (greet K (w.nodes v) m) :=
    congrArg (Function.update w.nodes v) hrun
  refine emit_followed h hact rfl (emits_greet (w.nodes v) m) ?_ (greet_valid (h.valid v) m) rfl
    fun hstep => hstep
  rintro c _ rfl
  exact .hello hsigned (h.simulates.consistent.identity _) htype hto

theorem connect_followed (h : Tracks K net id key w items a) (c : Chan)
    (hwithin : ∀ v, Within (((Event.connect c : Event V Id Chan).apply K net w).nodes v)) :
    Followed K net id key w items a (.connect c) := by
  by_cases hopened : w.opened c = true
  · exact idle_followed h (if_pos hopened) rfl
  set n' := final (Node.addChannel c { w.nodes (net.owner c) with
    wire := setOpen (w.nodes (net.owner c)).wire c true }) with hn'
  have hact : (Event.connect c).act K net w = Function.update w.nodes (net.owner c) n' :=
    if_neg hopened
  have hnodes : ((Event.connect c).apply K net w).nodes =
      Function.update w.nodes (net.owner c) n' := hact
  have hup : up net (Function.update w.nodes (net.owner c) n') =
      Function.update (up net w.nodes) c true := up_connect net w.nodes c
  have htracks := switch_tracks h hact ⟨rfl, rfl, rfl, rfl, rfl, fun _ _ hb => hb⟩ ?_ hup hwithin
  swap
  · intro c' hc'
    rcases Finset.mem_insert.mp hc' with rfl | hold
    · rfl
    · exact h.simulates.consistent.channels _ c' hold
  refine ⟨items, _, htracks, fun _ hf => ?_⟩
  have hsince : ((Event.connect c).apply K net w).since = w.since := by
    rw [← htracks.since, VersionedFlooding.switch_on_since h.invariant c, h.since]
  have hlinks : ∀ v, (Function.update w.nodes (net.owner c) n' v).routing.mNeighbors =
      (w.nodes v).routing.mNeighbors := read_update (fun n => n.routing.mNeighbors) rfl
  constructor
  · exact VersionedFlooding.switch_on_growing h.invariant hf.growing c
  · intro v
    rw [hnodes]
    by_cases hv : v = net.owner c
    · subst hv
      rw [Function.update_self]
      exact hf.inStep (net.owner c)
    · rw [Function.update_of_ne hv]
      exact hf.inStep v
  · intro v c' hc'
    rw [hnodes] at hc' ⊢
    by_cases hv : v = net.owner c
    · subst hv
      rw [Function.update_self] at hc' ⊢
      by_cases heq : c' = c
      · subst heq
        exact Function.update_self ..
      · have hopen := hf.registered _ c' (Finset.mem_of_mem_insert_of_ne hc' heq)
        exact (Function.update_of_ne heq ..).trans hopen
    · rw [Function.update_of_ne hv] at hc' ⊢
      exact hf.registered v c' hc'
  · intro v
    rw [hnodes, hlinks, hsince]
    exact hf.bound v
  · intro c' hc'
    have hold := hf.sender c' hc'
    rw [hnodes, hup]
    by_cases heq : c' = c
    · subst heq
      exact Function.update_self ..
    · exact (Function.update_of_ne heq ..).trans hold
  · intro c'
    rw [hnodes, hlinks]
    exact hf.greeted c'

theorem close_followed (h : Tracks K net id key w items a) {ev : Event V Id Chan}
    (hcloses : ev.closes = true)
    (hact : ev.act K net w = Function.update w.nodes x n') (hn : Rewired (w.nodes x) n')
    (hchannels : n'.routing.mChannels ⊆ (w.nodes x).routing.mChannels)
    (hup : up net (Function.update w.nodes x n') = Function.update (up net w.nodes) c false)
    (hwithin : ∀ v, Within ((ev.apply K net w).nodes v)) :
    Followed K net id key w items a ev := by
  have htracks := switch_tracks h hact hn
    (fun c' hc' => h.simulates.consistent.channels x c' (hchannels hc')) hup hwithin
  refine ⟨items, _, htracks, fun hopens => ?_⟩
  rw [hcloses] at hopens
  cases hopens

theorem disconnect_followed (h : Tracks K net id key w items a) (c : Chan)
    (hwithin : ∀ v, Within (((Event.disconnect c : Event V Id Chan).apply K net w).nodes v)) :
    Followed K net id key w items a (.disconnect c) :=
  close_followed h rfl rfl ⟨rfl, rfl, rfl, rfl, rfl, fun _ _ hb => hb⟩ (Finset.Subset.refl _)
    (up_disconnect net w.nodes c) hwithin

theorem removeChannel_followed (h : Tracks K net id key w items a) (c : Chan)
    (hwithin : ∀ v, Within (((Event.removeChannel c : Event V Id Chan).apply K net w).nodes v)) :
    Followed K net id key w items a (.removeChannel c) := by
  refine close_followed h rfl rfl ⟨rfl, rfl, rfl, rfl, rfl, ?_⟩ (Finset.erase_subset _ _)
    (up_removeChannel net w.nodes c) hwithin
  intro b c' hb
  exact (lookup_eraseIf.mp hb).1

omit [DecidableEq V] [LinearOrder Id] in
theorem popAt_nil [DecidableEq V] {σ : Nodes V Id Pair Ecdh Chan} (h : inFlight net σ c = []) :
    popAt net σ c = σ := by
  have hout : (σ (net.owner c)).wire.outbox c = [] := h
  have hwire : (σ (net.owner c)).wire.pop c = (σ (net.owner c)).wire := by
    rw [Wire.pop, hout, List.tail_nil, ← hout, Function.update_eq_self]
  rw [popAt, hwire]
  exact Function.update_eq_self ..

omit [DecidableEq V] [LinearOrder Id] in
theorem popped_invariant (hinv : VersionedFlooding.Invariant net.toCabling a) {tag : Option (V × ℕ)}
    (hqueue : ∀ q, tag = some q → ∃ rest, a.queue c = q :: rest)
    (hstale : ∀ q, tag = some q →
      a.live net.toCabling c = false ∨ q.2 ≤ a.known (net.remote c) q.1) :
    VersionedFlooding.Invariant net.toCabling (popped a c tag) := by
  cases tag with
  | none => exact hinv
  | some q =>
    obtain ⟨rest, hrest⟩ := hqueue q rfl
    exact VersionedFlooding.take_invariant hinv hrest (hstale q rfl)

omit [DecidableEq V] [LinearOrder Id] in
theorem popped_growing (hg : Growing net.toCabling a) (tag : Option (V × ℕ)) :
    Growing net.toCabling (popped a c tag) := by
  cases tag with
  | none => exact hg
  | some q => exact VersionedFlooding.take_growing hg c

omit [DecidableEq V] in
theorem head_queue {σ : Nodes V Id Pair Ecdh Chan} (h : Simulates K net id key σ items a)
    {p : Message Id × Option (V × ℕ)} {rest : List (Message Id × Option (V × ℕ))}
    (hhead : items c = p :: rest) (q : V × ℕ) (hq : p.2 = some q) :
    ∃ rest, a.queue c = q :: rest := by
  refine ⟨rest.filterMap Prod.snd, ?_⟩
  rw [h.queue, hhead, List.filterMap_cons_some hq]

theorem pop_tracks (h : Tracks K net id key w items a) {p : Message Id × Option (V × ℕ)}
    {rest : List (Message Id × Option (V × ℕ))} (hhead : items c = p :: rest)
    (hstale : ∀ q, p.2 = some q →
      a.live net.toCabling c = false ∨ q.2 ≤ a.known (net.remote c) q.1) :
    Tracks K net id key { w with nodes := popAt net w.nodes c } (Function.update items c rest)
      (popped a c p.2) := by
  constructor
  · exact pop_step h.simulates hhead
  · exact popped_invariant h.invariant (head_queue h.simulates hhead) hstale
  · have hpopped : (popped a c p.2).since = a.since := by
      cases p.2 <;> rfl
    rw [hpopped]
    exact h.since
  · exact fun v => invariant_core (h.valid v)
      (read_popAt net w.nodes c Node.core (fun _ => rfl) v)
  · intro v
    rw [read_popAt net w.nodes c (fun n => n.graph.announced) fun _ => rfl]
    exact h.limit v

theorem pop_familiar (hf : Familiar K net id w items a) {p : Message Id × Option (V × ℕ)}
    {rest : List (Message Id × Option (V × ℕ))} (hhead : items c = p :: rest) :
    Familiar K net id { w with nodes := popAt net w.nodes c } (Function.update items c rest)
      (popped a c p.2) := by
  constructor
  · exact popped_growing hf.growing p.2
  · exact fun v => inStep_core (hf.inStep v)
      (read_popAt net w.nodes c Node.core (fun _ => rfl) v)
  · intro v
    rw [read_popAt net w.nodes c (fun n => n.routing.mChannels) fun _ => rfl,
      read_popAt net w.nodes c (fun n => n.wire.isOpen) fun _ => rfl]
    exact hf.registered v
  · intro v
    rw [read_popAt net w.nodes c (fun n => n.routing.mNeighbors) fun _ => rfl]
    exact hf.bound v
  · intro c' hc'
    rw [up_popAt]
    apply hf.sender c'
    by_cases heq : c' = c
    · subst heq
      rw [hhead]
      exact List.cons_ne_nil p rest
    · rwa [Function.update_of_ne heq] at hc'
  · intro c'
    rw [read_popAt net w.nodes c (fun n => n.routing.mNeighbors) fun _ => rfl]
    exact hf.greeted c'

theorem lose_followed (h : Tracks K net id key w items a) (c : Chan) :
    Followed K net id key w items a (.lose c) := by
  by_cases hlive : live net w.nodes c = true
  · exact idle_followed h (if_pos hlive) rfl
  have hact : (Event.lose c).act K net w = popAt net w.nodes c := if_neg hlive
  cases hhead : items c with
  | nil =>
    have hout := h.simulates.outbox c
    rw [hhead] at hout
    exact idle_followed h (hact.trans (popAt_nil hout)) rfl
  | cons p rest =>
    have hsince : w.sinceAfter net (popAt net w.nodes c) = w.since :=
      sinceAfter_kept (read_popAt net w.nodes c (fun n => n.graph.announced) fun _ => rfl)
        (up_popAt c) (since_live h)
    have hworld : (Event.lose c : Event V Id Chan).apply K net w =
        { w with nodes := popAt net w.nodes c } := by
      simp only [Event.apply, hact, hsince, Event.openedAfter, Event.greetedAfter]
    have hdead : a.live net.toCabling c = false := by
      rw [live_eq h]
      exact Bool.eq_false_iff.mpr hlive
    rw [Followed, hworld]
    exact ⟨_, _, pop_tracks h hhead fun _ _ => Or.inl hdead, fun _ hf => pop_familiar hf hhead⟩

def World.handled (w : World V Id Pair Ecdh Chan) (x : V) (n' : Node Id Pair Ecdh Chan)
    (greeted : Chan → Bool) (since : V → Chan → Bool) : World V Id Pair Ecdh Chan :=
  ⟨Function.update w.nodes x n', w.opened, greeted, since⟩

theorem received_tracks (h : Tracks K net id key w items a) {p : Message Id × Option (V × ℕ)}
    (hr : Received K net id key w.nodes items a c p n' items' a') (hvalid : Invariant K n')
    (hlimit : n'.graph.announced.length < broadcastLimit) (greeted : Chan → Bool) :
    Tracks K net id key (World.handled w (net.remote c) n' greeted a'.since) items' a' := by
  constructor
  · exact hr.moves.simulates
  · exact hr.moves.invariant
  · rfl
  · intro v
    by_cases hv : v = net.remote c
    · subst hv
      simp only [World.handled, Function.update_self]
      exact hvalid
    · simp only [World.handled, Function.update_of_ne hv]
      exact h.valid v
  · intro v
    by_cases hv : v = net.remote c
    · subst hv
      simp only [World.handled, Function.update_self]
      exact hlimit
    · simp only [World.handled, Function.update_of_ne hv]
      exact h.limit v

theorem received_since (h : Tracks K net id key w items a) {p : Message Id × Option (V × ℕ)}
    (hr : Received K net id key w.nodes items a c p n' items' a') {v : V} {c' : Chan}
    (hc' : w.since v c' = true) : a'.since v c' = true := by
  rcases hr.moves.since with ⟨_, hsame⟩ | ⟨s, _, hmore⟩
  · rw [hsame, h.since]
    exact hc'
  · rw [hmore]
    by_cases hv : v = net.remote c
    · subst hv
      rw [Function.update_self, live_eq h]
      exact since_live h _ c' hc'
    · rw [Function.update_of_ne hv, h.since]
      exact hc'

theorem received_bound (h : Tracks K net id key w items a) (hf : Familiar K net id w items a)
    {p : Message Id × Option (V × ℕ)} (hlive : live net w.nodes (net.peer c) = true)
    (hr : Received K net id key w.nodes items a c p n' items' a') {b : Id} {c' : Chan}
    (hb : n'.routing.mNeighbors.lookup b = some c') :
    id (net.remote c') = b ∧ a'.since (net.remote c) c' = true := by
  rcases hr.links with hsame | ⟨hmore, hannounced⟩
  · rw [hsame] at hb
    obtain ⟨hleads, hold⟩ := hf.bound _ b c' hb
    exact ⟨hleads, received_since h hr hold⟩
  · rw [hmore, lookup_emplace] at hb
    split_ifs at hb with hnew
    · -- the neighbour learned just now, announced over its own channel at once
      obtain ⟨rfl, _⟩ := hnew
      obtain rfl := Option.some.inj hb
      refine ⟨by rw [net.remote_peer], ?_⟩
      rcases hr.moves.since with ⟨hsame, _⟩ | ⟨s, _, hsince'⟩
      · exact absurd hsame (hannounced (hf.inStep _))
      · rw [hsince', Function.update_self, live_eq h]
        exact hlive
    · obtain ⟨hleads, hold⟩ := hf.bound _ b c' hb
      exact ⟨hleads, received_since h hr hold⟩

theorem received_familiar (h : Tracks K net id key w items a) (hf : Familiar K net id w items a)
    {p : Message Id × Option (V × ℕ)} (hp : items c ≠ [])
    (hregistered : net.peer c ∈ (w.nodes (net.remote c)).routing.mChannels)
    (hr : Received K net id key w.nodes items a c p n' items' a')
    (hstep : InStep K (w.nodes (net.remote c)) → InStep K n') {greeted : Chan → Bool}
    (hgreeted : ∀ c', greeted c' = true →
      w.greeted c' = true ∨ (c' = net.peer c ∧ p.1.type = MessageType.Hello)) :
    Familiar K net id (World.handled w (net.remote c) n' greeted a'.since) items' a' := by
  have hup : up net (Function.update w.nodes (net.remote c) n') = up net w.nodes :=
    up_update hr.moves.kept.mChannels hr.moves.kept.isOpen
  have hpeer : up net w.nodes (net.peer c) = true :=
    Bool.and_eq_true_iff.mpr ⟨decide_eq_true hregistered, hf.registered _ _ hregistered⟩
  have hlive : live net w.nodes (net.peer c) = true := by
    refine Bool.and_eq_true_iff.mpr ⟨hpeer, ?_⟩
    rw [net.peer_peer]
    exact hf.sender c hp
  have hgrown : ∀ b, b ∈ (w.nodes (net.remote c)).routing.mNeighbors →
      b ∈ n'.routing.mNeighbors := by
    intro b hb
    rcases hr.links with hsame | ⟨hmore, _⟩
    · rw [hsame]
      exact hb
    · rw [hmore, mem_emplace]
      exact Or.inr hb
  constructor
  · apply hr.growing _ hf.growing
    rw [h.simulates.up]
    exact hpeer
  · intro v
    by_cases hv : v = net.remote c
    · subst hv
      simp only [World.handled, Function.update_self]
      exact hstep (hf.inStep _)
    · simp only [World.handled, Function.update_of_ne hv]
      exact hf.inStep v
  · intro v
    have h₁ := read_update (σ := w.nodes) (fun n => n.routing.mChannels)
      hr.moves.kept.mChannels v
    have h₂ := read_update (σ := w.nodes) (fun n => n.wire.isOpen) hr.moves.kept.isOpen v
    simp only [World.handled, h₁, h₂]
    exact hf.registered v
  · intro v b c' hb
    by_cases hv : v = net.remote c
    · subst hv
      simp only [World.handled, Function.update_self] at hb
      exact received_bound h hf hlive hr hb
    · simp only [World.handled, Function.update_of_ne hv] at hb
      obtain ⟨hleads, hold⟩ := hf.bound v b c' hb
      exact ⟨hleads, received_since h hr hold⟩
  · intro c' hc'
    change up net (Function.update w.nodes (net.remote c) n') c' = true
    rw [hup]
    rcases hr.moves.sender c' hc' with hold | husable
    · exact hf.sender c' hold
    · exact usable_up h hf husable
  · intro c' hc'
    rcases hgreeted c' hc' with hold | ⟨rfl, hhello⟩
    · have hmem := hf.greeted c' hold
      by_cases hv : net.owner c' = net.remote c
      · rw [hv] at hmem
        simp only [World.handled, hv, Function.update_self]
        exact hgrown _ hmem
      · simp only [World.handled, Function.update_of_ne hv]
        exact hmem
    · have hmem := hr.greeted hhello
      have hself : net.owner (net.peer c) = net.remote c := rfl
      simp only [World.handled, hself, Function.update_self, net.remote_peer]
      exact hmem

omit [DecidableEq V] [LinearOrder Id] [DecidableEq Chan] in
theorem carriesType_signed (hK : EcdsaLaws K) (o : ByteOrder) {pair : Pair} {m : Message Id}
    (hm : SignedBy K pair m) (type : UInt8) :
    carriesType K o type (frame K m) = decide (m.type = type) := by
  have hparse : Message.parse K o (frame K m) = .ok m := parse_signed hK o hm
  rw [carriesType, hparse]

omit [DecidableEq V] [DecidableEq Chan] in
theorem carriesType_frame (hK : EcdsaLaws K) (o : ByteOrder) {announced : V → List (State Id)}
    {p : Message Id × Option (V × ℕ)} (hp : Carried K net id announced c p) (type : UInt8) :
    carriesType K o type (frame K p.1) = decide (p.1.type = type) := by
  cases hp with
  | hello signed author type destination => exact carriesType_signed hK o signed _
  | state carries author number => exact carriesType_signed hK o carries.signed _
  | other signed hello state => exact carriesType_signed hK o signed _

section Laws
variable (hK : EcdsaLaws K) (hE : EcdhLaws K) (hid : Function.Injective id)
include hK hE hid

omit hK hE hid in
theorem unheard_followed (h : Tracks K net id key w items a)
    {p : Message Id × Option (V × ℕ)} {rest : List (Message Id × Option (V × ℕ))}
    (hhead : items c = p :: rest)
    (hclosed : net.peer c ∉ (w.nodes (net.remote c)).routing.mChannels) :
    Followed K net id key w items a (.deliver c) := by
  have hout := h.simulates.outbox c
  rw [hhead, List.map_cons] at hout
  have hnodes : (Event.deliver c).act K net w = popAt net w.nodes c := by
    simp only [Event.act, NodeNetwork.deliver, hout, arrive, if_neg hclosed,
      Function.update_eq_self]
  have hdead : a.live net.toCabling c = false := by
    rw [live_eq h, live, Bool.and_eq_false_iff]
    right
    rw [up, Bool.and_eq_false_iff]
    exact Or.inl (decide_eq_false hclosed)
  have hgreets : greets K net w.nodes c = false := by
    rw [greets, Bool.and_eq_false_iff]
    exact Or.inl (decide_eq_false hclosed)
  have hsince : w.sinceAfter net (popAt net w.nodes c) = w.since :=
    sinceAfter_kept
      (read_popAt net w.nodes c (fun n => n.graph.announced) fun _ => rfl)
      (up_popAt c) (since_live h)
  have hworld : (Event.deliver c : Event V Id Chan).apply K net w =
      { w with nodes := popAt net w.nodes c } := by
    simp only [Event.apply, hnodes, hsince, Event.openedAfter, Event.greetedAfter, hgreets,
      Bool.false_eq_true, if_false]
  rw [Followed, hworld]
  exact ⟨_, _, pop_tracks h hhead fun _ _ => Or.inl hdead, fun _ hf => pop_familiar hf hhead⟩

omit hE [DecidableEq V] in
/-- No message in flight carries a newer State of its receiver than the receiver has. -/
theorem carried_orderly (h : Tracks K net id key w items a) {x : V}
    {p : Message Id × Option (V × ℕ)}
    (hcarried : Carried K net id (fun v => (w.nodes v).graph.announced) c p) :
    (Operation.received (net.peer c) (frame K p.1) : Operation Id Chan).Orderly
      K (net.host x) (w.nodes x) := by
  apply ownNotNewer_of_announced _ (h.valid _) (h.limit _)
  intro message s hparse hstate hsid
  cases hcarried with
  | hello signed author type destination =>
    rw [frame, parse_signed hK _ signed] at hparse
    cases hparse
    have htype := fromMessage_type hstate
    rw [type] at htype
    cases htype
  | @state m pair s' v i carries author number =>
    rw [frame, parse_signed hK _ carries.signed] at hparse
    cases hparse
    rw [carries.state] at hstate
    cases hstate
    obtain ⟨hsid', _, _⟩ := h.simulates.history v i s number
    rw [hsid', h.simulates.consistent.identity] at hsid
    obtain rfl := hid hsid
    exact List.mem_of_getElem? number
  | other signed hello state =>
    rw [frame, parse_signed hK _ signed] at hparse
    cases hparse
    exact absurd (fromMessage_type hstate) state

theorem heard_followed (h : Tracks K net id key w items a)
    {p : Message Id × Option (V × ℕ)} {rest : List (Message Id × Option (V × ℕ))}
    (hhead : items c = p :: rest)
    (hregistered : net.peer c ∈ (w.nodes (net.remote c)).routing.mChannels)
    (hwithin : ∀ v, Within (((Event.deliver c : Event V Id Chan).apply K net w).nodes v)) :
    Followed K net id key w items a (.deliver c) := by
  have hout := h.simulates.outbox c
  rw [hhead, List.map_cons] at hout
  set n := w.nodes (net.remote c) with hn
  set n' := Node.onMessage K (net.host (net.remote c)) n (net.peer c) (frame K p.1) with hn'
  have hact : (Event.deliver c).act K net w =
      popAt net (Function.update w.nodes (net.remote c) n') c := by
    simp only [Event.act, NodeNetwork.deliver, hout, arrive, ← hn, if_pos hregistered]
    rfl
  have hcarried := h.simulates.carried c p (by rw [hhead]; exact List.mem_cons_self)
  have hwithin' : Within n' := by
    have hx := hwithin (net.remote c)
    have hnodes : ((Event.deliver c : Event V Id Chan).apply K net w).nodes =
        popAt net (Function.update w.nodes (net.remote c) n') c := hact
    rw [hnodes, Within, read_popAt net _ c (fun n => n.routing) fun _ => rfl,
      read_popAt net _ c (fun n => n.graph) fun _ => rfl, Function.update_self] at hx
    exact hx
  obtain ⟨hvalid', hiff⟩ := operation_step (net.host (net.remote c)) hK hE
    (h.valid (net.remote c)) (carried_orderly hK hid h hcarried) hwithin'.1
  obtain ⟨items', a', hr⟩ := receive hK hE hid h.simulates h.invariant (h.valid _)
    (net.host (net.remote c)) h.limit (by rw [hhead]; exact List.mem_cons_self) hregistered
    hwithin'.1
  set greeted := (Event.deliver c).greetedAfter K net w with hgreeted
  have htracks := received_tracks h hr hvalid' hwithin'.2 greeted
  have hhead' : ∃ rest', items' c = p :: rest' := by
    obtain ⟨more, hmore⟩ := hr.moves.started c
    exact ⟨rest ++ more, by rw [← hmore, hhead, List.cons_append]⟩
  obtain ⟨rest', hhead'⟩ := hhead'
  have hworld : (Event.deliver c : Event V Id Chan).apply K net w =
      { World.handled w (net.remote c) n' greeted a'.since with
        nodes := popAt net (World.handled w (net.remote c) n' greeted a'.since).nodes c } := by
    have hsince : w.sinceAfter net (popAt net (Function.update w.nodes (net.remote c) n') c) =
        a'.since := by
      refine (since_moves h hr.moves ?_ ?_).symm
      · exact read_popAt net _ c (fun n => n.graph.announced) fun _ => rfl
      · rw [up_popAt, up_update hr.moves.kept.mChannels hr.moves.kept.isOpen]
    simp only [Event.apply, hact, hsince, Event.openedAfter, World.handled, ← hgreeted]
  rw [Followed, hworld]
  refine ⟨_, _, pop_tracks htracks hhead' fun q hq => Or.inr (hr.stale q hq), ?_⟩
  intro _ hf
  refine pop_familiar (received_familiar h hf ?_ hregistered hr ?_ ?_) hhead'
  · rw [hhead]
    exact List.cons_ne_nil p rest
  · exact fun hs => (hiff hs).mpr fun hdrops => hdrops
  · intro c' hc'
    have hgreets : greets K net w.nodes c = decide (p.1.type = MessageType.Hello) := by
      simp only [greets, hout, carriesType_frame hK _ hcarried]
      rw [decide_eq_true hregistered, Bool.true_and]
    rw [hgreeted, Event.greetedAfter, hgreets] at hc'
    split_ifs at hc' with hhello
    · by_cases heq : c' = net.peer c
      · exact Or.inr ⟨heq, of_decide_eq_true hhello⟩
      · rw [Function.update_of_ne heq] at hc'
        exact Or.inl hc'
    · exact Or.inl hc'

theorem deliver_followed (h : Tracks K net id key w items a) (c : Chan)
    (hwithin : ∀ v, Within (((Event.deliver c : Event V Id Chan).apply K net w).nodes v)) :
    Followed K net id key w items a (.deliver c) := by
  cases hhead : items c with
  | nil =>
    have hout := h.simulates.outbox c
    rw [hhead] at hout
    have hact : (Event.deliver c).act K net w = w.nodes := by
      simp only [Event.act, NodeNetwork.deliver, hout, List.map_nil]
    apply idle_followed h hact
    simp only [Event.greetedAfter, greets, hout, List.map_nil, Bool.and_false,
      Bool.false_eq_true, if_false]
  | cons p rest =>
    by_cases hregistered : net.peer c ∈ (w.nodes (net.remote c)).routing.mChannels
    · exact heard_followed hK hE hid h hhead hregistered hwithin
    · exact unheard_followed h hhead hregistered

/-- Every event of the network is one of the flooding, or none. -/
theorem event_followed (h : Tracks K net id key w items a) (ev : Event V Id Chan)
    (hwithin : ∀ v, Within ((ev.apply K net w).nodes v)) :
    Followed K net id key w items a ev := by
  cases ev with
  | connect c => exact connect_followed h c hwithin
  | disconnect c => exact disconnect_followed h c hwithin
  | removeChannel c => exact removeChannel_followed h c hwithin
  | lose c => exact lose_followed h c
  | update v => exact update_followed h v
  | broadcast v port payload =>
    exact sends_followed h rfl rfl (broadcast_sends _ (w.nodes v) port payload)
  | send v port remoteId payload random =>
    exact sends_followed h rfl rfl
      (send_sends _ (h.simulates.consistent.typed v) port remoteId payload random)
  | deliver c => exact deliver_followed hK hE hid h c hwithin

end Laws

end Events

end LinkStateRuns
