import Legio.LocalLinks
import Legio.MessageRelay
import Legio.StateMessages

set_option linter.style.header false

/-! What an event does to a node, as far as other nodes can tell: it puts a message on some
channels, announces its State, or accepts one of another node and passes it on. -/
namespace LinkStateSteps

open LegioBinary LegioCrypto LegioMessage LegioNode Containers RoutingTableSearch
open ExceptionStates LinkStateStore GraphUpdates GraphRuns LocalLinks ChannelTopology
open TransportSteps MessageRelay StateMessages

variable {Id Pair Ecdh Chan : Type} [LinearOrder Id] [DecidableEq Chan]

/-- What no step of a node changes; neighbours are bound to registered channels only. -/
structure Kept (n n' : Node Id Pair Ecdh Chan) : Prop where
  ecdsaPair : n'.ecdsaPair = n.ecdsaPair
  mEcdh : n'.graph.mEcdh = n.graph.mEcdh
  mChannels : n'.routing.mChannels = n.routing.mChannels
  isOpen : n'.wire.isOpen = n.wire.isOpen
  signaling : n'.signaling.mType = n.signaling.mType
  user : n'.userTransport.mType = n.userTransport.mType
  bound : ∀ a c, n'.routing.mNeighbors.lookup a = some c →
    n.routing.mNeighbors.lookup a = some c ∨ c ∈ n.routing.mChannels

structure Emits (K : CryptoPP Id Pair Ecdh) (m : Message Id) (targets : Chan → Bool)
    (n n' : Node Id Pair Ecdh Chan) : Prop where
  kept : Kept n n'
  announced : n'.graph.announced = n.graph.announced
  stored : n'.graph.stateOf = n.graph.stateOf
  outbox : n'.wire.outbox = push n.wire.outbox targets (frame K m)
  usable : ∀ c, targets c = true → Usable n c

structure Carries (K : CryptoPP Id Pair Ecdh) (pair : Pair) (s : State Id) (m : Message Id) :
    Prop where
  signed : SignedBy K pair m
  type : m.type = MessageType.State
  destination : m.destination = none
  state : State.fromMessage K m = .ok s

structure Announces (K : CryptoPP Id Pair Ecdh) (s : State Id) (m : Message Id)
    (n n' : Node Id Pair Ecdh Chan) : Prop where
  kept : Kept n n'
  id : s.id = n.id K
  sequence : s.sequence = n.graph.mStateSequence
  ecdhPublic : s.ecdhPublic = K.ecdhPublicKey n.graph.mEcdh
  carries : Carries K n.ecdsaPair s m
  announced : n'.graph.announced = n.graph.announced ++ [s]
  stored : n'.graph.stateOf = Function.update n.graph.stateOf s.id (some s)
  outbox : n'.wire.outbox = push n.wire.outbox (reached n.routing n.wire none) (frame K m)

structure Accepts (K : CryptoPP Id Pair Ecdh) (s : State Id) (m : Message Id) (channel : Chan)
    (n n' : Node Id Pair Ecdh Chan) : Prop where
  kept : Kept n n'
  announced : n'.graph.announced = n.graph.announced
  stored : n'.graph.stateOf = Function.update n.graph.stateOf s.id (some s)
  outbox : n'.wire.outbox =
    push n.wire.outbox (reached n.routing n.wire (some channel)) (frame K m)

structure Prepared (K : CryptoPP Id Pair Ecdh) (n : Node Id Pair Ecdh Chan) : Prop where
  rooted : Rooted K n
  older : LocalOlder K n

/-- What a Hello over a registered channel does. -/
inductive Greeted (K : CryptoPP Id Pair Ecdh) (n : Node Id Pair Ecdh Chan) (source : Id)
    (channel : Chan) : Node Id Pair Ecdh Chan → Prop where
  | known : source ∈ n.routing.mNeighbors → Greeted K n source channel n
  | silent {n'} (m : Message Id) : ¬ InStep K n →
      n'.routing.mNeighbors = emplace source channel n.routing.mNeighbors →
      Emits K m (fun _ => false) n n' → Greeted K n source channel n'
  | announced {n'} (s : State Id) (m : Message Id) :
      n'.routing.mNeighbors = emplace source channel n.routing.mNeighbors →
      Announces K s m n n' → Greeted K n source channel n'

/-- What a State message does. -/
inductive Informed (K : CryptoPP Id Pair Ecdh) (n : Node Id Pair Ecdh Chan) (s : State Id)
    (m : Message Id) (channel : Chan) : Node Id Pair Ecdh Chan → Prop where
  | own : s.id = n.id K → Informed K n s m channel n
  | stale : ¬ Fresh n s → Informed K n s m channel n
  | accepted {n'} : s.id ≠ n.id K → Fresh n s → KnownKey n s → Accepts K s m channel n n' →
      n'.routing.mNeighbors = n.routing.mNeighbors → Informed K n s m channel n'
  | answered {n₁ n'} (s₁ : State Id) (m₁ : Message Id) : s.id ≠ n.id K → Fresh n s →
      ¬ KnownKey n s → Announces K s₁ m₁ n n₁ → Accepts K s m channel n₁ n' →
      n'.routing.mNeighbors = n.routing.mNeighbors → Informed K n s m channel n'

variable {K : CryptoPP Id Pair Ecdh} (H : Host Id) {m : Message Id} {pair : Pair}
  {n n' n₁ : Node Id Pair Ecdh Chan} {s : State Id} {channel : Chan} {targets : Chan → Bool}

omit [DecidableEq Chan] in
theorem kept_refl (n : Node Id Pair Ecdh Chan) : Kept n n :=
  ⟨rfl, rfl, rfl, rfl, rfl, rfl, fun _ _ hc => Or.inl hc⟩

omit [DecidableEq Chan] in
theorem kept_trans (h₁ : Kept n n₁) (h₂ : Kept n₁ n') : Kept n n' := by
  constructor
  · exact h₂.ecdsaPair.trans h₁.ecdsaPair
  · exact h₂.mEcdh.trans h₁.mEcdh
  · exact h₂.mChannels.trans h₁.mChannels
  · exact h₂.isOpen.trans h₁.isOpen
  · exact h₂.signaling.trans h₁.signaling
  · exact h₂.user.trans h₁.user
  · intro b c hc
    rcases h₂.bound b c hc with hold | hnew
    · exact h₁.bound b c hold
    · exact Or.inr (h₁.mChannels ▸ hnew)

omit [DecidableEq Chan] in
theorem emits_of_posts (h : Posts K m targets n n') : Emits K m targets n n' := by
  have hcore := h.core
  simp only [Node.core, Prod.mk.injEq] at hcore
  obtain ⟨hpair, hrouting, hgraph⟩ := hcore
  constructor
  · constructor
    · exact hpair
    · rw [hgraph]
    · rw [hrouting]
    · rw [h.wire]
    · exact h.signaling
    · exact h.user
    · intro a c hc
      rw [hrouting] at hc
      exact Or.inl hc
  · rw [hgraph]
  · rw [hgraph]
  · rw [h.wire]
  · exact h.usable

def greet (K : CryptoPP Id Pair Ecdh) (n : Node Id Pair Ecdh Chan) (m : Message Id) :
    Node Id Pair Ecdh Chan :=
  { n with
    wire := { n.wire with
      outbox := push n.wire.outbox (reached n.routing n.wire none) (frame K m) }
    graph := { n.graph with mHelloSequence := n.graph.mHelloSequence + 1 } }

omit [LinearOrder Id] in
theorem update_spec (n : Node Id Pair Ecdh Chan) : ∃ m, SignedBy K n.ecdsaPair m ∧
    m.type = MessageType.Hello ∧ m.destination = none ∧
    final (Graph.update K H n) = greet K n m := by
  obtain ⟨m, hcreate, hsigned, htype, _, hto, _⟩ :=
    create_signed K H.byteOrder MessageType.Hello n.graph.mHelloSequence [] n.ecdsaPair none
      (Nat.zero_le _)
  refine ⟨m, hsigned, htype, hto, ?_⟩
  have hrun : Graph.update K H n = .ok () { n with
      graph := { n.graph with mHelloSequence := n.graph.mHelloSequence + 1 }
      wire := n.routing.broadcast K H.byteOrder n.wire m none } := by
    simp only [Graph.update, get_bind_run, modifyGraph, modify_bind_run, hcreate]
    rfl
  rw [hrun, broadcast_signed hsigned]
  rfl

theorem emits_greet (n : Node Id Pair Ecdh Chan) (m : Message Id) :
    Emits K m (reached n.routing n.wire none) n (greet K n m) where
  kept := ⟨rfl, rfl, rfl, rfl, rfl, rfl, fun _ _ hc => Or.inl hc⟩
  announced := rfl
  stored := rfl
  outbox := rfl
  usable _ hc := reached_usable hc

theorem greet_valid (h : Invariant K n) (m : Message Id) : Invariant K (greet K n m) := by
  obtain ⟨c, hc, hkey, hseq⟩ := h.current
  constructor
  · exact ⟨h.rooted.linked.congr rfl rfl fun _ => rfl, h.rooted.root⟩
  · exact h.follows
  · exact ⟨c, hc, hkey, hseq⟩
  · exact h.bounded
  · exact numbered_congr h.numbered rfl rfl

omit [LinearOrder Id] in
theorem reached_congr {r : Routing Id Chan} (h : r.mChannels = n.routing.mChannels)
    (from_ : Option Chan) : reached r n.wire from_ = reached n.routing n.wire from_ := by
  funext c
  simp only [reached, h]

theorem announces_of_announced (hK : EcdsaLaws K) (hE : EcdhLaws K) {r : Routing Id Chan}
    (hchannels : r.mChannels = n.routing.mChannels)
    (hbound : ∀ a c, r.mNeighbors.lookup a = some c →
      n.routing.mNeighbors.lookup a = some c ∨ c ∈ n.routing.mChannels)
    (hcard : r.neighbors.card ≤ neighborLimit) (h : Announced H K { n with routing := r } n' m)
    (hview : view n'.graph =
      (view n.graph).accept (({ n with routing := r } : Node Id Pair Ecdh Chan).localState K)) :
    Announces K (({ n with routing := r } : Node Id Pair Ecdh Chan).localState K) m n n' := by
  obtain ⟨hsigned, htype, hto, hstate⟩ :=
    localState_roundTrip hK hE H.byteOrder (n := { n with routing := r }) hcard h.created
  have hkept := h.kept
  simp only [surroundings, Surroundings.mk.injEq] at hkept
  obtain ⟨hpair, hwire, hchannels', hneighbors, hecdh, _, _, hannounced, hsignaling, huser⟩ := hkept
  rw [broadcast_signed hsigned, reached_congr hchannels] at hwire
  constructor
  · constructor
    · exact hpair
    · exact hecdh
    · exact hchannels'.trans hchannels
    · rw [hwire]
    · rw [hsignaling]
    · rw [huser]
    · intro a c hc
      rw [hneighbors] at hc
      exact hbound a c hc
  · rfl
  · rfl
  · rfl
  · exact ⟨hsigned, htype, hto, hstate⟩
  · exact hannounced
  · rw [← view_states, hview]
    rfl
  · rw [hwire]

omit [DecidableEq Chan] in
theorem notifyMessage_skip [DecidableEq Chan]
    (hrun : Graph.notifyMessage K H m (some channel) n = .ok () n') (hn : Typed n')
    (hsource : m.source ≠ none)
    (htype : m.type = MessageType.Hello ∨ m.type = MessageType.State) :
    Node.notifyMessage K H m (some channel) n = .ok () n' := by
  have hskip : ∀ port, Transport.notifyMessage K H port m (some channel) n' = .ok () n' := by
    intro port
    have hport : m.type ≠ (n'.transport port).mType := by
      cases port with
      | signaling =>
        change m.type ≠ n'.signaling.mType
        rw [hn.signaling]
        rcases htype with htype | htype <;> rw [htype] <;> decide
      | user =>
        change m.type ≠ n'.userTransport.mType
        rw [hn.user]
        rcases htype with htype | htype <;> rw [htype] <;> decide
    rw [Transport.notifyMessage, get_bind_run]
    cases hm : m.source with
    | none => exact absurd hm hsource
    | some source =>
      dsimp only
      rw [if_pos hport]
      rfl
  rw [Node.notifyMessage, bind_ok hrun, bind_ok (hskip .signaling)]
  exact hskip .user

omit [DecidableEq Chan] in
theorem typed_kept (hn : Typed n) (h : Kept n n') : Typed n' :=
  ⟨h.signaling.trans hn.signaling, h.user.trans hn.user⟩

omit [DecidableEq Chan] in
theorem emplaced_bound {r : Routing Id Chan} {source a : Id} {c : Chan}
    (hchannel : channel ∈ r.mChannels)
    (hc : (emplace source channel r.mNeighbors).lookup a = some c) :
    r.mNeighbors.lookup a = some c ∨ c ∈ r.mChannels := by
  rw [lookup_emplace] at hc
  split_ifs at hc
  · cases hc
    exact Or.inr hchannel
  · exact Or.inl hc

omit [DecidableEq Chan] in
theorem prepared_of_invariant (h : Invariant K n) : Prepared K n :=
  ⟨h.rooted, localCurrent_older h.current⟩

omit [DecidableEq Chan] in
theorem prepared_congr (h : Prepared K n) (hgraph : n'.graph = n.graph)
    (hpair : n'.ecdsaPair = n.ecdsaPair) : Prepared K n' := by
  have hid : n'.id K = n.id K := congrArg K.publicKey hpair
  refine ⟨⟨?_, ?_⟩, ?_⟩
  · rw [hgraph]
    exact h.rooted.linked
  · rw [hgraph, hid]
    exact h.rooted.root
  · rw [LocalOlder, hgraph, hid]
    exact h.older

omit [DecidableEq Chan] in
theorem prepared_own (h : LocalOlder K n) (hrooted : Rooted K n')
    (hown : (n'.graph.stateOf (n.id K) = n.graph.stateOf (n.id K) ∧
      surroundings n' = surroundings n) ∨ LocalCurrent K n') : Prepared K n' := by
  refine ⟨hrooted, ?_⟩
  rcases hown with ⟨hstate, hkept⟩ | hcurrent
  · exact localOlder_congr h hkept hstate
  · exact localCurrent_older hcurrent

theorem notifyMessage_greeting (hm : SignedBy K pair m) (htype : m.type = MessageType.Hello)
    (hchannel : channel ∈ n.routing.mChannels) (hnew : K.publicKey pair ∉ n.routing.mNeighbors) :
    Graph.notifyMessage K H m (some channel) n = Graph.notifyNeighbor K H { n with
      routing := { n.routing with
        mNeighbors := emplace (K.publicKey pair) channel n.routing.mNeighbors } } := by
  have hnone : ¬ n.routing.hasNeighbor (K.publicKey pair) = true := by
    rw [Routing.hasNeighbor, decide_eq_true_eq]
    exact hnew
  rw [Graph.notifyMessage, if_pos htype]
  refine (notifyHello_run K H hm.source channel n).trans ?_
  rw [if_neg hnone]
  simp only [Node.addNeighbor, Node.changeNeighbors, get_bind_run, Routing.addNeighbor,
    if_pos hchannel, if_pos hnew, if_true]
  rfl

theorem onMessage_known (hK : EcdsaLaws K) (hn : Typed n) (hm : SignedBy K pair m)
    (htype : m.type = MessageType.Hello) (hto : m.destination = none)
    (hknown : K.publicKey pair ∈ n.routing.mNeighbors) :
    Node.onMessage K H n channel (frame K m) = n := by
  have hsource : m.source ≠ none := by
    rw [hm.source]
    exact Option.some_ne_none _
  have hhas : n.routing.hasNeighbor (K.publicKey pair) = true := decide_eq_true hknown
  have hrun : Graph.notifyMessage K H m (some channel) n = .ok () n := by
    rw [Graph.notifyMessage, if_pos htype]
    refine (notifyHello_run K H hm.source channel n).trans ?_
    rw [if_pos hhas]
  rw [onMessage_emit H hK hm (Or.inl hto), notifyMessage_skip H hrun hn hsource (Or.inl htype),
    final_ok]

theorem onMessage_hello (hK : EcdsaLaws K) (hE : EcdhLaws K) (h : Prepared K n) (hn : Typed n)
    (hm : SignedBy K pair m) (htype : m.type = MessageType.Hello) (hto : m.destination = none)
    (hchannel : channel ∈ n.routing.mChannels)
    (hb : Bounded (Node.onMessage K H n channel (frame K m))) :
    Greeted K n (K.publicKey pair) channel (Node.onMessage K H n channel (frame K m)) ∧
      Prepared K (Node.onMessage K H n channel (frame K m)) := by
  have hsource : m.source ≠ none := by
    rw [hm.source]
    exact Option.some_ne_none _
  by_cases hknown : K.publicKey pair ∈ n.routing.mNeighbors
  · rw [onMessage_known H hK hn hm htype hto hknown]
    exact ⟨.known hknown, h⟩
  · rw [onMessage_emit H hK hm (Or.inl hto)] at hb ⊢
    set r : Routing Id Chan :=
      { n.routing with mNeighbors := emplace (K.publicKey pair) channel n.routing.mNeighbors }
      with hr
    have hnotify : Graph.notifyMessage K H m (some channel) n =
        Graph.notifyNeighbor K H { n with routing := r } :=
      notifyMessage_greeting H hm htype hchannel hknown
    have hbound : ∀ a c, r.mNeighbors.lookup a = some c →
        n.routing.mNeighbors.lookup a = some c ∨ c ∈ n.routing.mChannels :=
      fun a c hc => emplaced_bound hchannel hc
    have h₁ : Prepared K { n with routing := r } := prepared_congr h rfl rfl
    have hb₁ : Bounded { n with routing := r } := by
      have hrouting : (final (Node.notifyMessage K H m (some channel) n)).routing =
          (final (Graph.notifyMessage K H m (some channel) n)).routing :=
        congrArg (fun c : Pair × Routing Id Chan × LegioNode.Graph Id Ecdh => c.2.1)
          (core_notifyMessage K H m (some channel) n)
      rw [Bounded, hrouting, hnotify] at hb
      exact bounded_emitted H r hb
    obtain ⟨n', hrun, hrooted, hnotified⟩ :=
      notifyNeighbor_notified H hK hE h₁.rooted h₁.older hb₁
    have hprepared : Prepared K n' := prepared_own h₁.older hrooted (notified_own H hnotified)
    have hgreeted : Kept n n' → Greeted K n (K.publicKey pair) channel n' →
        Greeted K n (K.publicKey pair) channel
          (final (Node.notifyMessage K H m (some channel) n)) ∧
        Prepared K (final (Node.notifyMessage K H m (some channel) n)) := by
      intro hkept hgreeted
      rw [notifyMessage_skip H (hnotify.trans hrun) (typed_kept hn hkept) hsource (Or.inl htype)]
      exact ⟨hgreeted, hprepared⟩
    cases hnotified with
    | unchanged hedges hview hkept =>
      simp only [surroundings, Surroundings.mk.injEq] at hkept
      obtain ⟨hpair, hwire, hchannels, hneighbors, hecdh, _, _, hannounced, hsignaling, huser⟩ :=
        hkept
      have hkept : Kept n n' := by
        refine ⟨hpair, hecdh, hchannels, by rw [hwire], by rw [hsignaling], by rw [huser], ?_⟩
        intro a c hc
        rw [hneighbors] at hc
        exact hbound a c hc
      refine hgreeted hkept (.silent m ?_ hneighbors ⟨hkept, hannounced, ?_, ?_, ?_⟩)
      · -- the edges already contained the new neighbour
        intro hstep
        have hmem : K.publicKey pair ∈ r.neighbors := by
          rw [Routing.neighbors, mem_keySet, hr, mem_emplace]
          exact Or.inl rfl
        have hedges : n.graph.edgesOf (n.id K) = r.neighbors := hedges
        rw [InStep, hedges] at hstep
        rw [hstep] at hmem
        exact hknown hmem
      · rw [← view_states, hview, view_states]
      · rw [hwire]
        rfl
      · exact fun c hc => absurd hc Bool.false_ne_true
    | @announced message hedges hview hann =>
      have hannounces := announces_of_announced H hK hE (r := r) rfl hbound hb₁ hann hview
      have hneighbors : n'.routing.mNeighbors = r.mNeighbors :=
        congrArg (fun s : Surroundings Id Pair Ecdh Chan => s.mNeighbors) hann.kept
      exact hgreeted hannounces.kept (.announced _ message hneighbors hannounces)

theorem notifyMessage_state (hm : Carries K pair s m) :
    Graph.notifyMessage K H m (some channel) n = (Graph.insert K H s >>= fun accepted =>
      if accepted then modify fun n => { n with
        wire := n.routing.broadcast K H.byteOrder n.wire m (some channel) }
      else pure () : NodeM Id Pair Ecdh Chan Unit) n := by
  have hhello : m.type ≠ MessageType.Hello := by
    rw [hm.type]
    decide
  rw [Graph.notifyMessage, if_neg hhello, if_pos hm.type, Graph.notifyState, hm.state]

/-- A node that has taken a State over passes it on. -/
theorem accepts_of_stored (hm : SignedBy K pair m) (hkept : surroundings n₁ = surroundings n)
    (hstored : n₁.graph.stateOf = Function.update n.graph.stateOf s.id (some s)) :
    Accepts K s m channel n { n₁ with
      wire := n₁.routing.broadcast K H.byteOrder n₁.wire m (some channel) } := by
  have hchannels : n₁.routing.mChannels = n.routing.mChannels :=
    congrArg Surroundings.mChannels hkept
  simp only [surroundings, Surroundings.mk.injEq] at hkept
  obtain ⟨hpair, hwire, _, hneighbors, hecdh, _, _, hannounced, hsignaling, huser⟩ := hkept
  rw [broadcast_signed hm]
  constructor
  · refine ⟨hpair, hecdh, hchannels, by rw [hwire], by rw [hsignaling], by rw [huser], ?_⟩
    intro a c hc
    rw [hneighbors] at hc
    exact Or.inl hc
  · exact hannounced
  · exact hstored
  · rw [hwire, reached_congr hchannels]

theorem onMessage_passed (hK : EcdsaLaws K) (hm : Carries K pair s m)
    (hrun : Graph.insert K H s n = .ok true n₁) (hn : Typed n₁) :
    Node.onMessage K H n channel (frame K m) = { n₁ with
      wire := n₁.routing.broadcast K H.byteOrder n₁.wire m (some channel) } := by
  have hsource : m.source ≠ none := by
    rw [hm.signed.source]
    exact Option.some_ne_none _
  have hnotify : Graph.notifyMessage K H m (some channel) n = .ok () { n₁ with
      wire := n₁.routing.broadcast K H.byteOrder n₁.wire m (some channel) } := by
    rw [notifyMessage_state H hm]
    exact bind_ok hrun
  rw [onMessage_emit H hK hm.signed (Or.inl hm.destination),
    notifyMessage_skip H hnotify ⟨hn.signaling, hn.user⟩ hsource (Or.inr hm.type), final_ok]

theorem onMessage_dropped (hK : EcdsaLaws K) (hm : Carries K pair s m) (hn : Typed n)
    (hrun : Graph.insert K H s n = .ok false n) :
    Node.onMessage K H n channel (frame K m) = n := by
  have hsource : m.source ≠ none := by
    rw [hm.signed.source]
    exact Option.some_ne_none _
  have hnotify : Graph.notifyMessage K H m (some channel) n = .ok () n := by
    rw [notifyMessage_state H hm]
    exact bind_ok hrun
  rw [onMessage_emit H hK hm.signed (Or.inl hm.destination),
    notifyMessage_skip H hnotify hn hsource (Or.inr hm.type), final_ok]

theorem onMessage_failed (hK : EcdsaLaws K) (hm : Carries K pair s m) {e : Error}
    (hrun : Graph.insert K H s n = .error e n₁) :
    Node.onMessage K H n channel (frame K m) = n₁ := by
  have hnotify : Graph.notifyMessage K H m (some channel) n = .error e n₁ := by
    rw [notifyMessage_state H hm]
    exact bind_error hrun
  rw [onMessage_emit H hK hm.signed (Or.inl hm.destination), Node.notifyMessage, bind_error hnotify,
    final_error]

theorem onMessage_state (hK : EcdsaLaws K) (hE : EcdhLaws K) (h : Prepared K n) (hb : Bounded n)
    (hn : Typed n) (hm : Carries K pair s m) (hown : s.id = n.id K → ¬ Fresh n s) :
    Informed K n s m channel (Node.onMessage K H n channel (frame K m)) ∧
      Prepared K (Node.onMessage K H n channel (frame K m)) := by
  obtain ⟨depth, hdepth⟩ := H.stack_succ_succ
  by_cases hid : s.id = n.id K
  · rw [onMessage_dropped H hK hm hn (insert_notFresh H (hown hid))]
    exact ⟨.own hid, h⟩
  · obtain ⟨accepted, n₁, hrun, hrooted, hu⟩ :=
      updateVertice_updated H hK hE h.rooted h.older hb hid depth
    have hinsert : Graph.insert K H s n = .ok accepted n₁ := by
      rw [Graph.insert, hdepth]
      exact hrun
    have hprepared : Prepared K n₁ := prepared_own h.older hrooted (updated_own H hu hid)
    cases hu with
    | stale hstale =>
      rw [onMessage_dropped H hK hm hn hinsert]
      exact ⟨.stale hstale, h⟩
    | accepted hfresh hkey hview hkept =>
      have haccepts : Accepts K s m channel n { n₁ with
          wire := n₁.routing.broadcast K H.byteOrder n₁.wire m (some channel) } :=
        accepts_of_stored H hm.signed hkept (congrArg View.states hview)
      have htyped := typed_kept hn haccepts.kept
      have hneighbors : n₁.routing.mNeighbors = n.routing.mNeighbors :=
        congrArg Surroundings.mNeighbors hkept
      rw [onMessage_passed H hK hm hinsert ⟨htyped.signaling, htyped.user⟩]
      exact ⟨.accepted hid hfresh hkey haccepts hneighbors, prepared_congr hprepared rfl rfl⟩
    | @answered _ message hfresh hkey hview hann =>
      -- as if the node had announced its State before it took the one received
      obtain ⟨n₂, message₂, _, _, hview₂, hann₂, _⟩ :=
        broadcastState_spec H hK hE h.rooted h.older hb 0
      have hannounces : Announces K (n.localState K) message₂ n n₂ :=
        announces_of_announced H hK hE (r := n.routing) rfl (fun _ _ hc => Or.inl hc)
          hb hann₂ hview₂
      have hmessage : message = message₂ := by
        have hcreated := hann.created
        rw [hann₂.created] at hcreated
        exact (Except.ok.inj hcreated).symm
      have hkept : surroundings n₁ = surroundings n₂ := by
        rw [hann.kept, hann₂.kept, hmessage]
      have hstored : n₁.graph.stateOf = Function.update n₂.graph.stateOf s.id (some s) := by
        rw [← view_states, hview, accept_states, ← hview₂, view_states]
      have haccepts : Accepts K s m channel n₂ { n₁ with
          wire := n₁.routing.broadcast K H.byteOrder n₁.wire m (some channel) } :=
        accepts_of_stored H hm.signed hkept hstored
      have htyped := typed_kept (typed_kept hn hannounces.kept) haccepts.kept
      have hneighbors : n₁.routing.mNeighbors = n.routing.mNeighbors :=
        congrArg Surroundings.mNeighbors hann.kept
      rw [onMessage_passed H hK hm hinsert ⟨htyped.signaling, htyped.user⟩]
      exact ⟨.answered _ message₂ hid hfresh hkey hannounces haccepts hneighbors,
        prepared_congr hprepared rfl rfl⟩

end LinkStateSteps
