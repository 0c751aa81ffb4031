import Legio.ChannelTopology
import Legio.TransportSteps

set_option linter.style.header false

/-! Messages that are neither Hello nor State. Whatever a node does with one, sent or
received, its graph and its links stay as they are and one message goes out on some
channels. -/
namespace MessageRelay

open LegioBinary LegioCrypto LegioMessage LegioNode Containers ExceptionStates
open ChannelTopology TransportSteps

variable {Id Pair Ecdh Chan : Type} [LinearOrder Id] [DecidableEq Chan]

def reached (r : Routing Id Chan) (w : Wire Chan) (from_ : Option Chan) (c : Chan) : Bool :=
  decide (c ∈ r.mChannels ∧ some c ≠ from_ ∧ w.isOpen c = true)

def Usable (n : Node Id Pair Ecdh Chan) (c : Chan) : Prop :=
  n.wire.isOpen c = true ∧
    (c ∈ n.routing.mChannels ∨ ∃ a, n.routing.mNeighbors.lookup a = some c)

/-- A message put on some channels, and nothing else that a graph could notice. -/
structure Posts (K : CryptoPP Id Pair Ecdh) (m : Message Id) (targets : Chan → Bool)
    (n n' : Node Id Pair Ecdh Chan) : Prop where
  core : n'.core = n.core
  signaling : n'.signaling.mType = n.signaling.mType
  user : n'.userTransport.mType = n.userTransport.mType
  wire : n'.wire = { n.wire with outbox := push n.wire.outbox targets (frame K m) }
  usable : ∀ c, targets c = true → Usable n c

variable {K : CryptoPP Id Pair Ecdh} (H : Host Id) {m : Message Id} {pair : Pair}
  {n n' n₁ : Node Id Pair Ecdh Chan} {targets : Chan → Bool}

theorem reached_usable {from_ : Option Chan} {c : Chan}
    (hc : reached n.routing n.wire from_ c = true) : Usable n c := by
  obtain ⟨hregistered, _, hopen⟩ := of_decide_eq_true hc
  exact ⟨hopen, Or.inl hregistered⟩

omit [LinearOrder Id] in
theorem broadcast_signed (hm : SignedBy K pair m) (r : Routing Id Chan) (w : Wire Chan)
    (o : ByteOrder) (from_ : Option Chan) : r.broadcast K o w m from_ =
      { w with outbox := push w.outbox (reached r w from_) (frame K m) } := by
  rw [Routing.broadcast, toBinary_eq K o m hm.body]
  simp only [Wire.mk.injEq, true_and]
  funext c
  simp only [push, reached, decide_eq_true_eq, frame]

omit [DecidableEq Chan] in
theorem posts_silent (m : Message Id) (hcore : n'.core = n.core)
    (hsignaling : n'.signaling.mType = n.signaling.mType)
    (huser : n'.userTransport.mType = n.userTransport.mType) (hwire : n'.wire = n.wire) :
    Posts K m (fun _ => false) n n' where
  core := hcore
  signaling := hsignaling
  user := huser
  wire := hwire
  usable _ hc := absurd hc Bool.false_ne_true

omit [DecidableEq Chan] in
theorem posts_after (hcore : n₁.core = n.core)
    (hsignaling : n₁.signaling.mType = n.signaling.mType)
    (huser : n₁.userTransport.mType = n.userTransport.mType) (hwire : n₁.wire = n.wire)
    (h : Posts K m targets n₁ n') : Posts K m targets n n' := by
  have hrouting : n₁.routing = n.routing :=
    congrArg (fun c : Pair × Routing Id Chan × LegioNode.Graph Id Ecdh => c.2.1) hcore
  constructor
  · exact h.core.trans hcore
  · exact h.signaling.trans hsignaling
  · exact h.user.trans huser
  · rw [h.wire, hwire]
  · intro c hc
    have husable := h.usable c hc
    rw [Usable, hrouting, hwire] at husable
    exact husable

def fixed (n : Node Id Pair Ecdh Chan) :
    (Pair × Routing Id Chan × LegioNode.Graph Id Ecdh) × UInt8 × UInt8 × Wire Chan :=
  (n.core, n.signaling.mType, n.userTransport.mType, n.wire)

omit [LinearOrder Id] [DecidableEq Chan] in
theorem fixed_setTransport (n : Node Id Pair Ecdh Chan) (port : Port) {t : Transport Id}
    (ht : t.mType = (n.transport port).mType) : fixed (n.setTransport port t) = fixed n := by
  cases port with
  | signaling => exact congrArg (fun type => (n.core, type, n.userTransport.mType, n.wire)) ht
  | user => exact congrArg (fun type => (n.core, n.signaling.mType, type, n.wire)) ht

theorem fixed_signaling (message : Message Id) (channel : Option Chan)
    (n : Node Id Pair Ecdh Chan) :
    fixed (final (Transport.notifyMessage K H .signaling message channel n)) = fixed n := by
  have hI : TransportFree fun n' : Node Id Pair Ecdh Chan => fixed n' = fixed n :=
    fun n' port t ht hn' => (fixed_setTransport n' port ht).trans hn'
  simp only [Transport.notifyMessage, get_bind_run]
  cases message.source with
  | none => rfl
  | some remoteId =>
    dsimp only
    split_ifs
    · rfl
    · exact keeps_incoming K hI .signaling message remoteId n rfl

omit [DecidableEq Chan] in
theorem posts_of_fixed (m : Message Id) (h : fixed n' = fixed n) :
    Posts K m (fun _ => false) n n' := by
  simp only [fixed, Prod.mk.injEq] at h
  exact posts_silent m h.1 h.2.1 h.2.2.1 h.2.2.2

omit [DecidableEq Chan] in
theorem posts_after_fixed (hn : fixed n₁ = fixed n) (h : Posts K m targets n₁ n') :
    Posts K m targets n n' := by
  simp only [fixed, Prod.mk.injEq] at hn
  exact posts_after hn.1 hn.2.1 hn.2.2.1 hn.2.2.2 h

theorem posts_incoming (hm : SignedBy K pair m) (source : Id) (channel : Option Chan)
    (n : Node Id Pair Ecdh Chan) : ∃ targets,
      Posts K m targets n (final (BroadcastableTransport.incoming K H m source channel n)) := by
  obtain ⟨table, htable⟩ := checkSequence_kept n.userTransport source m.sequence
  cases hto : m.destination with
  | none =>
    rw [incoming_broadcast H hto, htable]
    cases (n.userTransport.checkSequence source m.sequence).1 with
    | true =>
      refine ⟨reached n.routing n.wire channel, ?_⟩
      constructor
      · rfl
      · rfl
      · rfl
      · exact broadcast_signed hm n.routing n.wire H.byteOrder channel
      · exact fun c hc => reached_usable hc
    | false => exact ⟨_, posts_silent m rfl rfl rfl rfl⟩
  | some d =>
    obtain ⟨payloads, hfinal⟩ :=
      @incoming_direct _ _ _ _ _ _ K H n m d hto source channel
    rw [hfinal, htable]
    exact ⟨_, posts_silent m rfl rfl rfl rfl⟩

theorem posts_user (hm : SignedBy K pair m) (channel : Option Chan)
    (n : Node Id Pair Ecdh Chan) : ∃ targets,
      Posts K m targets n (final (Transport.notifyMessage K H .user m channel n)) := by
  simp only [Transport.notifyMessage, get_bind_run, hm.source]
  split_ifs
  · exact ⟨_, posts_silent m rfl rfl rfl rfl⟩
  · exact posts_incoming H hm _ channel n

theorem posts_notifyMessage (hm : SignedBy K pair m) (hhello : m.type ≠ MessageType.Hello)
    (hstate : m.type ≠ MessageType.State) (channel : Option Chan)
    (n : Node Id Pair Ecdh Chan) : ∃ targets,
      Posts K m targets n (final (Node.notifyMessage K H m channel n)) := by
  have hgraph : Graph.notifyMessage K H m channel n = .ok () n := by
    rw [Graph.notifyMessage, if_neg hhello, if_neg hstate]
    rfl
  have hfixed := fixed_signaling (K := K) H m channel n
  rw [Node.notifyMessage, bind_ok hgraph]
  cases hrun : Transport.notifyMessage K H .signaling m channel n with
  | error e n₁ =>
    rw [hrun] at hfixed
    rw [bind_error hrun]
    exact ⟨_, posts_of_fixed m hfixed⟩
  | ok _ n₁ =>
    rw [hrun] at hfixed
    rw [bind_ok hrun]
    obtain ⟨targets, hposts⟩ := posts_user H hm channel n₁
    exact ⟨targets, posts_after_fixed hfixed hposts⟩

theorem posts_route (hm : SignedBy K pair m) (hhello : m.type ≠ MessageType.Hello)
    (hstate : m.type ≠ MessageType.State) (from_ : Option Chan)
    (n : Node Id Pair Ecdh Chan) : ∃ targets,
      Posts K m targets n (final (Node.route K H m from_ n)) := by
  have hsource : ¬ m.source = none := by
    rw [hm.source]
    exact Option.some_ne_none _
  have hemit := posts_notifyMessage H hm hhello hstate from_ n
  rw [Node.route, get_bind_run, Routing.route, if_neg hsource]
  cases m.destination with
  | none => exact hemit
  | some d =>
    dsimp only
    split_ifs
    · exact hemit
    · cases hroute : n.routing.findRoute d with
      | none => exact ⟨_, posts_silent m rfl rfl rfl rfl⟩
      | some channel =>
        dsimp only
        rw [toBinary_eq K H.byteOrder m hm.body]
        dsimp only
        by_cases hopen : n.wire.isOpen channel = true
        · rw [Wire.send, if_pos hopen]
          refine ⟨fun c => decide (c = channel), ?_⟩
          constructor
          · rfl
          · rfl
          · rfl
          · simp only [set_run, final_ok, Wire.mk.injEq, true_and]
            funext c
            by_cases hc : c = channel
            · subst hc
              simp [push, frame]
            · simp [push, hc]
          · intro c hc
            rw [of_decide_eq_true hc]
            exact ⟨hopen, Or.inr ⟨d, findRoute_neighbor hroute⟩⟩
        · rw [Wire.send, if_neg hopen]
          exact ⟨_, posts_silent m rfl rfl rfl rfl⟩

theorem posts_onMessage (hK : EcdsaLaws K) (hm : SignedBy K pair m)
    (hhello : m.type ≠ MessageType.Hello) (hstate : m.type ≠ MessageType.State) (channel : Chan)
    (n : Node Id Pair Ecdh Chan) : ∃ targets,
      Posts K m targets n (Node.onMessage K H n channel (frame K m)) := by
  rw [Node.onMessage, frame, parse_signed hK _ hm]
  exact posts_route H hm hhello hstate (some channel) n

structure Made (K : CryptoPP Id Pair Ecdh) (n : Node Id Pair Ecdh Chan) (port : Port)
    (m : Message Id) : Prop where
  signed : SignedBy K n.ecdsaPair m
  type : m.type = (n.transport port).mType

omit [LinearOrder Id] [DecidableEq Chan] in
theorem made_other (hn : Typed n) {port : Port} (h : Made K n port m) :
    m.type ≠ MessageType.Hello ∧ m.type ≠ MessageType.State := by
  rw [h.type]
  cases port with
  | signaling =>
    change n.signaling.mType ≠ _ ∧ n.signaling.mType ≠ _
    rw [hn.signaling]
    decide
  | user =>
    change n.userTransport.mType ≠ _ ∧ n.userTransport.mType ≠ _
    rw [hn.user]
    decide

/-- Sending puts at most one message of the node on some channels. -/
def Sends (K : CryptoPP Id Pair Ecdh) (port : Port) (n n' : Node Id Pair Ecdh Chan) : Prop :=
  ∃ (message : Message Id) (channels : Chan → Bool), Posts K message channels n n' ∧
    ∀ c, channels c = true → Made K n port message

omit [DecidableEq Chan] in
theorem sends_nothing {port : Port} (h : fixed n' = fixed n) : Sends K port n n' :=
  ⟨⟨0, 0, none, none, [], []⟩, fun _ => false, posts_of_fixed _ h,
    fun _ hc => absurd hc Bool.false_ne_true⟩

omit [LinearOrder Id] [DecidableEq Chan] in
theorem makeMessage_cases (n : Node Id Pair Ecdh Chan) (port : Port) (body : Binary)
    (destination : Option Id) :
    (∃ e n₁, Transport.makeMessage K H port body destination n = .error e n₁ ∧
      fixed n₁ = fixed n) ∨
    ∃ m n₁, Transport.makeMessage K H port body destination n = .ok m n₁ ∧
      fixed n₁ = fixed n ∧ Made K n port m ∧ m.destination = destination := by
  rcases Nat.lt_or_ge uint16Max body.length with hlong | hfits
  · have hrun := makeMessage_too_long (K := K) H n port destination hlong
    exact Or.inl ⟨_, _, hrun, fixed_setTransport n port rfl⟩
  · obtain ⟨m, hrun, hsigned, htype, _, hto, _⟩ :=
      makeMessage_spec (K := K) H n port destination hfits
    exact Or.inr ⟨m, _, hrun, fixed_setTransport n port rfl, ⟨hsigned, htype⟩, hto⟩

theorem broadcast_sends (n : Node Id Pair Ecdh Chan) (port : Port) (payload : Binary) :
    Sends K port n (final (Transport.broadcast K H port payload n)) := by
  cases port with
  | signaling => exact sends_nothing rfl
  | user =>
    have hrun : Transport.broadcast K H .user payload n =
        (Transport.makeMessage K H .user payload none >>= fun message => modify fun n =>
          { n with wire := n.routing.broadcast K H.byteOrder n.wire message none }) n := rfl
    rw [hrun]
    rcases makeMessage_cases (K := K) H n .user payload none with
      ⟨e, n₁, hmake, hfixed⟩ | ⟨m, n₁, hmake, hfixed, hmade, _⟩
    · rw [bind_error hmake]
      exact sends_nothing hfixed
    · rw [bind_ok hmake]
      refine ⟨m, reached n₁.routing n₁.wire none, posts_after_fixed hfixed ?_, fun _ _ => hmade⟩
      constructor
      · rfl
      · rfl
      · rfl
      · exact broadcast_signed hmade.signed n₁.routing n₁.wire H.byteOrder none
      · exact fun c hc => reached_usable hc

theorem send_sends (hn : Typed n) (port : Port) (remoteId : Id) (payload : Binary)
    (random : Iv) :
    Sends K port n (final (Transport.send K H port remoteId payload random n)) := by
  rw [Transport.send]
  rcases directMessage_cases (K := K) H n port remoteId payload random with
    ⟨e, hrefused⟩ | ⟨body, hmessage⟩
  · rw [bind_error hrefused]
    exact sends_nothing rfl
  rcases makeMessage_cases (K := K) H n port body (some remoteId) with
    ⟨e, n₁, hmake, hfixed⟩ | ⟨m, n₁, hmake, hfixed, hmade, hto⟩
  · rw [bind_error (hmessage.trans hmake)]
    exact sends_nothing hfixed
  · obtain ⟨hhello, hstate⟩ := made_other hn hmade
    have hsome : m.destination.isSome = true := by
      rw [hto]
      rfl
    rw [bind_ok (hmessage.trans hmake), Node.send, if_pos hsome]
    obtain ⟨targets, hposts⟩ := posts_route H hmade.signed hhello hstate none n₁
    exact ⟨m, targets, posts_after_fixed hfixed hposts, fun _ _ => hmade⟩

end MessageRelay
