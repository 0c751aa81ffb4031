import Legio.NodeRuns
import Legio.SequencedFlooding
import Legio.TransportSteps
import Mathlib.Data.Fin.VecNotation

set_option linter.style.header false

/-! User messages in a static network of nodes. Seen from one source, the network runs the
flooding of numbered packets: numbers are the indices above its first sequence number, and
the replay filters of the other nodes hold what they have seen. -/
namespace BroadcastDelivery

open LegioBinary LegioCrypto LegioMessage LegioNode Containers ExceptionStates ReplayFilter
open ChannelTopology NodeNetwork TransportSteps
open SequencedFlooding (Packet others Linked)

variable {V Id Pair Ecdh Chan : Type} [DecidableEq V] [LinearOrder Id] [DecidableEq Chan]

inductive Action (V Id Chan : Type) where
  | broadcast (v : V) (payload : Binary)
  | send (v : V) (remoteId : Id) (payload : Binary) (random : Iv)
  | deliver (channel : Chan)

def Action.apply (K : CryptoPP Id Pair Ecdh) (net : Network V Id Chan)
    (σ : Nodes V Id Pair Ecdh Chan) : Action V Id Chan → Nodes V Id Pair Ecdh Chan
  | .broadcast v payload =>
    Function.update σ v (final (Transport.broadcast K (net.host v) .user payload (σ v)))
  | .send v remoteId payload random =>
    Function.update σ v
      (final (Transport.send K (net.host v) .user remoteId payload random (σ v)))
  | .deliver channel => NodeNetwork.deliver K net σ channel

def Action.sends (x : V) : Action V Id Chan → Bool
  | .broadcast v _ => v = x
  | .send v _ _ _ => v = x
  | .deliver _ => false

def broadcasts (n : Node Id Pair Ecdh Chan) : List (Message Id) :=
  n.userTransport.issued.filter fun m => m.destination.isNone

/-- The broadcasts of a source that a node's receive callback was called with, in order. -/
def acceptedFrom (n : Node Id Pair Ecdh Chan) (source : Id) : List (Message Id) :=
  (n.userTransport.delivered.filter fun d =>
    d.remoteId = source ∧ d.message.destination.isNone).map Delivery.message

/-- Distinct identities, every channel registered and open at both ends, neighbours bound
to channels that lead to them, and transports as constructed. -/
structure Started (K : CryptoPP Id Pair Ecdh) (net : Network V Id Chan)
    (σ : Nodes V Id Pair Ecdh Chan) : Prop where
  identities : Function.Injective fun v => (σ v).id K
  channels : ∀ v channel, channel ∈ (σ v).routing.mChannels ↔ net.owner channel = v
  isOpen : ∀ channel, (σ (net.owner channel)).wire.isOpen channel = true
  leads : ∀ v id channel, (σ v).routing.mNeighbors.lookup id = some channel →
    net.owner channel = v ∧ (σ (net.remote channel)).id K = id
  quiet : Quiescent net σ
  signaling : ∀ v, (σ v).signaling.mType = MessageType.Signaling
  user : ∀ v, ∃ start, (σ v).userTransport = Transport.initial MessageType.User start

/-- A message in flight: signed by a node, and for the node at the far side or for all. -/
structure Carried (K : CryptoPP Id Pair Ecdh) (net : Network V Id Chan) (id : V → Id)
    (channel : Chan) (m : Message Id) : Prop where
  type : m.type = MessageType.User
  author : ∃ y pair, K.publicKey pair = id y ∧ SignedBy K pair m
  destination : ∀ d, m.destination = some d → d = id (net.remote channel)

/-- What no action changes, and the messages behind the bytes in flight. -/
structure Consistent (K : CryptoPP Id Pair Ecdh) (net : Network V Id Chan) (id : V → Id)
    (σ : Nodes V Id Pair Ecdh Chan) (messages : Chan → List (Message Id)) : Prop where
  identity : ∀ v, (σ v).id K = id v
  typed : ∀ v, Typed (σ v)
  channels : ∀ v channel, channel ∈ (σ v).routing.mChannels ↔ net.owner channel = v
  isOpen : ∀ channel, (σ (net.owner channel)).wire.isOpen channel = true
  leads : ∀ v a channel, (σ v).routing.mNeighbors.lookup a = some channel →
    net.owner channel = v ∧ id (net.remote channel) = a
  outbox : ∀ channel, inFlight net σ channel = (messages channel).map (frame K)
  carried : ∀ channel, ∀ m ∈ messages channel, Carried K net id channel m

/-- A node's new state that differs in its transport and its outboxes only. -/
structure Follows (n n' : Node Id Pair Ecdh Chan) : Prop where
  ecdsaPair : n'.ecdsaPair = n.ecdsaPair
  routing : n'.routing = n.routing
  signaling : n'.signaling = n.signaling
  userType : n'.userTransport.mType = n.userTransport.mType
  isOpen : n'.wire.isOpen = n.wire.isOpen

section Consistency
variable {K : CryptoPP Id Pair Ecdh} {net : Network V Id Chan} {id : V → Id}
  {σ : Nodes V Id Pair Ecdh Chan} {messages messages' : Chan → List (Message Id)}

omit [DecidableEq Chan] in
theorem consistent_update (h : Consistent K net id σ messages) (w : V)
    {n' : Node Id Pair Ecdh Chan} (hn : Follows (σ w) n')
    (hhere : ∀ c, net.owner c = w → n'.wire.outbox c = (messages' c).map (frame K))
    (helsewhere : ∀ c, net.owner c ≠ w → messages' c = messages c)
    (hcarried : ∀ c, net.owner c = w → ∀ m ∈ messages' c, Carried K net id c m) :
    Consistent K net id (Function.update σ w n') messages' := by
  have hrouting : ∀ v, (Function.update σ w n' v).routing = (σ v).routing := by
    intro v
    by_cases hv : v = w
    · subst hv
      rw [Function.update_self, hn.routing]
    · rw [Function.update_of_ne hv]
  constructor
  · intro v
    by_cases hv : v = w
    · subst hv
      rw [Function.update_self, Node.id, hn.ecdsaPair]
      exact h.identity v
    · rw [Function.update_of_ne hv]
      exact h.identity v
  · intro v
    by_cases hv : v = w
    · subst hv
      rw [Function.update_self]
      exact ⟨hn.signaling ▸ (h.typed v).signaling, hn.userType.trans (h.typed v).user⟩
    · rw [Function.update_of_ne hv]
      exact h.typed v
  · intro v c
    rw [hrouting]
    exact h.channels v c
  · intro c
    by_cases hc : net.owner c = w
    · rw [hc, Function.update_self, hn.isOpen, ← hc]
      exact h.isOpen c
    · rw [Function.update_of_ne hc]
      exact h.isOpen c
  · intro v a c hlookup
    rw [hrouting] at hlookup
    exact h.leads v a c hlookup
  · intro c
    unfold inFlight
    by_cases hc : net.owner c = w
    · rw [hc, Function.update_self]
      exact hhere c hc
    · rw [Function.update_of_ne hc, helsewhere c hc]
      exact h.outbox c
  · intro c m hm
    by_cases hc : net.owner c = w
    · exact hcarried c hc m hm
    · rw [helsewhere c hc] at hm
      exact h.carried c m hm

end Consistency

/-- A message as the flooding of one source sees it. -/
def packet (source : Id) (start : UInt32) (m : Message Id) : Option (Packet (Message Id)) :=
  if m.source = some source then
    some ⟨(m.sequence - start).toNat, if m.destination.isNone then some m else none⟩
  else none

structure Simulates (id : V → Id) (x : V) (start : UInt32) (σ : Nodes V Id Pair Ecdh Chan)
    (messages : Chan → List (Message Id))
    (a : SequencedFlooding.State V Chan (Message Id)) : Prop where
  queue : ∀ c, a.queue c = (messages c).filterMap (packet (id x) start)
  seen : ∀ v, v ≠ x →
    (σ v).userTransport.mSequences.lookup (id x) = residue start (a.seen v)
  accepted : ∀ v, v ≠ x → a.accepted v = acceptedFrom (σ v) (id x)
  issued : a.log.reduceOption = broadcasts (σ x)
  counter : (σ x).userTransport.mSendSequence = start + UInt32.ofNat a.log.length

/-- The flooding of source `x` has come to where the network is, with at most `sends` sends. -/
def Tracked (net : Network V Id Chan) (id : V → Id) (x : V) (start : UInt32)
    (σ : Nodes V Id Pair Ecdh Chan) (messages : Chan → List (Message Id)) (sends : ℕ) : Prop :=
  ∃ a, SequencedFlooding.Reachable net.toCabling x a ∧ Simulates id x start σ messages a ∧
    a.log.length ≤ sends

/-- A send of node `y`: one number is used up and one message, if any, goes out. -/
structure Emission (K : CryptoPP Id Pair Ecdh) (net : Network V Id Chan) (id : V → Id) (y : V)
    (n n' : Node Id Pair Ecdh Chan) (content : Option (Message Id)) (targets : Chan → Bool)
    (m : Message Id) : Prop where
  follows : Follows n n'
  counter : n'.userTransport.mSendSequence = n.userTransport.mSendSequence + 1
  broadcasts : broadcasts n' = broadcasts n ++ content.toList
  table : ∀ a, a ≠ id y →
    n'.userTransport.mSequences.lookup a = n.userTransport.mSequences.lookup a
  accepted : ∀ a, a ≠ id y → acceptedFrom n' a = acceptedFrom n a
  outbox : ∀ c, net.owner c = y → n'.wire.outbox c =
    if targets c then n.wire.outbox c ++ [frame K m] else n.wire.outbox c
  own : ∀ c, targets c = true → net.owner c = y
  all : content.isSome = true → ∀ c, net.owner c = y → targets c = true
  made : ∀ c, targets c = true → Issued K n m ∧
    (∀ d, m.destination = some d → d = id (net.remote c)) ∧
    content = if m.destination.isNone then some m else none

section Emissions
variable {K : CryptoPP Id Pair Ecdh} {net : Network V Id Chan} {id : V → Id} {x y : V}
  {σ : Nodes V Id Pair Ecdh Chan} {messages : Chan → List (Message Id)} {start : UInt32}

omit [DecidableEq V] [DecidableEq Chan] in
theorem packet_own {pair : Pair} {source : Id} {m : Message Id} (hm : SignedBy K pair m)
    (hpair : K.publicKey pair = source) (start : UInt32) : packet source start m =
      some ⟨(m.sequence - start).toNat, if m.destination.isNone then some m else none⟩ := by
  rw [packet, if_pos (by rw [hm.source, hpair])]

omit [DecidableEq V] [DecidableEq Chan] in
theorem packet_foreign {pair : Pair} {source : Id} {m : Message Id} (hm : SignedBy K pair m)
    (hpair : K.publicKey pair ≠ source) (start : UInt32) : packet source start m = none := by
  rw [packet, if_neg]
  rw [hm.source]
  exact fun heq => hpair (Option.some.inj heq)

omit [DecidableEq Chan] in
theorem emission_consistent (h : Consistent K net id σ messages) {n' : Node Id Pair Ecdh Chan}
    {content : Option (Message Id)} {targets : Chan → Bool} {m : Message Id}
    (he : Emission K net id y (σ y) n' content targets m) :
    Consistent K net id (Function.update σ y n') (push messages targets m) := by
  apply consistent_update h y he.follows
  · intro c hc
    have hout := h.outbox c
    rw [inFlight, hc] at hout
    rw [he.outbox c hc, hout]
    unfold push
    split_ifs
    · rw [List.map_append]
      rfl
    · rfl
  · intro c hc
    unfold push
    rw [if_neg fun htarget => hc (he.own c htarget)]
  · intro c hc m' hm'
    rcases mem_push.mp hm' with hold | ⟨htarget, rfl⟩
    · exact h.carried c m' hold
    · obtain ⟨hmade, hto, _⟩ := he.made c htarget
      exact ⟨hmade.type.trans (h.typed y).user, ⟨y, (σ y).ecdsaPair, h.identity y, hmade.signed⟩,
        hto⟩

omit [DecidableEq Chan] in
theorem simulates_replace {a a' : SequencedFlooding.State V Chan (Message Id)} {w : V}
    (hs : Simulates id x start σ messages a) {n' : Node Id Pair Ecdh Chan}
    {messages' : Chan → List (Message Id)}
    (hissued : w = x → n'.userTransport.issued = (σ w).userTransport.issued)
    (hcounter : w = x → n'.userTransport.mSendSequence = (σ w).userTransport.mSendSequence)
    (hlog : a'.log = a.log)
    (hqueue : ∀ c, a'.queue c = (messages' c).filterMap (packet (id x) start))
    (hothers : ∀ v, v ≠ w → a'.seen v = a.seen v ∧ a'.accepted v = a.accepted v)
    (hseen : w ≠ x → n'.userTransport.mSequences.lookup (id x) = residue start (a'.seen w))
    (haccepted : w ≠ x → a'.accepted w = acceptedFrom n' (id x)) :
    Simulates id x start (Function.update σ w n') messages' a' := by
  constructor
  · exact hqueue
  · intro v hv
    by_cases hvw : v = w
    · subst hvw
      rw [Function.update_self]
      exact hseen hv
    · rw [Function.update_of_ne hvw, (hothers v hvw).1]
      exact hs.seen v hv
  · intro v hv
    by_cases hvw : v = w
    · subst hvw
      rw [Function.update_self]
      exact haccepted hv
    · rw [Function.update_of_ne hvw, (hothers v hvw).2]
      exact hs.accepted v hv
  · rw [hlog, hs.issued]
    by_cases hw : w = x
    · subst hw
      rw [Function.update_self, broadcasts, broadcasts, hissued rfl]
    · rw [Function.update_of_ne (Ne.symm hw)]
  · rw [hlog, ← hs.counter]
    by_cases hw : w = x
    · subst hw
      rw [Function.update_self]
      exact hcounter rfl
    · rw [Function.update_of_ne (Ne.symm hw)]

theorem emission_tracked (h : Consistent K net id σ messages) (hid : Function.Injective id)
    {n' : Node Id Pair Ecdh Chan} {content : Option (Message Id)} {targets : Chan → Bool}
    {m : Message Id} (he : Emission K net id y (σ y) n' content targets m) {sends : ℕ}
    (ht : Tracked net id x start σ messages sends) (hsends : sends < 2 ^ 31) :
    Tracked net id x start (Function.update σ y n') (push messages targets m)
      (if y = x then sends + 1 else sends) := by
  obtain ⟨a, hreach, hs, hlength⟩ := ht
  by_cases hxy : y = x
  · subst hxy
    rw [if_pos rfl]
    refine ⟨a.send content targets, .step hreach (.send a content targets he.own he.all), ?_, ?_⟩
    · have hother : ∀ v, v ≠ y → Function.update σ y n' v = σ v :=
        fun v hv => Function.update_of_ne hv ..
      constructor
      · intro c
        have hpacket : ∀ c, targets c = true →
            packet (id y) start m = some ⟨a.log.length, content⟩ := by
          intro c hc
          obtain ⟨hmade, _, hcontent⟩ := he.made c hc
          have hindex : (m.sequence - start).toNat = a.log.length := by
            rw [hmade.sequence, hs.counter, UInt32.add_comm, UInt32.add_sub_cancel,
              UInt32.toNat_ofNat_of_lt' (by change a.log.length < 2 ^ 32; omega)]
          rw [packet_own hmade.signed (h.identity y), hindex, hcontent]
        rw [filterMap_push hpacket]
        change push a.queue targets _ c = _
        rw [funext hs.queue]
      · intro v hv
        rw [hother v hv]
        exact hs.seen v hv
      · intro v hv
        rw [hother v hv]
        exact hs.accepted v hv
      · rw [Function.update_self, he.broadcasts, ← hs.issued]
        change (a.log ++ [content]).reduceOption = _
        rw [List.reduceOption_append, List.reduceOption_singleton]
      · rw [Function.update_self, he.counter, hs.counter]
        simp only [SequencedFlooding.State.send, List.length_append, List.length_singleton,
          UInt32.ofNat_add, UInt32.add_assoc]
        rfl
    · simp only [SequencedFlooding.State.send, List.length_append, List.length_singleton]
      omega
  · rw [if_neg hxy]
    have hne : id x ≠ id y := fun heq => hxy (hid heq).symm
    refine ⟨a, hreach, ?_, hlength⟩
    refine simulates_replace hs (fun heq => absurd heq hxy)
      (fun heq => absurd heq hxy) rfl ?_ (fun _ _ => ⟨rfl, rfl⟩) ?_ ?_
    · intro c
      rw [filterMap_push_none fun c hc => ?_]
      · exact hs.queue c
      · obtain ⟨hmade, _⟩ := he.made c hc
        apply packet_foreign hmade.signed
        exact fun heq => hne (heq.symm.trans (h.identity y))
    · intro _
      rw [he.table _ hne]
      exact hs.seen y hxy
    · intro _
      rw [he.accepted _ hne]
      exact hs.accepted y hxy

omit [DecidableEq V] [DecidableEq Chan] in
theorem acceptedFrom_append {n n' : Node Id Pair Ecdh Chan} {m : Message Id} {source a : Id}
    {payloads : List Binary} (h : n'.userTransport.delivered = n.userTransport.delivered ++
      payloads.map fun payload => ⟨m, source, payload⟩)
    (hne : a ≠ source ∨ m.destination.isNone = false) : acceptedFrom n' a = acceptedFrom n a := by
  have hnone : (payloads.map fun payload => (⟨m, source, payload⟩ : Delivery Id)).filter
      (fun d => d.remoteId = a ∧ d.message.destination.isNone) = [] := by
    rw [List.filter_eq_nil_iff]
    intro d hd
    obtain ⟨payload, _, rfl⟩ := List.mem_map.mp hd
    rcases hne with hne | hto
    · simp [Ne.symm hne]
    · simp [hto]
  rw [acceptedFrom, h, List.filter_append, hnone, List.append_nil]
  rfl

omit [DecidableEq V] [LinearOrder Id] [DecidableEq Chan] in
theorem broadcasts_issue (n : Node Id Pair Ecdh Chan) (m : Message Id) :
    broadcasts (issue n m) = broadcasts n ++
      (if m.destination.isNone then some m else none : Option (Message Id)).toList := by
  simp only [broadcasts, issue, List.filter_append]
  cases hto : m.destination.isNone <;> simp [hto]

omit [DecidableEq V] [DecidableEq Chan] in
theorem emission_silent {n n' : Node Id Pair Ecdh Chan} (hfollows : Follows n n')
    (hcounter : n'.userTransport.mSendSequence = n.userTransport.mSendSequence + 1)
    (hbroadcasts : broadcasts n' = broadcasts n)
    (htable : ∀ a, a ≠ id y →
      n'.userTransport.mSequences.lookup a = n.userTransport.mSequences.lookup a)
    (haccepted : ∀ a, a ≠ id y → acceptedFrom n' a = acceptedFrom n a)
    (houtbox : n'.wire.outbox = n.wire.outbox) (m : Message Id) :
    Emission K net id y n n' none (fun _ => false) m where
  follows := hfollows
  counter := hcounter
  broadcasts := by rw [hbroadcasts, Option.toList_none, List.append_nil]
  table := htable
  accepted := haccepted
  outbox c _ := by rw [houtbox, if_neg Bool.false_ne_true]
  own c hc := absurd hc Bool.false_ne_true
  all h := absurd h Bool.false_ne_true
  made c hc := absurd hc Bool.false_ne_true

omit [DecidableEq V] [DecidableEq Chan] in
theorem spend_emission (n : Node Id Pair Ecdh Chan) :
    Emission K net id y n (spend n) none (fun _ => false) ⟨0, 0, none, none, [], []⟩ := by
  have hfollows : Follows n (spend n) := ⟨rfl, rfl, rfl, rfl, rfl⟩
  exact emission_silent hfollows rfl rfl (fun _ _ => rfl) (fun _ _ => rfl) rfl _

theorem flooded_emission (h : Consistent K net id σ messages) (o : ByteOrder) {m : Message Id}
    (made : Issued K (σ y) m) (hto : m.destination = none) :
    Emission K net id y (σ y) { issue (σ y) m with
      wire := (σ y).routing.broadcast K o (σ y).wire m none } (some m)
      (fun c => decide (net.owner c = y)) m := by
  have hnone : m.destination.isNone = true := by rw [hto]; rfl
  have hcontent : (if m.destination.isNone then some m else none) = some m := if_pos hnone
  constructor
  · exact ⟨rfl, rfl, rfl, rfl, rfl⟩
  · rfl
  · exact (broadcasts_issue (σ y) m).trans (by rw [hcontent])
  · exact fun _ _ => rfl
  · exact fun _ _ => rfl
  · intro c hc
    have hregistered : c ∈ (σ y).routing.mChannels := (h.channels y c).mpr hc
    have hopen : (σ y).wire.isOpen c = true := hc ▸ h.isOpen c
    rw [if_pos (decide_eq_true hc)]
    simp only [Routing.broadcast, hregistered, hopen, ne_eq, reduceCtorEq, not_false_eq_true,
      and_self, if_true, toBinary_eq K _ m made.signed.body]
    rfl
  · exact fun c hc => of_decide_eq_true hc
  · exact fun _ c hc => decide_eq_true hc
  · intro c _
    refine ⟨made, fun d hd => ?_, hcontent.symm⟩
    rw [hto] at hd
    cases hd

theorem broadcast_emission (h : Consistent K net id σ messages) (H : Host Id)
    {n' : Node Id Pair Ecdh Chan} (hn : TransportSteps.Broadcast K H (σ y) n') :
    ∃ content targets m, Emission K net id y (σ y) n' content targets m := by
  cases hn with
  | spent => exact ⟨_, _, _, spend_emission (σ y)⟩
  | flooded m made hto => exact ⟨_, _, m, flooded_emission h H.byteOrder made hto⟩

omit [DecidableEq V] in
theorem sent_broadcasts {n n' : Node Id Pair Ecdh Chan} (hn : Sent K n n') :
    broadcasts n' = broadcasts n := by
  have hdirect : ∀ m d, m.destination = some d → broadcasts (issue n m) = broadcasts n := by
    intro m d hto
    rw [broadcasts_issue, hto]
    exact List.append_nil _
  cases hn with
  | refused => rfl
  | spent => rfl
  | dropped m d made hto => exact hdirect m d hto
  | returned m made hto payloads =>
    obtain ⟨table, htable⟩ := checkSequence_kept (issue n m).userTransport (n.id K) m.sequence
    rw [htable]
    exact hdirect m _ hto
  | forwarded m d channel made hto hroute hopen => exact hdirect m d hto

omit [DecidableEq V] in
theorem sent_emission (h : Consistent K net id σ messages)
    {n' : Node Id Pair Ecdh Chan} (hn : Sent K (σ y) n') :
    n' = σ y ∨ ∃ content targets m, Emission K net id y (σ y) n' content targets m := by
  have hdirect := sent_broadcasts hn
  cases hn with
  | refused => exact Or.inl rfl
  | spent => exact Or.inr ⟨_, _, _, spend_emission (σ y)⟩
  | dropped m d made hto =>
    have hfollows : Follows (σ y) (issue (σ y) m) := ⟨rfl, rfl, rfl, rfl, rfl⟩
    exact Or.inr ⟨none, fun _ => false, m,
      emission_silent hfollows rfl hdirect (fun _ _ => rfl) (fun _ _ => rfl) rfl m⟩
  | returned m made hto payloads =>
    obtain ⟨table, htable⟩ := checkSequence_kept (issue (σ y) m).userTransport ((σ y).id K)
      m.sequence
    have hother : ∀ a, a ≠ (σ y).id K →
        table.lookup a = (σ y).userTransport.mSequences.lookup a := by
      intro a ha
      have hlookup := checkSequence_other (issue (σ y) m).userTransport ha m.sequence
      rw [htable] at hlookup
      exact hlookup
    rw [htable] at hdirect ⊢
    refine Or.inr ⟨none, fun _ => false, m, ?_⟩
    apply emission_silent
    · exact ⟨rfl, rfl, rfl, rfl, rfl⟩
    · rfl
    · exact hdirect
    · intro a ha
      exact hother a (h.identity y ▸ ha)
    · intro a ha
      apply acceptedFrom_append rfl
      exact Or.inl (h.identity y ▸ ha)
    · rfl
  | forwarded m d channel made hto hroute hopen =>
    obtain ⟨howner, hremote⟩ := h.leads y d channel hroute
    refine Or.inr ⟨none, fun c => decide (c = channel), m, ?_⟩
    constructor
    · exact ⟨rfl, rfl, rfl, rfl, rfl⟩
    · rfl
    · exact hdirect.trans (List.append_nil _).symm
    · exact fun _ _ => rfl
    · exact fun _ _ => rfl
    · intro c _
      by_cases hc : c = channel
      · subst hc
        rw [if_pos (decide_eq_true rfl)]
        exact Function.update_self ..
      · rw [if_neg (by simpa using hc)]
        exact Function.update_of_ne hc ..
    · intro c hc
      rw [of_decide_eq_true hc]
      exact howner
    · exact fun hsome => absurd hsome Bool.false_ne_true
    · intro c hc
      rw [of_decide_eq_true hc]
      refine ⟨made, fun d' hd' => ?_, ?_⟩
      · rw [hto] at hd'
        exact (Option.some.inj hd').symm.trans hremote.symm
      · rw [hto]
        rfl

end Emissions

/-- Node `w` handles a message of node `y` that came over channel `c`. -/
structure Reception (K : CryptoPP Id Pair Ecdh) (net : Network V Id Chan) (id : V → Id)
    (w y : V) (c : Chan) (m : Message Id) (n n' : Node Id Pair Ecdh Chan) (fresh : Bool) :
    Prop where
  follows : Follows n n'
  counter : n'.userTransport.mSendSequence = n.userTransport.mSendSequence
  issued : n'.userTransport.issued = n.userTransport.issued
  check : (n.userTransport.checkSequence (id y) m.sequence).1 = fresh
  table : ∀ a, n'.userTransport.mSequences.lookup a =
    (n.userTransport.checkSequence (id y) m.sequence).2.mSequences.lookup a
  accepted : acceptedFrom n' (id y) = acceptedFrom n (id y) ++
    if fresh ∧ m.destination.isNone then [m] else []
  accepted_other : ∀ a, a ≠ id y → acceptedFrom n' a = acceptedFrom n a
  outbox : ∀ c', net.owner c' = w → n'.wire.outbox c' =
    if fresh ∧ m.destination.isNone ∧ others net.toCabling w (net.peer c) c' then
      n.wire.outbox c' ++ [frame K m] else n.wire.outbox c'

section Receptions
variable {K : CryptoPP Id Pair Ecdh} {net : Network V Id Chan} {id : V → Id} {x y : V}
  {σ : Nodes V Id Pair Ecdh Chan} {messages : Chan → List (Message Id)} {start : UInt32}

omit [DecidableEq V] in
theorem arrive_eq (hK : EcdsaLaws K) (h : Consistent K net id σ messages) {c : Chan}
    {m : Message Id} {pair : Pair} (hc : Carried K net id c m) (hm : SignedBy K pair m)
    (H : Host Id) : arrive K H (σ (net.remote c)) (net.peer c) (frame K m) =
      final (BroadcastableTransport.incoming K H m (K.publicKey pair) (some (net.peer c))
        (σ (net.remote c))) := by
  have hregistered : net.peer c ∈ (σ (net.remote c)).routing.mChannels :=
    (h.channels _ _).mpr rfl
  have hto : m.destination = none ∨ m.destination = some ((σ (net.remote c)).id K) := by
    cases hd : m.destination with
    | none => exact Or.inl rfl
    | some d =>
      right
      rw [h.identity, hc.destination d hd]
  rw [arrive, if_pos hregistered]
  exact onMessage_emitted H hK (h.typed _) hm hc.type hto (net.peer c)

theorem arrive_reception (hK : EcdsaLaws K) (h : Consistent K net id σ messages) {c : Chan}
    {m : Message Id} (hc : Carried K net id c m) (H : Host Id) :
    ∃ y fresh pair, K.publicKey pair = id y ∧ SignedBy K pair m ∧
      Reception K net id (net.remote c) y c m (σ (net.remote c))
        (arrive K H (σ (net.remote c)) (net.peer c) (frame K m)) fresh := by
  obtain ⟨y, pair, hpair, hm⟩ := hc.author
  refine ⟨y, ((σ (net.remote c)).userTransport.checkSequence (id y) m.sequence).1, pair, hpair,
    hm, ?_⟩
  rw [arrive_eq hK h hc hm H, hpair]
  obtain ⟨table, htable⟩ :=
    checkSequence_kept (σ (net.remote c)).userTransport (id y) m.sequence
  cases hto : m.destination with
  | none =>
    rw [incoming_broadcast H hto]
    cases hfresh : ((σ (net.remote c)).userTransport.checkSequence (id y) m.sequence).1 with
    | true =>
      rw [if_pos rfl, htable]
      constructor
      · exact ⟨rfl, rfl, rfl, rfl, rfl⟩
      · rfl
      · rfl
      · exact hfresh
      · intro a
        rw [htable]
      · simp [acceptedFrom, hto]
      · intro a ha
        simp [acceptedFrom, Ne.symm ha]
      · intro c' hc'
        have hregistered : c' ∈ (σ (net.remote c)).routing.mChannels := (h.channels _ c').mpr hc'
        have hopen : (σ (net.remote c)).wire.isOpen c' = true := hc' ▸ h.isOpen c'
        simp only [Routing.broadcast, hregistered, hopen, toBinary_eq K _ m hm.body, hto,
          others, hc', frame, ne_eq, Option.some.injEq, true_and, and_true, Option.isNone_none,
          decide_eq_true_eq]
    | false =>
      rw [if_neg Bool.false_ne_true, htable]
      constructor
      · exact ⟨rfl, rfl, rfl, rfl, rfl⟩
      · rfl
      · rfl
      · exact hfresh
      · intro a
        rw [htable]
      · simp [acceptedFrom]
      · exact fun _ _ => rfl
      · intro c' _
        simp
  | some d =>
    obtain ⟨payloads, hfinal⟩ :=
      @incoming_direct _ _ _ _ _ _ K H (σ (net.remote c)) m d hto (id y) (some (net.peer c))
    rw [hfinal, htable]
    have hdirect : m.destination.isNone = false := by
      rw [hto]
      rfl
    constructor
    · exact ⟨rfl, rfl, rfl, rfl, rfl⟩
    · rfl
    · rfl
    · rfl
    · intro a
      rw [htable]
    · rw [if_neg (by simp [hdirect]), List.append_nil]
      exact acceptedFrom_append rfl (Or.inr hdirect)
    · intro a ha
      exact acceptedFrom_append rfl (Or.inl ha)
    · intro c' _
      rw [if_neg (by simp [hdirect])]

def passed (net : Network V Id Chan) (c : Chan) (m : Message Id) (fresh : Bool) : Chan → Bool :=
  fun c' => fresh && m.destination.isNone && others net.toCabling (net.remote c) (net.peer c) c'

omit [LinearOrder Id] in
theorem passed_owner {c c' : Chan} {m : Message Id} {fresh : Bool}
    (h : passed net c m fresh c' = true) :
    fresh = true ∧ m.destination.isNone = true ∧ net.owner c' = net.remote c := by
  simp only [passed, others, Bool.and_eq_true, decide_eq_true_eq] at h
  exact ⟨h.1.1, h.1.2, h.2.1⟩

theorem reception_consistent (h : Consistent K net id σ messages) {c : Chan} {m : Message Id}
    (hc : Carried K net id c m) {n' : Node Id Pair Ecdh Chan} {fresh : Bool}
    (hr : Reception K net id (net.remote c) y c m (σ (net.remote c)) n' fresh) :
    Consistent K net id (Function.update σ (net.remote c) n')
      (push messages (passed net c m fresh) m) := by
  apply consistent_update h _ hr.follows
  · intro c' hc'
    have hout := h.outbox c'
    rw [inFlight, hc'] at hout
    rw [hr.outbox c' hc', hout]
    unfold push passed
    simp only [Bool.and_eq_true, and_assoc]
    split_ifs
    · rw [List.map_append]
      rfl
    · rfl
  · intro c' hc'
    unfold push
    rw [if_neg fun hpassed => hc' (passed_owner hpassed).2.2]
  · intro c' hc' m' hm'
    rcases mem_push.mp hm' with hold | ⟨hpassed, rfl⟩
    · exact h.carried c' m' hold
    · refine ⟨hc.type, hc.author, fun d hd => ?_⟩
      have hnone := (passed_owner hpassed).2.1
      rw [hd] at hnone
      cases hnone

section Received
variable {c : Chan} {m : Message Id} {n' : Node Id Pair Ecdh Chan} {fresh : Bool}
  {a : SequencedFlooding.State V Chan (Message Id)} (hs : Simulates id x start σ messages a)
include hs

theorem queue_passed {p : Packet (Message Id)} (hpacket : packet (id x) start m = some p)
    (c' : Chan) : (push messages (passed net c m fresh) m c').filterMap (packet (id x) start) =
      push a.queue (passed net c m fresh) p c' := by
  rw [filterMap_push fun _ _ => hpacket, funext hs.queue]

/-- The source does not filter its own messages when they come back. -/
theorem reception_returned
    (hr : Reception K net id (net.remote c) x c m (σ (net.remote c)) n' fresh)
    {p : Packet (Message Id)} (hpacket : packet (id x) start m = some p)
    (hw : net.remote c = x) :
    Simulates id x start (Function.update σ (net.remote c) n')
      (push messages (passed net c m fresh) m) (a.echo (passed net c m fresh) p) :=
  simulates_replace hs (fun _ => hr.issued) (fun _ => hr.counter) rfl
    (fun c' => (queue_passed hs hpacket c').symm)
    (fun _ _ => ⟨rfl, rfl⟩) (fun hne => absurd hw hne) fun hne => absurd hw hne

theorem reception_accepted
    (hr : Reception K net id (net.remote c) x c m (σ (net.remote c)) n' true)
    {p : Packet (Message Id)} (hpacket : packet (id x) start m = some p)
    (hcontent : p.content = if m.destination.isNone then some m else none)
    (hw : net.remote c ≠ x)
    (htable : n'.userTransport.mSequences.lookup (id x) = residue start (p.index + 1)) :
    Simulates id x start (Function.update σ (net.remote c) n')
      (push messages (passed net c m true) m) (a.accept net.toCabling c p) := by
  refine simulates_replace hs (fun _ => hr.issued) (fun _ => hr.counter) rfl ?_ ?_ ?_ ?_
  · intro c'
    rw [queue_passed hs hpacket, SequencedFlooding.State.accept, hcontent]
    cases hto : m.destination with
    | none => simp [push, passed, hto]
    | some d => simp [push, passed, hto]
  · intro v hv
    simp only [SequencedFlooding.State.accept, Function.update_of_ne hv, and_self]
  · intro _
    simp only [SequencedFlooding.State.accept, Function.update_self]
    exact htable
  · intro _
    rw [hr.accepted, ← hs.accepted _ hw]
    simp only [SequencedFlooding.State.accept, Function.update_self, hcontent]
    cases hto : m.destination with
    | none => simp
    | some d => simp

theorem reception_stale
    (hr : Reception K net id (net.remote c) x c m (σ (net.remote c)) n' false)
    {p : Packet (Message Id)} (hpacket : packet (id x) start m = some p)
    (hw : net.remote c ≠ x)
    (htable : n'.userTransport.mSequences.lookup (id x) =
      residue start (a.seen (net.remote c))) :
    Simulates id x start (Function.update σ (net.remote c) n')
      (push messages (passed net c m false) m) a := by
  refine simulates_replace hs (fun _ => hr.issued) (fun _ => hr.counter) rfl ?_
    (fun _ _ => ⟨rfl, rfl⟩) (fun _ => htable) ?_
  · intro c'
    rw [queue_passed hs hpacket]
    simp [push, passed]
  · intro _
    rw [hr.accepted, ← hs.accepted _ hw]
    simp

theorem reception_foreign
    (hr : Reception K net id (net.remote c) y c m (σ (net.remote c)) n' fresh)
    (hne : id x ≠ id y) (hpacket : packet (id x) start m = none) :
    Simulates id x start (Function.update σ (net.remote c) n')
      (push messages (passed net c m fresh) m) a := by
  refine simulates_replace hs (fun _ => hr.issued) (fun _ => hr.counter) rfl ?_
    (fun _ _ => ⟨rfl, rfl⟩) ?_ ?_
  · intro c'
    rw [filterMap_push_none fun _ _ => hpacket]
    exact hs.queue c'
  · intro hw
    rw [hr.table, checkSequence_other _ hne]
    exact hs.seen _ hw
  · intro hw
    rw [hr.accepted_other _ hne]
    exact hs.accepted _ hw

end Received

/-- The flooding of a source follows a reception; the packet at the head of the queue, if
the message is one of that source, is stale from then on. -/
theorem reception_tracked (hid : Function.Injective id)
    {c : Chan} {m : Message Id} {rest : List (Message Id)} (hhead : messages c = m :: rest)
    {pair : Pair} (hpair : K.publicKey pair = id y) (hm : SignedBy K pair m)
    {n' : Node Id Pair Ecdh Chan} {fresh : Bool}
    (hr : Reception K net id (net.remote c) y c m (σ (net.remote c)) n' fresh)
    {a : SequencedFlooding.State V Chan (Message Id)}
    (hreach : SequencedFlooding.Reachable net.toCabling x a)
    (hs : Simulates id x start σ messages a) (hlength : a.log.length ≤ sequenceWindow) :
    ∃ a', SequencedFlooding.Reachable net.toCabling x a' ∧
      Simulates id x start (Function.update σ (net.remote c) n')
        (push messages (passed net c m fresh) m) a' ∧ a'.log = a.log ∧
      ∀ p, packet (id x) start m = some p →
        net.remote c = x ∨ p.index < a'.seen (net.remote c) := by
  by_cases hxy : x = y
  · subst hxy
    -- a message of the source itself
    set p : Packet (Message Id) :=
      ⟨(m.sequence - start).toNat, if m.destination.isNone then some m else none⟩ with hp
    have hpacket : packet (id x) start m = some p := packet_own hm hpair start
    have hqueue : a.queue c = p :: rest.filterMap (packet (id x) start) := by
      rw [hs.queue, hhead, List.filterMap_cons_some hpacket]
    have hmem : p ∈ a.queue c := by
      rw [hqueue]
      exact List.mem_cons_self
    by_cases hw : net.remote c = x
    · exact ⟨a.echo (passed net c m fresh) p, .step hreach (.echo a c p _ hmem fun c' hc' =>
        (passed_owner hc').2.2.trans hw), reception_returned hs hr hpacket hw, rfl,
        fun _ _ => Or.inl hw⟩
    · have hinv := SequencedFlooding.reachable_invariant hreach
      have hindex : p.index ≤ sequenceWindow :=
        Nat.le_of_lt (Nat.lt_of_lt_of_le (List.getElem?_eq_some_iff.mp (hinv.book c p hmem)).1
          hlength)
      have hsequence : m.sequence = start + UInt32.ofNat p.index := by
        rw [hp, UInt32.ofNat_toNat, UInt32.add_comm, UInt32.sub_add_cancel]
      have hfilter := checkSequence_residue (hs.seen _ hw)
        (Nat.le_succ_of_le ((hinv.issued _ hw).trans hlength)) hindex
      rw [← hsequence, hr.check, ← hr.table] at hfilter
      obtain ⟨hfresh, htable⟩ := hfilter
      by_cases hle : a.seen (net.remote c) ≤ p.index
      · rw [decide_eq_true hle] at hfresh
        rw [if_pos hle] at htable
        subst hfresh
        refine ⟨a.accept net.toCabling c p, .step hreach (.accept a c p _ hqueue hw hle),
          reception_accepted hs hr hpacket rfl hw htable, rfl, ?_⟩
        intro p' hp'
        rw [hpacket, Option.some.injEq] at hp'
        subst hp'
        right
        simp only [SequencedFlooding.State.accept, Function.update_self]
        exact Nat.lt_succ_self _
      · rw [decide_eq_false hle] at hfresh
        rw [if_neg hle] at htable
        subst hfresh
        refine ⟨a, hreach, reception_stale hs hr hpacket hw htable, rfl, ?_⟩
        intro p' hp'
        rw [hpacket, Option.some.injEq] at hp'
        subst hp'
        exact Or.inr (Nat.lt_of_not_le hle)
  · -- a message of another source
    have hne : id x ≠ id y := fun heq => hxy (hid heq)
    have hpacket : packet (id x) start m = none :=
      packet_foreign hm (fun heq => hne (heq.symm.trans hpair)) start
    refine ⟨a, hreach, reception_foreign hs hr hne hpacket, rfl, ?_⟩
    intro p hp
    rw [hpacket] at hp
    cases hp

theorem pop_consistent (h : Consistent K net id σ messages) (c : Chan) :
    Consistent K net id (popAt net σ c)
      (Function.update messages c (messages c).tail) := by
  have hfollows : Follows (σ (net.owner c)) { σ (net.owner c) with
      wire := (σ (net.owner c)).wire.pop c } := ⟨rfl, rfl, rfl, rfl, rfl⟩
  apply consistent_update h (net.owner c) hfollows
  · intro c' hc'
    have hout := h.outbox c'
    rw [inFlight, hc'] at hout
    simp only [Wire.pop]
    by_cases heq : c' = c
    · subst heq
      rw [Function.update_self, Function.update_self, hout, List.map_tail]
    · rw [Function.update_of_ne heq, Function.update_of_ne heq, hout]
  · intro c' hc'
    rw [Function.update_of_ne fun heq => hc' (congrArg net.owner heq)]
  · intro c' _ m hm
    by_cases heq : c' = c
    · subst heq
      rw [Function.update_self] at hm
      exact h.carried c' m (List.mem_of_mem_tail hm)
    · rw [Function.update_of_ne heq] at hm
      exact h.carried c' m hm

/-- The delivery of the first message on a channel, as a reception and its removal. -/
inductive Delivered (K : CryptoPP Id Pair Ecdh) (net : Network V Id Chan) (id : V → Id)
    (σ : Nodes V Id Pair Ecdh Chan) (messages : Chan → List (Message Id)) (c : Chan) :
    Nodes V Id Pair Ecdh Chan → (Chan → List (Message Id)) → Prop where
  | nothing (empty : messages c = []) : Delivered K net id σ messages c σ messages
  | first (m rest y fresh pair n') (head : messages c = m :: rest)
      (author : K.publicKey pair = id y) (signed : SignedBy K pair m)
      (carried : Carried K net id c m)
      (received : Reception K net id (net.remote c) y c m (σ (net.remote c)) n' fresh) :
      Delivered K net id σ messages c (popAt net (Function.update σ (net.remote c) n') c)
        (Function.update (push messages (passed net c m fresh) m) c
          (push messages (passed net c m fresh) m c).tail)

theorem deliver_cases (hK : EcdsaLaws K) (h : Consistent K net id σ messages) (c : Chan) :
    ∃ messages', Delivered K net id σ messages c (NodeNetwork.deliver K net σ c) messages' ∧
      Consistent K net id (NodeNetwork.deliver K net σ c) messages' := by
  have hout := h.outbox c
  rw [NodeNetwork.deliver, hout]
  cases hhead : messages c with
  | nil => exact ⟨messages, .nothing hhead, h⟩
  | cons m rest =>
    have hcarried : Carried K net id c m := h.carried c m (by rw [hhead]; simp)
    obtain ⟨y, fresh, pair, hpair, hm, hr⟩ :=
      arrive_reception hK h hcarried (net.host (net.remote c))
    exact ⟨_, .first m rest y fresh pair _ hhead hpair hm hcarried hr,
      pop_consistent (reception_consistent h hcarried hr) c⟩

theorem pop_simulates {a : SequencedFlooding.State V Chan (Message Id)} {c : Chan}
    {m : Message Id} {rest : List (Message Id)} (hhead : messages c = m :: rest)
    (hreach : SequencedFlooding.Reachable net.toCabling x a)
    (hs : Simulates id x start σ messages a)
    (hstale : ∀ p, packet (id x) start m = some p →
      net.remote c = x ∨ p.index < a.seen (net.remote c)) :
    ∃ a', SequencedFlooding.Reachable net.toCabling x a' ∧
      Simulates id x start (popAt net σ c) (Function.update messages c (messages c).tail) a' ∧
      a'.log = a.log := by
  have htransport : ∀ v, (popAt net σ c v).userTransport = (σ v).userTransport := by
    intro v
    unfold popAt
    by_cases hv : v = net.owner c
    · subst hv
      rw [Function.update_self]
    · rw [Function.update_of_ne hv]
  have hother : ∀ a' : SequencedFlooding.State V Chan (Message Id), a'.log = a.log →
      a'.seen = a.seen → a'.accepted = a.accepted →
      (∀ c', a'.queue c' = (Function.update messages c (messages c).tail c').filterMap
        (packet (id x) start)) →
      Simulates id x start (popAt net σ c) (Function.update messages c (messages c).tail) a' := by
    intro a' hlog hseen haccepted hqueue
    constructor
    · exact hqueue
    · intro v hv
      rw [htransport, hseen]
      exact hs.seen v hv
    · intro v hv
      rw [haccepted, acceptedFrom, htransport]
      exact hs.accepted v hv
    · rw [hlog, broadcasts, htransport]
      exact hs.issued
    · rw [hlog, htransport]
      exact hs.counter
  cases hpacket : packet (id x) start m with
  | none =>
    refine ⟨a, hreach, hother a rfl rfl rfl fun c' => ?_, rfl⟩
    by_cases hc : c' = c
    · subst hc
      rw [Function.update_self, hs.queue, hhead, List.filterMap_cons_none hpacket, List.tail_cons]
    · rw [Function.update_of_ne hc]
      exact hs.queue c'
  | some p =>
    have hqueue : a.queue c = p :: rest.filterMap (packet (id x) start) := by
      rw [hs.queue, hhead, List.filterMap_cons_some hpacket]
    refine ⟨a.take c, .step hreach (.take a c p _ hqueue (hstale p hpacket)),
      hother (a.take c) rfl rfl rfl fun c' => ?_, rfl⟩
    by_cases hc : c' = c
    · subst hc
      simp only [SequencedFlooding.State.take, Function.update_self, hqueue, hhead,
        List.tail_cons]
    · simp only [SequencedFlooding.State.take, Function.update_of_ne hc]
      exact hs.queue c'

end Receptions

def Refines (K : CryptoPP Id Pair Ecdh) (net : Network V Id Chan) (id : V → Id)
    (start : V → UInt32) (σ : Nodes V Id Pair Ecdh Chan) (sends : V → ℕ) : Prop :=
  ∃ messages, Consistent K net id σ messages ∧
    ∀ x, Tracked net id x (start x) σ messages (sends x)

def run (K : CryptoPP Id Pair Ecdh) (net : Network V Id Chan) (σ : Nodes V Id Pair Ecdh Chan)
    (actions : List (Action V Id Chan)) : Nodes V Id Pair Ecdh Chan :=
  actions.foldl (Action.apply K net) σ

def sendsOf (x : V) (actions : List (Action V Id Chan)) : ℕ := actions.countP (Action.sends x)

def sendLimit : ℕ := 2 ^ 31 - 1

section Runs
variable {K : CryptoPP Id Pair Ecdh} {net : Network V Id Chan} {id : V → Id}
  {σ : Nodes V Id Pair Ecdh Chan} {start : V → UInt32} {sends : V → ℕ}

theorem refines_mono (h : Refines K net id start σ sends)
    {sends' : V → ℕ} (hle : ∀ x, sends x ≤ sends' x) : Refines K net id start σ sends' := by
  obtain ⟨messages, hc, htracked⟩ := h
  refine ⟨messages, hc, fun x => ?_⟩
  obtain ⟨a, hreach, hs, hlength⟩ := htracked x
  exact ⟨a, hreach, hs, hlength.trans (hle x)⟩

theorem emission_refines (h : Refines K net id start σ sends) (hid : Function.Injective id)
    (hlimit : ∀ x, sends x < sendLimit) {y : V} {n' : Node Id Pair Ecdh Chan}
    {content : Option (Message Id)} {targets : Chan → Bool} {m : Message Id}
    (he : Emission K net id y (σ y) n' content targets m) :
    Refines K net id start (Function.update σ y n')
      fun x => sends x + if y = x then 1 else 0 := by
  obtain ⟨messages, hc, htracked⟩ := h
  refine ⟨_, emission_consistent hc he, fun x => ?_⟩
  have hx := hlimit x
  unfold sendLimit at hx
  have ht := emission_tracked hc hid he (htracked x) (by omega)
  dsimp only
  split_ifs with hxy
  · rwa [if_pos hxy] at ht
  · rwa [if_neg hxy] at ht

theorem deliver_refines (hK : EcdsaLaws K) (h : Refines K net id start σ sends)
    (hid : Function.Injective id) (hlimit : ∀ x, sends x < sendLimit) (c : Chan) :
    Refines K net id start (NodeNetwork.deliver K net σ c) sends := by
  obtain ⟨messages, hc, htracked⟩ := h
  obtain ⟨messages', hdelivered, hconsistent⟩ := deliver_cases hK hc c
  refine ⟨messages', hconsistent, fun x => ?_⟩
  obtain ⟨a, hreach, hs, hlength⟩ := htracked x
  generalize NodeNetwork.deliver K net σ c = σ' at hdelivered
  cases hdelivered with
  | nothing => exact ⟨a, hreach, hs, hlength⟩
  | first m rest y fresh pair n' hhead hpair hm hcarried hr =>
    have hhead' : push messages (passed net c m fresh) m c =
        m :: (rest ++ if passed net c m fresh c then [m] else []) := by
      unfold push
      rw [hhead]
      split_ifs <;> simp
    have hx := hlimit x
    have hwindow : a.log.length ≤ sequenceWindow := by
      unfold sendLimit at hx
      unfold sequenceWindow
      omega
    obtain ⟨a₁, hreach₁, hs₁, hlog₁, hstale⟩ :=
      reception_tracked hid hhead hpair hm hr hreach hs hwindow
    obtain ⟨a₂, hreach₂, hs₂, hlog₂⟩ := pop_simulates hhead' hreach₁ hs₁ hstale
    exact ⟨a₂, hreach₂, hs₂, by rw [hlog₂, hlog₁]; exact hlength⟩

theorem action_consistent (hK : EcdsaLaws K) {messages : Chan → List (Message Id)}
    (h : Consistent K net id σ messages) (action : Action V Id Chan) :
    ∃ messages', Consistent K net id (action.apply K net σ) messages' := by
  cases action with
  | broadcast v payload =>
    obtain ⟨content, targets, m, he⟩ :=
      broadcast_emission h (net.host v) (broadcast_cases (net.host v) (σ v) payload)
    exact ⟨_, emission_consistent h he⟩
  | send v remoteId payload random =>
    rcases sent_emission h (send_cases (net.host v) (h.typed v) remoteId payload random) with
      hrefused | ⟨content, targets, m, he⟩
    · rw [Action.apply, hrefused, Function.update_eq_self]
      exact ⟨messages, h⟩
    · exact ⟨_, emission_consistent h he⟩
  | deliver c =>
    obtain ⟨messages', _, hconsistent⟩ := deliver_cases hK h c
    exact ⟨messages', hconsistent⟩

theorem action_refines (hK : EcdsaLaws K) (h : Refines K net id start σ sends)
    (hid : Function.Injective id) (hlimit : ∀ x, sends x < sendLimit)
    (action : Action V Id Chan) :
    Refines K net id start (action.apply K net σ)
      fun x => sends x + if action.sends x then 1 else 0 := by
  cases action with
  | broadcast v payload =>
    have hc := h
    obtain ⟨messages, hc, _⟩ := hc
    obtain ⟨content, targets, m, he⟩ :=
      broadcast_emission hc (net.host v) (broadcast_cases (net.host v) (σ v) payload)
    simpa [Action.sends, Action.apply] using emission_refines h hid hlimit he
  | send v remoteId payload random =>
    have hc := h
    obtain ⟨messages, hc, _⟩ := hc
    rcases sent_emission hc (send_cases (net.host v) (hc.typed v) remoteId payload random) with
      hrefused | ⟨content, targets, m, he⟩
    · rw [Action.apply, hrefused, Function.update_eq_self]
      exact refines_mono h fun x => Nat.le_add_right ..
    · simpa [Action.sends, Action.apply] using emission_refines h hid hlimit he
  | deliver c => exact deliver_refines hK h hid hlimit c

omit [DecidableEq V] [DecidableEq Chan] in
theorem started_consistent (h : Started K net σ) :
    Consistent K net (fun v => (σ v).id K) σ fun _ => [] := by
  refine ⟨fun _ => rfl, fun v => ⟨h.signaling v, ?_⟩, h.channels, h.isOpen, h.leads,
    fun c => h.quiet c, fun c m hm => ?_⟩
  · obtain ⟨start, huser⟩ := h.user v
    rw [huser]
    rfl
  · cases hm

theorem started_refines (h : Started K net σ) : Refines K net (fun v => (σ v).id K)
    (fun v => (σ v).userTransport.mSendSequence) σ fun _ => 0 := by
  refine ⟨fun _ => [], started_consistent h, fun x =>
    ⟨SequencedFlooding.initial, .initial, ?_, Nat.le_refl 0⟩⟩
  constructor
  · exact fun _ => rfl
  · intro v _
    obtain ⟨start, huser⟩ := h.user v
    rw [huser]
    rfl
  · intro v _
    obtain ⟨start, huser⟩ := h.user v
    rw [acceptedFrom, huser]
    rfl
  · obtain ⟨start, huser⟩ := h.user x
    rw [broadcasts, huser]
    rfl
  · exact (UInt32.add_zero _).symm

theorem run_refines (hK : EcdsaLaws K) (h : Started K net σ) (actions : List (Action V Id Chan))
    (hlimit : ∀ x, sendsOf x actions < sendLimit) :
    Refines K net (fun v => (σ v).id K) (fun v => (σ v).userTransport.mSendSequence)
      (run K net σ actions) fun x => sendsOf x actions := by
  induction actions using List.reverseRecOn with
  | nil => exact started_refines h
  | append_singleton actions action ih =>
    have hcount : ∀ x, sendsOf x (actions ++ [action]) =
        sendsOf x actions + if action.sends x then 1 else 0 := by
      intro x
      rw [sendsOf, List.countP_append, List.countP_singleton]
      rfl
    have hprevious : ∀ x, sendsOf x actions < sendLimit := by
      intro x
      have hx := hlimit x
      rw [hcount] at hx
      exact Nat.lt_of_le_of_lt (Nat.le_add_right ..) hx
    rw [run, List.foldl_append, funext hcount]
    exact action_refines hK (ih hprevious) h.identities hprevious action

/-- In every run of a static network: what any other node has accepted of a source's
broadcasts is an initial segment of them, and once nothing is in flight it is all of them
wherever channels lead. -/
theorem broadcast_delivery (hK : EcdsaLaws K) (h : Started K net σ)
    (actions : List (Action V Id Chan)) (hlimit : ∀ x, sendsOf x actions < sendLimit) :
    (∀ v x, v ≠ x → acceptedFrom (run K net σ actions v) ((σ x).id K) <+:
        broadcasts (run K net σ actions x)) ∧
      (Quiescent net (run K net σ actions) → ∀ v x, v ≠ x →
        Relation.ReflTransGen (Linked net.toCabling) x v →
        acceptedFrom (run K net σ actions v) ((σ x).id K) =
          broadcasts (run K net σ actions x)) := by
  obtain ⟨messages, hc, htracked⟩ := run_refines hK h actions hlimit
  constructor
  · intro v x hv
    obtain ⟨a, hreach, hs, _⟩ := htracked x
    rw [← hs.accepted v hv, ← hs.issued]
    exact SequencedFlooding.accepted_prefix (SequencedFlooding.reachable_invariant hreach) hv
  · intro hquiet v x hv hconnected
    obtain ⟨a, hreach, hs, _⟩ := htracked x
    have hempty : ∀ c, a.queue c = [] := by
      intro c
      have hout := hc.outbox c
      rw [hquiet c] at hout
      rw [hs.queue, List.map_eq_nil_iff.mp hout.symm, List.filterMap_nil]
    rw [← hs.accepted v hv, ← hs.issued]
    exact SequencedFlooding.accepted_all (SequencedFlooding.reachable_invariant hreach) hempty hv
      hconnected

/-- What an action has node `x` broadcast. A payload that is too long only uses up a number. -/
def Action.payload (x : V) : Action V Id Chan → Option Binary
  | .broadcast v payload => if v = x ∧ payload.length ≤ uint16Max then some payload else none
  | .send _ _ _ _ => none
  | .deliver _ => none

def payloads (x : V) (actions : List (Action V Id Chan)) : List Binary :=
  actions.filterMap (Action.payload x)

omit [DecidableEq V] [LinearOrder Id] in
theorem broadcasts_broadcast (H : Host Id) (n : Node Id Pair Ecdh Chan) (payload : Binary) :
    (broadcasts (final (Transport.broadcast K H .user payload n))).map Message.body =
      (broadcasts n).map Message.body ++ if payload.length ≤ uint16Max then [payload] else [] := by
  split_ifs with hfits
  · obtain ⟨m, _, hto, hbody, hrun⟩ := broadcast_flooded (K := K) H n hfits
    have hissued : broadcasts (issue n m) = broadcasts n ++ [m] := by
      rw [broadcasts_issue, hto]
      rfl
    rw [hrun]
    change (broadcasts (issue n m)).map Message.body = _
    rw [hissued, List.map_append, List.map_singleton, hbody]
  · have hrun := makeMessage_too_long (K := K) H n .user none (Nat.lt_of_not_le hfits)
    rw [Transport.broadcast, bind_error hrun, List.append_nil]
    rfl

theorem deliver_broadcasts (hK : EcdsaLaws K) {messages : Chan → List (Message Id)}
    (h : Consistent K net id σ messages) (c : Chan) (x : V) :
    broadcasts (NodeNetwork.deliver K net σ c x) = broadcasts (σ x) := by
  obtain ⟨messages', hdelivered, _⟩ := deliver_cases hK h c
  generalize NodeNetwork.deliver K net σ c = σ' at hdelivered
  cases hdelivered with
  | nothing => rfl
  | first m rest y fresh pair n' hhead hpair hm hcarried hr =>
    have hreceived : broadcasts n' = broadcasts (σ (net.remote c)) := by
      rw [broadcasts, hr.issued]
      rfl
    rw [read_popAt net _ c broadcasts (fun _ => rfl)]
    exact read_update broadcasts hreceived x

theorem action_broadcasts (hK : EcdsaLaws K) {messages : Chan → List (Message Id)}
    (h : Consistent K net id σ messages) (action : Action V Id Chan) (x : V) :
    (broadcasts (action.apply K net σ x)).map Message.body =
      (broadcasts (σ x)).map Message.body ++ (action.payload x).toList := by
  cases action with
  | broadcast v payload =>
    rw [Action.apply, Action.payload]
    by_cases hx : v = x
    · subst hx
      rw [Function.update_self, broadcasts_broadcast]
      split_ifs <;> simp_all
    · rw [Function.update_of_ne (Ne.symm hx), if_neg fun h => hx h.1]
      exact (List.append_nil _).symm
  | send v remoteId payload random =>
    have hsent := sent_broadcasts
      (send_cases (K := K) (net.host v) (h.typed v) remoteId payload random)
    rw [Action.apply, read_update broadcasts hsent]
    exact (List.append_nil _).symm
  | deliver c =>
    rw [Action.apply, deliver_broadcasts hK h c x]
    exact (List.append_nil _).symm

/-- The broadcasts of a source carry the payloads that its calls have asked for, in order. -/
theorem run_broadcasts (hK : EcdsaLaws K) (h : Started K net σ)
    (actions : List (Action V Id Chan)) :
    (∃ messages, Consistent K net (fun v => (σ v).id K) (run K net σ actions) messages) ∧
      ∀ x, (broadcasts (run K net σ actions x)).map Message.body = payloads x actions := by
  induction actions using List.reverseRecOn with
  | nil =>
    refine ⟨⟨_, started_consistent h⟩, fun x => ?_⟩
    obtain ⟨start, huser⟩ := h.user x
    rw [run, List.foldl_nil, broadcasts, huser]
    rfl
  | append_singleton actions action ih =>
    obtain ⟨⟨messages, hc⟩, hpayloads⟩ := ih
    have hlast : run K net σ (actions ++ [action]) = action.apply K net (run K net σ actions) := by
      rw [run, List.foldl_append]
      rfl
    rw [hlast]
    refine ⟨action_consistent hK hc action, fun x => ?_⟩
    rw [action_broadcasts hK hc, hpayloads, payloads, payloads, List.filterMap_append]
    cases haction : action.payload x <;> simp [haction]

end Runs

-- Three nodes, each joined to the other two. Sides `2 * v` and `2 * v + 1` belong to node `v`,
-- the first leading to the next node and the second to the previous one.
namespace Sample

abbrev crypto := LegioCrypto.Sample.crypto

def triangle : Network (Fin 3) (Fin 4) (Fin 6) where
  owner := ![0, 0, 1, 1, 2, 2]
  peer := ![3, 4, 5, 0, 1, 2]
  peer_peer := by decide
  host _ := LegioNode.Sample.host

/-- Before any message. The send counters are about to wrap around. -/
def nodes (v : Fin 3) : Node (Fin 4) (Fin 4) (Fin 4) (Fin 6) where
  ecdsaPair := v.castSucc
  wire := ⟨fun _ => true, fun _ => []⟩
  routing := { Routing.initial with mChannels := {![0, 2, 4] v, ![1, 3, 5] v} }
  graph := emptyGraph v.castSucc v.castSucc
  signaling := .initial MessageType.Signaling 0
  userTransport := .initial MessageType.User 4294967295

theorem started_nodes : Started crypto triangle nodes where
  identities := Fin.castSucc_injective 3
  channels := by decide
  isOpen _ := rfl
  leads v _ _ h := by cases h
  quiet _ := rfl
  signaling _ := rfl
  user v := ⟨4294967295, rfl⟩

/-- Node 0 broadcasts twice. Node 1 gets the first message from node 2 and node 2 the
second from node 1; both come back to node 0, which sends them round once more. -/
def actions : List (Action (Fin 3) (Fin 4) (Fin 6)) :=
  [.broadcast 0 [7], .broadcast 0 [8], .deliver 1, .deliver 5, .deliver 0, .deliver 0, .deliver 2,
    .deliver 1, .deliver 3, .deliver 4, .deliver 1, .deliver 0]

theorem both_broadcasts_arrive :
    (acceptedFrom (run crypto triangle nodes actions 2) 0).map Message.body = [[7], [8]] ∧
      acceptedFrom (run crypto triangle nodes actions 2) 0 =
        broadcasts (run crypto triangle nodes actions 0) := by
  have hquiet : Quiescent triangle (run crypto triangle nodes actions) := by
    unfold Quiescent
    decide +kernel
  have hlinked : Linked triangle.toCabling 0 2 := ⟨1, rfl, rfl⟩
  refine ⟨by decide +kernel, ?_⟩
  exact (broadcast_delivery LegioCrypto.Sample.ecdsaLaws started_nodes actions
    (by unfold sendLimit; decide +kernel)).2 hquiet 2 0 (by decide) (.single hlinked)

end Sample

end BroadcastDelivery
