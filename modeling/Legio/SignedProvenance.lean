import Legio.GraphInvariants
import Legio.GraphRuns
import Legio.NodeRuns
import Legio.PublishedTable
import Legio.TransportSteps

set_option linter.style.header false

/-! Where the things that a node has learned come from. Whatever bytes its channels bring,
everything it keeps, hands to a callback or passes on was signed by the node it is about. -/
namespace SignedProvenance

open LegioBinary LegioCrypto LegioMessage LegioNode Containers RoutingTableSearch
open ExceptionStates LinkStateStore GraphUpdates GraphRuns GraphInvariants NodeRuns
open TransportSteps (checkSequence_other directMessage_cases makeMessage_spec makeMessage_too_long)

variable {Id Pair Ecdh Chan : Type}

/-- Bytes that carry a message of `id`: the signature verifies under it. -/
structure Authentic (K : CryptoPP Id Pair Ecdh) (o : ByteOrder) (data : Binary) (m : Message Id)
    (id : Id) : Prop where
  parsed : Message.parse K o data = .ok m
  source : m.source = some id
  verified : K.verify id (data.take (data.length - m.signature.length)) m.signature = true

theorem parse_authentic {K : CryptoPP Id Pair Ecdh} {o : ByteOrder} {data : Binary}
    {m : Message Id} {id : Id} (h : Message.parse K o data = .ok m) (hsource : m.source = some id) :
    Authentic K o data m id := by
  refine ⟨h, hsource, ?_⟩
  obtain ⟨_, _, h⟩ := bind_eq_ok h
  obtain ⟨⟨source, _⟩, _, h⟩ := bind_eq_ok h
  obtain ⟨_, _, h⟩ := bind_eq_ok h
  obtain ⟨⟨_, reader⟩, _, h⟩ := bind_eq_ok h
  cases source with
  | none =>
    cases h
    cases hsource
  | some author =>
    dsimp only at h
    split_ifs at h with hverify
    cases h
    cases hsource
    exact hverify

section Sources
variable [LinearOrder Id] (K : CryptoPP Id Pair Ecdh) (H : Host Id) (pair : Pair) (ecdh : Ecdh)
  (received : List Binary)

/-- The message came from the network, signed by `id`. -/
def Learned (m : Message Id) (id : Id) : Prop :=
  ∃ data ∈ received, Authentic K H.byteOrder data m id

/-- A message of `id`: learned, or built by the node itself and addressed to itself. -/
def Heard (m : Message Id) (id : Id) : Prop :=
  Learned K H received m id ∨
    SignedBy K pair m ∧ m.destination = some (K.publicKey pair) ∧ id = K.publicKey pair

/-- A State of the node itself, or one that a learned message carries. -/
def Storable (s : State Id) : Prop :=
  s.id = K.publicKey pair ∨
    ∃ m, Learned K H received m s.id ∧ State.fromMessage K m = .ok s

/-- A message of the node itself. Its Hellos are for whoever is at the other end. -/
def Own (m : Message Id) : Prop :=
  SignedBy K pair m ∧ (m.type = MessageType.Hello → m.destination = none)

/-- A message that may be put on a channel: of the node itself, or a learned one that is
passed on. No Hello is passed on but to the node that it names. -/
def Sendable (m : Message Id) : Prop :=
  (∃ id, Learned K H received m id) ∧ (m.type = MessageType.Hello → m.destination.isSome = true) ∨
    Own K pair m

/-- What a receive callback is given is the message's body, or what it decrypts to. -/
def Opened (d : Delivery Id) : Prop :=
  d.payload = d.message.body ∨ ∃ cipherBody, CipherBody.parse d.message.body = .ok cipherBody ∧
    cipherBody.decrypt K ecdh = .ok d.payload

structure SoundTransport (port : Port) (t : Transport Id) : Prop where
  typed : t.mType = port.type
  sequences : ∀ id sequence, t.mSequences.lookup id = some sequence →
    ∃ m, Heard K H pair received m id ∧ m.type = t.mType ∧ m.sequence = sequence
  delivered : ∀ d ∈ t.delivered, Heard K H pair received d.message d.remoteId ∧
    d.message.type = t.mType ∧ Opened K ecdh d

structure Sound (n : Node Id Pair Ecdh Chan) : Prop where
  rooted : Rooted K n
  ecdsaPair : n.ecdsaPair = pair
  mEcdh : n.graph.mEcdh = ecdh
  states : ∀ id s, n.graph.stateOf id = some s → s.id = id ∧ Storable K H pair received s
  transports : ∀ port, SoundTransport K H pair ecdh received port (n.transport port)
  outbox : ∀ channel, ∀ data ∈ n.wire.outbox channel,
    ∃ m, m.toBinary K H.byteOrder = .ok data ∧ Sendable K H pair received m

end Sources

section Steps
variable [LinearOrder Id] [DecidableEq Chan] {K : CryptoPP Id Pair Ecdh} {H : Host Id}
  {pair : Pair} {ecdh : Ecdh} {received : List Binary} {n n' : Node Id Pair Ecdh Chan}
  {m : Message Id} {s : State Id} {id : Id}

omit [LinearOrder Id] in
theorem learned_mono (data : Binary) (h : Learned K H received m id) :
    Learned K H (received ++ [data]) m id := by
  obtain ⟨bytes, hbytes, hauthentic⟩ := h
  exact ⟨bytes, List.mem_append_left _ hbytes, hauthentic⟩

omit [LinearOrder Id] in
theorem heard_mono (data : Binary) (h : Heard K H pair received m id) :
    Heard K H pair (received ++ [data]) m id := by
  rcases h with hlearned | hself
  · exact Or.inl (learned_mono data hlearned)
  · exact Or.inr hself

omit [DecidableEq Chan] in
theorem sound_mono (data : Binary) (h : Sound K H pair ecdh received n) :
    Sound K H pair ecdh (received ++ [data]) n := by
  constructor
  · exact h.rooted
  · exact h.ecdsaPair
  · exact h.mEcdh
  · intro id s hs
    obtain ⟨hid, hown | ⟨m, hlearned, hstate⟩⟩ := h.states id s hs
    · exact ⟨hid, Or.inl hown⟩
    · exact ⟨hid, Or.inr ⟨m, learned_mono data hlearned, hstate⟩⟩
  · intro port
    constructor
    · exact (h.transports port).typed
    · intro id sequence hs
      obtain ⟨m, hheard, hm⟩ := (h.transports port).sequences id sequence hs
      exact ⟨m, heard_mono data hheard, hm⟩
    · intro d hd
      obtain ⟨hheard, hm⟩ := (h.transports port).delivered d hd
      exact ⟨heard_mono data hheard, hm⟩
  · intro channel bytes hbytes
    obtain ⟨m, hm, ⟨⟨id, hlearned⟩, hhello⟩ | hown⟩ := h.outbox channel bytes hbytes
    · exact ⟨m, hm, Or.inl ⟨⟨id, learned_mono data hlearned⟩, hhello⟩⟩
    · exact ⟨m, hm, Or.inr hown⟩

omit [DecidableEq Chan] in
theorem sound_change {v : View Id} (h : Sound K H pair ecdh received n)
    (hchange : StoreChange K n n' v)
    (hstates : ∀ id s, v.states id = some s →
      n.graph.stateOf id = some s ∨ s.id = id ∧ Storable K H pair received s) :
    Sound K H pair ecdh received n' := by
  have hkept := hchange.kept
  simp only [surroundings, Surroundings.mk.injEq] at hkept
  obtain ⟨hpair, hwire, _, _, hecdh, _, _, _, hsignaling, huser⟩ := hkept
  constructor
  · exact hchange.rooted
  · exact hpair.trans h.ecdsaPair
  · exact hecdh.trans h.mEcdh
  · intro id s hs
    rw [← view_states, hchange.view_eq] at hs
    rcases hstates id s hs with hold | hnew
    · exact h.states id s hold
    · exact hnew
  · intro port
    cases port with
    | signaling =>
      have ht : n'.transport .signaling = n.transport .signaling := hsignaling
      exact ht ▸ h.transports .signaling
    | user =>
      have ht : n'.transport .user = n.transport .user := huser
      exact ht ▸ h.transports .user
  · rw [hwire]
    exact h.outbox

omit [DecidableEq Chan] in
theorem sound_put (h : Sound K H pair ecdh received n) (hs : Storable K H pair received s)
    (hchange : StoreChange K n n' ((view n.graph).put s)) : Sound K H pair ecdh received n' := by
  apply sound_change h hchange
  intro id t ht
  rw [put_states] at ht
  rcases stored_of_update ht with hold | ⟨rfl, rfl⟩
  · exact Or.inl hold
  · exact Or.inr ⟨rfl, hs⟩

omit [DecidableEq Chan] in
theorem sound_updateEdges (id : Id) (neighbors : Finset Id) :
    Keeps (Sound K H pair ecdh received) (Graph.updateEdges K H id neighbors :
      NodeM Id Pair Ecdh Chan Bool) := by
  intro n hn
  by_cases hid : id ∈ n.graph.mVertices
  · obtain ⟨n', hrun, hchange⟩ := updateEdges_spec H hn.rooted hid neighbors
    rw [hrun]
    exact sound_change hn hchange fun _ _ hs => Or.inl hs
  · rw [updateEdges_unknown H hid]
    exact hn

omit [DecidableEq Chan] in
theorem sound_wire (h : Sound K H pair ecdh received n) {wire : Wire Chan}
    (hwire : ∀ channel, ∀ data ∈ wire.outbox channel, data ∈ n.wire.outbox channel ∨
      ∃ m, m.toBinary K H.byteOrder = .ok data ∧ Sendable K H pair received m) :
    Sound K H pair ecdh received { n with wire } := by
  refine ⟨⟨h.rooted.linked, h.rooted.root⟩, h.ecdsaPair, h.mEcdh, h.states, h.transports, ?_⟩
  intro channel data hdata
  rcases hwire channel data hdata with hold | hnew
  · exact h.outbox channel data hold
  · exact hnew

theorem sound_broadcast (h : Sound K H pair ecdh received n) (hm : Sendable K H pair received m)
    (from_ : Option Chan) :
    Sound K H pair ecdh received
      { n with wire := n.routing.broadcast K H.byteOrder n.wire m from_ } := by
  apply sound_wire h
  intro channel data hdata
  simp only [Routing.broadcast] at hdata
  split_ifs at hdata with hopen
  · cases hbinary : m.toBinary K H.byteOrder with
    | error e =>
      rw [hbinary] at hdata
      exact Or.inl hdata
    | ok bytes =>
      rw [hbinary] at hdata
      rcases List.mem_append.mp hdata with hold | hnew
      · exact Or.inl hold
      · rw [List.mem_singleton] at hnew
        subst hnew
        exact Or.inr ⟨m, hbinary, hm⟩
  · exact Or.inl hdata

omit [LinearOrder Id] in
theorem created_signed {o : ByteOrder} {type : UInt8} {sequence : UInt32} {body : Binary}
    {destination : Option Id} (h : Message.create K o type sequence body (some pair) destination =
      .ok m) : SignedBy K pair m ∧ m.type = type ∧ m.destination = destination := by
  rcases Nat.lt_or_ge uint16Max body.length with hlong | hfits
  · have herror := sign_too_long K o (⟨type, sequence, none, destination, body, []⟩ : Message Id)
      pair hlong
    rw [Message.create, herror] at h
    cases h
  · obtain ⟨m', hm', hsigned, htype, _, hto, _⟩ :=
      create_signed K o type sequence body pair destination hfits
    rw [h] at hm'
    cases hm'
    exact ⟨hsigned, htype, hto⟩

theorem sound_withstands : Withstands K H
    (Sound K H pair ecdh received : Node Id Pair Ecdh Chan → Prop)
    (Storable K H pair received) (Own K pair) := by
  constructor
  · intro n hn
    left
    change K.publicKey n.ecdsaPair = K.publicKey pair
    rw [hn.ecdsaPair]
  · intro n m hn hm
    rw [hn.ecdsaPair] at hm
    obtain ⟨hsigned, _, hto⟩ := created_signed hm
    exact ⟨hsigned, fun _ => hto⟩
  · exact sound_updateEdges
  · exact fun n hn => ⟨rooted_congr hn.rooted rfl rfl rfl fun _ => rfl, hn.ecdsaPair,
      hn.mEcdh, hn.states, hn.transports, hn.outbox⟩
  · intro n s m hn hm
    have hsent := sound_broadcast hn (Or.inr hm) none
    exact ⟨rooted_congr hn.rooted rfl rfl rfl fun _ => rfl, hn.ecdsaPair, hn.mEcdh, hn.states,
      hn.transports, hsent.outbox⟩
  · intro n s p hn hs hp
    exact sound_put hn hs (storeState_spec hn.rooted hp).1
  · intro n s hn hs hp
    exact sound_put hn hs (storeNew_spec hn.rooted.linked (Or.inr hn.rooted.root) hp).1

omit [DecidableEq Chan] in
theorem sound_setTransport (h : Sound K H pair ecdh received n) (port : Port) {t : Transport Id}
    (ht : SoundTransport K H pair ecdh received port t) :
    Sound K H pair ecdh received (n.setTransport port t) := by
  cases port with
  | signaling =>
    refine ⟨⟨h.rooted.linked, h.rooted.root⟩, h.ecdsaPair, h.mEcdh, h.states, ?_, h.outbox⟩
    intro port
    cases port with
    | signaling => exact ht
    | user => exact h.transports .user
  | user =>
    refine ⟨⟨h.rooted.linked, h.rooted.root⟩, h.ecdsaPair, h.mEcdh, h.states, ?_, h.outbox⟩
    intro port
    cases port with
    | signaling => exact h.transports .signaling
    | user => exact ht

theorem checkSequence_entry (t : Transport Id) (id : Id) (sequence : UInt32) {id' : Id}
    {sequence' : UInt32}
    (h : (t.checkSequence id sequence).2.mSequences.lookup id' = some sequence') :
    t.mSequences.lookup id' = some sequence' ∨ id' = id ∧ sequence' = sequence := by
  by_cases hid : id' = id
  · subst hid
    rw [Transport.checkSequence] at h
    cases hlast : t.mSequences.lookup id' with
    | none =>
      have hnew : id' ∉ t.mSequences := by
        rw [← AList.lookup_eq_none]
        exact hlast
      rw [hlast] at h
      dsimp only at h
      rw [lookup_emplace_of_notMem _ hnew, Option.some.injEq] at h
      exact Or.inr ⟨rfl, h.symm⟩
    | some last =>
      rw [hlast] at h
      dsimp only at h
      split_ifs at h with hnewer
      · rw [AList.lookup_insert, Option.some.injEq] at h
        exact Or.inr ⟨rfl, h.symm⟩
      · exact Or.inl (hlast.symm.trans h)
  · rw [checkSequence_other t hid] at h
    exact Or.inl h

omit [DecidableEq Chan] in
theorem sound_checkSequence (h : Sound K H pair ecdh received n) (port : Port)
    (hm : Heard K H pair received m id) (htype : m.type = (n.transport port).mType) :
    Sound K H pair ecdh received
      (n.setTransport port ((n.transport port).checkSequence id m.sequence).2) := by
  apply sound_setTransport h
  constructor
  · rw [checkSequence_mType]
    exact (h.transports port).typed
  · intro id' sequence' hentry
    rw [checkSequence_mType]
    rcases checkSequence_entry _ id m.sequence hentry with hold | ⟨rfl, rfl⟩
    · exact (h.transports port).sequences id' sequence' hold
    · exact ⟨m, hm, htype, rfl⟩
  · rw [checkSequence_mType, checkSequence_delivered]
    exact (h.transports port).delivered

/-- The invariant, together with the type of one transport. -/
def SoundPort (K : CryptoPP Id Pair Ecdh) (H : Host Id) (pair : Pair) (ecdh : Ecdh)
    (received : List Binary) (port : Port) (type : UInt8) (n : Node Id Pair Ecdh Chan) : Prop :=
  Sound K H pair ecdh received n ∧ (n.transport port).mType = type

omit [DecidableEq Chan] in
theorem port_checkSequence (port : Port) (hm : Heard K H pair received m id) :
    Keeps (SoundPort K H pair ecdh received port m.type : Node Id Pair Ecdh Chan → Prop)
      (Node.checkSequence port id m.sequence) := by
  rintro n ⟨hn, htype⟩
  rw [checkSequence_run, final_ok]
  refine ⟨sound_checkSequence hn port hm htype.symm, ?_⟩
  rw [transport_setTransport, checkSequence_mType]
  exact htype

omit [DecidableEq Chan] in
theorem port_callback (port : Port) (hm : Heard K H pair received m id) {payload : Binary}
    (hopened : Opened K ecdh (⟨m, id, payload⟩ : Delivery Id)) :
    Keeps (SoundPort K H pair ecdh received port m.type : Node Id Pair Ecdh Chan → Prop)
      (Node.callback port m id payload) := by
  rintro n ⟨hn, htype⟩
  constructor
  · apply sound_setTransport hn
    refine ⟨(hn.transports port).typed, (hn.transports port).sequences, fun d hd => ?_⟩
    rcases List.mem_append.mp hd with hold | hnew
    · exact (hn.transports port).delivered d hold
    · rw [List.mem_singleton] at hnew
      subst hnew
      exact ⟨hm, htype.symm, hopened⟩
  · cases port <;> exact htype

omit [DecidableEq Chan] in
theorem port_incoming (port : Port) (hm : Heard K H pair received m id) :
    Keeps (SoundPort K H pair ecdh received port m.type : Node Id Pair Ecdh Chan → Prop)
      (Transport.incoming K port m id) := by
  refine keeps_bind (port_checkSequence port hm) fun fresh => ?_
  cases fresh with
  | false => exact keeps_pure _
  | true =>
    cases m.destination with
    | none => exact keeps_pure _
    | some _ =>
      cases hparse : CipherBody.parse m.body with
      | error e => exact keeps_throw e
      | ok cipherBody =>
        refine keeps_get_bind fun n hn => ?_
        split_ifs
        · exact hn
        · cases hdecrypt : cipherBody.decrypt K n.graph.mEcdh with
          | error e => exact hn
          | ok payload =>
            rw [hn.1.mEcdh] at hdecrypt
            exact port_callback port hm (Or.inr ⟨cipherBody, hparse, hdecrypt⟩) n hn

omit [LinearOrder Id] [DecidableEq Chan] in
theorem heard_source (h : Heard K H pair received m id) : m.source = some id := by
  rcases h with ⟨_, _, hauthentic⟩ | ⟨hsigned, _, rfl⟩
  · exact hauthentic.source
  · exact hsigned.source

omit [LinearOrder Id] [DecidableEq Chan] in
theorem heard_sendable (h : Heard K H pair received m id) (htype : m.type ≠ MessageType.Hello) :
    Sendable K H pair received m := by
  rcases h with hlearned | ⟨hsigned, _⟩
  · exact Or.inl ⟨⟨id, hlearned⟩, fun hhello => absurd hhello htype⟩
  · exact Or.inr ⟨hsigned, fun hhello => absurd hhello htype⟩

theorem port_broadcastable (hm : Heard K H pair received m id) (channel : Option Chan) :
    Keeps (SoundPort K H pair ecdh received .user m.type)
      (BroadcastableTransport.incoming K H m id channel) := by
  rw [BroadcastableTransport.incoming]
  cases m.destination with
  | some _ => exact port_incoming .user hm
  | none =>
    refine keeps_bind (port_checkSequence .user hm) fun fresh => ?_
    cases fresh with
    | false => exact keeps_pure _
    | true =>
      refine keeps_bind (keeps_modify fun n hn => ?_) fun _ => port_callback .user hm (Or.inl rfl)
      have htype : m.type ≠ MessageType.Hello := by
        rw [← hn.2, (hn.1.transports .user).typed]
        decide
      exact ⟨sound_broadcast hn.1 (heard_sendable hm htype) channel, hn.2⟩

theorem sound_transportMessage (hm : Heard K H pair received m id) (port : Port)
    (channel : Option Chan) : Keeps (Sound K H pair ecdh received)
      (Transport.notifyMessage K H port m channel) := by
  refine keeps_get_bind fun n hn => ?_
  rw [heard_source hm]
  dsimp only
  split_ifs with htype
  · exact hn
  · rw [not_not] at htype
    cases port with
    | signaling => exact (port_incoming .signaling hm n ⟨hn, htype.symm⟩).1
    | user => exact (port_broadcastable hm channel n ⟨hn, htype.symm⟩).1

omit [DecidableEq Chan] in
theorem sound_routing (h : Sound K H pair ecdh received n) (r : Routing Id Chan) :
    Sound K H pair ecdh received { n with routing := r } :=
  ⟨⟨h.rooted.linked, h.rooted.root⟩, h.ecdsaPair, h.mEcdh, h.states, h.transports, h.outbox⟩

theorem sound_changeNeighbors (change : Routing Id Chan → Routing Id Chan × Bool) :
    Keeps (Sound K H pair ecdh received) (Node.changeNeighbors K H change) := by
  intro n hn
  have hrouting := sound_routing hn (change n.routing).1
  simp only [Node.changeNeighbors, get_bind_run]
  cases (change n.routing).2 with
  | true => exact keeps_notifyNeighbor sound_withstands _ hrouting
  | false => exact hrouting

theorem sound_graphMessage (hm : Heard K H pair received m id) (channel : Option Chan) :
    Keeps (Sound K H pair ecdh received) (Graph.notifyMessage K H m channel) := by
  intro n hn
  rw [Graph.notifyMessage]
  split_ifs with hhello
  · cases channel with
    | none =>
      simp only [Graph.notifyHello, get_bind_run, heard_source hm]
      exact hn
    | some channel =>
      rw [notifyHello_run K H (heard_source hm)]
      split_ifs
      · exact hn
      · exact sound_changeNeighbors _ n hn
  · rw [Graph.notifyState]
    cases hstate : State.fromMessage K m with
    | error e => exact hn
    | ok s =>
      have hid : id = s.id :=
        Option.some.inj ((heard_source hm).symm.trans (fromMessage_ok hstate).1)
      subst hid
      have hstorable : Storable K H pair received s := by
        rcases hm with hlearned | ⟨_, _, hown⟩
        · exact Or.inr ⟨m, hlearned, hstate⟩
        · exact Or.inl hown
      refine keeps_bind (keeps_insert sound_withstands hstorable) (fun accepted => ?_) n hn
      cases accepted with
      | true => exact keeps_modify fun n hn => sound_broadcast hn (heard_sendable hm hhello) channel
      | false => exact keeps_pure _
  · exact hn

theorem sound_nodeMessage (hm : Heard K H pair received m id) (channel : Option Chan) :
    Keeps (Sound K H pair ecdh received) (Node.notifyMessage K H m channel) :=
  keeps_bind (sound_graphMessage hm channel) fun _ =>
    keeps_bind (sound_transportMessage hm .signaling channel) fun _ =>
      sound_transportMessage hm .user channel

theorem sound_send (h : Sound K H pair ecdh received n) (hm : Sendable K H pair received m)
    {wire : Wire Chan} {data : Binary} {channel : Chan}
    (hbinary : m.toBinary K H.byteOrder = .ok data) (hsend : n.wire.send channel data = .ok wire) :
    Sound K H pair ecdh received { n with wire } := by
  apply sound_wire h
  intro channel' data' hdata
  rw [Wire.send] at hsend
  split_ifs at hsend
  cases hsend
  by_cases hchannel : channel' = channel
  · subst hchannel
    simp only [Function.update_self, List.mem_append, List.mem_singleton] at hdata
    rcases hdata with hold | rfl
    · exact Or.inl hold
    · exact Or.inr ⟨m, hbinary, hm⟩
  · simp only [Function.update_of_ne hchannel] at hdata
    exact Or.inl hdata

theorem sound_route
    (hm : (∃ id, Learned K H received m id) ∨ Own K pair m ∧ m.destination.isSome)
    (from_ : Option Chan) : Keeps (Sound K H pair ecdh received) (Node.route K H m from_) := by
  refine keeps_get_bind fun n hn => ?_
  have hemit : (m.destination = none ∨ m.destination = some (n.id K)) →
      Sound K H pair ecdh received (final (Node.notifyMessage K H m from_ n)) := by
    intro hto
    rcases hm with ⟨id, hlearned⟩ | ⟨⟨hsigned, _⟩, hdirect⟩
    · exact sound_nodeMessage (Or.inl hlearned) from_ n hn
    · have hown : m.destination = some (K.publicKey pair) := by
        rcases hto with hto | hto
        · rw [hto] at hdirect
          cases hdirect
        · rw [hto, Node.id, hn.ecdsaPair]
      exact sound_nodeMessage (Or.inr ⟨hsigned, hown, rfl⟩) from_ n hn
  rw [Routing.route]
  split_ifs
  · exact hn
  · cases hto : m.destination with
    | none => exact hemit (Or.inl hto)
    | some d =>
      have hsendable : Sendable K H pair received m := by
        rcases hm with hlearned | ⟨hown, _⟩
        · refine Or.inl ⟨hlearned, fun _ => ?_⟩
          rw [hto]
          rfl
        · exact Or.inr hown
      dsimp only
      split_ifs with hlocal
      · subst hlocal
        exact hemit (Or.inr hto)
      · cases n.routing.findRoute d with
        | none => exact hn
        | some channel =>
          dsimp only
          cases hbinary : m.toBinary K H.byteOrder with
          | error e => exact hn
          | ok data =>
            dsimp only
            cases hwire : n.wire.send channel data with
            | error e => exact hn
            | ok wire => exact sound_send hn hsendable hbinary hwire

/-- Bytes that carry no signed message do nothing. -/
theorem onMessage_unsigned {data : Binary} (h : ∀ m id, ¬ Authentic K H.byteOrder data m id)
    (channel : Chan) : Node.onMessage K H n channel data = n := by
  rw [Node.onMessage]
  cases hparse : Message.parse K H.byteOrder data with
  | error e => rfl
  | ok m =>
    cases hsource : m.source with
    | some id => exact absurd (parse_authentic hparse hsource) (h m id)
    | none =>
      dsimp only
      rw [Node.route, get_bind_run, Routing.route, if_pos hsource]
      rfl

theorem sound_onMessage (h : Sound K H pair ecdh received n) (channel : Chan) (data : Binary) :
    Sound K H pair ecdh (received ++ [data]) (Node.onMessage K H n channel data) := by
  have hmono := sound_mono data h
  by_cases hnone : ∀ m id, ¬ Authentic K H.byteOrder data m id
  · rw [onMessage_unsigned hnone channel]
    exact hmono
  · push Not at hnone
    obtain ⟨m, id, hauthentic⟩ := hnone
    rw [Node.onMessage, hauthentic.parsed]
    have hlearned : Learned K H (received ++ [data]) m id :=
      ⟨data, List.mem_append_right _ (List.mem_singleton_self data), hauthentic⟩
    exact sound_route (Or.inl ⟨id, hlearned⟩) (some channel) n hmono

omit [DecidableEq Chan] in
theorem sound_makeMessage (h : Sound K H pair ecdh received n) (port : Port) (body : Binary)
    (destination : Option Id) :
    (∃ e n', Transport.makeMessage K H port body destination n = .error e n' ∧
      Sound K H pair ecdh received n') ∨
    ∃ m n', Transport.makeMessage K H port body destination n = .ok m n' ∧
      Sound K H pair ecdh received n' ∧ Own K pair m ∧ m.destination = destination := by
  have hcounted : ∀ mSendSequence issued, Sound K H pair ecdh received (n.setTransport port
      { n.transport port with mSendSequence, issued }) := fun _ _ =>
    sound_setTransport h port ⟨(h.transports port).typed, (h.transports port).sequences,
      (h.transports port).delivered⟩
  rcases Nat.lt_or_ge uint16Max body.length with hlong | hfits
  · have hrun := makeMessage_too_long (K := K) H n port destination hlong
    exact Or.inl ⟨_, _, hrun, hcounted _ _⟩
  · obtain ⟨m, hrun, hsigned, htype, _, hto, _⟩ :=
      makeMessage_spec (K := K) H n port destination hfits
    rw [h.ecdsaPair] at hsigned
    rw [(h.transports port).typed] at htype
    have hother : m.type ≠ MessageType.Hello := by
      rw [htype]
      cases port <;> decide
    exact Or.inr ⟨m, _, hrun, hcounted _ _, ⟨hsigned, fun hhello => absurd hhello hother⟩, hto⟩

theorem sound_transportSend (port : Port) (remoteId : Id) (payload : Binary) (random : Iv) :
    Keeps (Sound K H pair ecdh received : Node Id Pair Ecdh Chan → Prop)
      (Transport.send K H port remoteId payload random) := by
  intro n hn
  rw [Transport.send]
  rcases directMessage_cases (K := K) H n port remoteId payload random with
    ⟨e, hrun⟩ | ⟨body, hrun⟩
  · rw [bind_error hrun]
    exact hn
  · rcases sound_makeMessage hn port body (some remoteId) with
      ⟨e, n', hmake, hsound⟩ | ⟨m, n', hmake, hsound, hown, hto⟩
    · rw [bind_error (hrun.trans hmake)]
      exact hsound
    · have hdirect : m.destination.isSome := by rw [hto]; rfl
      rw [bind_ok (hrun.trans hmake), Node.send, if_pos hdirect]
      exact sound_route (Or.inr ⟨hown, hdirect⟩) none n' hsound

theorem sound_transportBroadcast (port : Port) (payload : Binary) :
    Keeps (Sound K H pair ecdh received : Node Id Pair Ecdh Chan → Prop)
      (Transport.broadcast K H port payload) := by
  intro n hn
  cases port with
  | signaling => exact hn
  | user =>
    rw [Transport.broadcast]
    rcases sound_makeMessage hn .user payload none with
      ⟨e, n', hmake, hsound⟩ | ⟨m, n', hmake, hsound, hown, _⟩
    · rw [bind_error hmake]
      exact hsound
    · rw [bind_ok hmake]
      exact sound_broadcast hsound (Or.inr hown) none

theorem sound_update :
    Keeps (Sound K H pair ecdh received : Node Id Pair Ecdh Chan → Prop) (Graph.update K H) := by
  refine keeps_get_bind fun n hn => ?_
  have hcount : Keeps (Sound K H pair ecdh received) (modifyGraph fun g =>
      { g with mHelloSequence := g.mHelloSequence + 1 } : NodeM Id Pair Ecdh Chan Unit) :=
    keeps_modify fun n hn => ⟨rooted_congr hn.rooted rfl rfl rfl fun _ => rfl, hn.ecdsaPair,
      hn.mEcdh, hn.states, hn.transports, hn.outbox⟩
  refine keeps_bind hcount (fun _ => ?_) n hn
  cases hm : Message.create K H.byteOrder MessageType.Hello n.graph.mHelloSequence []
      (some n.ecdsaPair) none with
  | error e => exact keeps_throw e
  | ok m =>
    rw [hn.ecdsaPair] at hm
    obtain ⟨hsigned, _, hto⟩ := created_signed hm
    exact keeps_modify fun n hn => sound_broadcast hn (Or.inr ⟨hsigned, fun _ => hto⟩) none

omit [DecidableEq Chan] in
theorem sound_silent {ev : NodeEvent Id Chan} (hev : ev.data = [])
    (h : Sound K H pair ecdh received n) : Sound K H pair ecdh (received ++ ev.data) n := by
  rw [hev, List.append_nil]
  exact h

theorem sound_event (h : Sound K H pair ecdh received n) (ev : NodeEvent Id Chan) :
    Sound K H pair ecdh (received ++ ev.data) (ev.apply K H n) := by
  cases ev with
  | received channel data => exact sound_onMessage h channel data
  | addChannel channel => exact sound_silent rfl (sound_routing h _)
  | removeChannel channel => exact sound_silent rfl (sound_routing h _)
  | addNeighbor remoteId channel => exact sound_silent rfl (sound_changeNeighbors _ n h)
  | removeNeighbor remoteId channel => exact sound_silent rfl (sound_changeNeighbors _ n h)
  | status isOpen => exact sound_silent rfl (sound_wire h fun channel data hdata => Or.inl hdata)
  | update => exact sound_silent rfl (sound_update n h)
  | send port remoteId payload random =>
    exact sound_silent rfl (sound_transportSend port remoteId payload random n h)
  | broadcast port payload => exact sound_silent rfl (sound_transportBroadcast port payload n h)

theorem run_sound (events : List (NodeEvent Id Chan)) : ∀ (received : List Binary)
    (n : Node Id Pair Ecdh Chan), Sound K H pair ecdh received n →
    Sound K H pair ecdh (received ++ NodeRuns.received events) (run K H n events) := by
  induction events with
  | nil =>
    intro received n h
    rw [NodeRuns.received, List.flatMap_nil, List.append_nil]
    exact h
  | cons ev events ih =>
    intro received n h
    have htail := ih _ _ (sound_event h ev)
    rw [List.append_assoc] at htail
    exact htail

theorem created_sound (h : Created K H n) : Sound K H n.ecdsaPair n.graph.mEcdh [] n := by
  obtain ⟨n₀, mEcdh, _, houtbox, htransports, hrun⟩ := h.constructed
  have hsound : Sound K H n₀.ecdsaPair mEcdh [] (final (Graph.construct K H mEcdh n₀)) := by
    apply construct_keeps sound_withstands
    obtain ⟨hput, _⟩ := storeNew_spec (K := K)
      (n := { n₀ with graph := emptyGraph (n₀.id K) mEcdh })
      (s := ⟨n₀.id K, 0 - 1, K.ecdhPublicKey mEcdh, ∅⟩) (linked_emptyGraph _ _) (Or.inl rfl) rfl
    refine ⟨hput.rooted, rfl, rfl, ?_, ?_, ?_⟩
    · intro id s hs
      have hstored := (congrFun (congrArg View.states hput.view_eq) id).symm.trans hs
      rw [put_states, Function.update_apply] at hstored
      split_ifs at hstored with hid
      · cases hstored
        exact ⟨hid.symm, Or.inl rfl⟩
      · cases hstored
    · intro port
      obtain ⟨mSendSequence, hinitial⟩ := htransports port
      have hfirst : SoundTransport K H n₀.ecdsaPair mEcdh [] port (n₀.transport port) := by
        rw [hinitial]
        refine ⟨rfl, fun id sequence hs => ?_, fun d hd => ?_⟩
        · cases hs
        · cases hd
      cases port <;> exact hfirst
    · intro channel data hdata
      rw [houtbox] at hdata
      cases hdata
  rw [hrun] at hsound
  have hpair := hsound.ecdsaPair
  have hecdh := hsound.mEcdh
  rw [final_ok] at hpair hecdh
  rw [hpair, hecdh]
  exact hsound

/-- What a created node learns in any run. A State of another node, a sequence number, a
payload and a message that is sent on all come from bytes that their author has signed, or
from the node itself; bytes without a signed message change nothing. -/
theorem learned_is_signed (h : Created K H n) (events : List (NodeEvent Id Chan)) :
    let r := NodeRuns.received events
    let m := run K H n events
    (∀ id s, id ≠ m.id K → m.graph.stateOf id = some s → ∃ data ∈ r, ∃ message,
      Authentic K H.byteOrder data message id ∧ State.fromMessage K message = .ok s) ∧
    (∀ port id sequence, (m.transport port).mSequences.lookup id = some sequence →
      ∃ message, Heard K H m.ecdsaPair r message id ∧ message.type = (m.transport port).mType ∧
        message.sequence = sequence) ∧
    (∀ port, ∀ d ∈ (m.transport port).delivered, Heard K H m.ecdsaPair r d.message d.remoteId ∧
      d.message.type = (m.transport port).mType ∧ Opened K m.graph.mEcdh d) ∧
    (∀ channel, ∀ data ∈ m.wire.outbox channel, ∃ message,
      message.toBinary K H.byteOrder = .ok data ∧ Sendable K H m.ecdsaPair r message) ∧
    ∀ channel data, (∀ message id, ¬ Authentic K H.byteOrder data message id) →
      Node.onMessage K H m channel data = m := by
  intro r m
  have hsound := run_sound events [] n (created_sound h)
  rw [List.nil_append] at hsound
  have hpair : m.ecdsaPair = n.ecdsaPair := hsound.ecdsaPair
  have hecdh : m.graph.mEcdh = n.graph.mEcdh := hsound.mEcdh
  rw [Node.id, hpair, hecdh]
  refine ⟨fun id s hid hs => ?_, fun port => (hsound.transports port).sequences,
    fun port => (hsound.transports port).delivered, hsound.outbox,
    fun channel data hnone => onMessage_unsigned hnone channel⟩
  obtain ⟨rfl, hown | ⟨message, ⟨data, hdata, hauthentic⟩, hstate⟩⟩ := hsound.states id s hs
  · exact absurd hown hid
  · exact ⟨data, hdata, message, hauthentic, hstate⟩

end Steps

-- Node 1 hears a broadcast of node 2 over channel 0.
namespace Sample
open LegioNode.Sample PublishedTable.Sample

def unsigned : Message (Fin 4) := ⟨MessageType.User, 7, some 2, none, [104, 105], []⟩

def greeting : Message (Fin 4) :=
  { unsigned with
    signature := LegioCrypto.Sample.crypto.sign 2 (unsigned.signedBytes LegioCrypto.Sample.crypto) }

def heard : List (NodeEvent (Fin 4) ℕ) :=
  [.addChannel 0, .received 0 (TransportSteps.frame LegioCrypto.Sample.crypto greeting)]

theorem greeting_is_signed :
    let m := run LegioCrypto.Sample.crypto host (started 1) heard
    m.userTransport.delivered = [⟨greeting, 2, [104, 105]⟩] ∧
      Heard LegioCrypto.Sample.crypto host m.ecdsaPair (NodeRuns.received heard) greeting 2 := by
  have hdelivered : (run LegioCrypto.Sample.crypto host (started 1) heard).userTransport.delivered =
      [⟨greeting, 2, [104, 105]⟩] := by decide +kernel
  obtain ⟨_, _, hheard, _⟩ := learned_is_signed (created 1) heard
  refine ⟨hdelivered, (hheard .user ⟨greeting, 2, [104, 105]⟩ ?_).1⟩
  change _ ∈ (run LegioCrypto.Sample.crypto host (started 1) heard).userTransport.delivered
  rw [hdelivered]
  exact List.mem_singleton_self _

end Sample

end SignedProvenance
