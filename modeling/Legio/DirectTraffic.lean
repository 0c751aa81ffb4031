import Legio.DirectMessages
import Legio.NeighborBindings

set_option linter.style.header false

/-! Why a node hands a message to a channel, and where direct messages of honest nodes are
found. `findRoute` looks for the destination itself among the neighbours, not for the next
hop, so no honest node passes them on to another one. -/
namespace DirectTraffic

open LegioBinary LegioCrypto LegioMessage LegioNode Containers ExceptionStates GraphInvariants
open ChannelTopology NodeRuns SignedProvenance NeighborBindings
open NodeNetwork (arrive)

variable {V Id Pair Ecdh Chan : Type}

section Causes
variable [LinearOrder Id] (K : CryptoPP Id Pair Ecdh)

def Came (o : ByteOrder) (data : List Binary) (m : Message Id) : Prop :=
  ∃ bytes ∈ data, Message.parse K o bytes = .ok m

/-- What the graph announces is signed by the node, for nobody in particular. A State is one of
the node itself, with its own ECDH key. -/
structure Announced (pair : Pair) (ecdh : Ecdh) (m : Message Id) : Prop where
  signed : SignedBy K pair m
  type : m.type = MessageType.Hello ∨ m.type = MessageType.State
  destination : m.destination = none
  state : m.type = MessageType.State → ∃ (s : State Id) (o : ByteOrder),
    s.id = K.publicKey pair ∧ s.ecdhPublic = K.ecdhPublicKey ecdh ∧ s.toMessage K o pair = .ok m

/-- The body of a message that carries a payload to one node, sealed for the key in the State
that is stored of it. -/
def Sealed (n : Node Id Pair Ecdh Chan) (remoteId : Id) (payload : Binary) (random : Iv)
    (body : Binary) : Prop :=
  ∃ s cipherBody, n.graph.get remoteId = .ok s ∧
    CipherBody.encrypt K payload n.graph.mEcdh s.ecdhPublic random = .ok cipherBody ∧
    body = cipherBody.toBinary

def counters (n : Node Id Pair Ecdh Chan) (port : Port) : UInt32 :=
  (n.transport port).mSendSequence

/-- What a call of the node's own makes it send. -/
inductive Asked (n : Node Id Pair Ecdh Chan) (ev : NodeEvent Id Chan) (m : Message Id) :
    Prop where
  | broadcast (call : ev = .broadcast .user m.body) (type : m.type = Port.user.type)
    (numbered : m.sequence = counters n .user) (addressed : m.destination = none)
  | send (port : Port) (remoteId : Id) (payload : Binary) (random : Iv)
    (call : ev = .send port remoteId payload random) (type : m.type = port.type)
    (numbered : m.sequence = counters n port) (addressed : m.destination = some remoteId)
    (body : Sealed K n remoteId payload random m.body)

/-- What an event may make a node hand to a channel. -/
inductive Cause (o : ByteOrder) (n : Node Id Pair Ecdh Chan) (ev : NodeEvent Id Chan)
    (channel : Chan) (m : Message Id) : Prop where
  | announced (announced : Announced K n.ecdsaPair n.graph.mEcdh m)
  | asked (signed : SignedBy K n.ecdsaPair m) (asked : Asked K n ev m)
    (bound : ∀ remoteId, m.destination = some remoteId →
      n.routing.mNeighbors.lookup remoteId = some channel)
  | flooded (came : Came K o ev.data m) (addressed : m.destination = none)
  | relayed (remoteId : Id) (came : Came K o ev.data m) (addressed : m.destination = some remoteId)
    (bound : n.routing.mNeighbors.lookup remoteId = some channel)
  | echoed (came : Came K o ev.data m) (state : m.type = MessageType.State)
    (addressed : m.destination = some (n.id K))

def Appends (o : ByteOrder) (P : Chan → Message Id → Prop) (wire wire' : Wire Chan) : Prop :=
  ∀ channel, ∃ fresh, wire'.outbox channel = wire.outbox channel ++ fresh ∧
    ∀ data ∈ fresh, ∃ m, m.toBinary K o = .ok data ∧ P channel m

/-- A later state of a node, all of whose new messages have a cause. -/
def Since (o : ByteOrder) (P : Chan → Message Id → Prop) (n₀ n : Node Id Pair Ecdh Chan) : Prop :=
  (n.ecdsaPair = n₀.ecdsaPair ∧ n.graph.mEcdh = n₀.graph.mEcdh) ∧ Appends K o P n₀.wire n.wire

variable {K} [DecidableEq Chan] {H : Host Id} {o : ByteOrder} {P : Chan → Message Id → Prop}
  {n₀ n : Node Id Pair Ecdh Chan} {m : Message Id} {wire wire' wire'' : Wire Chan}

omit [LinearOrder Id] [DecidableEq Chan] in
theorem appends_refl (wire : Wire Chan) : Appends K o P wire wire :=
  fun _ => ⟨[], (List.append_nil _).symm, fun _ hdata => (List.not_mem_nil hdata).elim⟩

omit [LinearOrder Id] [DecidableEq Chan] in
theorem appends_trans (h : Appends K o P wire wire') (h' : Appends K o P wire' wire'') :
    Appends K o P wire wire'' := by
  intro channel
  obtain ⟨fresh, houtbox, hfresh⟩ := h channel
  obtain ⟨fresh', houtbox', hfresh'⟩ := h' channel
  refine ⟨fresh ++ fresh', by rw [houtbox', houtbox, List.append_assoc], fun data hdata => ?_⟩
  rcases List.mem_append.mp hdata with hdata | hdata
  · exact hfresh data hdata
  · exact hfresh' data hdata

omit [LinearOrder Id] in
theorem appends_broadcast (r : Routing Id Chan) (wire : Wire Chan) (from_ : Option Chan)
    (hm : ∀ channel, P channel m) : Appends K o P wire (r.broadcast K o wire m from_) := by
  intro channel
  simp only [Routing.broadcast]
  split_ifs
  · cases hbinary : m.toBinary K o with
    | error e => exact appends_refl wire channel
    | ok data =>
      refine ⟨[data], rfl, fun data' hdata => ?_⟩
      rw [List.mem_singleton.mp hdata]
      exact ⟨m, hbinary, hm channel⟩
  · exact appends_refl wire channel

omit [LinearOrder Id] in
theorem appends_send {channel : Chan} {data : Binary} (hbinary : m.toBinary K o = .ok data)
    (hsend : wire.send channel data = .ok wire') (hm : P channel m) :
    Appends K o P wire wire' := by
  rw [Wire.send] at hsend
  split_ifs at hsend
  cases hsend
  intro channel'
  by_cases hchannel : channel' = channel
  · subst hchannel
    refine ⟨[data], Function.update_self .., fun data' hdata => ?_⟩
    rw [List.mem_singleton.mp hdata]
    exact ⟨m, hbinary, hm⟩
  · refine ⟨[], ?_, fun _ hdata => (List.not_mem_nil hdata).elim⟩
    rw [List.append_nil]
    exact Function.update_of_ne hchannel ..

omit [LinearOrder Id] [DecidableEq Chan] in
theorem since_refl (n : Node Id Pair Ecdh Chan) : Since K o P n n :=
  ⟨⟨rfl, rfl⟩, appends_refl _⟩

omit [LinearOrder Id] [DecidableEq Chan] in
theorem since_free (n₀ : Node Id Pair Ecdh Chan) : TransportFree (Since K o P n₀) := by
  intro n port t _ hn
  cases port <;> exact hn

omit [LinearOrder Id] in
theorem since_broadcast (h : Since K H.byteOrder P n₀ n) (from_ : Option Chan)
    (hm : ∀ channel, P channel m) :
    Since K H.byteOrder P n₀ { n with wire := n.routing.broadcast K H.byteOrder n.wire m from_ } :=
  ⟨h.1, appends_trans h.2 (appends_broadcast _ _ _ hm)⟩

omit [LinearOrder Id] [DecidableEq Chan] in
theorem since_graphFree (n₀ : Node Id Pair Ecdh Chan) : GraphFree (Since K o P n₀) :=
  fun _ _ _ hkey hn => ⟨⟨hn.1.1, hkey.trans hn.1.2⟩, hn.2⟩

theorem since_withstands
    (hannounced : ∀ m, Announced K n₀.ecdsaPair n₀.graph.mEcdh m → ∀ channel, P channel m) :
    Withstands K H (Since K H.byteOrder P n₀) (fun _ => True)
      fun m => ∀ channel, P channel m := by
  refine free_withstands (since_graphFree n₀) (fun n m hn hm => ?_) fun n m hn hm =>
    since_broadcast hn none hm
  obtain ⟨hsigned, htype, hnone⟩ := created_signed hm
  rw [hn.1.1] at hm hsigned
  refine hannounced m ⟨hsigned, Or.inr htype, hnone, fun _ => ⟨_, _, ?_, ?_, hm⟩⟩
  · exact congrArg K.publicKey hn.1.1
  · exact congrArg K.ecdhPublicKey hn.1.2

section Operations
variable (hannounced : ∀ m, Announced K n₀.ecdsaPair n₀.graph.mEcdh m → ∀ channel, P channel m)
include hannounced

theorem since_changeNeighbors (change : Routing Id Chan → Routing Id Chan × Bool) :
    Keeps (Since K H.byteOrder P n₀) (Node.changeNeighbors K H change) := by
  intro n hn
  simp only [Node.changeNeighbors, get_bind_run]
  cases (change n.routing).2 with
  | true => exact keeps_notifyNeighbor (since_withstands hannounced) _ hn
  | false => exact hn

theorem since_graphMessage (hflood : m.type = MessageType.State → ∀ channel, P channel m)
    (channel : Option Chan) :
    Keeps (Since K H.byteOrder P n₀) (Graph.notifyMessage K H m channel) := by
  intro n hn
  rw [Graph.notifyMessage]
  split_ifs with _ hstate
  · simp only [Graph.notifyHello, get_bind_run]
    cases m.source with
    | none => exact hn
    | some source =>
      cases channel with
      | none => exact hn
      | some channel =>
        dsimp only
        split_ifs
        · exact hn
        · exact since_changeNeighbors hannounced _ n hn
  · rw [Graph.notifyState]
    cases State.fromMessage K m with
    | error e => exact hn
    | ok s =>
      refine keeps_bind (keeps_insert (since_withstands hannounced) trivial)
        (fun accepted => ?_) n hn
      cases accepted with
      | true => exact keeps_modify fun n hn => since_broadcast hn channel (hflood hstate)
      | false => exact keeps_pure _
  · exact hn

omit hannounced in
theorem since_transportMessage (hflood : m.destination = none → ∀ channel, P channel m)
    (port : Port) (channel : Option Chan) :
    Keeps (Since K H.byteOrder P n₀) (Transport.notifyMessage K H port m channel) := by
  have hfree : TransportFree (Since K H.byteOrder P n₀) := since_free n₀
  refine keeps_get_bind fun n hn => ?_
  cases m.source with
  | none => exact hn
  | some remoteId =>
    dsimp only
    split_ifs
    · exact hn
    · cases port with
      | signaling => exact keeps_incoming K hfree .signaling m remoteId n hn
      | user =>
        change Since K H.byteOrder P n₀
          (final (BroadcastableTransport.incoming K H m remoteId channel n))
        rw [BroadcastableTransport.incoming]
        cases hnone : m.destination with
        | some _ => exact keeps_incoming K hfree .user m remoteId n hn
        | none =>
          refine keeps_bind (keeps_checkSequence hfree .user remoteId m.sequence)
            (fun fresh => ?_) n hn
          cases fresh with
          | false => exact keeps_pure _
          | true =>
            exact keeps_bind
              (keeps_modify fun n hn => since_broadcast hn channel (hflood hnone))
              fun _ => keeps_callback hfree .user m remoteId m.body

theorem since_nodeMessage (hstate : m.type = MessageType.State → ∀ channel, P channel m)
    (hflood : m.destination = none → ∀ channel, P channel m) (channel : Option Chan) :
    Keeps (Since K H.byteOrder P n₀) (Node.notifyMessage K H m channel) :=
  keeps_bind (since_graphMessage hannounced hstate channel) fun _ =>
    keeps_bind (since_transportMessage hflood .signaling channel) fun _ =>
      since_transportMessage hflood .user channel

theorem since_route (hn : Since K H.byteOrder P n₀ n)
    (hbound : ∀ remoteId channel, m.destination = some remoteId →
      n.routing.mNeighbors.lookup remoteId = some channel → P channel m)
    (hflood : m.destination = none → ∀ channel, P channel m)
    (hecho : m.type = MessageType.State → m.destination = some (n.id K) →
      ∀ channel, P channel m) (from_ : Option Chan) :
    Since K H.byteOrder P n₀ (final (Node.route K H m from_ n)) := by
  rw [Node.route, get_bind_run, Routing.route]
  split_ifs
  · exact hn
  · cases hdestination : m.destination with
    | none =>
      exact since_nodeMessage hannounced (fun _ => hflood hdestination)
        (fun _ => hflood hdestination) from_ n hn
    | some remoteId =>
      dsimp only
      by_cases hlocal : remoteId = n.id K
      · rw [if_pos hlocal]
        refine since_nodeMessage hannounced (fun htype => hecho htype ?_) (fun hnone => ?_)
          from_ n hn
        · rw [hdestination, hlocal]
        · rw [hdestination] at hnone
          cases hnone
      · rw [if_neg hlocal]
        cases hroute : n.routing.findRoute remoteId with
        | none => exact hn
        | some channel =>
          have hlookup : n.routing.mNeighbors.lookup remoteId = some channel := by
            rw [Routing.findRoute] at hroute
            split at hroute
            · cases hroute
            · split at hroute
              · cases hroute
              · exact hroute
          dsimp only
          cases hbinary : m.toBinary K H.byteOrder with
          | error e => exact hn
          | ok data =>
            dsimp only
            cases hsend : n.wire.send channel data with
            | error e => exact hn
            | ok wire =>
              exact ⟨hn.1, appends_trans hn.2
                (appends_send hbinary hsend (hbound remoteId channel hdestination hlookup))⟩

theorem since_update : Keeps (Since K H.byteOrder P n₀)
    (Graph.update K H : NodeM Id Pair Ecdh Chan Unit) := by
  refine keeps_get_bind fun n hn => ?_
  refine keeps_bind (free_modifyGraph (since_graphFree n₀) (by exact fun _ => rfl))
    (fun _ => ?_) n hn
  cases hmessage : Message.create K H.byteOrder MessageType.Hello n.graph.mHelloSequence []
      (some n.ecdsaPair) none with
  | error e => exact keeps_throw e
  | ok message =>
    obtain ⟨hsigned, htype, hnone⟩ := created_signed hmessage
    exact keeps_modify fun n' hn' =>
      since_broadcast hn' none (hannounced message ⟨hn.1.1 ▸ hsigned, Or.inl htype, hnone,
        fun hstate => absurd (htype.symm.trans hstate) (by decide)⟩)

end Operations

omit [LinearOrder Id] [DecidableEq Chan] in
theorem made_cases (n : Node Id Pair Ecdh Chan) (port : Port) (body : Binary)
    (destination : Option Id) :
    (∃ e n', Transport.makeMessage K H port body destination n = .error e n' ∧
      Since K H.byteOrder P n n') ∨
    ∃ m n', Transport.makeMessage K H port body destination n = .ok m n' ∧
      Since K H.byteOrder P n n' ∧ n'.routing = n.routing ∧ SignedBy K n.ecdsaPair m ∧
      m.type = (n.transport port).mType ∧ m.sequence = counters n port ∧
      m.destination = destination ∧ m.body = body := by
  have hfree : TransportFree (Since K H.byteOrder P n) := since_free n
  rcases Nat.lt_or_ge uint16Max body.length with hlong | hfits
  · exact Or.inl ⟨_, _, TransportSteps.makeMessage_too_long H n port destination hlong,
      hfree n port _ rfl (since_refl n)⟩
  · obtain ⟨m, hrun, hsigned, htype, hsequence, hto, hbody⟩ :=
      TransportSteps.makeMessage_spec (K := K) H n port destination hfits
    refine Or.inr ⟨m, _, hrun, hfree n port _ rfl (since_refl n), ?_, hsigned, htype, hsequence,
      hto, hbody⟩
    cases port <;> rfl

omit [DecidableEq Chan] in
theorem directMessage_sealed (n : Node Id Pair Ecdh Chan) (port : Port) (remoteId : Id)
    (payload : Binary) (random : Iv) :
    (∃ e, Transport.directMessage K H port remoteId payload random n = .error e n) ∨
      ∃ body, Sealed K n remoteId payload random body ∧
        Transport.directMessage K H port remoteId payload random n =
          Transport.makeMessage K H port body (some remoteId) n := by
  rw [Transport.directMessage, get_bind_run]
  cases hstate : n.graph.get remoteId with
  | error e => exact Or.inl ⟨e, rfl⟩
  | ok remoteState =>
    dsimp only
    cases hencrypt : CipherBody.encrypt K payload n.graph.mEcdh remoteState.ecdhPublic random with
    | error e => exact Or.inl ⟨e, rfl⟩
    | ok cipherBody =>
      exact Or.inr ⟨cipherBody.toBinary, ⟨remoteState, cipherBody, hstate, hencrypt, rfl⟩, rfl⟩

theorem since_transportSend
    (hannounced : ∀ m, Announced K n.ecdsaPair n.graph.mEcdh m → ∀ channel, P channel m)
    (htyped : ∀ port, (n.transport port).mType = port.type) {port : Port} {remoteId : Id}
    {payload : Binary} {random : Iv}
    (hsent : ∀ m channel, SignedBy K n.ecdsaPair m → m.type = (n.transport port).mType →
      m.sequence = counters n port → m.destination = some remoteId →
      Sealed K n remoteId payload random m.body →
      n.routing.mNeighbors.lookup remoteId = some channel → P channel m) :
    Since K H.byteOrder P n (final (Transport.send K H port remoteId payload random n)) := by
  rw [Transport.send]
  rcases directMessage_sealed (K := K) (H := H) n port remoteId payload random with
    ⟨e, hrun⟩ | ⟨body, hsealed, hrun⟩
  · rw [bind_error hrun]
    exact since_refl n
  · rcases made_cases (K := K) (H := H) (P := P) n port body (some remoteId) with
      ⟨e, n', hmake, hmade⟩ |
      ⟨m, n', hmake, hmade, hrouting, hsigned, htype, hsequence, hto, rfl⟩
    · rw [bind_error (hrun.trans hmake)]
      exact hmade
    · have hother : m.type ≠ MessageType.State := by
        rw [htype, htyped]
        cases port <;> decide
      have hdirect : m.destination.isSome := by rw [hto]; rfl
      rw [bind_ok (hrun.trans hmake), Node.send, if_pos hdirect]
      refine since_route hannounced hmade (fun id channel hid hbound => ?_) (fun hnone => ?_)
        (fun hstate => absurd hstate hother) none
      · rw [hto, Option.some.injEq] at hid
        subst hid
        exact hsent m channel hsigned htype hsequence hto hsealed (hrouting ▸ hbound)
      · rw [hto] at hnone
        cases hnone

omit [LinearOrder Id] in
theorem since_transportBroadcast (port : Port) {payload : Binary}
    (hsent : ∀ m, SignedBy K n.ecdsaPair m → m.type = (n.transport .user).mType →
      m.sequence = counters n .user → m.destination = none → m.body = payload → port = .user →
        ∀ channel, P channel m) :
    Since K H.byteOrder P n (final (Transport.broadcast K H port payload n)) := by
  cases port with
  | signaling => exact since_refl n
  | user =>
    rw [Transport.broadcast]
    rcases made_cases (K := K) (H := H) (P := P) n .user payload none with
      ⟨e, n', hmake, hmade⟩ | ⟨m, n', hmake, hmade, _, hsigned, htype, hsequence, hnone, hbody⟩
    · rw [bind_error hmake]
      exact hmade
    · rw [bind_ok hmake]
      exact since_broadcast hmade none (hsent m hsigned htype hsequence hnone hbody rfl)

theorem since_onMessage {channel : Chan} {data : Binary} :
    Since K H.byteOrder (Cause K H.byteOrder n (.received channel data)) n
      (Node.onMessage K H n channel data) := by
  rw [Node.onMessage]
  cases hparse : Message.parse K H.byteOrder data with
  | error e => exact since_refl n
  | ok m =>
    have hcame : Came K H.byteOrder [data] m := ⟨data, List.mem_singleton_self data, hparse⟩
    exact since_route (fun m hm _ => .announced hm) (since_refl n)
      (fun remoteId _ hto hbound => .relayed remoteId hcame hto hbound)
      (fun hnone _ => .flooded hcame hnone) (fun hstate hown _ => .echoed hcame hstate hown)
      (some channel)

/-- Everything that an event makes a node hand to its channels has one of these causes. -/
theorem event_caused (htyped : ∀ port, (n.transport port).mType = port.type)
    (ev : NodeEvent Id Chan) :
    Since K H.byteOrder (Cause K H.byteOrder n ev) n (ev.apply K H n) := by
  have hannounced : ∀ m, Announced K n.ecdsaPair n.graph.mEcdh m →
      ∀ channel, Cause K H.byteOrder n ev channel m :=
    fun m hm _ => .announced hm
  cases ev with
  | addChannel channel => exact since_refl n
  | removeChannel channel => exact since_refl n
  | addNeighbor remoteId channel => exact since_changeNeighbors hannounced _ n (since_refl n)
  | removeNeighbor remoteId channel => exact since_changeNeighbors hannounced _ n (since_refl n)
  | status isOpen => exact ⟨⟨rfl, rfl⟩, fun _ => ⟨[], (List.append_nil _).symm,
      fun _ hdata => (List.not_mem_nil hdata).elim⟩⟩
  | update => exact since_update hannounced n (since_refl n)
  | send port remoteId payload random =>
    refine since_transportSend hannounced htyped
      fun m channel hsigned htype hsequence hto hsealed hbound => .asked hsigned
        (.send port remoteId payload random rfl (htype.trans (htyped port)) hsequence hto hsealed)
          fun id hid => ?_
    rw [hto, Option.some.injEq] at hid
    exact hid ▸ hbound
  | broadcast port payload =>
    refine since_transportBroadcast port fun m hsigned htype hsequence hnone hbody hport _ =>
      .asked hsigned (.broadcast ?_ (htype.trans (htyped .user)) hsequence hnone) fun id hid => ?_
    · rw [hport, hbody]
    · rw [hnone] at hid
      cases hid
  | received channel data => exact since_onMessage

/-- Over any run: what a node hands to a channel is its own announcement, what a call asked it to
send, a received broadcast, a received message for the identifier bound to that channel, or a
State message that was addressed to the node and is flooded as it is. -/
theorem traffic_explained (h : Created K H n) (events : List (NodeEvent Id Chan))
    (channel : Chan) : ∃ fresh,
      (run K H n events).wire.outbox channel = n.wire.outbox channel ++ fresh ∧
      ∀ data ∈ fresh, ∃ before ev after m, events = before ++ ev :: after ∧
        m.toBinary K H.byteOrder = .ok data ∧
          Cause K H.byteOrder (run K H n before) ev channel m := by
  induction events using List.reverseRecOn with
  | nil => exact ⟨[], (List.append_nil _).symm, fun _ hdata => (List.not_mem_nil hdata).elim⟩
  | append_singleton events ev ih =>
    obtain ⟨fresh, houtbox, hfresh⟩ := ih
    have hsound := run_sound events [] n (created_sound h)
    have hcaused := event_caused (K := K) (H := H) (fun port => (hsound.transports port).typed) ev
    obtain ⟨fresh', houtbox', hfresh'⟩ := hcaused.2 channel
    have hrun : run K H n (events ++ [ev]) = ev.apply K H (run K H n events) := by
      rw [run, List.foldl_append]
      rfl
    refine ⟨fresh ++ fresh', by rw [hrun, houtbox', houtbox, List.append_assoc],
      fun data hdata => ?_⟩
    rcases List.mem_append.mp hdata with hold | hnew
    · obtain ⟨before, ev', after, m, rfl, hbinary, hcause⟩ := hfresh data hold
      refine ⟨before, ev', after ++ [ev], m, ?_, hbinary, hcause⟩
      rw [List.append_assoc, List.cons_append]
    · obtain ⟨m, hbinary, hcause⟩ := hfresh' data hnew
      exact ⟨events, ev, [], m, rfl, hbinary, hcause⟩

end Causes

section Networks
variable [DecidableEq V] [LinearOrder Id] [DecidableEq Chan] {K : CryptoPP Id Pair Ecdh}
  {net : Network V Id Chan} {id : V → Id} {w w' : World V Id Pair Ecdh Chan}
  {n n' : Node Id Pair Ecdh Chan}

omit [DecidableEq V] [LinearOrder Id] [DecidableEq Chan] in
theorem fresh_caused {P : Chan → Message Id → Prop} {o : ByteOrder} (h : Since K o P n n')
    {channel : Chan} {data : Binary} (hdata : data ∈ n'.wire.outbox channel) :
    data ∈ n.wire.outbox channel ∨ ∃ m, m.toBinary K o = .ok data ∧ P channel m := by
  obtain ⟨fresh, houtbox, hfresh⟩ := h.2 channel
  rw [houtbox] at hdata
  refine (List.mem_append.mp hdata).imp_right fun hnew => ?_
  obtain ⟨m, hbinary, hm⟩ := hfresh data hnew
  exact ⟨m, hbinary, hm⟩

omit [DecidableEq V] in
theorem created_announced (hK : EcdsaLaws K) {H : Host Id} (h : Created K H n) {channel : Chan}
    {data : Binary} (hdata : data ∈ n.wire.outbox channel) {o : ByteOrder} {m : Message Id}
    (hparse : Message.parse K o data = .ok m) : Announced K n.ecdsaPair n.graph.mEcdh m := by
  obtain ⟨n₀, mEcdh, _, houtbox, _, hrun⟩ := h.constructed
  have hconstructed : Since K H.byteOrder (fun _ m => Announced K n₀.ecdsaPair mEcdh m)
      { n₀ with graph := (emptyGraph (n₀.id K) mEcdh).storeVertice { newVertice (n₀.id K) with
        state := some ⟨n₀.id K, 0 - 1, K.ecdhPublicKey mEcdh, ∅⟩ } }
      (final (Graph.construct K H mEcdh n₀)) :=
    construct_keeps (since_withstands fun m hm _ => hm) (since_refl _)
  rw [hrun] at hconstructed
  obtain ⟨hpair, hkey⟩ := hconstructed.1
  rcases fresh_caused hconstructed hdata with hold | ⟨m', hbinary, hannounced⟩
  · have hempty : data ∈ n₀.wire.outbox channel := hold
    rw [houtbox] at hempty
    cases hempty
  · obtain rfl := parse_toBinary hK hbinary hparse
    rw [final_ok] at hpair hkey
    rw [hpair, hkey]
    exact hannounced

end Networks

-- Two nodes greet each other, and one sends the other a message.
namespace Sample
open LegioNode.Sample (host)
open PublishedTable.Sample (started created)

abbrev crypto := LegioCrypto.Sample.crypto

theorem greeting_explained :
    ∃ fresh, (run crypto host (started 1) [.addChannel 0, .update]).wire.outbox 0 = fresh ∧
      fresh.length = 1 ∧ ∀ data ∈ fresh, ∃ before ev after m,
        ([.addChannel 0, .update] : List (NodeEvent (Fin 4) ℕ)) = before ++ ev :: after ∧
        m.toBinary crypto host.byteOrder = .ok data ∧
        Cause crypto host.byteOrder (run crypto host (started 1) before) ev 0 m := by
  obtain ⟨fresh, houtbox, hfresh⟩ := traffic_explained (created 1) [.addChannel 0, .update] 0
  have hempty : (started 1).wire.outbox 0 = [] := by decide +kernel
  have hone : ((run crypto host (started 1)
      [.addChannel 0, .update]).wire.outbox 0).length = 1 := by
    decide +kernel
  rw [hempty, List.nil_append] at houtbox
  exact ⟨fresh, houtbox, houtbox ▸ hone, hfresh⟩

def net : Network Bool (Fin 4) ℕ where
  owner
    | 0 => some false
    | 1 => some true
    | _ => none
  peer
    | 0 => 1
    | 1 => 0
    | c => c
  peer_peer
    | 0 | 1 | _ + 2 => rfl
  host _ := host

def before : World Bool (Fin 4) (Fin 4) (Fin 4) ℕ where
  nodes v := started (if v then 2 else 1)
  known := []
  told _ := []
  greeted _ := []

def events : List (Event Bool (Fin 4) ℕ) :=
  [.act false (.addChannel 0), .act true (.addChannel 1), .act false .update, .act true .update,
    .deliver 0, .deliver 1, .deliver 0,
    .act true (.send .user 1 [104, 105] DirectMessages.Sample.random)]

def sent : World Bool (Fin 4) (Fin 4) (Fin 4) ℕ := events.foldl (World.step crypto net) before

theorem before_start : Start crypto net before where
  created v := by
    cases v with
    | false => exact created 1
    | true => exact created 2
  identities := by decide +kernel
  known := rfl
  told _ := rfl
  greeted _ := rfl

end Sample

end DirectTraffic
