import Legio.AuthenticKeys

set_option linter.style.header false

/-! Direct messages arrive. The numbers of a transport follow its calls, so what its receiver has
recorded of it stays behind the last call, and a message that waits at an open channel to its
receiver reaches the callback there, whatever else happens in between. -/
namespace ArrivingMessages

open LegioBinary LegioCrypto LegioMessage LegioNode Containers ExceptionStates GraphInvariants
open NodeInvariants NodeRuns NeighborBindings ReplayFilter SignedProvenance TransportSteps
open DeliveredMessages DirectMessages DirectTraffic PayloadOrigins AuthenticKeys
open NodeNetwork (arrive)

variable {V Id Pair Ecdh Chan : Type}

def called : NodeEvent Id Chan → Option Port
  | .send port _ _ _ => some port
  | .broadcast port _ => some port
  | _ => none

def advanced (call : Option Port) (number : Port → UInt32) : Port → UInt32 :=
  match call with
  | none => number
  | some port => Function.update number port (number port + 1)

section Numbers
variable {n : Node Id Pair Ecdh Chan} {m : Message Id}

theorem counters_setTransport (n : Node Id Pair Ecdh Chan) (port : Port) (t : Transport Id) :
    counters (n.setTransport port t) = Function.update (counters n) port t.mSendSequence := by
  funext port'
  by_cases h : port' = port
  · subst h
    rw [Function.update_self, counters, transport_setTransport]
  · rw [Function.update_of_ne h, counters, transport_other n h]
    rfl

theorem counters_same (n : Node Id Pair Ecdh Chan) (port : Port) {t : Transport Id}
    (h : t.mSendSequence = (n.transport port).mSendSequence) :
    counters (n.setTransport port t) = counters n := by
  rw [counters_setTransport, h]
  exact Function.update_eq_self port (counters n)

theorem counted_transports (b : Port → UInt32) :
    OfTransports fun n : Node Id Pair Ecdh Chan => counters n = b := by
  intro n n' hsame hn
  rw [← hn]
  funext port
  rw [counters, counters, hsame]

abbrev KeepsCounters {α : Type} (b : Port → UInt32) (f : NodeM Id Pair Ecdh Chan α) : Prop :=
  Keeps (fun n => counters n = b) f

variable [LinearOrder Id] [DecidableEq Chan] {K : CryptoPP Id Pair Ecdh} {H : Host Id}
  (b : Port → UInt32)

omit [DecidableEq Chan] in
theorem counted_checkSequence (port : Port) (id : Id) (sequence : UInt32) :
    KeepsCounters b (Node.checkSequence port id sequence : NodeM Id Pair Ecdh Chan Bool) := by
  intro n hn
  obtain ⟨table, htable⟩ := checkSequence_kept (n.transport port) id sequence
  rw [checkSequence_run, final_ok]
  exact (counters_same n port (by rw [htable])).trans hn

omit [LinearOrder Id] [DecidableEq Chan] in
theorem counted_callback (port : Port) (m : Message Id) (id : Id) (payload : Binary) :
    KeepsCounters b (Node.callback port m id payload : NodeM Id Pair Ecdh Chan Unit) :=
  keeps_modify fun n hn => (counters_same n port (by rfl)).trans hn

omit [DecidableEq Chan] in
theorem counted_incoming (port : Port) (m : Message Id) (id : Id) :
    KeepsCounters b (Transport.incoming K port m id : NodeM Id Pair Ecdh Chan Unit) :=
  fun n hn => incoming_reaches K (counted_callback b port m id)
    (counted_checkSequence b port id m.sequence n hn)

theorem counted_transportMessage (port : Port) (m : Message Id) (channel : Option Chan) :
    KeepsCounters b (Transport.notifyMessage K H port m channel) := by
  refine keeps_get_bind fun n hn => ?_
  cases m.source with
  | none => exact hn
  | some id =>
    dsimp only
    split_ifs
    · exact hn
    · cases port with
      | signaling => exact counted_incoming b .signaling m id n hn
      | user =>
        change counters (final (BroadcastableTransport.incoming K H m id channel n)) = b
        rw [BroadcastableTransport.incoming]
        cases m.destination with
        | some _ => exact counted_incoming b .user m id n hn
        | none =>
          refine keeps_bind (counted_checkSequence b .user id m.sequence) (fun fresh => ?_) n hn
          cases fresh with
          | false => exact keeps_pure _
          | true =>
            exact keeps_bind (keeps_modify fun n hn => hn) fun _ =>
              counted_callback b .user m id m.body

theorem counted_route (m : Message Id) (from_ : Option Chan) :
    KeepsCounters b (Node.route K H m from_) :=
  route_keeps (fun _ _ hn => hn) (fun m =>
    keeps_bind (transports_graphMessage (counted_transports b) m from_) fun _ =>
      keeps_bind (counted_transportMessage b .signaling m from_) fun _ =>
        counted_transportMessage b .user m from_) m

omit [LinearOrder Id] [DecidableEq Chan] in
theorem made_counters (n : Node Id Pair Ecdh Chan) (port : Port) (body : Binary)
    (destination : Option Id) :
    counters (final (Transport.makeMessage K H port body destination n)) =
      advanced (some port) (counters n) := by
  rcases Nat.lt_or_ge uint16Max body.length with hlong | hfits
  · rw [makeMessage_too_long H n port destination hlong, final, counters_setTransport]
    rfl
  · obtain ⟨m, hrun, _⟩ := makeMessage_spec (K := K) H n port destination hfits
    rw [hrun, final_ok, counters_setTransport]
    rfl

theorem counters_event (n : Node Id Pair Ecdh Chan) (ev : NodeEvent Id Chan) :
    ev.apply K H n = n ∨ counters (ev.apply K H n) = advanced (called ev) (counters n) := by
  cases ev with
  | addChannel channel => exact Or.inr rfl
  | removeChannel channel => exact Or.inr rfl
  | addNeighbor | removeNeighbor =>
    exact Or.inr (transports_changeNeighbors (counted_transports _) _ n rfl)
  | status isOpen => exact Or.inr rfl
  | update => exact Or.inr (transports_update (counted_transports _) n rfl)
  | received channel data =>
    right
    change counters (Node.onMessage K H n channel data) = counters n
    rw [Node.onMessage]
    cases Message.parse K H.byteOrder data with
    | error e => rfl
    | ok m => exact counted_route (counters n) m (some channel) n rfl
  | broadcast port payload =>
    cases port with
    | signaling => exact Or.inl rfl
    | user =>
      right
      exact final_bind (I := fun n' => counters n' = advanced (some .user) (counters n))
        (made_counters n .user payload none) fun m => keeps_modify fun n hn => hn
  | send port remoteId payload random =>
    change final (Transport.send K H port remoteId payload random n) = n ∨ _
    rw [Transport.send]
    rcases directMessage_sealed (K := K) (H := H) n port remoteId payload random with
      ⟨e, hrun⟩ | ⟨body, _, hrun⟩
    · rw [bind_error hrun]
      exact Or.inl rfl
    · right
      have hmade := made_counters (K := K) (H := H) n port body (some remoteId)
      rw [← hrun] at hmade
      refine final_bind (I := fun n' => counters n' = advanced (some port) (counters n)) hmade
        fun m n' hn' => ?_
      rw [Node.send]
      split_ifs
      · exact counted_route _ m none n' hn'
      · exact hn'

omit b in
theorem counters_quiet {ev : NodeEvent Id Chan} {port : Port} (h : called ev ≠ some port) :
    counters (ev.apply K H n) port = counters n port := by
  rcases counters_event (K := K) (H := H) n ev with hsame | hadvanced
  · rw [hsame]
  · rw [hadvanced]
    cases hcalled : called ev with
    | none => rfl
    | some port' =>
      have hport : port ≠ port' := fun heq => h (heq ▸ hcalled)
      exact Function.update_of_ne hport ..

end Numbers

section Sending
variable [LinearOrder Id] [DecidableEq Chan] {K : CryptoPP Id Pair Ecdh} {H : Host Id}
  {n : Node Id Pair Ecdh Chan} {port : Port} {remoteId : Id} {payload : Binary} {c : Chan}
  {s : State Id} {e : Ecdh}

theorem sent_run (hE : EcdhLaws K) (hG : GcmLaws K) (hS : StreamLaws K)
    (hremote : remoteId ≠ n.id K) (hstate : n.graph.get remoteId = .ok s)
    (hkey : s.ecdhPublic = K.ecdhPublicKey e) (hroute : n.routing.findRoute remoteId = some c)
    (hopen : n.wire.isOpen c = true) (hfits : payload.length ≤ payloadLimit) (port : Port)
    (random : Iv) :
    ∃ m tail, SignedBy K n.ecdsaPair m ∧ m.type = (n.transport port).mType ∧
      m.sequence = counters n port ∧ m.destination = some remoteId ∧
      opened K e port m = some (payload ++ tail) ∧ tail.length = gcmTagSize ∧
      (final (Transport.send K H port remoteId payload random n)).wire.outbox =
        Function.update n.wire.outbox c
          (n.wire.outbox c ++ [m.signedBytes K ++ m.signature]) := by
  obtain ⟨body, hencrypt, hsource, hdestination, hiv, hlength⟩ :=
    encrypt_spec hE hG payload n.graph.mEcdh e random
  have hivlength : body.iv.length = aesBlockSize := by
    rw [hiv]
    exact random.property
  have hbytes : body.toBinary.length ≤ uint16Max := by
    rw [length_toBinary hE hsource hdestination hivlength, hlength]
    unfold payloadLimit at hfits
    unfold ecdhKeySize aesBlockSize gcmTagSize uint16Max
    omega
  obtain ⟨m, hrun, hsigned, htype, hsequence, hto, hbody⟩ :=
    makeMessage_spec (K := K) H n port (some remoteId) hbytes
  generalize htransport : { n.transport port with
    mSendSequence := (n.transport port).mSendSequence + 1
    issued := (n.transport port).issued ++ [m] } = t at hrun
  have hdirect : Transport.directMessage K H port remoteId payload random n =
      .ok m (n.setTransport port t) := by
    simp only [Transport.directMessage, get_bind_run, hstate, hkey, hencrypt]
    exact hrun
  obtain ⟨tail, hdecrypt, htail⟩ := decrypt_encrypt hE hG hS hencrypt
  refine ⟨m, tail, hsigned, htype, hsequence, hto, ?_, htail, ?_⟩
  · have hparse : CipherBody.parse m.body = .ok body := by
      rw [hbody]
      apply LegioMessage.parse_toBinary
      · rw [hsource, hE.public_length]
      · rw [hdestination, hE.public_length]
      · exact hivlength
    simp only [opened, hto, hparse, hdestination, ne_eq, not_true_eq_false, if_false, hdecrypt]
    rfl
  · have haddressed : m.destination.isSome := by rw [hto]; rfl
    have hbinary := toBinary_eq K H.byteOrder m hsigned.body
    have hcore : (n.setTransport port t).id K = n.id K ∧
        (n.setTransport port t).routing = n.routing ∧
        (n.setTransport port t).wire = n.wire := by
      cases port <;> exact ⟨rfl, rfl, rfl⟩
    obtain ⟨hid, hrouting, hwire⟩ := hcore
    have hsend : n.wire.send c (m.signedBytes K ++ m.signature) = .ok { n.wire with
        outbox := Function.update n.wire.outbox c
          (n.wire.outbox c ++ [m.signedBytes K ++ m.signature]) } := if_pos hopen
    rw [Transport.send, bind_ok hdirect, Node.send, if_pos haddressed, Node.route, get_bind_run,
      Routing.route, hsigned.source, if_neg (Option.some_ne_none _), hto]
    dsimp only
    rw [hid, if_neg hremote, hrouting, hroute]
    dsimp only
    rw [hbinary]
    dsimp only
    rw [hwire, hsend]
    rfl

end Sending

section Receiver
variable [LinearOrder Id] {K : CryptoPP Id Pair Ecdh} {H : Host Id} {pair : Pair} {ecdh : Ecdh}
  {received : List Binary} {n : Node Id Pair Ecdh Chan} {m m' : Message Id} {id own : Id}
  {first sequence : UInt32} {used : ℕ} {port : Port} {payload : Binary} {t : Transport Id}

def Older (first : UInt32) (used : ℕ) (sequence : UInt32) : Prop :=
  ∃ k < used, sequence = first + UInt32.ofNat k

def Behind (first : UInt32) (used : ℕ) (id : Id) (sequences : AList fun _ : Id => UInt32) :
    Prop :=
  ∀ last, sequences.lookup id = some last → Older first used last

/-- A transport that has been given the message already, or would accept it. -/
def Receptive (first : UInt32) (used : ℕ) (d : Delivery Id) (box : Inbox Id) : Prop :=
  d ∈ box.delivered ∨ Behind first used d.remoteId box.mSequences

omit [LinearOrder Id] in
theorem older_mono {used' : ℕ} (h : Older first used sequence) (hle : used ≤ used') :
    Older first used' sequence := by
  obtain ⟨k, hk, rfl⟩ := h
  exact ⟨k, hk.trans_le hle, rfl⟩

theorem behind_checked (h : Behind first used id t.mSequences)
    (hsequence : Older first used sequence) :
    Behind first used id (t.checkSequence id sequence).2.mSequences := by
  unfold Transport.checkSequence
  cases hlast : t.mSequences.lookup id with
  | none =>
    intro last hlookup
    dsimp only at hlookup
    rw [lookup_emplace_of_notMem _ (AList.lookup_eq_none.mp hlast)] at hlookup
    cases hlookup
    exact hsequence
  | some recorded =>
    dsimp only
    split_ifs
    · intro last hlookup
      rw [AList.lookup_insert] at hlookup
      cases hlookup
      exact hsequence
    · exact h

theorem fresh_checked (h : Behind first used id t.mSequences) (hused : used ≤ sequenceWindow) :
    (t.checkSequence id (first + UInt32.ofNat used)).1 = true := by
  unfold Transport.checkSequence
  cases hlast : t.mSequences.lookup id with
  | none => rfl
  | some last =>
    obtain ⟨k, hk, rfl⟩ := h last hlast
    have hnewer := (compareSequence_shift first hused (hk.le.trans hused)).mpr hk
    dsimp only
    rw [if_pos hnewer]

theorem routed_keeps {d : Delivery Id} (h : d ∈ (n.transport port).delivered) :
    d ∈ (routed K ecdh own n m port).delivered := by
  rw [routed]
  cases posted own m with
  | none => exact h
  | some address =>
    dsimp only
    by_cases hport : port = address.1
    · subst hport
      rw [Function.update_self, taken]
      dsimp only
      split_ifs
      · exact List.mem_append_left _ h
      · exact h
    · rw [Function.update_of_ne hport]
      exact h

theorem routed_receptive (hm : m.sequence = first + UInt32.ofNat used)
    (hused : used ≤ sequenceWindow) (hopened : opened K ecdh port m = some payload)
    (h : Receptive first used ⟨m, id, payload⟩ (inbox n port))
    (hposted : posted own m' = some (port, id) → Older first used m'.sequence ∨ m' = m) :
    Receptive first used ⟨m, id, payload⟩ (routed K ecdh own n m' port) := by
  rcases h with hgiven | hbehind
  · exact Or.inl (routed_keeps hgiven)
  rw [routed]
  cases haddress : posted own m' with
  | none => exact Or.inr hbehind
  | some address =>
    obtain ⟨port', id'⟩ := address
    dsimp only
    by_cases hport : port = port'
    · subst hport
      rw [Function.update_self]
      by_cases hid : id = id'
      · subst hid
        rcases hposted haddress with holder | rfl
        · exact Or.inr (behind_checked hbehind holder)
        · left
          have hfresh := fresh_checked hbehind hused
          rw [taken]
          dsimp only
          rw [hm, if_pos hfresh, delivery, hopened]
          exact List.mem_append_right _ (List.mem_singleton_self _)
      · right
        intro last hlookup
        rw [taken] at hlookup
        dsimp only at hlookup
        rw [checkSequence_other _ hid] at hlookup
        exact hbehind last hlookup
    · rw [Function.update_of_ne hport]
      exact Or.inr hbehind

theorem routed_given (hm : m.sequence = first + UInt32.ofNat used)
    (hused : used ≤ sequenceWindow) (hopened : opened K ecdh port m = some payload)
    (h : Receptive first used ⟨m, id, payload⟩ (inbox n port))
    (hposted : posted own m = some (port, id)) :
    ⟨m, id, payload⟩ ∈ (routed K ecdh own n m port).delivered := by
  rcases h with hgiven | hbehind
  · exact routed_keeps hgiven
  rw [routed, hposted]
  dsimp only
  rw [Function.update_self, taken]
  dsimp only
  rw [hm, if_pos (fresh_checked hbehind hused), delivery, hopened]
  exact List.mem_append_right _ (List.mem_singleton_self _)

variable [DecidableEq Chan]

theorem receptive_event (hsound : Sound K H pair ecdh received n) (hid : id ≠ K.publicKey pair)
    (hm : m.sequence = first + UInt32.ofNat used) (hused : used ≤ sequenceWindow)
    (hopened : opened K ecdh port m = some payload)
    (h : Receptive first used ⟨m, id, payload⟩ (inbox n port)) (ev : NodeEvent Id Chan)
    (hdata : ∀ data ∈ ev.data, ∀ m', Message.parse K H.byteOrder data = .ok m' →
      m'.source = some id → m'.type = port.type → Older first used m'.sequence ∨ m' = m) :
    Receptive first used ⟨m, id, payload⟩ (inbox (ev.apply K H n) port) := by
  rcases inbox_event hsound ev with
    ⟨hstill, _⟩ | ⟨m', data, hbytes, hparse, hinbox⟩ | ⟨m', hown, _, hinbox⟩
  · rw [hstill]
    exact h
  · rw [hinbox]
    refine routed_receptive hm hused hopened h fun hposted => ?_
    obtain ⟨hsource, htype⟩ := posted_spec hposted
    exact hdata data (hbytes ▸ List.mem_singleton_self data) m' hparse hsource htype
  · rw [hinbox]
    refine routed_receptive hm hused hopened h fun hposted => ?_
    have hsource := (posted_spec hposted).1
    rw [hown, Option.some.injEq] at hsource
    exact absurd hsource.symm hid

theorem received_given (hsound : Sound K H pair ecdh received n)
    (hm : m.sequence = first + UInt32.ofNat used) (hused : used ≤ sequenceWindow)
    (hopened : opened K ecdh port m = some payload)
    (h : Receptive first used ⟨m, id, payload⟩ (inbox n port)) {data : Binary}
    (hparse : Message.parse K H.byteOrder data = .ok m)
    (hposted : posted (K.publicKey pair) m = some (port, id)) (channel : Chan) :
    ⟨m, id, payload⟩ ∈ ((Node.onMessage K H n channel data).transport port).delivered := by
  have hown : n.id K = K.publicKey pair := by rw [Node.id, hsound.ecdsaPair]
  have hgiven := routed_given hm hused hopened h hposted
  rw [← hown, ← route_inbox (H := H) (fun port => (hsound.transports port).typed) hsound.mEcdh
    (some channel)] at hgiven
  rw [Node.onMessage, hparse]
  exact hgiven

end Receiver

section Networks
variable [DecidableEq V] [LinearOrder Id] [DecidableEq Chan] {K : CryptoPP Id Pair Ecdh}
  {net : Network V Id Chan} {pair : V → Pair} {ecdh : V → Ecdh} {Q : V → Message Id → Prop}
  {w : World V Id Pair Ecdh Chan} {event : Event V Id Chan} {x y : V} {port : Port}
  {first : UInt32} {used : ℕ}

def callCount (x : V) (port : Port) (events : List (Event V Id Chan)) : ℕ :=
  events.countP fun
    | .act v ev => v = x ∧ called ev = some port
    | _ => false

def deliveries (channel : Chan) (events : List (Event V Id Chan)) : ℕ :=
  events.countP fun
    | .deliver c => c = channel
    | _ => false

theorem receive_keeps {I : Node Id Pair Ecdh Chan → Prop} {v : V} {channel : Chan} {data : Binary}
    (hreceive : ∀ n, I n → I (Node.onMessage K (net.host y) n channel data))
    (h : I (w.nodes y)) : I ((w.receive K net v channel data).nodes y) := by
  change I (Function.update w.nodes v (arrive K (net.host v) (w.nodes v) channel data) y)
  by_cases hv : y = v
  · subst hv
    rw [Function.update_self, arrive]
    split_ifs
    · exact hreceive _ h
    · exact h
  · rw [Function.update_of_ne hv]
    exact h

theorem node_step {I : Node Id Pair Ecdh Chan → Prop} (h : Account K net pair ecdh Q w)
    (hevent : w.Possible K net event)
    (hact : ∀ ev, event = .act y ev → ev.data = [] →
      I (ev.apply K (net.host y) (w.nodes y)))
    (hpop : ∀ n channel, event = .deliver channel → I n →
      I { n with wire := n.wire.pop channel })
    (hreceive : ∀ n channel data, Accounted K pair Q data → I n →
      I (Node.onMessage K (net.host y) n channel data))
    (hy : I (w.nodes y)) : I ((w.step K net event).nodes y) := by
  cases event with
  | act v ev =>
    change I (Function.update w.nodes v (ev.apply K (net.host v) (w.nodes v)) y)
    by_cases hv : y = v
    · subst hv
      rw [Function.update_self]
      exact hact ev rfl hevent
    · rw [Function.update_of_ne hv]
      exact hy
  | deliver channel =>
    rw [World.step]
    cases net.owner channel with
    | none => exact hy
    | some u =>
      dsimp only
      cases hout : (w.nodes u).wire.outbox channel with
      | nil => exact hy
      | cons data rest =>
        have hdata : Accounted K pair Q data := h.outbox u channel data (hout ▸ List.mem_cons_self)
        have hpopped : I (Function.update w.nodes u { w.nodes u with
            wire := (w.nodes u).wire.pop channel } y) := by
          by_cases hu : y = u
          · subst hu
            rw [Function.update_self]
            exact hpop _ channel rfl hy
          · rw [Function.update_of_ne hu]
            exact hy
        dsimp only
        cases net.remote channel with
        | none => exact hpopped
        | some v => exact receive_keeps (fun n => hreceive n _ data hdata) hpopped
  | inject channel data =>
    rw [World.step]
    cases net.remote channel with
    | none => exact hy
    | some v => exact receive_keeps (fun n => hreceive n _ data (injected_accounted h hevent)) hy

theorem answers_step {I : Node Id Pair Ecdh Chan → Prop} (h : Account K net pair ecdh Q w)
    (hevent : w.Possible K net event)
    (hevents : ∀ n received (ev : NodeEvent Id Chan), Answers K net pair ecdh Q y received n →
      (∀ data ∈ ev.data, Accounted K pair Q data) → I n → I (ev.apply K (net.host y) n))
    (hwire : ∀ n wire, I n → I { n with wire }) (hy : I (w.nodes y)) :
    I ((w.step K net event).nodes y) := by
  obtain ⟨received, hanswers⟩ := h.nodes y
  refine (node_step (I := fun n => (∃ received, Answers K net pair ecdh Q y received n) ∧ I n)
    h hevent (fun ev _ hev => ?_) (fun n channel _ hn => ?_) (fun n channel data hdata hn => ?_)
    ⟨⟨received, hanswers⟩, hy⟩).2
  · have hnone : ∀ data ∈ ev.data, Accounted K pair Q data := by
      rw [hev]
      exact fun _ hdata => (List.not_mem_nil hdata).elim
    exact ⟨⟨_, answers_event hanswers ev hnone⟩, hevents _ _ ev hanswers hnone hy⟩
  · obtain ⟨⟨received, hanswers⟩, hn⟩ := hn
    exact ⟨⟨received, answers_pop hanswers channel⟩, hwire n _ hn⟩
  · obtain ⟨⟨received, hanswers⟩, hn⟩ := hn
    have hall : ∀ bytes ∈ NodeEvent.data (.received channel data : NodeEvent Id Chan),
        Accounted K pair Q bytes := by
      intro bytes hbytes
      rw [List.mem_singleton.mp hbytes]
      exact hdata
    exact ⟨⟨_, answers_event hanswers (.received channel data) hall⟩,
      hevents n _ (.received channel data) hanswers hall hn⟩

def AllOlder (x : V) (port : Port) (first : UInt32) (used : ℕ) : V → Message Id → Prop :=
  fun y m => y = x → m.type = port.type → Older first used m.sequence

omit [DecidableEq V] [DecidableEq Chan] in
theorem asked_called {n : Node Id Pair Ecdh Chan} {ev : NodeEvent Id Chan} {m : Message Id}
    (h : Asked K n ev m) : ∃ port', called ev = some port' ∧ m.type = port'.type ∧
      m.sequence = counters n port' := by
  cases h with
  | broadcast call htype hnumbered _ => exact ⟨.user, by rw [call]; rfl, htype, hnumbered⟩
  | send port' _ _ _ call htype hnumbered _ _ => exact ⟨port', by rw [call]; rfl, htype, hnumbered⟩

/-- After a run the next number tells how many were given out, and all messages are older. -/
theorem run_numbered (hK : EcdsaLaws K) {w₀ : World V Id Pair Ecdh Chan} (h₀ : Start K net w₀)
    {events : List (Event V Id Chan)} (h : Run K net w₀ events w) (x : V) (port : Port) :
    ∃ used ≤ callCount x port events,
      counters (w.nodes x) port = counters (w₀.nodes x) port + UInt32.ofNat used ∧
      Account K net (fun v => (w₀.nodes v).ecdsaPair) (fun v => (w₀.nodes v).graph.mEcdh)
        (AllOlder x port (counters (w₀.nodes x) port) used) w := by
  have hannounced (used : ℕ) (y : V) (m : Message Id)
      (ha : Announced K (w₀.nodes y).ecdsaPair (w₀.nodes y).graph.mEcdh m) :
      AllOlder x port (counters (w₀.nodes x) port) used y m :=
    fun _ htype => absurd htype (announced_type ha port)
  induction h with
  | start => exact ⟨0, Nat.le_refl _, by simp, account_start hK h₀ (hannounced 0)⟩
  | @step events w event _ hevent ih =>
    obtain ⟨used, hused, hcounter, haccount⟩ := ih
    have hcount : callCount x port events ≤ callCount x port (events ++ [event]) := by
      rw [callCount, callCount, List.countP_append]
      exact Nat.le_add_right _ _
    -- without a call the counter of `x` stays
    have hstays (hother : ∀ ev, event = .act x ev → called ev ≠ some port) :
        counters ((w.step K net event).nodes x) port = counters (w.nodes x) port := by
      refine node_step (I := fun n => counters n port = counters (w.nodes x) port) haccount hevent
        (fun ev hact _ => counters_quiet (hother ev hact)) (fun n channel _ hn => hn)
        (fun n channel data _ hn => ?_) rfl
      have hquiet : called (.received channel data : NodeEvent Id Chan) ≠ some port := by
        simp [called]
      exact (counters_quiet hquiet).trans hn
    cases event with
    | deliver channel =>
      exact ⟨used, hused.trans hcount, (hstays (by simp)).trans hcounter,
        account_deliver hK h₀.identities (hannounced used) haccount channel⟩
    | inject channel data =>
      exact ⟨used, hused.trans hcount, (hstays (by simp)).trans hcounter,
        account_inject hK h₀.identities (hannounced used) haccount hevent⟩
    | act y ev =>
      by_cases hcall : y = x ∧ called ev = some port
      · obtain ⟨rfl, hport⟩ := hcall
        have hnode : (w.step K net (.act y ev)).nodes y =
            ev.apply K (net.host y) (w.nodes y) := Function.update_self ..
        rcases counters_event (K := K) (H := net.host y) (w.nodes y) ev with hsame | hadvanced
        · refine ⟨used, hused.trans hcount, by rw [hnode, hsame, hcounter], ?_⟩
          refine account_update haccount (v := y) rfl ?_ (fun channel data hdata => ?_)
            haccount.known
          · rw [hsame]
            exact haccount.nodes y
          · rw [hsame] at hdata
            exact Or.inl hdata
        · refine ⟨used + 1, ?_, ?_, ?_⟩
          · rw [callCount, List.countP_append, List.countP_singleton, if_pos (by simp [hport])]
            exact Nat.add_le_add_right hused 1
          · rw [hnode, hadvanced, hport, advanced, Function.update_self, hcounter,
              UInt32.ofNat_add, UInt32.add_assoc]
            rfl
          · have hmono := account_mono (fun v m hm heq htype =>
              older_mono (hm heq htype) (Nat.le_succ used)) haccount
            refine account_act hK h₀.identities (hannounced (used + 1)) hmono y hevent
              fun m hasked _ htype => ?_
            obtain ⟨port', hcalled, htype', hsequence⟩ := asked_called hasked
            rw [hport, Option.some.injEq] at hcalled
            subst hcalled
            exact ⟨used, Nat.lt_succ_self used, hsequence.trans hcounter⟩
      · refine ⟨used, hused.trans hcount, (hstays ?_).trans hcounter, ?_⟩
        · rintro ev' hev hport
          cases hev
          exact hcall ⟨rfl, hport⟩
        · refine account_act hK h₀.identities (hannounced used) haccount y hevent
            fun m hasked heq htype => ?_
          obtain ⟨port', hcalled, htype', _⟩ := asked_called hasked
          rw [type_inj (htype'.symm.trans htype)] at hcalled
          exact absurd ⟨heq, hcalled⟩ hcall

variable (K) (net) (pair) (ecdh)

structure Journey where
  sender : V
  receiver : V
  port : Port
  channel : Chan
  message : Message Id
  data : Binary
  payload : Binary
  first : UInt32
  used : ℕ
  apart : K.publicKey (pair sender) ≠ K.publicKey (pair receiver)
  owner : net.owner channel = some sender
  remote : net.remote channel = some receiver
  source : message.source = some (K.publicKey (pair sender))
  type : message.type = port.type
  destination : message.destination = some (K.publicKey (pair receiver))
  sequence : message.sequence = first + UInt32.ofNat used
  window : used ≤ sequenceWindow
  parses : ∀ o, Message.parse K o data = .ok message
  opens : opened K (ecdh receiver) port message = some payload

variable {K} {net} {pair} {ecdh}

def Journey.delivery (j : Journey K net pair ecdh) : Delivery Id :=
  ⟨j.message, K.publicKey (pair j.sender), j.payload⟩

/-- Of what the sender has signed for the transport, the message is the last. -/
def Journey.Latest (j : Journey K net pair ecdh) : V → Message Id → Prop :=
  fun y m => y = j.sender → m.type = j.port.type →
    Older j.first j.used m.sequence ∨ m = j.message

/-- The callback has been given the message, or it waits at the channel behind others. -/
def Journey.Waits (j : Journey K net pair ecdh) (total count : ℕ)
    (w : World V Id Pair Ecdh Chan) : Prop :=
  j.delivery ∈ ((w.nodes j.receiver).transport j.port).delivered ∨
    ∃ before after, (w.nodes j.sender).wire.outbox j.channel = before ++ j.data :: after ∧
      before.length + count = total

structure Journey.Pending (j : Journey K net pair ecdh) (total count : ℕ)
    (w : World V Id Pair Ecdh Chan) : Prop where
  account : Account K net pair ecdh j.Latest w
  registered : net.peer j.channel ∈ (w.nodes j.receiver).routing.mChannels
  receptive : Receptive j.first j.used j.delivery (inbox (w.nodes j.receiver) j.port)
  waits : j.Waits total count w

/-- Neither does the sender send another message of the transport, nor does the receiver drop
the channel. -/
def Journey.Undisturbed (j : Journey K net pair ecdh) (event : Event V Id Chan) : Prop :=
  ∀ v ev, event = .act v ev → (v = j.sender → called ev ≠ some j.port) ∧
    (v = j.receiver → ∀ channel, ev = .removeChannel channel → channel ≠ net.peer j.channel)

section Nodes
variable {n : Node Id Pair Ecdh Chan} {H : Host Id} {c : Chan}

omit [DecidableEq V] in
theorem registered_event {ev : NodeEvent Id Chan} (hev : ev.data = [])
    (hkept : ∀ channel, ev = .removeChannel channel → channel ≠ c)
    (h : c ∈ n.routing.mChannels) : c ∈ (ev.apply K H n).routing.mChannels := by
  have hlinks : (ev.apply K H n).routing.mChannels =
      (RoutingLinks.run K H n (RoutingLinks.calls ev)).routing.mChannels :=
    congrArg Prod.fst (RoutingLinks.links_act (K := K) H n hev)
  rw [hlinks]
  cases ev with
  | addChannel channel => exact Finset.mem_insert_of_mem h
  | removeChannel channel => exact Finset.mem_erase.mpr ⟨(hkept channel rfl).symm, h⟩
  | addNeighbor | removeNeighbor | status | update | send | broadcast =>
    exact (RoutingLinks.mem_run H _ (by simp [RoutingLinks.calls])
      (by simp [RoutingLinks.calls])).mpr h
  | received => cases hev

omit [DecidableEq V] in
theorem registered_received (channel : Chan) (data : Binary) (h : c ∈ n.routing.mChannels) :
    c ∈ (Node.onMessage K H n channel data).routing.mChannels := by
  rcases RoutingLinks.links_onMessage (K := K) H n channel data with
    hsame | ⟨_, source, _, _, _, hadded⟩
  · have hchannels : (Node.onMessage K H n channel data).routing.mChannels =
        n.routing.mChannels := congrArg Prod.fst hsame
    exact hchannels ▸ h
  · have hchannels : (Node.onMessage K H n channel data).routing.mChannels =
        (RoutingLinks.run K H n [.addNeighbor source channel]).routing.mChannels :=
      congrArg Prod.fst hadded
    rw [hchannels]
    exact (RoutingLinks.mem_run H _ (by simp) (by simp)).mpr h

theorem delivered_event {pair : Pair} {ecdh : Ecdh} {received : List Binary}
    (hsound : Sound K H pair ecdh received n) {d : Delivery Id}
    (h : d ∈ (n.transport port).delivered) (ev : NodeEvent Id Chan) :
    d ∈ ((ev.apply K H n).transport port).delivered := by
  have hrouted {m : Message Id}
      (hinbox : inbox (ev.apply K H n) = routed K ecdh (K.publicKey pair) n m) :
      d ∈ ((ev.apply K H n).transport port).delivered := by
    have hdelivered : ((ev.apply K H n).transport port).delivered = _ :=
      congrArg Inbox.delivered (congrFun hinbox port)
    rw [hdelivered]
    exact routed_keeps h
  rcases inbox_event hsound ev with ⟨hstill, _⟩ | ⟨_, _, _, _, hinbox⟩ | ⟨_, _, _, hinbox⟩
  · have hdelivered : ((ev.apply K H n).transport port).delivered =
        (n.transport port).delivered := congrArg Inbox.delivered (congrFun hstill port)
    rw [hdelivered]
    exact h
  · exact hrouted hinbox
  · exact hrouted hinbox

end Nodes

section Journeys
variable {j : Journey K net pair ecdh} {total count : ℕ}

section Steps
variable (h : Account K net pair ecdh j.Latest w) (hevent : w.Possible K net event)
include h hevent

theorem step_account (hK : EcdsaLaws K)
    (hid : Function.Injective fun v => K.publicKey (pair v)) (hundisturbed : j.Undisturbed event) :
    Account K net pair ecdh j.Latest (w.step K net event) := by
  have hannounced (y : V) (m : Message Id) (ha : Announced K (pair y) (ecdh y) m) :
      j.Latest y m := fun _ htype => absurd htype (announced_type ha j.port)
  cases event with
  | act y ev =>
    refine account_act hK hid hannounced h y hevent fun m hasked hy htype => ?_
    obtain ⟨port, hcalled, htype', _⟩ := asked_called hasked
    rw [type_inj (htype'.symm.trans htype)] at hcalled
    exact absurd hcalled ((hundisturbed y ev rfl).1 hy)
  | deliver channel => exact account_deliver hK hid hannounced h channel
  | inject channel data => exact account_inject hK hid hannounced h hevent

theorem step_registered (hundisturbed : j.Undisturbed event)
    (hregistered : net.peer j.channel ∈ (w.nodes j.receiver).routing.mChannels) :
    net.peer j.channel ∈ ((w.step K net event).nodes j.receiver).routing.mChannels :=
  node_step (I := fun n => net.peer j.channel ∈ n.routing.mChannels) h hevent
    (fun ev hact hev => registered_event hev ((hundisturbed _ ev hact).2 rfl) hregistered)
    (fun _ _ _ hn => hn) (fun _ channel data _ hn => registered_received channel data hn)
    hregistered

theorem step_receptive
    (hreceptive : Receptive j.first j.used j.delivery (inbox (w.nodes j.receiver) j.port)) :
    Receptive j.first j.used j.delivery
      (inbox ((w.step K net event).nodes j.receiver) j.port) :=
  answers_step (I := fun n => Receptive j.first j.used j.delivery (inbox n j.port)) h hevent
    (fun _ _ ev hanswers hdata hn => receptive_event hanswers.sound j.apart j.sequence j.window
      j.opens hn ev fun data hmem m hparse hsource htype =>
        hdata data hmem _ m j.sender hparse hsource rfl htype)
    (fun _ _ hn => hn) hreceptive

theorem step_given
    (hgiven : j.delivery ∈ ((w.nodes j.receiver).transport j.port).delivered) :
    j.delivery ∈ (((w.step K net event).nodes j.receiver).transport j.port).delivered :=
  answers_step (I := fun n => j.delivery ∈ (n.transport j.port).delivered) h hevent
    (fun _ _ ev hanswers _ hn => delivered_event hanswers.sound hn ev)
    (fun _ _ hn => hn) hgiven

theorem step_queue (hother : event ≠ .deliver j.channel) {before after : List Binary}
    (hout : (w.nodes j.sender).wire.outbox j.channel = before ++ j.data :: after) :
    ∃ after, ((w.step K net event).nodes j.sender).wire.outbox j.channel =
      before ++ j.data :: after := by
  have happends {n n' : Node Id Pair Ecdh Chan} {o : ByteOrder} {P : Chan → Message Id → Prop}
      (hn : ∃ after, n.wire.outbox j.channel = before ++ j.data :: after)
      (hsince : Since K o P n n') :
      ∃ after, n'.wire.outbox j.channel = before ++ j.data :: after := by
    obtain ⟨after, hn⟩ := hn
    obtain ⟨fresh, hfresh, _⟩ := hsince.2 j.channel
    exact ⟨after ++ fresh, by rw [hfresh, hn, List.append_assoc, List.cons_append]⟩
  obtain ⟨_, hanswers⟩ := h.nodes j.sender
  refine node_step (I := fun n => ∃ after, n.wire.outbox j.channel = before ++ j.data :: after)
    h hevent (fun ev _ _ => ?_) (fun n channel hdeliver hn => ?_)
    (fun n channel data _ hn => happends hn since_onMessage) ⟨after, hout⟩
  · exact happends ⟨after, hout⟩
      (event_caused (fun port => (hanswers.sound.transports port).typed) ev)
  · have hne : j.channel ≠ channel := fun heq => hother (heq ▸ hdeliver)
    obtain ⟨after, hn⟩ := hn
    exact ⟨after, (Function.update_of_ne hne ..).trans hn⟩

omit hevent in
/-- Serving the channel brings the message one place forward, or to the callback. -/
theorem deliver_waits
    (hregistered : net.peer j.channel ∈ (w.nodes j.receiver).routing.mChannels)
    (hreceptive : Receptive j.first j.used j.delivery (inbox (w.nodes j.receiver) j.port))
    (hwaits : ∃ before after, (w.nodes j.sender).wire.outbox j.channel =
      before ++ j.data :: after ∧ before.length + count = total) :
    j.Waits total (count + 1) (w.step K net (.deliver j.channel)) := by
  obtain ⟨before, after, hout, hlength⟩ := hwaits
  have hother : j.receiver ≠ j.sender := fun heq => j.apart (heq ▸ rfl)
  have hstep {head : Binary} {rest : List Binary}
      (hqueue : (w.nodes j.sender).wire.outbox j.channel = head :: rest) :
      (w.step K net (.deliver j.channel)).nodes =
        Function.update
          (Function.update w.nodes j.sender { w.nodes j.sender with
            wire := (w.nodes j.sender).wire.pop j.channel })
          j.receiver
          (Node.onMessage K (net.host j.receiver) (w.nodes j.receiver) (net.peer j.channel)
            head) := by
    rw [World.step, j.owner]
    dsimp only
    rw [hqueue, j.remote]
    dsimp only [World.receive]
    rw [Function.update_of_ne hother, arrive, if_pos hregistered]
  cases before with
  | cons first before =>
    right
    refine ⟨before, after, ?_, by rw [List.length_cons] at hlength; omega⟩
    rw [hstep hout, Function.update_of_ne hother.symm, Function.update_self]
    change Function.update _ j.channel _ j.channel = _
    rw [Function.update_self, hout]
    rfl
  | nil =>
    left
    obtain ⟨_, hanswers⟩ := h.nodes j.receiver
    rw [hstep hout, Function.update_self]
    refine received_given hanswers.sound j.sequence j.window j.opens hreceptive (j.parses _) ?_ _
    rw [posted_here j.source (Or.inr j.destination), j.type]
    cases j.port <;> rfl

end Steps

variable (hK : EcdsaLaws K) (hid : Function.Injective fun v => K.publicKey (pair v))
include hK hid

theorem step_pending {more : List (Event V Id Chan)}
    (h : j.Pending total (deliveries j.channel more) w) (hevent : w.Possible K net event)
    (hundisturbed : j.Undisturbed event) :
    j.Pending total (deliveries j.channel (more ++ [event])) (w.step K net event) := by
  refine ⟨step_account h.account hevent hK hid hundisturbed,
    step_registered h.account hevent hundisturbed h.registered,
    step_receptive h.account hevent h.receptive, ?_⟩
  rcases h.waits with hgiven | hwaits
  · exact Or.inl (step_given h.account hevent hgiven)
  · by_cases hdeliver : event = .deliver j.channel
    · subst hdeliver
      have hcount : deliveries j.channel (more ++ [.deliver j.channel]) =
          deliveries j.channel more + 1 := by
        rw [deliveries, List.countP_append, List.countP_singleton, if_pos (by simp)]
        rfl
      rw [hcount]
      exact deliver_waits h.account h.registered h.receptive hwaits
    · have hcount : deliveries j.channel (more ++ [event]) = deliveries j.channel more := by
        rw [deliveries, List.countP_append, List.countP_singleton, if_neg]
        · rfl
        · cases event <;> simp_all
      obtain ⟨before, after, hout, hlength⟩ := hwaits
      obtain ⟨after, hout⟩ := step_queue h.account hevent hdeliver hout
      exact Or.inr ⟨before, after, hout, hcount ▸ hlength⟩

theorem run_pending {w₁ : World V Id Pair Ecdh Chan} (h₁ : j.Pending total 0 w₁)
    {more : List (Event V Id Chan)} (h : Run K net w₁ more w)
    (hundisturbed : ∀ event ∈ more, j.Undisturbed event) :
    j.Pending total (deliveries j.channel more) w := by
  induction h with
  | start => exact h₁
  | @step more w event _ hevent ih =>
    have hpast := ih fun event hmem => hundisturbed event (List.mem_append_left _ hmem)
    exact step_pending hK hid hpast hevent
      (hundisturbed event (List.mem_append_right _ (List.mem_singleton_self _)))

end Journeys

omit [DecidableEq V] [DecidableEq Chan] in
theorem account_behind (h : Account K net pair ecdh (AllOlder x port first used) w) {v : V}
    (hother : K.publicKey (pair x) ≠ K.publicKey (pair v)) :
    Behind first used (K.publicKey (pair x)) ((w.nodes v).transport port).mSequences := by
  intro last hlookup
  obtain ⟨received, hanswers⟩ := h.nodes v
  have hsound := hanswers.sound.transports port
  obtain ⟨m, hheard, htype, rfl⟩ := hsound.sequences _ last hlookup
  rw [hsound.typed] at htype
  rcases hheard with ⟨data, hdata, hauthentic⟩ | ⟨_, _, hown⟩
  · exact hanswers.accounted data hdata _ m x hauthentic.parsed hauthentic.source rfl htype
  · exact absurd hown hother

/-- Node `x` knows the State of its neighbour `v`, and an open channel joins the two. -/
structure Joined (K : CryptoPP Id Pair Ecdh) (net : Network V Id Chan)
    (w : World V Id Pair Ecdh Chan) (x v : V) (channel : Chan) : Prop where
  owner : net.owner channel = some x
  remote : net.remote channel = some v
  state : ∃ s, (w.nodes x).graph.get ((w.nodes v).id K) = .ok s
  route : (w.nodes x).routing.findRoute ((w.nodes v).id K) = some channel
  isOpen : (w.nodes x).wire.isOpen channel = true
  registered : net.peer channel ∈ (w.nodes v).routing.mChannels

/-- A call of `x` for a neighbour joined to it sets a message on its way. -/
theorem call_pending (hK : EcdsaLaws K) (hE : EcdhLaws K) (hG : GcmLaws K) (hS : StreamLaws K)
    (h : Account K net pair ecdh (AllOlder x port first used) w)
    (hcounter : counters (w.nodes x) port = first + UInt32.ofNat used)
    (hused : used ≤ sequenceWindow) {v : V}
    (hother : K.publicKey (pair x) ≠ K.publicKey (pair v)) {c : Chan}
    (hjoined : Joined K net w x v c)
    (hkey : ∀ s, (w.nodes x).graph.get ((w.nodes v).id K) = .ok s →
      s.ecdhPublic = K.ecdhPublicKey (w.nodes v).graph.mEcdh)
    {payload : Binary} (hfits : payload.length ≤ payloadLimit) (random : Iv) :
    ∃ j : Journey K net pair ecdh, (j.sender = x ∧ j.receiver = v ∧ j.port = port ∧
        j.channel = c) ∧ (∃ tail, j.payload = payload ++ tail ∧ tail.length = gcmTagSize) ∧
      j.Pending ((w.nodes x).wire.outbox c).length 0
        (w.step K net (.act x (.send port ((w.nodes v).id K) payload random))) := by
  obtain ⟨received, hanswers⟩ := h.nodes x
  obtain ⟨_, hreceiver⟩ := h.nodes v
  have hx : (w.nodes x).id K = K.publicKey (pair x) := by rw [Node.id, hanswers.sound.ecdsaPair]
  have hv : (w.nodes v).id K = K.publicKey (pair v) := by rw [Node.id, hreceiver.sound.ecdsaPair]
  obtain ⟨s, hstate⟩ := hjoined.state
  have hkey := hkey s hstate
  rw [hreceiver.sound.mEcdh] at hkey
  have hroute := hjoined.route
  rw [hv] at hstate hroute ⊢
  obtain ⟨m, tail, hsigned, htype, hsequence, hto, hopened, htail, houtbox⟩ :=
    sent_run (K := K) (H := net.host x) hE hG hS (hx ▸ hother.symm) hstate hkey hroute
      hjoined.isOpen hfits port random
  rw [(hanswers.sound.transports port).typed] at htype
  let j : Journey K net pair ecdh :=
    { sender := x, receiver := v, port, channel := c, message := m
      data := m.signedBytes K ++ m.signature, payload := payload ++ tail, first, used
      apart := hother, owner := hjoined.owner, remote := hjoined.remote
      source := by rw [hsigned.source, hanswers.sound.ecdsaPair]
      type := htype, destination := hto, sequence := hsequence.trans hcounter, window := hused
      parses := fun o => parse_signed hK o hsigned, opens := hopened }
  have hne : v ≠ x := fun heq => hother (heq ▸ rfl)
  set call : NodeEvent Id Chan := .send port (K.publicKey (pair v)) payload random
  have hsame : (w.step K net (.act x call)).nodes v = w.nodes v := Function.update_of_ne hne ..
  have hsent : ((w.step K net (.act x call)).nodes x).wire.outbox =
      Function.update (w.nodes x).wire.outbox c ((w.nodes x).wire.outbox c ++ [j.data]) := by
    rw [← houtbox]
    exact congrArg (fun n : Node Id Pair Ecdh Chan => n.wire.outbox) (Function.update_self ..)
  have hmono : Account K net pair ecdh j.Latest w :=
    account_mono (fun y m hm hy htype => Or.inl (hm hy htype)) h
  refine ⟨j, ⟨rfl, rfl, rfl, rfl⟩, ⟨tail, rfl, htail⟩, ?_, ?_, ?_, ?_⟩
  · obtain ⟨received, hanswers⟩ := hmono.nodes x
    refine account_update hmono (v := x) rfl ⟨_, answers_event hanswers call
      fun _ hdata => (List.not_mem_nil hdata).elim⟩ (fun channel data hdata => ?_) hmono.known
    rw [← Function.update_self x (call.apply K (net.host x) (w.nodes x)) w.nodes] at hdata
    change data ∈ ((w.step K net (.act x call)).nodes x).wire.outbox channel at hdata
    rw [hsent, Function.update_apply] at hdata
    split_ifs at hdata with hchannel
    · subst hchannel
      refine (List.mem_append.mp hdata).imp_right fun hnew => ?_
      rw [List.mem_singleton.mp hnew]
      intro o m' y hparse _ _ _
      rw [j.parses o] at hparse
      exact Or.inr (Except.ok.inj hparse).symm
    · exact Or.inl hdata
  · rw [hsame]
    exact hjoined.registered
  · rw [hsame]
    exact Or.inr (account_behind h hother)
  · exact Or.inr ⟨_, [], (congrFun hsent c).trans (Function.update_self ..), Nat.add_zero _⟩

/-- Among honest nodes with an adversary: what a node sends to a neighbour arrives, once the
channel that joins them has been served as often as messages were waiting before. Neither what
the network does in between matters nor what other nodes do, as long as the receiver does not
drop the channel, the sender sends nothing further by that transport, and its calls do not
exceed the window of the numbers. -/
theorem message_arrives (hK : EcdsaLaws K) (hE : EcdhLaws K) (hG : GcmLaws K) (hS : StreamLaws K)
    {w₀ : World V Id Pair Ecdh Chan} (h₀ : Start K net w₀) {events more : List (Event V Id Chan)}
    (h : Run K net w₀ events w) {x v : V} (hx : x ≠ v) {c : Chan} (hjoined : Joined K net w x v c)
    (hcalls : callCount x port events ≤ sequenceWindow) {payload : Binary}
    (hfits : payload.length ≤ payloadLimit) {random : Iv} {w' : World V Id Pair Ecdh Chan}
    (hmore : Run K net (w.step K net (.act x (.send port ((w.nodes v).id K) payload random)))
      more w')
    (hquiet : callCount x port more = 0)
    (hkept : Event.act v (.removeChannel (net.peer c)) ∉ more)
    (hserved : ((w.nodes x).wire.outbox c).length < deliveries c more) :
    ∃ d ∈ ((w'.nodes v).transport port).delivered, d.remoteId = (w'.nodes x).id K ∧
      ∃ tail, d.payload = payload ++ tail ∧ tail.length = gcmTagSize := by
  obtain ⟨used, hused, hcounter, haccount⟩ := run_numbered hK h₀ h x port
  have hother := fun heq => hx (h₀.identities heq)
  obtain ⟨j, ⟨rfl, rfl, rfl, rfl⟩, ⟨tail, hpayload, htail⟩, hpending⟩ :=
    call_pending hK hE hG hS haccount hcounter (hused.trans hcalls) hother hjoined
      (fun s hs => known_key hK hE h₀ h hx.symm hs) hfits random
  have hundisturbed : ∀ event ∈ more, j.Undisturbed event := by
    rintro event hmem v ev rfl
    refine ⟨fun hv hcalled => ?_, fun hv channel hremove hchannel => ?_⟩
    · have hcall := List.countP_eq_zero.mp hquiet _ hmem
      simp [hv, hcalled] at hcall
    · subst hv hremove hchannel
      exact hkept hmem
  have hdone := run_pending hK h₀.identities hpending hmore hundisturbed
  rcases hdone.waits with hgiven | ⟨before, _, _, hlength⟩
  · obtain ⟨_, hanswers⟩ := hdone.account.nodes j.sender
    refine ⟨j.delivery, hgiven, ?_, tail, hpayload, htail⟩
    rw [Node.id, hanswers.sound.ecdsaPair]
    rfl
  · omega

end Networks

-- The two nodes of `DirectTraffic`, just before one sends the other a message. Meanwhile the
-- other one sends Hellos.
namespace Sample
open DirectTraffic.Sample (crypto net before before_start)
open DirectMessages.Sample (random)

def events : List (Event Bool (Fin 4) ℕ) := DirectTraffic.Sample.events.take 7

def met : World Bool (Fin 4) (Fin 4) (Fin 4) ℕ := events.foldl (World.step crypto net) before

def more : List (Event Bool (Fin 4) ℕ) :=
  [.deliver 1, .act false .update, .deliver 0, .deliver 1, .act true .update, .deliver 1]

theorem met_run : Run crypto net before events met := by
  refine run_of_possible before events [] before (fun w event hevent => ?_) .start
  simp only [events, DirectTraffic.Sample.events, List.take_succ_cons, List.take_zero,
    List.mem_cons, List.not_mem_nil, or_false] at hevent
  rcases hevent with rfl | rfl | rfl | rfl | rfl | rfl | rfl
  all_goals first | exact rfl | exact trivial

theorem met_joined : Joined crypto net met true false 1 where
  owner := rfl
  remote := rfl
  state := by
    have hstored : ((met.nodes true).graph.get ((met.nodes false).id crypto)).toOption.isSome := by
      decide +kernel
    cases hstate : (met.nodes true).graph.get ((met.nodes false).id crypto) with
    | error e =>
      rw [hstate] at hstored
      cases hstored
    | ok s => exact ⟨s, rfl⟩
  route := by decide +kernel
  isOpen := by decide +kernel
  registered := by decide +kernel

def sent : World Bool (Fin 4) (Fin 4) (Fin 4) ℕ :=
  met.step crypto net (.act true (.send .user ((met.nodes false).id crypto) [104, 105] random))

def reached : World Bool (Fin 4) (Fin 4) (Fin 4) ℕ := more.foldl (World.step crypto net) sent

theorem reached_run : Run crypto net sent more reached := by
  refine run_of_possible sent more [] sent (fun w event hevent => ?_) .start
  simp only [more, List.mem_cons, List.not_mem_nil, or_false] at hevent
  rcases hevent with rfl | rfl | rfl | rfl | rfl | rfl
  all_goals first | exact rfl | exact trivial

/-- Two Hellos wait before the message, and a third one follows it. -/
theorem greeting_arrives : ∃ d ∈ ((reached.nodes false).transport .user).delivered,
    d.remoteId = (reached.nodes true).id crypto ∧
      ∃ tail, d.payload = [104, 105] ++ tail ∧ tail.length = gcmTagSize := by
  have hcalls : callCount true Port.user events ≤ sequenceWindow := by
    unfold sequenceWindow
    decide +kernel
  have hfits : ([104, 105] : Binary).length ≤ payloadLimit := by decide
  have hserved : ((met.nodes true).wire.outbox 1).length < deliveries 1 more := by
    decide +kernel
  exact message_arrives LegioCrypto.Sample.ecdsaLaws LegioCrypto.Sample.ecdhLaws
    LegioCrypto.Sample.gcmLaws LegioCrypto.Sample.streamLaws before_start met_run (by decide)
    met_joined hcalls hfits reached_run (by decide) (by simp [more]) hserved

end Sample

end ArrivingMessages
