import Legio.ConcurrentSenders
import Legio.NodeInvariants
import Legio.ReplayFilter
import Legio.SignedProvenance

set_option linter.style.header false

/-! What the receive callbacks of a node are given over a whole run. Of each transport's
messages from other nodes it is those that outnumber everything that arrived from their
source before, and that the node can open, in the order in which they arrived. -/
namespace DeliveredMessages

open LegioBinary LegioCrypto LegioMessage LegioNode Containers RoutingTableSearch
open ExceptionStates GraphInvariants NodeInvariants NodeRuns SerialNumbers ReplayFilter
open SignedProvenance
open ConcurrentSenders (checkSequence_congr)
open TransportSteps (Typed checkSequence_other directMessage_cases makeMessage_spec
  makeMessage_too_long notifyMessage_user)

variable {Id Pair Ecdh Chan : Type}

structure Inbox (Id : Type) where
  mType : UInt8
  mSequences : AList fun _ : Id => UInt32
  delivered : List (Delivery Id)

def inbox (n : Node Id Pair Ecdh Chan) (port : Port) : Inbox Id :=
  ⟨(n.transport port).mType, (n.transport port).mSequences, (n.transport port).delivered⟩

section Steps
variable [LinearOrder Id] (K : CryptoPP Id Pair Ecdh)

def opened (ecdh : Ecdh) (port : Port) (message : Message Id) : Option Binary :=
  match message.destination with
  | none =>
    match port with
    | .signaling => none
    | .user => some message.body
  | some _ =>
    match CipherBody.parse message.body with
    | .error _ => none
    | .ok cipherBody =>
      if cipherBody.destination ≠ K.ecdhPublicKey ecdh then none
      else (cipherBody.decrypt K ecdh).toOption

def delivery (ecdh : Ecdh) (port : Port) (arrived : Message Id × Id) : Option (Delivery Id) :=
  (opened K ecdh port arrived.1).map fun payload => ⟨arrived.1, arrived.2, payload⟩

/-- The inbox of a transport after a message of its type. -/
def taken (ecdh : Ecdh) (port : Port) (t : Transport Id) (arrived : Message Id × Id) :
    Inbox Id where
  mType := t.mType
  mSequences := (t.checkSequence arrived.2 arrived.1.sequence).2.mSequences
  delivered :=
    if (t.checkSequence arrived.2 arrived.1.sequence).1
      then t.delivered ++ (delivery K ecdh port arrived).toList
      else t.delivered

variable {K} [DecidableEq Chan] {H : Host Id} {n : Node Id Pair Ecdh Chan} {m : Message Id}
  {id : Id} {ecdh : Ecdh}

omit [LinearOrder Id] [DecidableEq Chan] in
theorem transport_other (n : Node Id Pair Ecdh Chan) {port port' : Port} (h : port' ≠ port)
    (t : Transport Id) : (n.setTransport port t).transport port' = n.transport port' := by
  cases port with
  | signaling =>
    cases port' with
    | signaling => exact absurd rfl h
    | user => rfl
  | user =>
    cases port' with
    | signaling => rfl
    | user => exact absurd rfl h

omit [LinearOrder Id] [DecidableEq Chan] in
theorem callback_inbox (n : Node Id Pair Ecdh Chan) (port : Port) (payload : Binary) :
    inbox (final (Node.callback port m id payload n)) = Function.update (inbox n) port
      ⟨(n.transport port).mType, (n.transport port).mSequences,
        (n.transport port).delivered ++ [⟨m, id, payload⟩]⟩ := by
  funext port'
  by_cases h : port' = port
  · subst h
    rw [Function.update_self, inbox, Node.callback, modify_run, final_ok, transport_setTransport]
  · rw [Function.update_of_ne h, inbox, Node.callback, modify_run, final_ok, transport_other n h]
    rfl

omit [DecidableEq Chan] in
theorem checked_inbox (n : Node Id Pair Ecdh Chan) (port : Port) (sequence : UInt32) :
    inbox (n.setTransport port ((n.transport port).checkSequence id sequence).2) =
      Function.update (inbox n) port
        ⟨(n.transport port).mType, ((n.transport port).checkSequence id sequence).2.mSequences,
          (n.transport port).delivered⟩ := by
  funext port'
  by_cases h : port' = port
  · subst h
    rw [Function.update_self, inbox, transport_setTransport, checkSequence_delivered,
      checkSequence_mType]
  · rw [Function.update_of_ne h, inbox, transport_other n h]
    rfl

omit [DecidableEq Chan] in
theorem incoming_inbox (hecdh : n.graph.mEcdh = ecdh) {port : Port}
    (hport : m.destination = none → port = .signaling) :
    inbox (final (Transport.incoming K port m id n)) =
      Function.update (inbox n) port (taken K ecdh port (n.transport port) (m, id)) := by
  have hchecked : inbox (n.setTransport port
      ((n.transport port).checkSequence id m.sequence).2) = _ := checked_inbox n port m.sequence
  have hkey : (n.setTransport port
      ((n.transport port).checkSequence id m.sequence).2).graph.mEcdh = ecdh := by
    rw [graph_setTransport, hecdh]
  rw [Transport.incoming, bind_ok (checkSequence_run n port id m.sequence), taken]
  have hdelivered := checkSequence_delivered (n.transport port) id m.sequence
  have htype := checkSequence_mType (n.transport port) id m.sequence
  generalize hfresh : ((n.transport port).checkSequence id m.sequence).1 = fresh
  generalize ht : ((n.transport port).checkSequence id m.sequence).2 = t
    at hchecked hkey hdelivered htype
  have hcallback : ∀ payload, inbox (final (Node.callback port m id payload
      (n.setTransport port t))) = Function.update (inbox n) port
        ⟨(n.transport port).mType, t.mSequences,
          (n.transport port).delivered ++ [⟨m, id, payload⟩]⟩ := by
    intro payload
    rw [callback_inbox, hchecked, Function.update_idem, transport_setTransport, hdelivered, htype]
  have hrefused : delivery K ecdh port (m, id) = none → inbox (n.setTransport port t) =
      Function.update (inbox n) port ⟨(n.transport port).mType, t.mSequences,
        (n.transport port).delivered ++ (delivery K ecdh port (m, id)).toList⟩ := by
    intro hnothing
    rw [hnothing, Option.toList_none, List.append_nil, hchecked]
  cases fresh with
  | false => exact hchecked
  | true =>
    simp only [if_true]
    cases hdestination : m.destination with
    | none =>
      obtain rfl := hport hdestination
      exact hrefused (by simp only [delivery, opened, hdestination, Option.map_none])
    | some destination =>
      cases hparse : CipherBody.parse m.body with
      | error e =>
        exact hrefused (by simp only [delivery, opened, hdestination, hparse, Option.map_none])
      | ok cipherBody =>
        dsimp only
        rw [get_bind_run, hkey]
        by_cases hforeign : cipherBody.destination ≠ K.ecdhPublicKey ecdh
        · rw [if_pos hforeign]
          exact hrefused (by
            simp only [delivery, opened, hdestination, hparse, if_pos hforeign, Option.map_none])
        · rw [if_neg hforeign]
          cases hdecrypt : cipherBody.decrypt K ecdh with
          | error e =>
            refine hrefused ?_
            simp only [delivery, opened, hdestination, hparse, if_neg hforeign, hdecrypt]
            rfl
          | ok payload =>
            have hopens : delivery K ecdh port (m, id) = some ⟨m, id, payload⟩ := by
              simp only [delivery, opened, hdestination, hparse, if_neg hforeign, hdecrypt]
              rfl
            rw [hopens]
            exact hcallback payload

theorem broadcastable_inbox (hecdh : n.graph.mEcdh = ecdh) (channel : Option Chan) :
    inbox (final (BroadcastableTransport.incoming K H m id channel n)) =
      Function.update (inbox n) .user (taken K ecdh .user (n.transport .user) (m, id)) := by
  rw [BroadcastableTransport.incoming]
  cases hdestination : m.destination with
  | some destination =>
    exact incoming_inbox hecdh fun hnone => by rw [hdestination] at hnone; cases hnone
  | none =>
    have hchecked : inbox (n.setTransport .user
        ((n.transport .user).checkSequence id m.sequence).2) = _ :=
      checked_inbox n .user m.sequence
    have hdelivered := checkSequence_delivered (n.transport .user) id m.sequence
    have htype := checkSequence_mType (n.transport .user) id m.sequence
    have hopens : delivery K ecdh .user (m, id) = some ⟨m, id, m.body⟩ := by
      rw [delivery, opened, hdestination]
      rfl
    dsimp only
    rw [bind_ok (checkSequence_run n .user id m.sequence), taken, hopens]
    generalize hfresh : ((n.transport .user).checkSequence id m.sequence).1 = fresh
    generalize ht : ((n.transport .user).checkSequence id m.sequence).2 = t
      at hchecked hdelivered htype
    cases fresh with
    | false => exact hchecked
    | true =>
      simp only [if_true]
      rw [modify_bind_run, callback_inbox]
      -- the broadcast only writes to the channels
      change Function.update (inbox (n.setTransport .user t)) .user
        ⟨((n.setTransport .user t).transport .user).mType,
          ((n.setTransport .user t).transport .user).mSequences,
          ((n.setTransport .user t).transport .user).delivered ++ _⟩ = _
      rw [hchecked, Function.update_idem, transport_setTransport, hdelivered, htype]
      rfl

abbrev KeepsInbox {α : Type} (b : Port → Inbox Id) (f : NodeM Id Pair Ecdh Chan α) : Prop :=
  Keeps (fun n => inbox n = b) f

section Still
variable (b : Port → Inbox Id)

omit [LinearOrder Id] [DecidableEq Chan] in
theorem still_transports : OfTransports fun n : Node Id Pair Ecdh Chan => inbox n = b := by
  intro n n' hsame hn
  rw [← hn]
  funext port
  rw [inbox, inbox, hsame]

omit [LinearOrder Id] [DecidableEq Chan] in
theorem inbox_setTransport (n : Node Id Pair Ecdh Chan) (port : Port) {t : Transport Id}
    (h : (⟨t.mType, t.mSequences, t.delivered⟩ : Inbox Id) = inbox n port) :
    inbox (n.setTransport port t) = inbox n := by
  funext port'
  by_cases hport : port' = port
  · subst hport
    rw [inbox, transport_setTransport, h]
  · rw [inbox, transport_other n hport]
    rfl

omit [LinearOrder Id] [DecidableEq Chan] in
theorem still_makeMessage (port : Port) (body : Binary) (destination : Option Id) :
    KeepsInbox b (Transport.makeMessage K H port body destination :
      NodeM Id Pair Ecdh Chan (Message Id)) := by
  refine keeps_get_bind fun n hn => ?_
  have hcount : KeepsInbox b (set (n.setTransport port { n.transport port with
      mSendSequence := (n.transport port).mSendSequence + 1 }) :
        NodeM Id Pair Ecdh Chan PUnit) :=
    fun _ _ => (inbox_setTransport n port (by rfl)).trans hn
  refine keeps_bind hcount (fun _ => ?_) n hn
  cases Message.create K H.byteOrder (n.transport port).mType (n.transport port).mSendSequence
      body (some n.ecdsaPair) destination with
  | error e => exact keeps_throw e
  | ok message =>
    exact keeps_bind (keeps_modify fun n hn => (inbox_setTransport n port (by rfl)).trans hn)
      fun _ => keeps_pure message

omit [LinearOrder Id] in
theorem still_broadcast (port : Port) (payload : Binary) :
    KeepsInbox b (Transport.broadcast K H port payload : NodeM Id Pair Ecdh Chan Unit) := by
  cases port with
  | signaling => exact keeps_throw _
  | user =>
    exact keeps_bind (still_makeMessage b .user payload none) fun message =>
      keeps_modify fun n hn => hn

end Still

/-- The transport that a message reaches once it is routed, and the source it names. -/
def posted (own : Id) (message : Message Id) : Option (Port × Id) :=
  match message.source with
  | none => none
  | some id =>
    if message.destination = none ∨ message.destination = some own then
      if message.type = Port.signaling.type then some (.signaling, id)
      else if message.type = Port.user.type then some (.user, id)
      else none
    else none

def routed (K : CryptoPP Id Pair Ecdh) (ecdh : Ecdh) (own : Id) (n : Node Id Pair Ecdh Chan)
    (message : Message Id) : Port → Inbox Id :=
  match posted own message with
  | none => inbox n
  | some (port, id) =>
    Function.update (inbox n) port (taken K ecdh port (n.transport port) (message, id))

omit [DecidableEq Chan] in
theorem posted_spec {own : Id} {message : Message Id} {port : Port}
    (h : posted own message = some (port, id)) :
    message.source = some id ∧ message.type = port.type := by
  rw [posted] at h
  cases hsource : message.source with
  | none => rw [hsource] at h; cases h
  | some source =>
    rw [hsource] at h
    dsimp only at h
    split_ifs at h with _ hsignaling huser
    · cases h
      exact ⟨rfl, hsignaling⟩
    · cases h
      exact ⟨rfl, huser⟩

theorem transport_skips {port : Port} (hsource : m.source = some id)
    (htype : m.type ≠ (inbox n port).mType) (channel : Option Chan) :
    Transport.notifyMessage K H port m channel n = .ok () n := by
  have hskip : m.type ≠ (n.transport port).mType := htype
  simp only [Transport.notifyMessage, get_bind_run, hsource, if_pos hskip]
  rfl

theorem transport_takes (hecdh : n.graph.mEcdh = ecdh) {port : Port}
    (hsource : m.source = some id) (htype : m.type = (inbox n port).mType)
    (channel : Option Chan) :
    inbox (final (Transport.notifyMessage K H port m channel n)) =
      Function.update (inbox n) port (taken K ecdh port (n.transport port) (m, id)) := by
  have htake : ¬ m.type ≠ (n.transport port).mType := not_not.mpr htype
  simp only [Transport.notifyMessage, get_bind_run, hsource, if_neg htake]
  cases port with
  | signaling => exact incoming_inbox hecdh fun _ => rfl
  | user => exact broadcastable_inbox hecdh channel

theorem graph_idle {port : Port} (htype : m.type = port.type) (channel : Option Chan) :
    Graph.notifyMessage K H m channel n = .ok () n := by
  have hother : port.type ≠ MessageType.Hello ∧ port.type ≠ MessageType.State := by
    cases port <;> decide
  rw [Graph.notifyMessage, htype, if_neg hother.1, if_neg hother.2]
  rfl

theorem nodeMessage_takes (htyped : ∀ port, (inbox n port).mType = port.type)
    (hecdh : n.graph.mEcdh = ecdh) {port : Port} (hsource : m.source = some id)
    (htype : m.type = port.type) (channel : Option Chan) :
    inbox (final (Node.notifyMessage K H m channel n)) =
      Function.update (inbox n) port (taken K ecdh port (n.transport port) (m, id)) := by
  have htake : m.type = (inbox n port).mType := htype.trans (htyped port).symm
  rw [Node.notifyMessage, bind_ok (graph_idle htype channel)]
  cases port with
  | user =>
    have hother : m.type ≠ (inbox n .signaling).mType := by
      rw [htyped, htype]
      decide
    rw [bind_ok (transport_skips hsource hother channel)]
    exact transport_takes hecdh hsource htake channel
  | signaling =>
    refine final_bind (I := fun n' => inbox n' = Function.update (inbox n) .signaling
      (taken K ecdh .signaling (n.transport .signaling) (m, id)))
      (transport_takes hecdh hsource htake channel) fun _ n' hn' => ?_
    have hother : m.type ≠ (inbox n' .user).mType := by
      rw [hn', Function.update_of_ne (by decide), htyped, htype]
      decide
    rw [transport_skips hsource hother channel]
    exact hn'

theorem nodeMessage_skips (htyped : ∀ port, (inbox n port).mType = port.type)
    (hsource : m.source = some id) (htype : ∀ port : Port, m.type ≠ port.type)
    (channel : Option Chan) :
    inbox (final (Node.notifyMessage K H m channel n)) = inbox n := by
  have hskips : ∀ port, KeepsInbox (inbox n) (Transport.notifyMessage K H port m channel) := by
    intro port n' hn'
    have hother : m.type ≠ (inbox n' port).mType := by
      rw [hn', htyped]
      exact htype port
    rw [transport_skips hsource hother channel]
    exact hn'
  exact keeps_bind (transports_graphMessage (still_transports _) m channel)
    (fun _ => keeps_bind (hskips .signaling) fun _ => hskips .user) n rfl

omit [DecidableEq Chan] in
theorem posted_here {own : Id} (hsource : m.source = some id)
    (hhere : m.destination = none ∨ m.destination = some own) :
    posted own m = if m.type = Port.signaling.type then some (.signaling, id)
      else if m.type = Port.user.type then some (.user, id) else none := by
  rw [posted, hsource]
  exact if_pos hhere

omit [DecidableEq Chan] in
theorem posted_away {own : Id}
    (haway : ¬ (m.destination = none ∨ m.destination = some own)) : posted own m = none := by
  rw [posted]
  cases m.source with
  | none => rfl
  | some id => exact if_neg haway

theorem route_inbox (htyped : ∀ port, (inbox n port).mType = port.type)
    (hecdh : n.graph.mEcdh = ecdh) (from_ : Option Chan) :
    inbox (final (Node.route K H m from_ n)) = routed K ecdh (n.id K) n m := by
  rw [Node.route, get_bind_run, Routing.route]
  cases hsource : m.source with
  | none =>
    rw [routed, posted, hsource]
    rfl
  | some id =>
    have hhere (hto : m.destination = none ∨ m.destination = some (n.id K)) :
        inbox (final (Node.notifyMessage K H m from_ n)) = routed K ecdh (n.id K) n m := by
      rw [routed, posted_here hsource hto]
      split_ifs with hsignaling huser
      · exact nodeMessage_takes htyped hecdh hsource hsignaling from_
      · exact nodeMessage_takes htyped hecdh hsource huser from_
      · refine nodeMessage_skips htyped hsource (fun port => ?_) from_
        cases port with
        | signaling => exact hsignaling
        | user => exact huser
    rw [if_neg (Option.some_ne_none id)]
    cases hdestination : m.destination with
    | none => exact hhere (Or.inl hdestination)
    | some destination =>
      dsimp only
      by_cases hlocal : destination = n.id K
      · rw [if_pos hlocal]
        exact hhere (Or.inr (hlocal ▸ hdestination))
      · have haway : ¬ (m.destination = none ∨ m.destination = some (n.id K)) := by
          rw [hdestination]
          simp [hlocal]
        rw [if_neg hlocal, routed, posted_away haway]
        cases n.routing.findRoute destination with
        | none => rfl
        | some channel =>
          dsimp only
          cases m.toBinary K H.byteOrder with
          | error e => rfl
          | ok data =>
            dsimp only
            cases n.wire.send channel data with
            | error e => rfl
            | ok wire => rfl

end Steps

section Numbers
variable [LinearOrder Id] (K : CryptoPP Id Pair Ecdh) (ecdh : Ecdh) (own : Id) (port : Port)
  (number : Message Id → ℕ)

def newest (past : List (Message Id × Id)) : List (Message Id × Id) → List (Message Id × Id)
  | [] => []
  | a :: arrived =>
    if ∀ b ∈ past, b.2 = a.2 → number b.1 < number a.1
      then a :: newest (past ++ [a]) arrived
      else newest (past ++ [a]) arrived

theorem newest_append (arrived later : List (Message Id × Id)) : ∀ past,
    newest number past (arrived ++ later) =
      newest number past arrived ++ newest number (past ++ arrived) later := by
  induction arrived with
  | nil =>
    intro past
    rw [List.nil_append, List.append_nil]
    rfl
  | cons c arrived ih =>
    intro past
    rw [List.cons_append, newest, newest, ih, List.append_assoc, List.singleton_append]
    split_ifs <;> rfl

theorem newest_concat (arrived : List (Message Id × Id)) (a : Message Id × Id) :
    newest number [] (arrived ++ [a]) = newest number [] arrived ++
      if ∀ b ∈ arrived, b.2 = a.2 → number b.1 < number a.1 then [a] else [] := by
  rw [newest_append, List.nil_append, newest]
  rfl

theorem newest_increasing (arrived : List (Message Id × Id)) : ∀ past,
    (∀ a ∈ newest number past arrived, ∀ b ∈ past, b.2 = a.2 → number b.1 < number a.1) ∧
      (newest number past arrived).Pairwise fun a b => a.2 = b.2 → number a.1 < number b.1 := by
  induction arrived with
  | nil => exact fun past => ⟨fun a ha => (List.not_mem_nil ha).elim, List.Pairwise.nil⟩
  | cons c arrived ih =>
    intro past
    obtain ⟨habove, hpairwise⟩ := ih (past ++ [c])
    have hpast : ∀ a ∈ newest number (past ++ [c]) arrived, ∀ b ∈ past, b.2 = a.2 →
        number b.1 < number a.1 :=
      fun a ha b hb => habove a ha b (List.mem_append_left _ hb)
    rw [newest]
    split_ifs with hnew
    · constructor
      · intro a ha
        rcases List.mem_cons.mp ha with rfl | ha
        · exact hnew
        · exact hpast a ha
      · refine List.Pairwise.cons (fun a ha hsource => ?_) hpairwise
        exact habove a ha c (List.mem_append_right _ (List.mem_singleton_self c)) hsource
    · exact ⟨hpast, hpairwise⟩

theorem newest_sublist (arrived : List (Message Id × Id)) : ∀ past,
    (newest number past arrived).Sublist arrived := by
  induction arrived with
  | nil => exact fun past => List.Sublist.slnil
  | cons c arrived ih =>
    intro past
    rw [newest]
    split_ifs
    · exact (ih _).cons_cons c
    · exact (ih _).cons c

/-- The numbers of one source's messages, behind their 32 bits. -/
structure Numbered (arrived : List (Message Id × Id)) : Prop where
  sequence : ∀ a ∈ arrived, a.1.sequence = UInt32.ofNat (number a.1)
  window : ∀ a ∈ arrived, ∀ b ∈ arrived, a.2 = b.2 → number a.1 ≤ number b.1 + sequenceWindow

/-- A transport that has handled these messages of other nodes, and any of its own. -/
structure Follows (b : Inbox Id) (arrived : List (Message Id × Id)) : Prop where
  typed : b.mType = port.type
  remote : ∀ a ∈ arrived, a.2 ≠ own
  sequences : ∀ id, id ≠ own → b.mSequences.lookup id =
    (highestOf (arrived.map fun a => (a.2, number a.1)) id).map UInt32.ofNat
  delivered : b.delivered.filter (fun d => d.remoteId ≠ own) =
    (newest number [] arrived).filterMap (delivery K ecdh port)

omit [LinearOrder Id] in
theorem Numbered.of_sublist {number : Message Id → ℕ} {arrived arrived' : List (Message Id × Id)}
    (h : Numbered number arrived) (hle : arrived'.Sublist arrived) : Numbered number arrived' :=
  ⟨fun a ha => h.sequence a (hle.subset ha),
    fun a ha b hb => h.window a (hle.subset ha) b (hle.subset hb)⟩

variable {K ecdh own port number} {t : Transport Id} {arrived : List (Message Id × Id)}
  {m : Message Id} {id : Id}

theorem highest_iff (a : Message Id × Id) :
    accepts (highestOf (arrived.map fun b => (b.2, number b.1))) (a.2, number a.1) = true ↔
      ∀ b ∈ arrived, b.2 = a.2 → number b.1 < number a.1 := by
  rw [accepts_iff (greatest_highestOf _)]
  constructor
  · intro h b hb hsource
    exact h (number b.1) (hsource ▸ List.mem_map_of_mem hb)
  · intro h j hj
    obtain ⟨b, hb, heq⟩ := List.mem_map.mp hj
    obtain ⟨hsource, rfl⟩ := Prod.mk.inj heq
    exact h b hb hsource

theorem erased_refines (h : Follows K ecdh own port number
      ⟨t.mType, t.mSequences, t.delivered⟩ arrived) :
    Refines { t with mSequences := t.mSequences.erase own }
      (highestOf (arrived.map fun a => (a.2, number a.1))) := by
  intro id
  by_cases hid : id = own
  · subst hid
    cases hhighest : highestOf (arrived.map fun a => (a.2, number a.1)) id with
    | none => exact AList.lookup_erase id t.mSequences
    | some k =>
      obtain ⟨a, ha, heq⟩ := List.mem_map.mp ((greatest_highestOf _).presented hhighest)
      cases heq
      exact absurd rfl (h.remote a ha)
  · exact (AList.lookup_erase_ne hid).trans (h.sequences id hid)

theorem checked_refines (h : Follows K ecdh own port number
      ⟨t.mType, t.mSequences, t.delivered⟩ arrived) (hid : id ≠ own)
    (hnumbered : Numbered number (arrived ++ [(m, id)])) :
    (t.checkSequence id m.sequence).1 =
        accepts (highestOf (arrived.map fun a => (a.2, number a.1))) (id, number m) ∧
      ∀ id', id' ≠ own → (t.checkSequence id m.sequence).2.mSequences.lookup id' =
        (record (highestOf (arrived.map fun a => (a.2, number a.1))) (id, number m) id').map
          UInt32.ofNat := by
  have hlast : (m, id) ∈ arrived ++ [(m, id)] := by simp
  have hsequence : m.sequence = UInt32.ofNat (number m) := hnumbered.sequence _ hlast
  have hwindow : ∀ k, highestOf (arrived.map fun a => (a.2, number a.1)) id = some k →
      k ≤ number m + sequenceWindow ∧ number m ≤ k + sequenceWindow := by
    intro k hk
    obtain ⟨a, ha, heq⟩ := List.mem_map.mp ((greatest_highestOf _).presented hk)
    cases heq
    have ha' : a ∈ arrived ++ [(m, a.2)] := List.mem_append_left _ ha
    exact ⟨hnumbered.window a ha' _ hlast rfl, hnumbered.window _ hlast a ha' rfl⟩
  obtain ⟨hfresh, hrecorded⟩ := present_refines (m := (id, number m)) (erased_refines h) hwindow
  have herased : t.mSequences.lookup id = (t.mSequences.erase own).lookup id :=
    (AList.lookup_erase_ne hid).symm
  obtain ⟨hsame, hentry⟩ := checkSequence_congr (t := t)
    (show t.mSequences.lookup id =
      ({ t with mSequences := t.mSequences.erase own } : Transport Id).mSequences.lookup id
        from herased) m.sequence
  refine ⟨?_, fun id' hid' => ?_⟩
  · rw [hsame, hsequence]
    exact hfresh
  · by_cases hother : id' = id
    · subst hother
      rw [hentry, hsequence]
      exact hrecorded id'
    · have hkept := hrecorded id'
      change (Transport.checkSequence _ id (UInt32.ofNat (number m))).2.mSequences.lookup id' = _
        at hkept
      rw [checkSequence_other _ hother] at hkept
      rw [checkSequence_other t hother, ← AList.lookup_erase_ne hid']
      exact hkept

theorem checked_iff (h : Follows K ecdh own port number
      ⟨t.mType, t.mSequences, t.delivered⟩ arrived) (hid : id ≠ own)
    (hnumbered : Numbered number (arrived ++ [(m, id)])) :
    (t.checkSequence id m.sequence).1 = true ↔
      ∀ b ∈ arrived, b.2 = id → number b.1 < number m := by
  rw [(checked_refines h hid hnumbered).1]
  exact highest_iff (m, id)

theorem follows_taken (h : Follows K ecdh own port number
      ⟨t.mType, t.mSequences, t.delivered⟩ arrived) (hid : id ≠ own)
    (hnumbered : Numbered number (arrived ++ [(m, id)])) :
    Follows K ecdh own port number (taken K ecdh port t (m, id)) (arrived ++ [(m, id)]) := by
  constructor
  · exact h.typed
  · intro a ha
    rcases List.mem_append.mp ha with hold | hnew
    · exact h.remote a hold
    · rw [List.mem_singleton] at hnew
      subst hnew
      exact hid
  · intro id' hid'
    rw [List.map_append, highestOf, List.foldl_append]
    exact (checked_refines h hid hnumbered).2 id' hid'
  · have hsplit : (taken K ecdh port t (m, id)).delivered = t.delivered ++
        if (t.checkSequence id m.sequence).1 then (delivery K ecdh port (m, id)).toList
        else [] := by
      rw [taken]
      split_ifs
      · rfl
      · rw [List.append_nil]
    rw [hsplit, List.filter_append, h.delivered, newest_concat, List.filterMap_append]
    congr 1
    by_cases hnew : ∀ b ∈ arrived, b.2 = id → number b.1 < number m
    · rw [if_pos hnew, if_pos ((checked_iff h hid hnumbered).mpr hnew)]
      cases hopened : delivery K ecdh port (m, id) with
      | none => simp [hopened]
      | some d =>
        have hsource : d.remoteId = id := by
          rw [delivery, Option.map_eq_some_iff] at hopened
          obtain ⟨payload, _, rfl⟩ := hopened
          rfl
        simp [hopened, hsource, hid]
    · rw [if_neg hnew, if_neg fun haccept => hnew ((checked_iff h hid hnumbered).mp haccept)]
      rfl

theorem follows_own (h : Follows K ecdh own port number
      ⟨t.mType, t.mSequences, t.delivered⟩ arrived) :
    Follows K ecdh own port number (taken K ecdh port t (m, own)) arrived := by
  constructor
  · exact h.typed
  · exact h.remote
  · intro id hid
    exact (checkSequence_other t hid m.sequence).trans (h.sequences id hid)
  · rw [← h.delivered, taken]
    dsimp only
    split_ifs
    · rw [List.filter_append]
      cases hopened : delivery K ecdh port (m, own) with
      | none => simp
      | some d =>
        have hsource : d.remoteId = own := by
          rw [delivery, Option.map_eq_some_iff] at hopened
          obtain ⟨payload, _, rfl⟩ := hopened
          rfl
        simp [hsource]
    · rfl

end Numbers

section Runs
variable [LinearOrder Id] (K : CryptoPP Id Pair Ecdh)

def destined (own : Id) (port : Port) (message : Message Id) : Option (Message Id × Id) :=
  match posted own message with
  | none => none
  | some (port', id) => if port' = port ∧ id ≠ own then some (message, id) else none

def arrival (o : ByteOrder) (own : Id) (port : Port) (data : Binary) : Option (Message Id × Id) :=
  match Message.parse K o data with
  | .error _ => none
  | .ok message => destined own port message

def arrivals (o : ByteOrder) (own : Id) (port : Port) (received : List Binary) :
    List (Message Id × Id) :=
  received.filterMap (arrival K o own port)

variable {K} [DecidableEq Chan] {H : Host Id} {pair : Pair} {ecdh : Ecdh} {port : Port}
  {number : Message Id → ℕ} {n : Node Id Pair Ecdh Chan} {m : Message Id}
  {arrived : List (Message Id × Id)} {received : List Binary}

omit [DecidableEq Chan] in
theorem arrival_spec {o : ByteOrder} {own id : Id} {data : Binary}
    (h : arrival K o own port data = some (m, id)) :
    Message.parse K o data = .ok m ∧ posted own m = some (port, id) ∧ id ≠ own := by
  rw [arrival] at h
  cases hparse : Message.parse K o data with
  | error e =>
    rw [hparse] at h
    cases h
  | ok message =>
    rw [hparse] at h
    dsimp only at h
    rw [destined] at h
    cases hposted : posted own message with
    | none =>
      rw [hposted] at h
      cases h
    | some address =>
      rw [hposted] at h
      dsimp only at h
      split_ifs at h with hremote
      cases h
      obtain ⟨rfl, hother⟩ := hremote
      exact ⟨rfl, hposted, hother⟩

omit [DecidableEq Chan] in
theorem arrivals_singleton (o : ByteOrder) (own : Id) (data : Binary) :
    arrivals K o own port [data] = (arrival K o own port data).toList := by
  rw [arrivals, List.filterMap_cons]
  cases arrival K o own port data <;> rfl

omit [DecidableEq Chan] in
theorem follows_routed (h : Follows K ecdh (K.publicKey pair) port number (inbox n port) arrived)
    (hnumbered : Numbered number (arrived ++ (destined (K.publicKey pair) port m).toList)) :
    Follows K ecdh (K.publicKey pair) port number (routed K ecdh (K.publicKey pair) n m port)
      (arrived ++ (destined (K.publicKey pair) port m).toList) := by
  rw [routed]
  rw [destined] at hnumbered ⊢
  cases hposted : posted (K.publicKey pair) m with
  | none =>
    rw [Option.toList_none, List.append_nil]
    exact h
  | some address =>
    obtain ⟨port', id⟩ := address
    rw [hposted] at hnumbered
    dsimp only at hnumbered ⊢
    by_cases hport : port' = port
    · subst hport
      rw [Function.update_self]
      by_cases hown : id = K.publicKey pair
      · subst hown
        rw [if_neg (fun hother => hother.2 rfl), Option.toList_none, List.append_nil]
        exact follows_own h
      · rw [if_pos ⟨rfl, hown⟩, Option.toList_some] at hnumbered ⊢
        exact follows_taken h hown hnumbered
    · rw [Function.update_of_ne (Ne.symm hport), if_neg (fun hother => hport hother.1),
        Option.toList_none, List.append_nil]
      exact h

omit [DecidableEq Chan] in
theorem destined_own (hm : m.source = some (K.publicKey pair)) :
    destined (K.publicKey pair) port m = none := by
  rw [destined]
  cases hposted : posted (K.publicKey pair) m with
  | none => rfl
  | some address =>
    have hsource := (posted_spec hposted).1
    rw [hm, Option.some.injEq] at hsource
    exact if_neg fun hother => hother.2 hsource.symm

omit [DecidableEq Chan] in
theorem checked_congr {t t' : Transport Id} (h : t.mSequences = t'.mSequences) (id : Id)
    (sequence : UInt32) :
    (t.checkSequence id sequence).1 = (t'.checkSequence id sequence).1 ∧
      (t.checkSequence id sequence).2.mSequences = (t'.checkSequence id sequence).2.mSequences := by
  rw [Transport.checkSequence, Transport.checkSequence, h]
  cases t'.mSequences.lookup id with
  | none => exact ⟨rfl, rfl⟩
  | some last =>
    dsimp only
    split_ifs
    · exact ⟨rfl, rfl⟩
    · exact ⟨rfl, h⟩

omit [DecidableEq Chan] in
theorem routed_congr {n' : Node Id Pair Ecdh Chan} (h : inbox n' = inbox n) (own : Id)
    (m : Message Id) : routed K ecdh own n' m = routed K ecdh own n m := by
  rw [routed, routed, h]
  cases hposted : posted own m with
  | none => rfl
  | some address =>
    obtain ⟨port, id⟩ := address
    have hport := congrFun h port
    rw [inbox, inbox, Inbox.mk.injEq] at hport
    obtain ⟨htype, hsequences, hdelivered⟩ := hport
    have hcheck := checked_congr hsequences id m.sequence
    dsimp only
    rw [taken, taken, htype, hdelivered, hcheck.1, hcheck.2]

theorem send_inbox (hsound : Sound K H pair ecdh received n) (port : Port) (remoteId : Id)
    (payload : Binary) (random : Iv) :
    inbox (final (Transport.send K H port remoteId payload random n)) = inbox n ∨
      ∃ m, m.source = some (K.publicKey pair) ∧
        inbox (final (Transport.send K H port remoteId payload random n)) =
          routed K ecdh (K.publicKey pair) n m := by
  rw [Transport.send]
  rcases directMessage_cases (K := K) H n port remoteId payload random with
    ⟨e, hrun⟩ | ⟨body, hrun⟩
  · rw [bind_error hrun]
    exact Or.inl rfl
  · have hstill := still_makeMessage (K := K) (H := H) (inbox n) port body (some remoteId) n rfl
    rcases sound_makeMessage hsound port body (some remoteId) with
      ⟨e, n', hmake, _⟩ | ⟨m, n', hmake, hsound', hown, hto⟩
    · rw [hmake] at hstill
      rw [bind_error (hrun.trans hmake)]
      exact Or.inl hstill
    · rw [hmake] at hstill
      change inbox n' = inbox n at hstill
      have hdirect : m.destination.isSome := by rw [hto]; rfl
      have hid : n'.id K = K.publicKey pair := by rw [Node.id, hsound'.ecdsaPair]
      refine Or.inr ⟨m, hown.1.source, ?_⟩
      rw [bind_ok (hrun.trans hmake), Node.send, if_pos hdirect,
        route_inbox (fun port => (hsound'.transports port).typed) hsound'.mEcdh, hid,
        routed_congr hstill]

/-- What an event leaves in the inboxes: at most one message is taken, one that the event brings
or one of the node itself. -/
theorem inbox_event (hsound : Sound K H pair ecdh received n) (ev : NodeEvent Id Chan) :
    (inbox (ev.apply K H n) = inbox n ∧
      ∀ data ∈ ev.data, ∃ e, Message.parse K H.byteOrder data = .error e) ∨
    (∃ m data, ev.data = [data] ∧ Message.parse K H.byteOrder data = .ok m ∧
      inbox (ev.apply K H n) = routed K ecdh (K.publicKey pair) n m) ∨
    ∃ m, m.source = some (K.publicKey pair) ∧ ev.data = [] ∧
      inbox (ev.apply K H n) = routed K ecdh (K.publicKey pair) n m := by
  have hquiet : inbox (ev.apply K H n) = inbox n → ev.data = [] →
      inbox (ev.apply K H n) = inbox n ∧
        ∀ data ∈ ev.data, ∃ e, Message.parse K H.byteOrder data = .error e := by
    intro hstill hdata
    refine ⟨hstill, fun data hmem => ?_⟩
    rw [hdata] at hmem
    cases hmem
  cases ev with
  | addChannel channel => exact Or.inl (hquiet rfl rfl)
  | removeChannel channel => exact Or.inl (hquiet rfl rfl)
  | addNeighbor | removeNeighbor =>
    exact Or.inl (hquiet (transports_changeNeighbors (still_transports _) _ n rfl) rfl)
  | status isOpen => exact Or.inl (hquiet rfl rfl)
  | update => exact Or.inl (hquiet (transports_update (still_transports _) n rfl) rfl)
  | broadcast port payload => exact Or.inl (hquiet (still_broadcast _ port payload n rfl) rfl)
  | send port remoteId payload random =>
    rcases send_inbox hsound port remoteId payload random with hstill | ⟨m, hsource, hrouted⟩
    · exact Or.inl (hquiet hstill rfl)
    · exact Or.inr (Or.inr ⟨m, hsource, rfl, hrouted⟩)
  | received channel data =>
    rw [NodeEvent.apply, Node.onMessage]
    cases hparse : Message.parse K H.byteOrder data with
    | error e =>
      refine Or.inl ⟨rfl, fun bytes (hbytes : bytes ∈ [data]) => ⟨e, ?_⟩⟩
      rw [List.mem_singleton.mp hbytes, hparse]
    | ok m =>
      refine Or.inr (Or.inl ⟨m, data, rfl, hparse, ?_⟩)
      have hid : n.id K = K.publicKey pair := by rw [Node.id, hsound.ecdsaPair]
      dsimp only
      rw [route_inbox (fun port => (hsound.transports port).typed) hsound.mEcdh, hid]

/-- One event: only bytes from the network bring new messages of other nodes. -/
theorem follows_event (hsound : Sound K H pair ecdh received n)
    (h : Follows K ecdh (K.publicKey pair) port number (inbox n port) arrived)
    (ev : NodeEvent Id Chan)
    (hnumbered : Numbered number
      (arrived ++ arrivals K H.byteOrder (K.publicKey pair) port ev.data)) :
    Follows K ecdh (K.publicKey pair) port number (inbox (ev.apply K H n) port)
      (arrived ++ arrivals K H.byteOrder (K.publicKey pair) port ev.data) := by
  rcases inbox_event hsound ev with
    ⟨hstill, hfails⟩ | ⟨m, data, hdata, hparse, hrouted⟩ | ⟨m, hsource, hdata, hrouted⟩
  · have hnothing : arrivals K H.byteOrder (K.publicKey pair) port ev.data = [] := by
      rw [arrivals, List.filterMap_eq_nil_iff]
      intro data hmem
      obtain ⟨e, he⟩ := hfails data hmem
      rw [arrival, he]
    rw [hstill, hnothing, List.append_nil]
    exact h
  · rw [hdata, arrivals_singleton, arrival, hparse] at hnumbered ⊢
    rw [hrouted]
    exact follows_routed h hnumbered
  · have hnone : destined (K.publicKey pair) port m = none := destined_own hsource
    rw [hdata, arrivals, List.filterMap_nil, List.append_nil] at hnumbered ⊢
    have hfollows := follows_routed (n := n) (m := m) h
      (by rw [hnone, Option.toList_none, List.append_nil]; exact hnumbered)
    rw [hnone, Option.toList_none, List.append_nil] at hfollows
    rw [hrouted]
    exact hfollows

theorem follows_run (events : List (NodeEvent Id Chan)) :
    ∀ (n : Node Id Pair Ecdh Chan) (received : List Binary) (arrived : List (Message Id × Id)),
      Sound K H pair ecdh received n →
      Follows K ecdh (K.publicKey pair) port number (inbox n port) arrived →
      Numbered number (arrived ++
        arrivals K H.byteOrder (K.publicKey pair) port (NodeRuns.received events)) →
      Follows K ecdh (K.publicKey pair) port number (inbox (run K H n events) port)
        (arrived ++ arrivals K H.byteOrder (K.publicKey pair) port (NodeRuns.received events)) := by
  induction events with
  | nil =>
    intro n received arrived _ h _
    rw [NodeRuns.received, List.flatMap_nil, arrivals, List.filterMap_nil, List.append_nil]
    exact h
  | cons ev events ih =>
    intro n received arrived hsound h hnumbered
    have hsplit : arrived ++ arrivals K H.byteOrder (K.publicKey pair) port
        (NodeRuns.received (ev :: events)) =
          arrived ++ arrivals K H.byteOrder (K.publicKey pair) port ev.data ++
            arrivals K H.byteOrder (K.publicKey pair) port (NodeRuns.received events) := by
      rw [NodeRuns.received, List.flatMap_cons, arrivals, List.filterMap_append,
        List.append_assoc]
      rfl
    rw [hsplit] at hnumbered ⊢
    have hfirst : Numbered number
        (arrived ++ arrivals K H.byteOrder (K.publicKey pair) port ev.data) :=
      hnumbered.of_sublist (List.sublist_append_left _ _)
    exact ih _ (received ++ ev.data) _ (sound_event hsound ev) (follows_event hsound h ev hfirst)
      hnumbered

theorem created_inbox (h : Created K H n) (port : Port) : inbox n port = ⟨port.type, ∅, []⟩ := by
  obtain ⟨n₀, mEcdh, _, _, htransports, hrun⟩ := h.constructed
  have hstill : inbox (final (Graph.construct K H mEcdh n₀)) = inbox n₀ :=
    construct_keeps (transports_withstands (still_transports (inbox n₀))) rfl
  rw [hrun] at hstill
  change inbox n = inbox n₀ at hstill
  obtain ⟨mSendSequence, hinitial⟩ := htransports port
  rw [hstill, inbox, hinitial]
  rfl

theorem created_follows (h : Created K H n) (port : Port) :
    Follows K n.graph.mEcdh (K.publicKey n.ecdsaPair) port number (inbox n port) [] := by
  rw [created_inbox h port]
  exact ⟨rfl, fun a ha => (List.not_mem_nil ha).elim, fun id _ => rfl, rfl⟩

/-- Over any run, whatever bytes its channels bring: a transport's callback is given the
messages of other nodes that outnumber all that came from their source before and that open
with the node's key, each of them once, in the order in which they arrived. -/
theorem deliveries_exact (h : Created K H n) (events : List (NodeEvent Id Chan)) (port : Port) :
    let arrived := arrivals K H.byteOrder (n.id K) port (NodeRuns.received events)
    Numbered number arrived →
      let w := run K H n events
      let remote := (w.transport port).delivered.filter fun d => d.remoteId ≠ n.id K
      remote = (newest number [] arrived).filterMap (delivery K n.graph.mEcdh port) ∧
        remote.Pairwise fun d d' => d.remoteId = d'.remoteId →
          number d.message < number d'.message := by
  intro arrived hnumbered w remote
  have hfollows := follows_run events n [] [] (created_sound h) (created_follows h port) hnumbered
  have hexact : remote = (newest number [] arrived).filterMap (delivery K n.graph.mEcdh port) :=
    hfollows.delivered
  refine ⟨hexact, ?_⟩
  rw [hexact, List.pairwise_filterMap]
  refine (newest_increasing number arrived []).2.imp ?_
  intro a b hab d hd d' hd'
  rw [delivery, Option.map_eq_some_iff] at hd hd'
  obtain ⟨_, _, rfl⟩ := hd
  obtain ⟨_, _, rfl⟩ := hd'
  exact hab

end Runs

-- The last number before the wrap, the first one after it, and the first message again.
namespace Sample
open LegioNode.Sample PublishedTable.Sample

abbrev crypto := LegioCrypto.Sample.crypto

def signed (sequence : UInt32) (body : Binary) : Message (Fin 4) :=
  let unsigned : Message (Fin 4) := ⟨MessageType.User, sequence, some 2, none, body, []⟩
  { unsigned with signature := crypto.sign 2 (unsigned.signedBytes crypto) }

def last : Message (Fin 4) := signed 0xFFFFFFFF [104, 105]
def first : Message (Fin 4) := signed 0 [33]

def events : List (NodeEvent (Fin 4) ℕ) :=
  [.addChannel 0, .received 0 (TransportSteps.frame crypto last),
    .received 0 (TransportSteps.frame crypto first), .update,
    .received 0 (TransportSteps.frame crypto last)]

def number (m : Message (Fin 4)) : ℕ := if m.sequence = 0 then 2 ^ 32 else m.sequence.toNat

theorem arrived : arrivals crypto host.byteOrder ((started 1).id crypto) .user
    (NodeRuns.received events) = [(last, 2), (first, 2), (last, 2)] := by decide +kernel

theorem replay_ignored :
    (run crypto host (started 1) events).userTransport.delivered.filter
      (fun d => d.remoteId ≠ (started 1).id crypto) =
        [⟨last, 2, [104, 105]⟩, ⟨first, 2, [33]⟩] := by
  have hnumbered : Numbered number (arrivals crypto host.byteOrder ((started 1).id crypto) .user
      (NodeRuns.received events)) := by
    rw [arrived]
    exact ⟨by decide +kernel, by unfold sequenceWindow; decide +kernel⟩
  have hexact := (deliveries_exact (created 1) events .user hnumbered).1
  rw [arrived] at hexact
  exact hexact.trans (by decide +kernel)

end Sample

end DeliveredMessages
