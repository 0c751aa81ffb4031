import Legio.ExceptionStates
import Legio.StateMessages
import Legio.TrafficSeparation

set_option linter.style.header false

/-! How much traffic a node causes. An announcement nests no other one as long as the State
that is stored for the node carries its own ECDH key; then no byte string makes it hand
more than two messages to a channel, and no call of its user more than one. -/
namespace BoundedTraffic

open LegioBinary LegioCrypto LegioMessage LegioNode Containers RoutingTableSearch
open ExceptionStates LinkStateStore GraphUpdates GraphInvariants NodeRuns TransportSteps
open StateMessages GradedPrograms TrafficSeparation

variable {Id Pair Ecdh Chan : Type}

/-- Nothing handed over is taken back, and at most so many messages on every channel. -/
def Handed (k : ℕ) (n n' : Node Id Pair Ecdh Chan) : Prop :=
  ∀ c, n.wire.outbox c <+: n'.wire.outbox c ∧
    (n'.wire.outbox c).length ≤ (n.wire.outbox c).length + k

theorem handed_of_wire {n n' : Node Id Pair Ecdh Chan} (h : n'.wire = n.wire) :
    Handed 0 n n' := by
  intro c
  rw [h]
  exact ⟨List.prefix_rfl, Nat.le_refl _⟩

theorem graded_handed : Graded (Handed : ℕ → Node Id Pair Ecdh Chan → _ → Prop) where
  refl n := handed_of_wire rfl
  trans h h' c := by
    obtain ⟨hpre, hlen⟩ := h c
    obtain ⟨hpre', hlen'⟩ := h' c
    exact ⟨hpre.trans hpre', by omega⟩
  mono hjk h c := ⟨(h c).1, (h c).2.trans (Nat.add_le_add_left hjk _)⟩

/-- The node's vertex carries the node's own ECDH key, and its transports their types. -/
structure Sealed [LinearOrder Id] (K : CryptoPP Id Pair Ecdh) (pair : Pair) (ecdh : Ecdh)
    (n : Node Id Pair Ecdh Chan) : Prop where
  ecdsaPair : n.ecdsaPair = pair
  mEcdh : n.graph.mEcdh = ecdh
  rooted : Rooted K n
  own : ∃ c, n.graph.stateOf (K.publicKey pair) = some c ∧
    c.ecdhPublic = K.ecdhPublicKey ecdh
  typed : ∀ port, (n.transport port).mType = port.type

/-- A State in the node's own name carries the node's own ECDH key. -/
def Genuine (K : CryptoPP Id Pair Ecdh) (pair : Pair) (ecdh : Ecdh) (s : State Id) : Prop :=
  s.id = K.publicKey pair → s.ecdhPublic = K.ecdhPublicKey ecdh

section Invariant
variable [LinearOrder Id] [DecidableEq Chan] {K : CryptoPP Id Pair Ecdh} {H : Host Id}
  {pair : Pair} {ecdh : Ecdh} {n n' : Node Id Pair Ecdh Chan}

omit [DecidableEq Chan] in
theorem sealed_change (h : Sealed K pair ecdh n) {v : View Id} (hc : StoreChange K n n' v)
    (hv : ∃ c, v.states (K.publicKey pair) = some c ∧ c.ecdhPublic = K.ecdhPublicKey ecdh) :
    Sealed K pair ecdh n' := by
  have hkept := hc.kept
  simp only [surroundings, Surroundings.mk.injEq] at hkept
  obtain ⟨hpair, _, _, _, hecdh, _, _, _, hsignaling, huser⟩ := hkept
  refine ⟨hpair.trans h.ecdsaPair, hecdh.trans h.mEcdh, hc.rooted, ?_, fun port => ?_⟩
  · rw [← view_states, hc.view_eq]
    exact hv
  · have htyped := h.typed port
    cases port with
    | signaling => exact (congrArg Transport.mType hsignaling).trans htyped
    | user => exact (congrArg Transport.mType huser).trans htyped

omit [DecidableEq Chan] in
theorem sealed_put (h : Sealed K pair ecdh n) {s : State Id} (hs : Genuine K pair ecdh s) :
    ∃ c, ((view n.graph).put s).states (K.publicKey pair) = some c ∧
      c.ecdhPublic = K.ecdhPublicKey ecdh := by
  rw [put_states]
  by_cases hid : K.publicKey pair = s.id
  · rw [hid, Function.update_self]
    exact ⟨s, rfl, hs hid.symm⟩
  · rw [Function.update_of_ne hid]
    exact h.own

omit [DecidableEq Chan] in
theorem sealed_updateEdges (id : Id) (neighbors : Finset Id) :
    Keeps (Sealed K pair ecdh)
      (Graph.updateEdges K H id neighbors : NodeM Id Pair Ecdh Chan Bool) := by
  intro n hn
  by_cases hid : id ∈ n.graph.mVertices
  · obtain ⟨n', hrun, hc⟩ := updateEdges_spec H hn.rooted hid neighbors
    rw [hrun]
    exact sealed_change hn hc hn.own
  · rw [updateEdges_unknown H hid]
    exact hn

omit [DecidableEq Chan] in
theorem sealed_congr (h : Sealed K pair ecdh n) (hpair : n'.ecdsaPair = n.ecdsaPair)
    (hecdh : n'.graph.mEcdh = n.graph.mEcdh)
    (hg : n'.graph.mVertices = n.graph.mVertices ∧ n'.graph.heap = n.graph.heap ∧
      n'.graph.allocated = n.graph.allocated)
    (htyped : ∀ port, (n'.transport port).mType = (n.transport port).mType) :
    Sealed K pair ecdh n' := by
  obtain ⟨hvertices, hheap, hallocated⟩ := hg
  have hrooted : Rooted K n' :=
    rooted_congr h.rooted (congrArg K.publicKey hpair) hvertices hallocated fun p => by rw [hheap]
  refine ⟨hpair.trans h.ecdsaPair, hecdh.trans h.mEcdh, hrooted, ?_,
    fun port => (htyped port).trans (h.typed port)⟩
  · rw [stateOf_congr hvertices fun p => by rw [hheap]]
    exact h.own

theorem sealed_withstands : Withstands K H (Sealed K pair ecdh : Node Id Pair Ecdh Chan → Prop)
    (Genuine K pair ecdh) (fun _ => True) where
  own n hn _ := by
    change K.ecdhPublicKey n.graph.mEcdh = _
    rw [hn.mEcdh]
  signed _ _ _ _ := trivial
  edges := sealed_updateEdges
  counted n hn := sealed_congr hn rfl rfl ⟨rfl, rfl, rfl⟩ fun port => by cases port <;> rfl
  announced n s m hn _ := sealed_congr hn rfl rfl ⟨rfl, rfl, rfl⟩ fun port => by cases port <;> rfl
  stored n s p hn hs hp := sealed_change hn (storeState_spec hn.rooted hp).1 (sealed_put hn hs)
  entered n s hn hs hp := sealed_change hn
    (storeNew_spec hn.rooted.linked (Or.inr hn.rooted.root) hp).1 (sealed_put hn hs)

end Invariant

section Costs
variable [LinearOrder Id] [DecidableEq Chan] {K : CryptoPP Id Pair Ecdh} {H : Host Id}
  {pair : Pair} {ecdh : Ecdh} {n n' : Node Id Pair Ecdh Chan} {I : Node Id Pair Ecdh Chan → Prop}
  {k : ℕ}

abbrev KeepsWire {α : Type} (w : Wire Chan) (m : NodeM Id Pair Ecdh Chan α) : Prop :=
  Keeps (fun n => n.wire = w) m

omit [LinearOrder Id] [DecidableEq Chan] in
theorem wire_free (w : Wire Chan) : GraphFree fun n : Node Id Pair Ecdh Chan => n.wire = w :=
  fun _ _ _ _ hn => hn

omit [LinearOrder Id] [DecidableEq Chan] in
theorem spends_of_wire {α : Type} {m : NodeM Id Pair Ecdh Chan α}
    (h : ∀ w, KeepsWire w m) : Spends Handed I 0 m :=
  fun n _ => handed_of_wire (h n.wire n rfl)

omit [LinearOrder Id] [DecidableEq Chan] in
theorem spends_modifyGraph (f : LegioNode.Graph Id Ecdh → LegioNode.Graph Id Ecdh) :
    Spends Handed I 0 (modifyGraph f : NodeM Id Pair Ecdh Chan Unit) :=
  spends_of_wire fun _ => keeps_modify fun _ hn => hn

omit [DecidableEq Chan] in
theorem spends_updateStoredEdges (vertice : Ptr) : Spends Handed I 0
    (Graph.updateVertice.updateStoredEdges K H vertice : NodeM Id Pair Ecdh Chan Bool) := by
  refine spends_of_wire fun w => keeps_get_bind fun n hn => ?_
  cases (n.graph.heap vertice).state with
  | none => exact hn
  | some s =>
    exact keeps_bind (free_updateEdges (wire_free w) _ s.neighbors) (fun _ => keeps_pure _) n hn

omit [DecidableEq Chan] in
theorem spends_store (vertice : Ptr) (s : State Id) : Spends Handed I 0 (do
    modifyGraph fun g => g.modifyVertice vertice fun v => { v with state := some s }
    Graph.updateVertice.updateStoredEdges K H vertice : NodeM Id Pair Ecdh Chan Bool) :=
  spends_bind graded_handed (spends_modifyGraph _) (fun _ _ => trivial)
    (fun _ => spends_updateStoredEdges (I := fun _ => True) vertice) (Nat.le_refl 0)

omit [LinearOrder Id] in
theorem handed_broadcast (n : Node Id Pair Ecdh Chan) (message : Message Id)
    (channel : Option Chan) : Handed 1 n { n with
      wire := n.routing.broadcast K H.byteOrder n.wire message channel } := by
  intro c
  simp only [Routing.broadcast]
  split_ifs
  · cases message.toBinary K H.byteOrder with
    | error e => exact ⟨List.prefix_rfl, Nat.le_add_right _ _⟩
    | ok data => exact ⟨List.prefix_append _ _, by simp⟩
  · exact ⟨List.prefix_rfl, Nat.le_add_right _ _⟩

theorem spends_ownVertice (depth : ℕ) {s : State Id} (hid : s.id = K.publicKey pair)
    (hkey : s.ecdhPublic = K.ecdhPublicKey ecdh) : Spends Handed (Sealed K pair ecdh) 0
      (Graph.updateVertice K H depth s : NodeM Id Pair Ecdh Chan Bool) := by
  cases depth with
  | zero => exact spends_throw graded_handed _
  | succ depth =>
    refine spends_get_bind fun n hn => ?_
    obtain ⟨c, hc, hown⟩ := hn.own
    rw [← hid] at hc
    cases hp : n.graph.findVertice s.id with
    | none =>
      rw [Graph.stateOf, hp] at hc
      cases hc
    | some vertice =>
      rw [stateOf_of_lookup hp] at hc
      dsimp only
      rw [hc]
      dsimp only
      have hsame : ¬ c.ecdhPublic ≠ s.ecdhPublic := by rw [hown, hkey, not_not]
      split_ifs
      · exact handed_of_wire rfl
      · exact spends_store (I := fun _ => True) vertice s n trivial

theorem spends_broadcastState (depth : ℕ) : Spends Handed (Sealed K pair ecdh) 1
    (Graph.broadcastStateWith K H (Graph.updateVertice K H depth) :
      NodeM Id Pair Ecdh Chan Unit) := by
  refine spends_get_bind fun n hn => ?_
  have hid : (n.localState K).id = K.publicKey pair := congrArg K.publicKey hn.ecdsaPair
  have hkey : (n.localState K).ecdhPublic = K.ecdhPublicKey ecdh :=
    congrArg K.ecdhPublicKey hn.mEcdh
  have hcounted := sealed_withstands.counted (H := H) n hn
  have hcount : Spends Handed (fun _ => True) 0 (modifyGraph fun g =>
    { g with mStateSequence := g.mStateSequence + 1 } : NodeM Id Pair Ecdh Chan Unit) :=
    spends_modifyGraph _
  refine spent_bind (k := 1) graded_handed (hcount n trivial) hcounted (fun _ => ?_)
    (Nat.le_refl 1)
  cases (n.localState K).toMessage K H.byteOrder n.ecdsaPair with
  | error e => exact spends_mono graded_handed (Nat.zero_le 1) (spends_throw graded_handed e)
  | ok message =>
    refine spends_bind (J := fun _ => True) (k := 1) graded_handed
      (spends_ownVertice depth hid hkey) (fun _ _ => trivial) (fun _ => ?_) (Nat.le_refl 1)
    exact spends_modify fun n _ => handed_broadcast n message none

theorem spends_updateVertice (depth : ℕ) {s : State Id} (hs : Genuine K pair ecdh s) :
    Spends Handed (Sealed K pair ecdh) 1
      (Graph.updateVertice K H depth s : NodeM Id Pair Ecdh Chan Bool) := by
  cases depth with
  | zero => exact spends_mono graded_handed (Nat.zero_le 1) (spends_throw graded_handed _)
  | succ depth =>
    refine spends_get_bind fun n hn => ?_
    have hannounce : Spends Handed (Sealed K pair ecdh) 1
        (Graph.broadcastStateWith K H (Graph.updateVertice K H depth) :
          NodeM Id Pair Ecdh Chan Unit) :=
      spends_broadcastState depth
    cases hp : n.graph.findVertice s.id with
    | none =>
      have hentered := sealed_withstands.entered (H := H) n s hn hs hp
      have hstore : Handed 0 n { n with
          graph := n.graph.storeVertice { newVertice s.id with state := some s } } :=
        handed_of_wire rfl
      refine spent_bind (k := 1) graded_handed hstore hentered (fun _ => ?_) (Nat.le_refl 1)
      exact spends_bind (J := fun _ => True) graded_handed hannounce (fun _ _ => trivial)
        (fun _ => spends_updateStoredEdges _) (Nat.le_refl 1)
    | some vertice =>
      have hnews := spends_bind (J := fun _ => True) graded_handed hannounce (fun _ _ => trivial)
        (fun _ => spends_store (K := K) (H := H) vertice s) (Nat.le_refl 1)
      dsimp only
      cases (n.graph.heap vertice).state with
      | none => exact hnews n hn
      | some current =>
        dsimp only
        split_ifs
        · exact graded_handed.mono (Nat.zero_le 1) (handed_of_wire rfl)
        · exact hnews n hn
        · exact graded_handed.mono (Nat.zero_le 1)
            (spends_store (I := fun _ => True) vertice s n trivial)

theorem spends_notifyNeighbor : Spends Handed (Sealed K pair ecdh) 1
    (Graph.notifyNeighbor K H : NodeM Id Pair Ecdh Chan Unit) := by
  refine spends_get_bind fun n hn => ?_
  have hedges : Spends Handed (fun _ => True) 0 (Graph.updateEdges K H (n.id K)
      n.routing.neighbors : NodeM Id Pair Ecdh Chan Bool) :=
    spends_of_wire fun w => free_updateEdges (wire_free w) _ _
  refine spent_bind (k := 1) graded_handed (hedges n trivial) (sealed_updateEdges _ _ n hn)
    (fun changed => ?_) (Nat.le_refl 1)
  cases changed with
  | true => exact spends_broadcastState H.stack
  | false => exact spends_mono graded_handed (Nat.zero_le 1) (spends_pure graded_handed ())

omit [DecidableEq Chan] in
theorem sealed_routing (h : Sealed K pair ecdh n) (r : Routing Id Chan) :
    Sealed K pair ecdh { n with routing := r } :=
  sealed_congr h rfl rfl ⟨rfl, rfl, rfl⟩ fun port => by cases port <;> rfl

theorem changeNeighbors_step (hn : Sealed K pair ecdh n)
    (change : Routing Id Chan → Routing Id Chan × Bool) :
    let n' := final (Node.changeNeighbors K H change n)
    Handed 1 n n' ∧ Sealed K pair ecdh n' := by
  have hrouting := sealed_routing hn (change n.routing).1
  simp only [Node.changeNeighbors, get_bind_run]
  cases (change n.routing).2 with
  | true => exact ⟨spends_notifyNeighbor _ hrouting,
      keeps_notifyNeighbor sealed_withstands _ hrouting⟩
  | false => exact ⟨graded_handed.mono (Nat.zero_le 1) (handed_of_wire rfl), hrouting⟩

def Honest (K : CryptoPP Id Pair Ecdh) (pair : Pair) (ecdh : Ecdh) (message : Message Id) :
    Prop := ∀ s, State.fromMessage K message = .ok s → Genuine K pair ecdh s

omit [DecidableEq Chan] in
theorem honest_of_type {message : Message Id} (h : message.type ≠ MessageType.State) :
    Honest K pair ecdh message :=
  fun _ hs => absurd (fromMessage_type hs) h

omit [DecidableEq Chan] in
theorem sealed_free : TransportFree (Sealed K pair ecdh : Node Id Pair Ecdh Chan → Prop) := by
  intro n port t ht hn
  refine ⟨?_, ?_, ⟨?_, ?_⟩, ?_, typed_setTransport hn.typed (ht.trans (hn.typed port))⟩
  · cases port <;> exact hn.ecdsaPair
  · rw [graph_setTransport]
    exact hn.mEcdh
  · rw [graph_setTransport]
    exact hn.rooted.linked
  · rw [graph_setTransport]
    have hroot := hn.rooted.root
    cases port <;> exact hroot
  · rw [graph_setTransport]
    exact hn.own

omit [DecidableEq Chan] in
theorem sealed_wire (n : Node Id Pair Ecdh Chan) (w : Wire Chan) (hn : Sealed K pair ecdh n) :
    Sealed K pair ecdh { n with wire := w } :=
  sealed_congr hn rfl rfl ⟨rfl, rfl, rfl⟩ fun port => by cases port <;> rfl

theorem sealed_graphMessage {message : Message Id} (hm : Honest K pair ecdh message)
    (channel : Option Chan) :
    Keeps (Sealed K pair ecdh) (Graph.notifyMessage K H message channel) := by
  rw [Graph.notifyMessage]
  split_ifs
  · refine keeps_get_bind fun n hn => ?_
    cases message.source with
    | none => exact hn
    | some source =>
      cases channel with
      | none => exact hn
      | some channel =>
        dsimp only
        split_ifs
        · exact hn
        · exact (changeNeighbors_step hn _).2
  · rw [Graph.notifyState]
    cases hs : State.fromMessage K message with
    | error e => exact keeps_throw e
    | ok s =>
      refine keeps_bind (keeps_insert sealed_withstands (hm s hs)) fun accepted => ?_
      cases accepted with
      | true => exact keeps_modify fun n hn => sealed_wire n _ hn
      | false => exact keeps_pure _
  · exact keeps_pure _

/-- A Hello is answered by one announcement, a State by one and by being passed on. -/
theorem spends_graphMessage {message : Message Id} (hm : Honest K pair ecdh message)
    (channel : Option Chan) : Spends Handed (Sealed K pair ecdh) 2
      (Graph.notifyMessage K H message channel : NodeM Id Pair Ecdh Chan Unit) := by
  have hnone : ∀ n : Node Id Pair Ecdh Chan, Handed 2 n n :=
    fun n => graded_handed.mono (Nat.zero_le 2) (graded_handed.refl n)
  rw [Graph.notifyMessage]
  split_ifs
  · refine spends_get_bind fun n hn => ?_
    cases message.source with
    | none => exact hnone n
    | some source =>
      cases channel with
      | none => exact hnone n
      | some channel =>
        dsimp only
        split_ifs
        · exact hnone n
        · exact graded_handed.mono (by decide) (changeNeighbors_step hn _).1
  · rw [Graph.notifyState]
    cases hs : State.fromMessage K message with
    | error e => exact fun n _ => hnone n
    | ok s =>
      refine spends_bind (J := fun _ => True) (k := 1) graded_handed
        (spends_updateVertice H.stack (hm s hs)) (fun _ _ => trivial) (fun accepted => ?_)
        (Nat.le_refl 2)
      cases accepted with
      | true => exact spends_modify fun n _ => handed_broadcast n message channel
      | false => exact spends_mono graded_handed (Nat.zero_le 1) (spends_pure graded_handed ())
  · exact fun n _ => hnone n

omit [DecidableEq Chan] in
theorem wire_incoming (w : Wire Chan) (port : Port) (message : Message Id) (remoteId : Id) :
    KeepsWire w (Transport.incoming K port message remoteId : NodeM Id Pair Ecdh Chan Unit) :=
  keeps_incoming K (fun _ port' _ _ hn => by cases port' <;> exact hn) port message remoteId

omit [LinearOrder Id] [DecidableEq Chan] in
theorem wire_setTransport (n : Node Id Pair Ecdh Chan) (port : Port) (t : Transport Id) :
    (n.setTransport port t).wire = n.wire := by cases port <;> rfl

theorem spends_broadcastable (message : Message Id) (remoteId : Id) (channel : Option Chan) :
    Spends Handed I 1 (BroadcastableTransport.incoming K H message remoteId channel :
      NodeM Id Pair Ecdh Chan Unit) := by
  unfold BroadcastableTransport.incoming
  cases message.destination with
  | some _ =>
    exact spends_mono graded_handed (Nat.zero_le 1)
      (spends_of_wire fun w => wire_incoming w .user message remoteId)
  | none =>
    have hcheck : Spends Handed I 0 (Node.checkSequence .user remoteId message.sequence :
        NodeM Id Pair Ecdh Chan Bool) :=
      fun n _ => handed_of_wire (wire_setTransport n .user _)
    refine spends_bind (J := fun _ => True) (k := 1) graded_handed hcheck (fun _ _ => trivial)
      (fun fresh => ?_) (Nat.le_refl 1)
    cases fresh with
    | false => exact spends_mono graded_handed (Nat.zero_le 1) (spends_pure graded_handed ())
    | true =>
      refine spends_bind (J := fun _ => True) (k := 0) graded_handed
        (spends_modify fun n _ => handed_broadcast n message channel) (fun _ _ => trivial)
        (fun _ => ?_) (Nat.le_refl 1)
      exact spends_modify fun n _ => handed_of_wire (wire_setTransport n .user _)

theorem spends_signaling (message : Message Id) (channel : Option Chan) : Spends Handed I 0
    (Transport.notifyMessage K H .signaling message channel : NodeM Id Pair Ecdh Chan Unit) := by
  refine spends_of_wire fun w => keeps_get_bind fun n hn => ?_
  cases message.source with
  | none => exact hn
  | some remoteId =>
    dsimp only
    split_ifs
    · exact hn
    · exact wire_incoming w .signaling message remoteId n hn

theorem spends_user (message : Message Id) (channel : Option Chan) :
    Spends Handed (Sealed K pair ecdh) (if message.type = MessageType.User then 1 else 0)
      (Transport.notifyMessage K H .user message channel : NodeM Id Pair Ecdh Chan Unit) := by
  refine spends_get_bind fun n hn => ?_
  have hskip : ∀ k, Handed k n n :=
    fun k => graded_handed.mono (Nat.zero_le k) (graded_handed.refl n)
  rw [hn.typed .user]
  cases message.source with
  | none => exact hskip _
  | some remoteId =>
    dsimp only
    by_cases htype : message.type ≠ Port.user.type
    · rw [if_pos htype]
      exact hskip _
    · have huser : message.type = MessageType.User := not_not.mp htype
      rw [if_neg htype, if_pos huser]
      exact spends_broadcastable (I := fun _ => True) message remoteId channel n trivial

def messageCost (type : UInt8) : ℕ :=
  if type = MessageType.Hello ∨ type = MessageType.State then 2 else 1

theorem nodeMessage_step {message : Message Id} (hm : Honest K pair ecdh message)
    (channel : Option Chan) (hn : Sealed K pair ecdh n) :
    let n' := final (Node.notifyMessage K H message channel n)
    Handed (messageCost message.type) n n' ∧ Sealed K pair ecdh n' := by
  refine ⟨?_, ?_⟩
  · have hrest : Spends Handed (Sealed K pair ecdh)
        (if message.type = MessageType.User then 1 else 0)
        (do
          Transport.notifyMessage K H .signaling message channel
          Transport.notifyMessage K H .user message channel : NodeM Id Pair Ecdh Chan Unit) :=
      spends_bind graded_handed (spends_signaling message channel)
        (keeps_notifyMessage K H sealed_free sealed_wire .signaling message channel)
        (fun _ => spends_user message channel) (Nat.le_of_eq (Nat.zero_add _))
    by_cases hgraph : message.type = MessageType.Hello ∨ message.type = MessageType.State
    · have huser : message.type ≠ MessageType.User := by
        rcases hgraph with htype | htype <;> rw [htype] <;> decide
      rw [if_neg huser] at hrest
      rw [messageCost, if_pos hgraph]
      exact spent_bind graded_handed (spends_graphMessage hm channel n hn)
        (sealed_graphMessage hm channel n hn) (fun _ => hrest) (Nat.le_refl 2)
    · rw [not_or] at hgraph
      have hskip : Graph.notifyMessage K H message channel n = .ok () n := by
        rw [Graph.notifyMessage, if_neg hgraph.1, if_neg hgraph.2]
        rfl
      rw [messageCost, if_neg (not_or.mpr hgraph), Node.notifyMessage, bind_ok hskip]
      refine graded_handed.mono ?_ (hrest n hn)
      split_ifs <;> decide
  · exact keeps_bind (sealed_graphMessage hm channel)
      (fun _ => keeps_bind
        (keeps_notifyMessage K H sealed_free sealed_wire .signaling message channel)
        fun _ => keeps_notifyMessage K H sealed_free sealed_wire .user message channel) n hn

omit [LinearOrder Id] in
theorem handed_send {w : Wire Chan} {channel : Chan} {data : Binary}
    (h : n.wire.send channel data = .ok w) : Handed 1 n { n with wire := w } := by
  unfold Wire.send at h
  split_ifs at h
  cases h
  intro c
  by_cases hc : c = channel
  · subst hc
    simp
  · simp [Function.update_of_ne hc]

theorem route_step {message : Message Id} (hm : Honest K pair ecdh message)
    (from_ : Option Chan) (hn : Sealed K pair ecdh n) :
    let n' := final (Node.route K H message from_ n)
    Handed (messageCost message.type) n n' ∧ Sealed K pair ecdh n' := by
  have hcost : 1 ≤ messageCost message.type := by
    unfold messageCost
    split_ifs <;> decide
  have hnone : Handed (messageCost message.type) n n :=
    graded_handed.mono (Nat.zero_le _) (graded_handed.refl n)
  rw [Node.route, get_bind_run]
  cases hroute : n.routing.route (n.id K) message from_ with
  | error e => exact ⟨hnone, hn⟩
  | ok outcome =>
    cases outcome with
    | emit m c =>
      obtain ⟨rfl, rfl⟩ := route_emit hroute
      exact nodeMessage_step hm c hn
    | drop => exact ⟨hnone, hn⟩
    | send c m =>
      dsimp only
      cases m.toBinary K H.byteOrder with
      | error e => exact ⟨hnone, hn⟩
      | ok data =>
        dsimp only
        cases hsend : n.wire.send c data with
        | error e => exact ⟨hnone, hn⟩
        | ok w => exact ⟨graded_handed.mono hcost (handed_send hsend), sealed_wire n w hn⟩

theorem send_step {message : Message Id} {port : Port} (htype : message.type = port.type)
    (hn : Sealed K pair ecdh n) :
    let n' := final (Node.send K H message n)
    Handed 1 n n' ∧ Sealed K pair ecdh n' := by
  have hstate : message.type ≠ MessageType.State := by
    rw [htype]
    cases port <;> decide
  have hcost : messageCost message.type = 1 := by
    rw [htype]
    cases port <;> rfl
  rw [Node.send]
  split_ifs
  · have hroute := route_step (H := H) (honest_of_type hstate) none hn
    rw [hcost] at hroute
    exact hroute
  · exact ⟨handed_broadcast n message none, sealed_wire n _ hn⟩

omit [DecidableEq Chan] in
theorem makeMessage_step (port : Port) (body : Binary) (destination : Option Id)
    (hn : Sealed K pair ecdh n) :
    let r := Transport.makeMessage K H port body destination n
    (final r).wire = n.wire ∧ Sealed K pair ecdh (final r) ∧
      ∀ m n₁, r = .ok m n₁ → m.type = port.type := by
  have hcounted : ∀ mSendSequence issued, Sealed K pair ecdh (n.setTransport port
      { n.transport port with mSendSequence, issued }) := fun _ _ => sealed_free n port _ rfl hn
  rcases Nat.lt_or_ge uint16Max body.length with hlong | hfits
  · rw [makeMessage_too_long (K := K) H n port destination hlong]
    refine ⟨wire_setTransport n port _, hcounted _ _, fun m n₁ heq => ?_⟩
    cases heq
  · obtain ⟨m, hrun, _, htype, _⟩ := makeMessage_spec (K := K) H n port destination hfits
    rw [hrun]
    refine ⟨wire_setTransport n port _, hcounted _ _, fun m' n₁ heq => ?_⟩
    cases heq
    exact htype.trans (hn.typed port)

theorem transportSend_step (port : Port) (remoteId : Id) (payload : Binary) (random : Iv)
    (hn : Sealed K pair ecdh n) :
    let n' := final (Transport.send K H port remoteId payload random n)
    Handed 1 n n' ∧ Sealed K pair ecdh n' := by
  have hnone : Handed 1 n n := graded_handed.mono (Nat.zero_le 1) (graded_handed.refl n)
  rw [Transport.send]
  rcases directMessage_cases (K := K) H n port remoteId payload random with
    ⟨e, hrefused⟩ | ⟨body, hmessage⟩
  · rw [bind_error hrefused]
    exact ⟨hnone, hn⟩
  · obtain ⟨hwire, hsealed, htype⟩ :=
      makeMessage_step (H := H) port body (some remoteId) hn
    cases hrun : Transport.makeMessage K H port body (some remoteId) n with
    | error e n₁ =>
      rw [hrun] at hwire hsealed
      rw [bind_error (hmessage.trans hrun)]
      exact ⟨graded_handed.mono (Nat.zero_le 1) (handed_of_wire hwire), hsealed⟩
    | ok m n₁ =>
      rw [hrun] at hwire hsealed
      rw [bind_ok (hmessage.trans hrun)]
      obtain ⟨hsent, hafter⟩ := send_step (H := H) (htype m n₁ hrun) hsealed
      exact ⟨graded_handed.trans (handed_of_wire hwire) hsent, hafter⟩

theorem transportBroadcast_step (port : Port) (payload : Binary) (hn : Sealed K pair ecdh n) :
    let n' := final (Transport.broadcast K H port payload n)
    Handed 1 n n' ∧ Sealed K pair ecdh n' := by
  have hnone : Handed 1 n n := graded_handed.mono (Nat.zero_le 1) (graded_handed.refl n)
  cases port with
  | signaling => exact ⟨hnone, hn⟩
  | user =>
    obtain ⟨hwire, hsealed, _⟩ := makeMessage_step (H := H) .user payload none hn
    rw [Transport.broadcast]
    cases hrun : Transport.makeMessage K H .user payload none n with
    | error e n₁ =>
      rw [hrun] at hwire hsealed
      rw [bind_error hrun]
      exact ⟨graded_handed.mono (Nat.zero_le 1) (handed_of_wire hwire), hsealed⟩
    | ok m n₁ =>
      rw [hrun] at hwire hsealed
      rw [bind_ok hrun]
      exact ⟨graded_handed.trans (handed_of_wire hwire) (handed_broadcast n₁ m none),
        sealed_wire n₁ _ hsealed⟩

theorem update_step (hn : Sealed K pair ecdh n) :
    let n' := final (Graph.update K H n)
    Handed 1 n n' ∧ Sealed K pair ecdh n' := by
  let counted : Node Id Pair Ecdh Chan := { n with
    graph := { n.graph with mHelloSequence := n.graph.mHelloSequence + 1 } }
  have hcounted : Sealed K pair ecdh counted :=
    sealed_congr hn rfl rfl ⟨rfl, rfl, rfl⟩ fun port => by cases port <;> rfl
  have hkept : Handed 0 n counted := handed_of_wire rfl
  rw [Graph.update, get_bind_run, modifyGraph, modify_bind_run]
  cases Message.create K H.byteOrder MessageType.Hello n.graph.mHelloSequence []
      (some n.ecdsaPair) none with
  | error e => exact ⟨graded_handed.mono (Nat.zero_le 1) hkept, hcounted⟩
  | ok message =>
    exact ⟨graded_handed.trans hkept (handed_broadcast counted message none),
      sealed_wire counted _ hcounted⟩

def NodeEvent.cost : NodeEvent Id Chan → ℕ
  | .addChannel _ => 0
  | .removeChannel _ => 0
  | .status _ => 0
  | .addNeighbor _ _ => 1
  | .removeNeighbor _ _ => 1
  | .update => 1
  | .send _ _ _ _ => 1
  | .broadcast _ _ => 1
  | .received _ _ => 2

/-- Bytes with a State in the node's own name carry the node's own ECDH key. -/
def NodeEvent.Unforged (K : CryptoPP Id Pair Ecdh) (H : Host Id) (pair : Pair) (ecdh : Ecdh)
    (ev : NodeEvent Id Chan) : Prop :=
  ∀ data ∈ ev.data, ∀ message, Message.parse K H.byteOrder data = .ok message →
    Honest K pair ecdh message

theorem event_step (ev : NodeEvent Id Chan) (hev : NodeEvent.Unforged K H pair ecdh ev)
    (hn : Sealed K pair ecdh n) :
    Handed (NodeEvent.cost ev) n (ev.apply K H n) ∧ Sealed K pair ecdh (ev.apply K H n) := by
  cases ev with
  | addChannel channel => exact ⟨handed_of_wire rfl, sealed_routing hn _⟩
  | removeChannel channel => exact ⟨handed_of_wire rfl, sealed_routing hn _⟩
  | addNeighbor remoteId channel => exact changeNeighbors_step hn _
  | removeNeighbor remoteId channel => exact changeNeighbors_step hn _
  | status isOpen => exact ⟨fun c => ⟨List.prefix_rfl, Nat.le_refl _⟩, sealed_wire n _ hn⟩
  | update => exact update_step hn
  | send port remoteId payload random => exact transportSend_step port remoteId payload random hn
  | broadcast port payload => exact transportBroadcast_step port payload hn
  | received channel data =>
    change Handed 2 n (Node.onMessage K H n channel data) ∧
      Sealed K pair ecdh (Node.onMessage K H n channel data)
    rw [Node.onMessage]
    cases hparse : Message.parse K H.byteOrder data with
    | error e => exact ⟨graded_handed.mono (Nat.zero_le 2) (graded_handed.refl n), hn⟩
    | ok message =>
      have hm := hev data (List.mem_singleton_self data) message hparse
      obtain ⟨hsent, hafter⟩ := route_step (H := H) hm (some channel) hn
      refine ⟨graded_handed.mono ?_ hsent, hafter⟩
      unfold messageCost
      split_ifs <;> decide

theorem created_sealed (h : Created K H n) : Sealed K n.ecdsaPair n.graph.mEcdh n := by
  obtain ⟨n₀, mEcdh, _, _, htransports, hrun⟩ := h.constructed
  have hsealed : Sealed K n₀.ecdsaPair mEcdh (final (Graph.construct K H mEcdh n₀)) := by
    apply construct_keeps sealed_withstands
    obtain ⟨hput, _⟩ := storeNew_spec (K := K)
      (n := { n₀ with graph := emptyGraph (n₀.id K) mEcdh })
      (s := ⟨n₀.id K, 0 - 1, K.ecdhPublicKey mEcdh, ∅⟩) (linked_emptyGraph _ _) (Or.inl rfl) rfl
    refine ⟨rfl, rfl, hput.rooted, ⟨⟨n₀.id K, 0 - 1, K.ecdhPublicKey mEcdh, ∅⟩, ?_, rfl⟩,
      fun port => ?_⟩
    · have hstored := congrFun (congrArg View.states hput.view_eq) (n₀.id K)
      rw [put_states] at hstored
      exact hstored.trans (Function.update_self ..)
    · obtain ⟨mSendSequence, hinitial⟩ := htransports port
      have htyped := congrArg Transport.mType hinitial
      cases port <;> exact htyped
  rw [hrun] at hsealed
  have hpair := hsealed.ecdsaPair
  have hecdh := hsealed.mEcdh
  rw [final_ok] at hpair hecdh
  rw [hpair, hecdh]
  exact hsealed

/-- However many peers send what they like: on every channel the node has handed over two
messages at most for each byte string that it received and one for each call, as long as
nobody else signs a State in its name. -/
theorem traffic_bounded (h : Created K H n) (events : List (NodeEvent Id Chan))
    (hunforged : ∀ ev ∈ events, NodeEvent.Unforged K H n.ecdsaPair n.graph.mEcdh ev) (c : Chan) :
    n.wire.outbox c <+: (run K H n events).wire.outbox c ∧
      ((run K H n events).wire.outbox c).length ≤
        (n.wire.outbox c).length + (events.map NodeEvent.cost).sum :=
  foldl_spends graded_handed (I := Sealed K n.ecdsaPair n.graph.mEcdh)
    (fun _ ev hev hs => (event_step ev hev hs).2) (fun _ ev hev hs => (event_step ev hev hs).1)
    events n hunforged (created_sealed h) c

end Costs

-- Node 1 hears a broadcast of node 2 over channel 0, passes it on over channel 1 and greets
-- both channels.
namespace Sample
open LegioNode.Sample PublishedTable.Sample SignedProvenance.Sample

def events : List (NodeEvent (Fin 4) ℕ) := [.addChannel 1] ++ heard ++ [.update]

theorem greeting_unforged (ev : NodeEvent (Fin 4) ℕ) (hev : ev ∈ events) :
    NodeEvent.Unforged LegioCrypto.Sample.crypto host (started 1).ecdsaPair
      (started 1).graph.mEcdh ev := by
  have hall : ∀ ev ∈ events, ∀ data ∈ ev.data,
      (Message.parse LegioCrypto.Sample.crypto host.byteOrder data).toOption.map Message.type =
        some MessageType.User := by decide +kernel
  intro data hdata message hparse
  have htype := hall ev hev data hdata
  rw [hparse] at htype
  refine honest_of_type ?_
  rw [Option.some.inj htype]
  decide

theorem two_messages : (run LegioCrypto.Sample.crypto host (started 1) events).wire.outbox 1 ≠ [] ∧
    ((run LegioCrypto.Sample.crypto host (started 1) events).wire.outbox 1).length ≤
      ((started 1).wire.outbox 1).length + 3 := by
  refine ⟨by decide +kernel, ?_⟩
  exact (traffic_bounded (created 1) events greeting_unforged 1).2

end Sample

end BoundedTraffic
