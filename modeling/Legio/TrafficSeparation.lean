import Legio.SignedProvenance
import Legio.TwinRuns

set_option linter.style.header false

/-! What the traffic of one kind can do to the rest of a node. Hello and State messages
are for the graph; each transport has a type of its own. The graph, the routing component
and a transport go on as if the traffic of the other transports had never come. -/
namespace TrafficSeparation

open LegioBinary LegioCrypto LegioMessage LegioNode ExceptionStates TwinRuns NodeRuns
open TransportSteps SignedProvenance

variable {Id Pair Ecdh Chan : Type}

/-- Two nodes that differ only in their wires and in the transports that are not looked at. -/
structure Alike (ports : Port → Bool) (n n' : Node Id Pair Ecdh Chan) : Prop where
  ecdsaPair : n.ecdsaPair = n'.ecdsaPair
  routing : n.routing = n'.routing
  graph : n.graph = n'.graph
  seen : ∀ port, ports port = true → n.transport port = n'.transport port
  typed : ∀ port, (n.transport port).mType = port.type
  typed' : ∀ port, (n'.transport port).mType = port.type

section Changes
variable {ports : Port → Bool} {n n' : Node Id Pair Ecdh Chan}

theorem Alike.id (h : Alike ports n n') (K : CryptoPP Id Pair Ecdh) : n.id K = n'.id K :=
  congrArg K.publicKey h.ecdsaPair

theorem Alike.symm (h : Alike ports n n') : Alike ports n' n :=
  ⟨h.ecdsaPair.symm, h.routing.symm, h.graph.symm, fun port hport => (h.seen port hport).symm,
    h.typed', h.typed⟩

theorem transport_setTransport_ne {port port' : Port} (h : port' ≠ port)
    (n : Node Id Pair Ecdh Chan) (t : Transport Id) :
    (n.setTransport port t).transport port' = n.transport port' := by
  cases port <;> cases port' <;> first | rfl | exact absurd rfl h

theorem typed_setTransport (h : ∀ port, (n.transport port).mType = port.type) {port : Port}
    {t : Transport Id} (ht : t.mType = port.type) (port' : Port) :
    ((n.setTransport port t).transport port').mType = port'.type := by
  by_cases heq : port' = port
  · subst heq
    rw [transport_setTransport, ht]
  · rw [transport_setTransport_ne heq, h]

theorem alike_put (h : Alike ports n n') (r : Routing Id Chan) (g : LegioNode.Graph Id Ecdh)
    (w w' : Wire Chan) : Alike ports { n with wire := w, routing := r, graph := g }
      { n' with wire := w', routing := r, graph := g } := by
  refine ⟨h.ecdsaPair, rfl, rfl, fun port => ?_, fun port => ?_, fun port => ?_⟩
  · have hseen := h.seen port
    cases port <;> exact hseen
  · have htyped := h.typed port
    cases port <;> exact htyped
  · have htyped := h.typed' port
    cases port <;> exact htyped

theorem alike_wires (h : Alike ports n n') (w w' : Wire Chan) :
    Alike ports { n with wire := w } { n' with wire := w' } := by
  have hput := alike_put h n'.routing n'.graph w w'
  exact ⟨h.ecdsaPair, h.routing, h.graph, hput.seen, hput.typed, hput.typed'⟩

theorem alike_wire (h : Alike ports n n') (w : Wire Chan) :
    Alike ports { n with wire := w } n' := alike_wires h w n'.wire

theorem alike_setTransport (h : Alike ports n n') (port : Port) {t : Transport Id}
    (ht : t.mType = port.type) :
    Alike ports (n.setTransport port t) (n'.setTransport port t) := by
  refine ⟨?_, ?_, ?_, fun port' hport => ?_, typed_setTransport h.typed ht,
    typed_setTransport h.typed' ht⟩
  · cases port <;> exact h.ecdsaPair
  · cases port <;> exact h.routing
  · rw [graph_setTransport, graph_setTransport, h.graph]
  · by_cases heq : port' = port
    · subst heq
      rw [transport_setTransport, transport_setTransport]
    · rw [transport_setTransport_ne heq, transport_setTransport_ne heq, h.seen port' hport]

theorem alike_hidden (h : Alike ports n n') {port : Port} (hport : ports port = false)
    {t : Transport Id} (ht : t.mType = port.type) : Alike ports (n.setTransport port t) n' := by
  refine ⟨?_, ?_, ?_, fun port' hport' => ?_, typed_setTransport h.typed ht, h.typed'⟩
  · cases port <;> exact h.ecdsaPair
  · cases port <;> exact h.routing
  · rw [graph_setTransport, h.graph]
  · have hne : port' ≠ port := by
      rintro rfl
      rw [hport] at hport'
      cases hport'
    rw [transport_setTransport_ne hne, h.seen port' hport']

end Changes

section Graph
variable [LinearOrder Id] [DecidableEq Chan] {K : CryptoPP Id Pair Ecdh} {H : Host Id}
  {ports : Port → Bool}

omit [LinearOrder Id] [DecidableEq Chan] in
theorem twin_modifyGraph (f : LegioNode.Graph Id Ecdh → LegioNode.Graph Id Ecdh) :
    Twin (Alike ports) (modifyGraph f : NodeM Id Pair Ecdh Chan Unit) := by
  refine twin_modify fun n n' h => ?_
  have hput := alike_put h n.routing (f n.graph) n.wire n'.wire
  rw [← h.graph]
  rw [h.routing] at hput ⊢
  exact hput

omit [DecidableEq Chan] in
theorem twin_computeRoutingTable :
    Twin (Alike ports) (Graph.computeRoutingTable K H : NodeM Id Pair Ecdh Chan Unit) := by
  refine twin_bind (twin_modifyGraph _) fun _ => twin_get_bind fun n n' h => ?_
  rw [h.id K, h.graph, h.routing]
  cases n'.graph.findVertice (n'.id K) with
  | none => exact .error _ h
  | some localVertice =>
    dsimp only
    generalize searchLoop H _ _ = result
    cases result with
    | none => exact .error _ h
    | some s => exact .ok () (alike_put h _ _ n.wire n'.wire)

omit [DecidableEq Chan] in
theorem twin_updateEdges (id : Id) (neighbors : Finset Id) :
    Twin (Alike ports) (Graph.updateEdges K H id neighbors : NodeM Id Pair Ecdh Chan Bool) := by
  refine twin_get_bind fun n n' h => ?_
  rw [h.graph]
  cases n'.graph.findVertice id with
  | none => exact .error _ h
  | some vertice =>
    dsimp only
    split_ifs
    · exact .ok false h
    · exact twin_bind (twin_modifyGraph _)
        (fun _ => twin_bind twin_computeRoutingTable fun _ => twin_pure true) n n' h

theorem twin_broadcastStateWith {update : State Id → NodeM Id Pair Ecdh Chan Bool}
    (hu : ∀ s, Twin (Alike ports) (update s)) :
    Twin (Alike ports) (Graph.broadcastStateWith K H update) := by
  refine twin_get_bind fun n n' h => ?_
  have hlocal : n.localState K = n'.localState K := by
    rw [Node.localState, Node.localState, h.id K, h.graph, h.routing]
  rw [hlocal, h.ecdsaPair]
  refine twin_bind (twin_modifyGraph _) (fun _ => ?_) n n' h
  cases (n'.localState K).toMessage K H.byteOrder n'.ecdsaPair with
  | error e => exact twin_throw e
  | ok message =>
    refine twin_bind (hu _) fun _ => twin_modify fun n n' h => ?_
    rw [h.graph, h.routing]
    exact alike_put h n'.routing _ _ _

omit [DecidableEq Chan] in
theorem twin_updateStoredEdges (vertice : Ptr) : Twin (Alike ports)
    (Graph.updateVertice.updateStoredEdges K H vertice : NodeM Id Pair Ecdh Chan Bool) := by
  refine twin_get_bind fun n n' h => ?_
  rw [h.graph]
  cases (n'.graph.heap vertice).state with
  | none => exact .ok true h
  | some s => exact twin_bind (twin_updateEdges _ s.neighbors) (fun _ => twin_pure true) n n' h

theorem twin_updateVertice (depth : ℕ) : ∀ s : State Id,
    Twin (Alike ports) (Graph.updateVertice K H depth s : NodeM Id Pair Ecdh Chan Bool) := by
  induction depth with
  | zero => exact fun s => twin_throw _
  | succ depth ih =>
    intro s
    have hannounce := twin_broadcastStateWith (K := K) (H := H) ih
    refine twin_get_bind fun n n' h => ?_
    rw [h.graph]
    cases n'.graph.findVertice s.id with
    | none =>
      exact twin_bind (twin_modifyGraph _) (fun _ => twin_bind hannounce fun _ =>
        twin_updateStoredEdges _) n n' h
    | some vertice =>
      have hstore : Twin (Alike ports) (do
          modifyGraph fun g => g.modifyVertice vertice fun v => { v with state := some s }
          Graph.updateVertice.updateStoredEdges K H vertice : NodeM Id Pair Ecdh Chan Bool) :=
        twin_bind (twin_modifyGraph _) fun _ => twin_updateStoredEdges vertice
      dsimp only
      cases (n'.graph.heap vertice).state with
      | none => exact twin_bind hannounce (fun _ => hstore) n n' h
      | some current =>
        dsimp only
        split_ifs
        · exact .ok false h
        · exact twin_bind hannounce (fun _ => hstore) n n' h
        · exact hstore n n' h

theorem twin_notifyNeighbor :
    Twin (Alike ports) (Graph.notifyNeighbor K H : NodeM Id Pair Ecdh Chan Unit) := by
  refine twin_get_bind fun n n' h => ?_
  rw [h.id K, h.routing]
  refine twin_bind (twin_updateEdges _ _) (fun changed => ?_) n n' h
  cases changed with
  | true => exact twin_broadcastStateWith (twin_updateVertice H.stack)
  | false => exact twin_pure ()

omit [LinearOrder Id] in
theorem twin_broadcast (message : Message Id) (channel : Option Chan) :
    Twin (Alike ports) (modify fun n => { n with
      wire := n.routing.broadcast K H.byteOrder n.wire message channel } :
        NodeM Id Pair Ecdh Chan Unit) :=
  twin_modify fun _ _ h => alike_wires h _ _

theorem twin_changeNeighbors (change : Routing Id Chan → Routing Id Chan × Bool) :
    Twin (Alike ports) (Node.changeNeighbors K H change : NodeM Id Pair Ecdh Chan Unit) := by
  intro n n' h
  have hput := alike_put h (change n'.routing).1 n'.graph n.wire n'.wire
  rw [← h.graph] at hput
  simp only [Node.changeNeighbors, get_bind_run, h.routing]
  cases (change n'.routing).2 with
  | true => exact twin_notifyNeighbor _ _ (h.graph ▸ hput)
  | false => exact .ok () (h.graph ▸ hput)

theorem twin_graphMessage (message : Message Id) (channel : Option Chan) :
    Twin (Alike ports)
      (Graph.notifyMessage K H message channel : NodeM Id Pair Ecdh Chan Unit) := by
  rw [Graph.notifyMessage]
  split_ifs
  · refine twin_get_bind fun n n' h => ?_
    rw [h.routing]
    cases message.source with
    | none => exact .ok () h
    | some source =>
      cases channel with
      | none => exact .ok () h
      | some channel =>
        dsimp only
        split_ifs
        · exact .ok () h
        · exact twin_changeNeighbors _ n n' h
  · rw [Graph.notifyState]
    cases State.fromMessage K message with
    | error e => exact twin_throw e
    | ok s =>
      refine twin_bind (twin_updateVertice H.stack s) fun accepted => ?_
      cases accepted with
      | false => exact twin_pure ()
      | true => exact twin_broadcast message channel
  · exact twin_pure ()

omit [DecidableEq Chan] in
theorem twin_checkSequence {port : Port} (hport : ports port = true) (id : Id)
    (sequence : UInt32) :
    Twin (Alike ports) (Node.checkSequence port id sequence : NodeM Id Pair Ecdh Chan Bool) := by
  intro n n' h
  rw [checkSequence_run, checkSequence_run, h.seen port hport]
  exact .ok _ (alike_setTransport h port ((checkSequence_mType _ _ _).trans (h.typed' port)))

omit [LinearOrder Id] [DecidableEq Chan] in
theorem twin_callback {port : Port} (hport : ports port = true) (message : Message Id)
    (remoteId : Id) (payload : Binary) : Twin (Alike ports)
      (Node.callback port message remoteId payload : NodeM Id Pair Ecdh Chan Unit) := by
  refine twin_modify fun n n' h => ?_
  rw [h.seen port hport]
  exact alike_setTransport h port (h.typed' port)

omit [DecidableEq Chan] in
theorem twin_incoming {port : Port} (hport : ports port = true) (message : Message Id)
    (remoteId : Id) : Twin (Alike ports)
      (Transport.incoming K port message remoteId : NodeM Id Pair Ecdh Chan Unit) := by
  refine twin_bind (twin_checkSequence hport remoteId message.sequence) fun fresh => ?_
  cases fresh with
  | false => exact twin_pure ()
  | true =>
    cases message.destination with
    | none => exact twin_pure ()
    | some _ =>
      cases CipherBody.parse message.body with
      | error e => exact twin_throw e
      | ok cipherBody =>
        refine twin_get_bind fun n n' h => ?_
        rw [h.graph]
        split_ifs
        · exact .ok () h
        · cases cipherBody.decrypt K n'.graph.mEcdh with
          | error e => exact .error e h
          | ok payload => exact twin_callback hport message remoteId payload n n' h

theorem twin_notifyMessage {port : Port} {message : Message Id}
    (hport : ports port = true ∨ message.type ≠ port.type) (channel : Option Chan) :
    Twin (Alike ports)
      (Transport.notifyMessage K H port message channel : NodeM Id Pair Ecdh Chan Unit) := by
  refine twin_get_bind fun n n' h => ?_
  rw [h.typed, h.typed']
  cases message.source with
  | none => exact .ok () h
  | some remoteId =>
    dsimp only
    split_ifs with htype
    · exact .ok () h
    · have hseen := hport.resolve_right htype
      cases port with
      | signaling => exact twin_incoming hseen message remoteId n n' h
      | user =>
        dsimp only
        unfold BroadcastableTransport.incoming
        cases message.destination with
        | some _ => exact twin_incoming hseen message remoteId n n' h
        | none =>
          refine twin_bind (twin_checkSequence hseen remoteId message.sequence)
            (fun fresh => ?_) n n' h
          cases fresh with
          | false => exact twin_pure ()
          | true =>
            exact twin_bind (twin_broadcast message channel) fun _ =>
              twin_callback hseen message remoteId message.body

omit [DecidableEq Chan] in
theorem unnoticed_checkSequence {port : Port} (hport : ports port = false) (id : Id)
    (sequence : UInt32) : Unnoticed (Alike ports)
      (Node.checkSequence port id sequence : NodeM Id Pair Ecdh Chan Bool) := by
  intro n n' h
  rw [checkSequence_run]
  exact alike_hidden h hport ((checkSequence_mType _ _ _).trans (h.typed port))

omit [LinearOrder Id] [DecidableEq Chan] in
theorem unnoticed_callback {port : Port} (hport : ports port = false) (message : Message Id)
    (remoteId : Id) (payload : Binary) : Unnoticed (Alike ports)
      (Node.callback port message remoteId payload : NodeM Id Pair Ecdh Chan Unit) :=
  unnoticed_modify fun _ _ h => alike_hidden h hport (h.typed port)

omit [DecidableEq Chan] in
theorem unnoticed_incoming {port : Port} (hport : ports port = false) (message : Message Id)
    (remoteId : Id) : Unnoticed (Alike ports)
      (Transport.incoming K port message remoteId : NodeM Id Pair Ecdh Chan Unit) := by
  intro n n' h
  exact incoming_reaches K (I := fun n => Alike ports n n')
    (fun payload n hn => unnoticed_callback hport message remoteId payload n n' hn)
    (unnoticed_checkSequence hport remoteId message.sequence n n' h)

theorem unnoticed_notifyMessage {port : Port} {message : Message Id}
    (hport : ports port = false ∨ message.type ≠ port.type) (channel : Option Chan) :
    Unnoticed (Alike ports)
      (Transport.notifyMessage K H port message channel : NodeM Id Pair Ecdh Chan Unit) := by
  intro n n' h
  rw [Transport.notifyMessage, get_bind_run, h.typed]
  cases message.source with
  | none => exact h
  | some remoteId =>
    dsimp only
    split_ifs with htype
    · exact h
    · have hhidden := hport.resolve_right htype
      cases port with
      | signaling => exact unnoticed_incoming hhidden message remoteId n n' h
      | user =>
        dsimp only
        unfold BroadcastableTransport.incoming
        cases message.destination with
        | some _ => exact unnoticed_incoming hhidden message remoteId n n' h
        | none =>
          refine unnoticed_bind (unnoticed_checkSequence hhidden remoteId message.sequence)
            (fun fresh => ?_) n n' h
          cases fresh with
          | false => exact unnoticed_pure ()
          | true =>
            exact unnoticed_bind (unnoticed_modify fun _ _ h => alike_wire h _) fun _ =>
              unnoticed_callback hhidden message remoteId message.body

def heeds (ports : Port → Bool) (type : UInt8) : Bool :=
  decide (type = MessageType.Hello) || decide (type = MessageType.State) ||
    [Port.signaling, Port.user].any fun port => ports port && decide (type = port.type)

/-- A message that Routing emits at the node instead of sending it on. -/
def arrives (localId : Id) (message : Message Id) : Bool :=
  message.source.isSome &&
    (decide (message.destination = none) || decide (message.destination = some localId))

def NodeEvent.matters (K : CryptoPP Id Pair Ecdh) (H : Host Id) (localId : Id)
    (ports : Port → Bool) : NodeEvent Id Chan → Bool
  | .addChannel _ => true
  | .removeChannel _ => true
  | .addNeighbor _ _ => true
  | .removeNeighbor _ _ => true
  | .status _ => false
  | .update => true
  | .send port _ _ _ => ports port
  | .broadcast port _ => ports port
  | .received _ data =>
    match Message.parse K H.byteOrder data with
    | .error _ => false
    | .ok message => arrives localId message && heeds ports message.type

omit [LinearOrder Id] [DecidableEq Chan] in
theorem heeds_true {type : UInt8} (h : heeds ports type = true) (port : Port) :
    ports port = true ∨ type ≠ port.type := by
  by_contra hboth
  rw [not_or, not_not] at hboth
  obtain ⟨hhidden, rfl⟩ := hboth
  have hports := Bool.eq_false_iff.mpr hhidden
  cases port <;> simp [heeds, Port.type, hports, MessageType.Hello, MessageType.State,
    MessageType.Signaling, MessageType.User] at h

omit [LinearOrder Id] [DecidableEq Chan] in
theorem heeds_false {type : UInt8} (h : heeds ports type = false) :
    type ≠ MessageType.Hello ∧ type ≠ MessageType.State ∧
      ∀ port : Port, ports port = false ∨ type ≠ port.type := by
  simp only [heeds, List.any_cons, List.any_nil, Bool.or_false, Bool.or_eq_false_iff,
    decide_eq_false_iff_not, Bool.and_eq_false_iff] at h
  obtain ⟨⟨hhello, hstate⟩, hsignaling, huser⟩ := h
  refine ⟨hhello, hstate, fun port => ?_⟩
  cases port with
  | signaling => exact hsignaling
  | user => exact huser

theorem route_elsewhere {message : Message Id} {n : Node Id Pair Ecdh Chan}
    (h : arrives (n.id K) message = false) (from_ : Option Chan) :
    ∃ w, final (Node.route K H message from_ n) = { n with wire := w } := by
  rw [Node.route, get_bind_run, Routing.route]
  split_ifs with hsource
  · exact ⟨n.wire, rfl⟩
  · cases hd : message.destination with
    | none => simp [arrives, hd, Option.isSome_iff_ne_none.mpr hsource] at h
    | some d =>
      dsimp only
      split_ifs with hlocal
      · simp [arrives, hd, hlocal, Option.isSome_iff_ne_none.mpr hsource] at h
      · cases n.routing.findRoute d with
        | none => exact ⟨n.wire, rfl⟩
        | some channel =>
          dsimp only
          cases message.toBinary K H.byteOrder with
          | error e => exact ⟨n.wire, rfl⟩
          | ok data =>
            dsimp only
            cases n.wire.send channel data with
            | error e => exact ⟨n.wire, rfl⟩
            | ok w => exact ⟨w, rfl⟩

theorem route_arrives {message : Message Id} {n : Node Id Pair Ecdh Chan}
    (h : arrives (n.id K) message = true) (from_ : Option Chan) :
    Node.route K H message from_ n = Node.notifyMessage K H message from_ n := by
  simp only [arrives, Bool.and_eq_true, Bool.or_eq_true, decide_eq_true_eq] at h
  obtain ⟨hsource, hdestination⟩ := h
  have hroute : n.routing.route (n.id K) message from_ = .ok (.emit message from_) := by
    rw [Routing.route, if_neg (Option.isSome_iff_ne_none.mp hsource)]
    rcases hdestination with hd | hd
    · rw [hd]
    · rw [hd]
      exact if_pos rfl
  rw [Node.route, get_bind_run, hroute]

theorem unnoticed_nodeMessage {message : Message Id} (h : heeds ports message.type = false)
    (channel : Option Chan) : Unnoticed (Alike ports)
      (Node.notifyMessage K H message channel : NodeM Id Pair Ecdh Chan Unit) := by
  obtain ⟨hhello, hstate, hports⟩ := heeds_false h
  have hgraph : Unnoticed (Alike ports)
      (Graph.notifyMessage K H message channel : NodeM Id Pair Ecdh Chan Unit) := by
    rw [Graph.notifyMessage, if_neg hhello, if_neg hstate]
    exact unnoticed_pure ()
  exact unnoticed_bind hgraph fun _ =>
    unnoticed_bind (unnoticed_notifyMessage (hports .signaling) channel) fun _ =>
      unnoticed_notifyMessage (hports .user) channel

theorem twin_nodeMessage {message : Message Id} (h : heeds ports message.type = true)
    (channel : Option Chan) : Twin (Alike ports)
      (Node.notifyMessage K H message channel : NodeM Id Pair Ecdh Chan Unit) :=
  twin_bind (twin_graphMessage message channel) fun _ =>
    twin_bind (twin_notifyMessage (heeds_true h .signaling) channel) fun _ =>
      twin_notifyMessage (heeds_true h .user) channel

theorem unnoticed_route {n n' : Node Id Pair Ecdh Chan} (h : Alike ports n n')
    {message : Message Id} (hm : (arrives (n.id K) message && heeds ports message.type) = false)
    (from_ : Option Chan) : Alike ports (final (Node.route K H message from_ n)) n' := by
  cases harrives : arrives (n.id K) message with
  | false =>
    obtain ⟨w, hw⟩ := route_elsewhere (H := H) harrives from_
    rw [hw]
    exact alike_wire h w
  | true =>
    rw [harrives, Bool.true_and] at hm
    rw [route_arrives harrives]
    exact unnoticed_nodeMessage hm from_ n n' h

theorem aligned_route (message : Message Id) (from_ : Option Chan) :
    Aligned (Alike ports) (Node.route K H message from_ : NodeM Id Pair Ecdh Chan Unit) := by
  intro n n' h
  cases harrives : arrives (n.id K) message && heeds ports message.type with
  | false =>
    have harrives' := harrives
    rw [h.id K] at harrives'
    exact (unnoticed_route (unnoticed_route h harrives from_).symm harrives' from_).symm
  | true =>
    rw [Bool.and_eq_true] at harrives
    rw [route_arrives harrives.1, route_arrives (h.id K ▸ harrives.1)]
    exact paired_final (twin_nodeMessage harrives.2 from_ n n' h)

theorem aligned_send (message : Message Id) :
    Aligned (Alike ports) (Node.send K H message : NodeM Id Pair Ecdh Chan Unit) := by
  rw [Node.send]
  split_ifs
  · exact aligned_route message none
  · exact aligned_of_twin (twin_broadcast message none)

omit [LinearOrder Id] [DecidableEq Chan] in
theorem twin_makeMessage {port : Port} (hport : ports port = true) (body : Binary)
    (destination : Option Id) :
    Twin (Alike ports) (Transport.makeMessage K H port body destination :
      NodeM Id Pair Ecdh Chan (Message Id)) := by
  refine twin_get_bind fun n n' h => ?_
  rw [h.seen port hport, h.ecdsaPair]
  have hcount : Alike ports (n.setTransport port { n'.transport port with
      mSendSequence := (n'.transport port).mSendSequence + 1 })
      (n'.setTransport port { n'.transport port with
        mSendSequence := (n'.transport port).mSendSequence + 1 }) :=
    alike_setTransport h port (h.typed' port)
  cases hm : Message.create K H.byteOrder (n'.transport port).mType
      (n'.transport port).mSendSequence body (some n'.ecdsaPair) destination with
  | error e => exact paired_set_bind (.error e hcount)
  | ok message =>
    refine paired_set_bind (twin_bind (twin_modify fun n n' h => ?_)
      (fun _ => twin_pure message) _ _ hcount)
    rw [h.seen port hport]
    exact alike_setTransport h port (h.typed' port)

theorem aligned_transportSend {port : Port} (hport : ports port = true) (remoteId : Id)
    (payload : Binary) (random : Iv) : Aligned (Alike ports)
      (Transport.send K H port remoteId payload random : NodeM Id Pair Ecdh Chan Unit) := by
  refine aligned_bind (twin_get_bind fun n n' h => ?_) fun message => aligned_send message
  rw [h.graph]
  cases n'.graph.get remoteId with
  | error e => exact .error e h
  | ok remoteState =>
    dsimp only
    cases CipherBody.encrypt K payload n'.graph.mEcdh remoteState.ecdhPublic random with
    | error e => exact .error e h
    | ok cipherBody => exact twin_makeMessage hport _ _ n n' h

omit [LinearOrder Id] [DecidableEq Chan] in
theorem makeMessage_hidden {port : Port} (hport : ports port = false)
    {n n' : Node Id Pair Ecdh Chan} (h : Alike ports n n') (body : Binary)
    (destination : Option Id) :
    Alike ports (final (Transport.makeMessage K H port body destination n)) n' ∧
      ∀ m n₁, Transport.makeMessage K H port body destination n = .ok m n₁ →
        heeds ports m.type = false := by
  have hcount : ∀ mSendSequence issued, Alike ports (n.setTransport port
      { n.transport port with mSendSequence, issued }) n' :=
    fun _ _ => alike_hidden h hport (h.typed port)
  rcases Nat.lt_or_ge uint16Max body.length with hlong | hfits
  · rw [makeMessage_too_long (K := K) H n port destination hlong]
    refine ⟨hcount _ _, fun m n₁ hrun => ?_⟩
    cases hrun
  · obtain ⟨m, hrun, _, htype, _⟩ := makeMessage_spec (K := K) H n port destination hfits
    rw [hrun]
    refine ⟨hcount _ _, fun m' n₁ heq => ?_⟩
    cases heq
    rw [htype, h.typed port]
    cases port <;> simp [heeds, Port.type, hport, MessageType.Hello, MessageType.State,
      MessageType.Signaling, MessageType.User]

theorem unnoticed_transportSend {port : Port} (hport : ports port = false) (remoteId : Id)
    (payload : Binary) (random : Iv) : Unnoticed (Alike ports)
      (Transport.send K H port remoteId payload random : NodeM Id Pair Ecdh Chan Unit) := by
  intro n n' h
  rw [Transport.send]
  rcases directMessage_cases (K := K) H n port remoteId payload random with
    ⟨e, hrefused⟩ | ⟨body, hmessage⟩
  · rw [bind_error hrefused]
    exact h
  · obtain ⟨hmade, htype⟩ := makeMessage_hidden (K := K) (H := H) hport h body (some remoteId)
    cases hrun : Transport.makeMessage K H port body (some remoteId) n with
    | error e n₁ =>
      rw [hrun] at hmade
      rw [bind_error (hmessage.trans hrun)]
      exact hmade
    | ok m n₁ =>
      rw [hrun] at hmade
      rw [bind_ok (hmessage.trans hrun), Node.send]
      split_ifs
      · refine unnoticed_route hmade ?_ none
        rw [htype m n₁ hrun, Bool.and_false]
      · exact alike_wire hmade _

omit [LinearOrder Id] in
theorem aligned_transportBroadcast {port : Port} (hport : ports port = true) (payload : Binary) :
    Aligned (Alike ports)
      (Transport.broadcast K H port payload : NodeM Id Pair Ecdh Chan Unit) := by
  cases port with
  | signaling => exact aligned_of_twin (twin_throw _)
  | user =>
    exact aligned_of_twin
      (twin_bind (twin_makeMessage hport payload none) fun message => twin_broadcast message none)

omit [LinearOrder Id] in
theorem unnoticed_transportBroadcast {port : Port} (hport : ports port = false)
    (payload : Binary) : Unnoticed (Alike ports)
      (Transport.broadcast K H port payload : NodeM Id Pair Ecdh Chan Unit) := by
  cases port with
  | signaling => exact unnoticed_throw _
  | user =>
    exact unnoticed_bind
      (fun n n' h => (makeMessage_hidden (K := K) (H := H) hport h payload none).1)
      fun message => unnoticed_modify fun _ _ h => alike_wire h _

omit [LinearOrder Id] in
theorem aligned_update :
    Aligned (Alike ports) (Graph.update K H : NodeM Id Pair Ecdh Chan Unit) := by
  refine aligned_of_twin (twin_get_bind fun n n' h => ?_)
  rw [h.graph, h.ecdsaPair]
  refine twin_bind (twin_modifyGraph _) (fun _ => ?_) n n' h
  cases Message.create K H.byteOrder MessageType.Hello n'.graph.mHelloSequence []
      (some n'.ecdsaPair) none with
  | error e => exact twin_throw e
  | ok message => exact twin_broadcast message none

theorem alike_loud (ev : NodeEvent Id Chan) (n n' : Node Id Pair Ecdh Chan)
    (h : Alike ports n n') (hev : NodeEvent.matters K H (n.id K) ports ev = true) :
    Alike ports (ev.apply K H n) (ev.apply K H n') := by
  cases ev with
  | addChannel channel =>
    have hput := alike_put h (n'.routing.addChannel channel) n'.graph n.wire n'.wire
    change Alike ports { n with routing := n.routing.addChannel channel } _
    rw [h.routing]
    exact ⟨h.ecdsaPair, rfl, h.graph, hput.seen, hput.typed, hput.typed'⟩
  | removeChannel channel =>
    have hput := alike_put h (n'.routing.removeChannel channel) n'.graph n.wire n'.wire
    change Alike ports { n with routing := n.routing.removeChannel channel } _
    rw [h.routing]
    exact ⟨h.ecdsaPair, rfl, h.graph, hput.seen, hput.typed, hput.typed'⟩
  | addNeighbor remoteId channel => exact paired_final (twin_changeNeighbors _ n n' h)
  | removeNeighbor remoteId channel => exact paired_final (twin_changeNeighbors _ n n' h)
  | status isOpen => cases hev
  | update => exact aligned_update n n' h
  | send port remoteId payload random =>
    exact aligned_transportSend hev remoteId payload random n n' h
  | broadcast port payload => exact aligned_transportBroadcast hev payload n n' h
  | received channel data =>
    change Alike ports (Node.onMessage K H n channel data) (Node.onMessage K H n' channel data)
    rw [Node.onMessage, Node.onMessage]
    cases Message.parse K H.byteOrder data with
    | error e => exact h
    | ok message => exact aligned_route message (some channel) n n' h

theorem alike_silent (ev : NodeEvent Id Chan) (n n' : Node Id Pair Ecdh Chan)
    (h : Alike ports n n') (hev : NodeEvent.matters K H (n.id K) ports ev = false) :
    Alike ports (ev.apply K H n) n' := by
  cases ev with
  | addChannel channel => cases hev
  | removeChannel channel => cases hev
  | addNeighbor remoteId channel => cases hev
  | removeNeighbor remoteId channel => cases hev
  | status isOpen => exact alike_wire h _
  | update => cases hev
  | send port remoteId payload random =>
    exact unnoticed_transportSend hev remoteId payload random n n' h
  | broadcast port payload => exact unnoticed_transportBroadcast hev payload n n' h
  | received channel data =>
    change Alike ports (Node.onMessage K H n channel data) n'
    rw [Node.onMessage]
    rw [NodeEvent.matters] at hev
    cases hparse : Message.parse K H.byteOrder data with
    | error e => exact h
    | ok message =>
      rw [hparse] at hev
      exact unnoticed_route h hev (some channel)

/-- A node goes on as if the events that are not for its graph, its routing component or a
transport looked at had not happened: what these hold in the end is the same without them. -/
theorem traffic_separated {n : Node Id Pair Ecdh Chan} (h : Created K H n)
    (ports : Port → Bool) (events : List (NodeEvent Id Chan)) :
    let m := run K H n events
    let m' := run K H n (events.filter (NodeEvent.matters K H (n.id K) ports))
    m.routing = m'.routing ∧ m.graph = m'.graph ∧
      ∀ port, ports port = true → m.transport port = m'.transport port := by
  intro m m'
  have hsound := created_sound h
  -- what the node has received so far says who it is
  let R : Node Id Pair Ecdh Chan → Node Id Pair Ecdh Chan → Prop := fun s s' =>
    Alike ports s s' ∧ ∃ received, Sound K H n.ecdsaPair n.graph.mEcdh received s
  have hid : ∀ s s', R s s' → s.id K = n.id K := by
    rintro s s' ⟨_, received, hs⟩
    rw [Node.id, hs.ecdsaPair, Node.id]
  have htyped : ∀ port, (n.transport port).mType = port.type :=
    fun port => (hsound.transports port).typed
  have hstart : R n n := ⟨⟨rfl, rfl, rfl, fun _ _ => rfl, htyped, htyped⟩, [], hsound⟩
  have hend : R m m' := by
    refine foldl_filter (fun ev s s' hev hs => ?_) (fun ev s s' hev hs => ?_) events n n hstart
    · rw [← hid s s' hs] at hev
      obtain ⟨halike, received, hsound⟩ := hs
      exact ⟨alike_loud ev s s' halike hev, _, sound_event hsound ev⟩
    · rw [← hid s s' hs] at hev
      obtain ⟨halike, received, hsound⟩ := hs
      exact ⟨alike_silent ev s s' halike hev, _, sound_event hsound ev⟩
  exact ⟨hend.1.routing, hend.1.graph, hend.1.seen⟩

end Graph

-- Node 1 hears a broadcast of node 2 and makes one itself. Neither is for its graph.
namespace Sample
open LegioNode.Sample PublishedTable.Sample SignedProvenance.Sample

def events : List (NodeEvent (Fin 4) ℕ) :=
  [.broadcast .user [1]] ++ heard ++ [.addNeighbor 2 0, .status fun _ => false]

theorem broadcasts_separated :
    let m := run LegioCrypto.Sample.crypto host (started 1) events
    let m' := run LegioCrypto.Sample.crypto host (started 1) [.addChannel 0, .addNeighbor 2 0]
    m.userTransport.delivered.length = 1 ∧ m.routing = m'.routing ∧ m.graph = m'.graph := by
  have hfilter : events.filter (NodeEvent.matters LegioCrypto.Sample.crypto host
      ((started 1).id LegioCrypto.Sample.crypto) fun _ => false) =
        [.addChannel 0, .addNeighbor 2 0] := rfl
  obtain ⟨hrouting, hgraph, _⟩ := traffic_separated (created 1) (fun _ => false) events
  rw [hfilter] at hrouting hgraph
  refine ⟨?_, hrouting, hgraph⟩
  decide +kernel

end Sample

end TrafficSeparation
