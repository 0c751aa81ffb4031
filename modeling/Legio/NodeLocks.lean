import Legio.LockedPrograms
import Legio.NodeDispatch

set_option linter.style.header false

/-! The node's functions with the locks that they take: `Routing::mMutex` and
`Graph::mMutex`. Locks that only a transport or the user's callback knows are left out.
Nested updates take the graph's lock once, in `insert`. -/
namespace NodeLocks

open LegioBinary LegioCrypto LegioMessage LegioNode Containers ExceptionStates LockedPrograms

variable {Id Pair Ecdh Chan : Type}

inductive Mutex where
  | routing
  | graph
  deriving DecidableEq

abbrev ThreadM (Id Pair Ecdh Chan : Type) := LockM Mutex Error (Node Id Pair Ecdh Chan)

section Functions
variable [LinearOrder Id] [DecidableEq Chan] (K : CryptoPP Id Pair Ecdh) (H : Host Id)

def Routing.hasNeighbor (remoteId : Id) : ThreadM Id Pair Ecdh Chan Bool :=
  locked .routing (do
    let n ← memory
    return n.routing.hasNeighbor remoteId)

def Routing.neighbors : ThreadM Id Pair Ecdh Chan (Finset Id) :=
  locked .routing (do
    let n ← memory
    return n.routing.neighbors)

def Routing.setTable (table : Option (RoutingTable Id)) : ThreadM Id Pair Ecdh Chan Unit :=
  locked .routing (free (modify fun n => { n with routing := n.routing.setTable table }))

def Routing.broadcast (message : Message Id) (from_ : Option Chan) :
    ThreadM Id Pair Ecdh Chan Unit :=
  locked .routing (free (modify fun n => { n with
    wire := n.routing.broadcast K H.byteOrder n.wire message from_ }))

def Routing.findRoute (remoteId : Id) : ThreadM Id Pair Ecdh Chan (Option Chan) :=
  locked .routing (do
    let n ← memory
    return n.routing.findRoute remoteId)

def Graph.computeRoutingTable : ThreadM Id Pair Ecdh Chan Unit := do
  free (modifyGraph fun g => { g with heap := g.resetSearch H })
  let n ← memory
  match n.graph.findVertice (n.id K) with
  | none => raise (.runtimeError "Missing local node in network state")
  | some localVertice =>
    let heap := Function.update n.graph.heap localVertice
      { n.graph.heap localVertice with nextHop := none, distance := 0 }
    match searchLoop H (1 + n.graph.edgeCount) ⟨heap, [(0, localVertice)]⟩ with
    | none => raise .outOfFuel
    | some s =>
      let table := n.graph.tableOf H s.heap
      free (modifyGraph fun g => { g with heap := s.heap, mRoutingTable := table })
      Routing.setTable (some table)

def Graph.updateEdges (id : Id) (neighbors : Finset Id) : ThreadM Id Pair Ecdh Chan Bool := do
  let n ← memory
  match n.graph.findVertice id with
  | none => raise (.invalidArgument "Vertice not found")
  | some vertice =>
    let currentNeighbors := keySet (n.graph.heap vertice).edges
    let added := neighbors \ currentNeighbors
    let removed := currentNeighbors \ neighbors
    if added = ∅ ∧ removed = ∅ then return false
    else
      free (modifyGraph fun g =>
        (iterate added).foldl (Graph.link vertice)
          ((iterate removed).foldl (Graph.unlink vertice) g))
      Graph.computeRoutingTable K H
      return true

def Graph.broadcastStateWith (update : State Id → ThreadM Id Pair Ecdh Chan Bool) :
    ThreadM Id Pair Ecdh Chan Unit := do
  let n ← memory
  free (modifyGraph fun g => { g with mStateSequence := g.mStateSequence + 1 })
  let neighbors ← Routing.neighbors
  let state : State Id :=
    ⟨n.id K, n.graph.mStateSequence, K.ecdhPublicKey n.graph.mEcdh, neighbors⟩
  match state.toMessage K H.byteOrder n.ecdsaPair with
  | .error e => raise e
  | .ok message =>
    let _ ← update state
    Routing.broadcast K H message none
    free (modifyGraph fun g => { g with announced := g.announced ++ [state] })

def Graph.updateVertice : ℕ → State Id → ThreadM Id Pair Ecdh Chan Bool
  | 0, _ => raise .stackOverflow
  | depth + 1, state => do
    let n ← memory
    match n.graph.findVertice state.id with
    | some vertice =>
      match (n.graph.heap vertice).state with
      | some current =>
        if compareSequence state.sequence current.sequence ≤ 0 then return false
        else
          if current.ecdhPublic ≠ state.ecdhPublic then
            Graph.broadcastStateWith K H (Graph.updateVertice depth)
          free (modifyGraph fun g => g.modifyVertice vertice fun v =>
            { v with state := some state })
          updateStoredEdges vertice
      | none =>
        Graph.broadcastStateWith K H (Graph.updateVertice depth)
        free (modifyGraph fun g => g.modifyVertice vertice fun v =>
          { v with state := some state })
        updateStoredEdges vertice
    | none =>
      let vertice := n.graph.allocated
      free (modifyGraph fun g =>
        g.storeVertice { newVertice state.id with state := some state })
      Graph.broadcastStateWith K H (Graph.updateVertice depth)
      updateStoredEdges vertice
where
  updateStoredEdges (vertice : Ptr) : ThreadM Id Pair Ecdh Chan Bool := do
    let n ← memory
    match (n.graph.heap vertice).state with
    | some state =>
      let _ ← Graph.updateEdges K H (n.graph.heap vertice).mIdentifier state.neighbors
      return true
    | none => return true

def Graph.broadcastState : ThreadM Id Pair Ecdh Chan Unit :=
  Graph.broadcastStateWith K H (Graph.updateVertice K H H.stack)

def Graph.insert (state : State Id) : ThreadM Id Pair Ecdh Chan Bool :=
  locked .graph (Graph.updateVertice K H H.stack state)

def Graph.get (nodeId : Id) : ThreadM Id Pair Ecdh Chan (State Id) :=
  locked .graph (do
    let n ← memory
    match n.graph.get nodeId with
    | .error e => raise e
    | .ok state => return state)

def Graph.notifyState (message : Message Id) (channel : Option Chan) :
    ThreadM Id Pair Ecdh Chan Unit :=
  match State.fromMessage K message with
  | .error e => raise e
  | .ok state => do
    if ← Graph.insert K H state then
      Routing.broadcast K H message channel

/-- `Graph::notify` on a Neighbor event; it takes no lock of the graph. -/
def Graph.notifyNeighbor : ThreadM Id Pair Ecdh Chan Unit := do
  let neighbors ← Routing.neighbors
  let n ← memory
  if ← Graph.updateEdges K H (n.id K) neighbors then
    Graph.broadcastState K H

def Graph.update : ThreadM Id Pair Ecdh Chan Unit :=
  locked .graph (do
    let n ← memory
    free (modifyGraph fun g => { g with mHelloSequence := g.mHelloSequence + 1 })
    match Message.create K H.byteOrder MessageType.Hello n.graph.mHelloSequence []
        (some n.ecdsaPair) none with
    | .error e => raise e
    | .ok message => Routing.broadcast K H message none)

/-- Both changes of the neighbours unlock before they emit. -/
def Routing.changeNeighbors (change : Routing Id Chan → Routing Id Chan × Bool) :
    ThreadM Id Pair Ecdh Chan Unit := do
  let changed ← locked .routing (do
    let n ← memory
    free (set { n with routing := (change n.routing).1 })
    return (change n.routing).2)
  if changed then Graph.notifyNeighbor K H

def Routing.addNeighbor (remoteId : Id) (channel : Chan) : ThreadM Id Pair Ecdh Chan Unit :=
  Routing.changeNeighbors K H fun r => r.addNeighbor remoteId channel

def Routing.removeNeighbor (remoteId : Id) (channel : Chan) : ThreadM Id Pair Ecdh Chan Unit :=
  Routing.changeNeighbors K H fun r => r.removeNeighbor remoteId channel

def Graph.notifyHello (message : Message Id) (channel : Option Chan) :
    ThreadM Id Pair Ecdh Chan Unit :=
  match message.source, channel with
  | some source, some channel => do
    if ← Routing.hasNeighbor source then pure ()
    else Routing.addNeighbor K H source channel
  | _, _ => pure ()

def Graph.notifyMessage (message : Message Id) (channel : Option Chan) :
    ThreadM Id Pair Ecdh Chan Unit :=
  if message.type = MessageType.Hello then Graph.notifyHello K H message channel
  else if message.type = MessageType.State then Graph.notifyState K H message channel
  else pure ()

def BroadcastableTransport.incoming (message : Message Id) (remoteId : Id)
    (channel : Option Chan) : ThreadM Id Pair Ecdh Chan Unit :=
  match message.destination with
  | some _ => free (Transport.incoming K .user message remoteId)
  | none => do
    if ← free (Node.checkSequence .user remoteId message.sequence) then
      Routing.broadcast K H message channel
      free (Node.callback .user message remoteId message.body)

def Transport.notifyMessage (port : Port) (message : Message Id) (channel : Option Chan) :
    ThreadM Id Pair Ecdh Chan Unit := do
  let n ← memory
  match message.source with
  | none => pure ()
  | some remoteId =>
    if message.type ≠ (n.transport port).mType then pure ()
    else
      match port with
      | .signaling => free (Transport.incoming K .signaling message remoteId)
      | .user => BroadcastableTransport.incoming K H message remoteId channel

def Node.notifyMessage (message : Message Id) (channel : Option Chan) :
    ThreadM Id Pair Ecdh Chan Unit := do
  Graph.notifyMessage K H message channel
  Transport.notifyMessage K H .signaling message channel
  Transport.notifyMessage K H .user message channel

def Routing.route (message : Message Id) (from_ : Option Chan) :
    ThreadM Id Pair Ecdh Chan Unit :=
  if message.source = none then raise (.runtimeError "Missing message source")
  else do
    let n ← memory
    match message.destination with
    | none => Node.notifyMessage K H message from_
    | some destination =>
      if destination = n.id K then Node.notifyMessage K H message from_
      else
        match ← Routing.findRoute destination with
        | none => pure ()
        | some channel =>
          let n ← memory
          match message.toBinary K H.byteOrder with
          | .error e => raise e
          | .ok data =>
            match n.wire.send channel data with
            | .error e => raise e
            | .ok wire => free (set { n with wire })

def Routing.onMessage (channel : Chan) (data : Binary) : ThreadM Id Pair Ecdh Chan Unit :=
  handled (match Message.parse K H.byteOrder data with
    | .error e => raise e
    | .ok message => Routing.route K H message (some channel))

def flush (callback : Binary → ThreadM Id Pair Ecdh Chan Unit) :
    List Binary → ThreadM Id Pair Ecdh Chan Unit
  | [] => pure ()
  | data :: pending => do
    callback data
    flush callback pending

/-- `Routing::addChannel`: the lock is held while the callback is installed. -/
def Routing.addChannel (channel : Chan) (pending : List Binary) :
    ThreadM Id Pair Ecdh Chan Unit :=
  locked .routing (do
    flush (Routing.onMessage K H channel) pending
    free (Node.addChannel channel))

/-- `Routing::removeChannel`: the callback that it installs does nothing. -/
def Routing.removeChannel (channel : Chan) (pending : List Binary) :
    ThreadM Id Pair Ecdh Chan Unit :=
  locked .routing (do
    let n ← memory
    if channel ∈ n.routing.mChannels then flush (fun _ => pure ()) pending
    free (Node.removeChannel channel))

def Routing.send (message : Message Id) : ThreadM Id Pair Ecdh Chan Unit :=
  if message.destination.isSome then Routing.route K H message none
  else Routing.broadcast K H message none

def Transport.send (port : Port) (remoteId : Id) (payload : Binary) (random : Iv) :
    ThreadM Id Pair Ecdh Chan Unit := do
  let remoteState ← Graph.get remoteId
  let n ← memory
  match CipherBody.encrypt K payload n.graph.mEcdh remoteState.ecdhPublic random with
  | .error e => raise e
  | .ok cipherBody =>
    let message ← free (Transport.makeMessage K H port cipherBody.toBinary (some remoteId))
    Routing.send K H message

def Transport.broadcast (port : Port) (payload : Binary) : ThreadM Id Pair Ecdh Chan Unit :=
  match port with
  | .signaling => raise (.logicError "Transport does not support broadcasting")
  | .user => do
    let message ← free (Transport.makeMessage K H .user payload none)
    Routing.broadcast K H message none

end Functions

section Following
variable [LinearOrder Id] [DecidableEq Chan] {K : CryptoPP Id Pair Ecdh} {H : Host Id}
  {held : Finset Mutex} (hrouting : Mutex.routing ∉ held)
include hrouting

omit [LinearOrder Id] [DecidableEq Chan] in
theorem neighbors_run (n : Node Id Pair Ecdh Chan) :
    Routing.neighbors ⟨held, n⟩ = .ok n.routing.neighbors ⟨held, n⟩ :=
  read_run hrouting _ n

omit [LinearOrder Id] [DecidableEq Chan] in
theorem follows_setTable (table : Option (RoutingTable Id)) :
    Follows held (Routing.setTable table : ThreadM Id Pair Ecdh Chan _)
      (modify fun n => { n with routing := n.routing.setTable table }) :=
  follows_locked hrouting (follows_free _ _)

omit [LinearOrder Id] in
theorem follows_broadcast (message : Message Id) (from_ : Option Chan) :
    Follows held (Routing.broadcast K H message from_) (modify fun n => { n with
      wire := n.routing.broadcast K H.byteOrder n.wire message from_ }) :=
  follows_locked hrouting (follows_free _ _)

omit [DecidableEq Chan] in
theorem follows_computeRoutingTable :
    Follows held (Graph.computeRoutingTable K H : ThreadM Id Pair Ecdh Chan _)
      (LegioNode.Graph.computeRoutingTable K H) := by
  refine follows_bind (follows_free _ _) fun _ => follows_memory fun n => ?_
  cases n.graph.findVertice (n.id K) with
  | none => rfl
  | some localVertice =>
    dsimp only
    cases searchLoop H (1 + n.graph.edgeCount) _ with
    | none => rfl
    | some s =>
      exact follows_bind (follows_free _ _) (fun _ => follows_setTable hrouting _) n

omit [DecidableEq Chan] in
theorem follows_updateEdges (id : Id) (neighbors : Finset Id) :
    Follows held (Graph.updateEdges K H id neighbors : ThreadM Id Pair Ecdh Chan _)
      (LegioNode.Graph.updateEdges K H id neighbors) := by
  refine follows_bind (follows_free _ _) fun n => ?_
  cases n.graph.findVertice id with
  | none => exact follows_raise _ _
  | some vertice =>
    dsimp only
    split_ifs
    · exact follows_pure _ _
    · exact follows_bind (follows_free _ _) fun _ =>
        follows_bind (follows_computeRoutingTable hrouting) fun _ => follows_pure _ _

theorem follows_broadcastStateWith {update : State Id → ThreadM Id Pair Ecdh Chan Bool}
    {update' : State Id → NodeM Id Pair Ecdh Chan Bool}
    (hupdate : ∀ state, Follows held (update state) (update' state)) :
    Follows held (Graph.broadcastStateWith K H update)
      (LegioNode.Graph.broadcastStateWith K H update') := by
  refine follows_memory fun n => ?_
  set n₁ : Node Id Pair Ecdh Chan := { n with
    graph := { n.graph with mStateSequence := n.graph.mStateSequence + 1 } } with hn₁
  have hneighbors : Routing.neighbors ⟨held, n₁⟩ = .ok n.routing.neighbors ⟨held, n₁⟩ :=
    neighbors_run hrouting n₁
  have hcount : (modifyGraph (fun g => { g with mStateSequence := g.mStateSequence + 1 }) :
      NodeM Id Pair Ecdh Chan Unit) n = .ok () n₁ := rfl
  have hcounted : (free (modifyGraph fun g => { g with mStateSequence := g.mStateSequence + 1 }) :
      ThreadM Id Pair Ecdh Chan Unit) ⟨held, n⟩ = .ok () ⟨held, n₁⟩ := rfl
  have hlocal : (⟨n.id K, n.graph.mStateSequence, K.ecdhPublicKey n.graph.mEcdh,
      n.routing.neighbors⟩ : State Id) = n.localState K := rfl
  rw [bind_of_ok hcounted, bind_of_ok hneighbors]
  dsimp only
  rw [hlocal]
  change _ = under held ((modifyGraph _ >>= _) n)
  rw [bind_ok hcount]
  cases hm : (n.localState K).toMessage K H.byteOrder n.ecdsaPair with
  | error e => rfl
  | ok message =>
    refine follows_bind (hupdate (n.localState K)) (fun _ => ?_) n₁
    exact fun n' => follows_bind (follows_broadcast hrouting message none)
      (fun _ => follows_free held _) n'

omit [DecidableEq Chan] in
theorem follows_updateStoredEdges (vertice : Ptr) :
    Follows held (Graph.updateVertice.updateStoredEdges K H vertice : ThreadM Id Pair Ecdh Chan _)
      (LegioNode.Graph.updateVertice.updateStoredEdges K H vertice) := by
  refine follows_bind (follows_free _ _) fun n => ?_
  cases (n.graph.heap vertice).state with
  | none => exact follows_pure _ _
  | some state =>
    exact follows_bind (follows_updateEdges hrouting _ _) fun _ => follows_pure _ _

theorem follows_updateVertice (depth : ℕ) : ∀ state : State Id,
    Follows held (Graph.updateVertice K H depth state : ThreadM Id Pair Ecdh Chan _)
      (LegioNode.Graph.updateVertice K H depth state) := by
  induction depth with
  | zero => exact fun _ => follows_raise _ _
  | succ depth ih =>
    intro state
    have hstored : ∀ vertice, Follows held
        (Graph.updateVertice.updateStoredEdges K H vertice : ThreadM Id Pair Ecdh Chan _)
        (LegioNode.Graph.updateVertice.updateStoredEdges K H vertice) :=
      follows_updateStoredEdges hrouting
    have hannounce := follows_broadcastStateWith (K := K) (H := H) hrouting ih
    refine follows_bind (follows_free _ _) fun n => ?_
    cases n.graph.findVertice state.id with
    | none =>
      exact follows_bind (follows_free _ _) fun _ => follows_bind hannounce fun _ => hstored _
    | some vertice =>
      dsimp only
      cases (n.graph.heap vertice).state with
      | none =>
        exact follows_bind hannounce fun _ => follows_bind (follows_free _ _) fun _ => hstored _
      | some current =>
        dsimp only
        split_ifs
        · exact follows_pure _ _
        · exact follows_bind hannounce fun _ => follows_bind (follows_free _ _) fun _ => hstored _
        · exact follows_bind (follows_free _ _) fun _ => hstored _

theorem follows_broadcastState :
    Follows held (Graph.broadcastState K H : ThreadM Id Pair Ecdh Chan _)
      (LegioNode.Graph.broadcastState K H) :=
  follows_broadcastStateWith hrouting (follows_updateVertice hrouting H.stack)

theorem follows_notifyNeighbor :
    Follows held (Graph.notifyNeighbor K H : ThreadM Id Pair Ecdh Chan _)
      (LegioNode.Graph.notifyNeighbor K H) := by
  intro n
  rw [Graph.notifyNeighbor, bind_of_ok (neighbors_run hrouting n)]
  refine follows_bind (follows_updateEdges hrouting _ _) (fun changed => ?_) n
  cases changed with
  | false => exact follows_pure _ _
  | true => exact follows_broadcastState hrouting

theorem follows_changeNeighbors (change : Routing Id Chan → Routing Id Chan × Bool) :
    Follows held (Routing.changeNeighbors K H change : ThreadM Id Pair Ecdh Chan _)
      (LegioNode.Node.changeNeighbors K H change) := by
  have hscope : Follows held (locked Mutex.routing (do
      let n ← memory
      free (set { n with routing := (change n.routing).1 })
      return (change n.routing).2) : ThreadM Id Pair Ecdh Chan Bool) (do
      let n ← get
      set { n with routing := (change n.routing).1 }
      return (change n.routing).2) := follows_locked hrouting fun _ => rfl
  intro n
  refine follows_bind hscope (g := fun changed =>
    if changed then LegioNode.Graph.notifyNeighbor K H else pure ()) (fun changed => ?_) n
  cases changed with
  | false => exact follows_pure _ _
  | true => exact follows_notifyNeighbor hrouting

theorem follows_addNeighbor (remoteId : Id) (channel : Chan) :
    Follows held (Routing.addNeighbor K H remoteId channel)
      (LegioNode.Node.addNeighbor K H remoteId channel) :=
  follows_changeNeighbors hrouting fun r => r.addNeighbor remoteId channel

theorem follows_removeNeighbor (remoteId : Id) (channel : Chan) :
    Follows held (Routing.removeNeighbor K H remoteId channel)
      (LegioNode.Node.removeNeighbor K H remoteId channel) :=
  follows_changeNeighbors hrouting fun r => r.removeNeighbor remoteId channel

theorem follows_notifyHello (message : Message Id) (channel : Option Chan) :
    Follows held (Graph.notifyHello K H message channel : ThreadM Id Pair Ecdh Chan _)
      (LegioNode.Graph.notifyHello K H message channel) := by
  cases hsource : message.source with
  | none =>
    simp only [Graph.notifyHello, LegioNode.Graph.notifyHello, hsource]
    exact fun _ => rfl
  | some source =>
    cases channel with
    | none =>
      simp only [Graph.notifyHello, LegioNode.Graph.notifyHello, hsource]
      exact fun _ => rfl
    | some channel =>
      intro n
      have hknown : Routing.hasNeighbor source ⟨held, n⟩ =
          .ok (n.routing.hasNeighbor source) ⟨held, n⟩ := read_run hrouting _ n
      simp only [Graph.notifyHello, hsource, bind_of_ok hknown]
      rw [notifyHello_run K H hsource]
      split_ifs
      · rfl
      · exact follows_addNeighbor hrouting source channel n

section Graphs
variable (hgraph : Mutex.graph ∉ held)
include hgraph

theorem follows_insert (state : State Id) :
    Follows held (Graph.insert K H state : ThreadM Id Pair Ecdh Chan _)
      (LegioNode.Graph.insert K H state) := by
  refine follows_locked hgraph (follows_updateVertice ?_ H.stack state)
  rw [Finset.mem_insert]
  rintro (h | h)
  · cases h
  · exact hrouting h

theorem follows_notifyState (message : Message Id) (channel : Option Chan) :
    Follows held (Graph.notifyState K H message channel : ThreadM Id Pair Ecdh Chan _)
      (LegioNode.Graph.notifyState K H message channel) := by
  unfold Graph.notifyState LegioNode.Graph.notifyState
  cases State.fromMessage K message with
  | error e => exact follows_raise _ _
  | ok state =>
    refine follows_bind (follows_insert hrouting hgraph state) fun accepted => ?_
    cases accepted with
    | false => exact follows_pure _ _
    | true => exact follows_broadcast hrouting message channel

theorem follows_graphMessage (message : Message Id) (channel : Option Chan) :
    Follows held (Graph.notifyMessage K H message channel : ThreadM Id Pair Ecdh Chan _)
      (LegioNode.Graph.notifyMessage K H message channel) := by
  unfold Graph.notifyMessage LegioNode.Graph.notifyMessage
  split_ifs
  · exact follows_notifyHello hrouting message channel
  · exact follows_notifyState hrouting hgraph message channel
  · exact follows_pure _ _

end Graphs

theorem follows_broadcastable (message : Message Id) (remoteId : Id) (channel : Option Chan) :
    Follows held (BroadcastableTransport.incoming K H message remoteId channel)
      (LegioNode.BroadcastableTransport.incoming K H message remoteId channel) := by
  unfold BroadcastableTransport.incoming LegioNode.BroadcastableTransport.incoming
  cases message.destination with
  | some _ => exact follows_free _ _
  | none =>
    refine follows_bind (follows_free _ _) fun fresh => ?_
    cases fresh with
    | false => exact follows_pure _ _
    | true =>
      exact follows_bind (follows_broadcast hrouting message channel) fun _ => follows_free _ _

theorem follows_transportMessage (port : Port) (message : Message Id) (channel : Option Chan) :
    Follows held (Transport.notifyMessage K H port message channel)
      (LegioNode.Transport.notifyMessage K H port message channel) := by
  refine follows_bind (follows_free _ _) fun n => ?_
  cases message.source with
  | none => exact follows_pure _ _
  | some remoteId =>
    dsimp only
    split_ifs
    · exact follows_pure _ _
    · cases port with
      | signaling => exact follows_free _ _
      | user => exact follows_broadcastable hrouting message remoteId channel

section Messages
variable (hgraph : Mutex.graph ∉ held)
include hgraph

theorem follows_nodeMessage (message : Message Id) (channel : Option Chan) :
    Follows held (Node.notifyMessage K H message channel)
      (LegioNode.Node.notifyMessage K H message channel) :=
  follows_bind (follows_graphMessage hrouting hgraph message channel) fun _ =>
    follows_bind (follows_transportMessage hrouting .signaling message channel) fun _ =>
      follows_transportMessage hrouting .user message channel

theorem follows_route (message : Message Id) (from_ : Option Chan) :
    Follows held (Routing.route K H message from_) (LegioNode.Node.route K H message from_) := by
  intro n
  have hevent := follows_nodeMessage (K := K) (H := H) hrouting hgraph message from_ n
  rw [Routing.route, LegioNode.Node.route, get_bind_run]
  unfold LegioNode.Routing.route
  split_ifs with hsource
  · rfl
  · cases hto : message.destination with
    | none => exact hevent
    | some destination =>
      rw [memory_bind]
      dsimp only
      split_ifs
      · exact hevent
      · have hroute : Routing.findRoute destination ⟨held, n⟩ =
            .ok (n.routing.findRoute destination) ⟨held, n⟩ := read_run hrouting _ n
        rw [bind_of_ok hroute]
        cases n.routing.findRoute destination with
        | none => rfl
        | some c =>
          dsimp only
          rw [memory_bind]
          cases message.toBinary K H.byteOrder with
          | error e => rfl
          | ok data =>
            dsimp only
            cases n.wire.send c data with
            | error e => rfl
            | ok wire => rfl

theorem follows_onMessage (channel : Chan) (data : Binary) :
    Follows held (Routing.onMessage K H channel data)
      (modify fun n => LegioNode.Node.onMessage K H n channel data) := by
  intro n
  rw [modify_run, LegioNode.Node.onMessage, Routing.onMessage]
  cases Message.parse K H.byteOrder data with
  | error e => rfl
  | ok message => exact follows_handled (follows_route hrouting hgraph message (some channel)) n

theorem follows_send (message : Message Id) :
    Follows held (Routing.send K H message : ThreadM Id Pair Ecdh Chan _)
      (LegioNode.Node.send K H message) := by
  unfold Routing.send LegioNode.Node.send
  split_ifs
  · exact follows_route hrouting hgraph message none
  · exact follows_broadcast hrouting message none

theorem follows_transportSend (port : Port) (remoteId : Id) (payload : Binary) (random : Iv) :
    Follows held (Transport.send K H port remoteId payload random : ThreadM Id Pair Ecdh Chan _)
      (LegioNode.Transport.send K H port remoteId payload random) := by
  have hget : Follows held (Graph.get remoteId) (do
      let n ← get
      match n.graph.get remoteId with
      | .error e => throw e
      | .ok state => return state : NodeM Id Pair Ecdh Chan (State Id)) := by
    refine follows_locked hgraph (follows_bind (follows_free _ _) fun n => ?_)
    cases n.graph.get remoteId with
    | error e => exact follows_raise _ _
    | ok state => exact follows_pure _ _
  intro n
  have hn := hget n
  have hmodel : ∀ m' : NodeM Id Pair Ecdh Chan (Message Id),
      LegioNode.Transport.directMessage K H port remoteId payload random n = m' n →
      LegioNode.Transport.send K H port remoteId payload random n =
        (m' >>= LegioNode.Node.send K H) n := fun m' h => bind_run_congr h _
  rw [get_bind_run] at hn
  rw [Transport.send]
  cases hstate : n.graph.get remoteId with
  | error e =>
    rw [hstate] at hn
    have hunknown : LegioNode.Transport.directMessage K H port remoteId payload random n =
        (throw e : NodeM Id Pair Ecdh Chan (Message Id)) n := by
      simp only [Transport.directMessage, get_bind_run, hstate]
    rw [bind_error hn, hmodel (throw e) hunknown]
    rfl
  | ok remoteState =>
    rw [hstate] at hn
    rw [bind_of_ok hn, memory_bind]
    cases hencrypt : CipherBody.encrypt K payload n.graph.mEcdh remoteState.ecdhPublic random with
    | error e =>
      have hrefused : LegioNode.Transport.directMessage K H port remoteId payload random n =
          (throw e : NodeM Id Pair Ecdh Chan (Message Id)) n := by
        simp only [Transport.directMessage, get_bind_run, hstate, hencrypt]
      rw [hmodel (throw e) hrefused]
      rfl
    | ok cipherBody =>
      have hmade : LegioNode.Transport.directMessage K H port remoteId payload random n =
          Transport.makeMessage K H port cipherBody.toBinary (some remoteId) n := by
        simp only [Transport.directMessage, get_bind_run, hstate, hencrypt]
      rw [hmodel _ hmade]
      exact follows_bind (follows_free _ _) (fun message => follows_send hrouting hgraph message) n

end Messages

omit [LinearOrder Id] in
theorem follows_transportBroadcast (port : Port) (payload : Binary) :
    Follows held (Transport.broadcast K H port payload : ThreadM Id Pair Ecdh Chan _)
      (LegioNode.Transport.broadcast K H port payload) := by
  cases port with
  | signaling => exact follows_raise _ _
  | user => exact follows_bind (follows_free _ _) fun _ => follows_broadcast hrouting _ none

omit [LinearOrder Id] in
theorem follows_update (hgraph : Mutex.graph ∉ held) :
    Follows held (Graph.update K H : ThreadM Id Pair Ecdh Chan _)
      (LegioNode.Graph.update K H) := by
  have hfree : Mutex.routing ∉ insert Mutex.graph held := by
    rw [Finset.mem_insert]
    rintro (h | h)
    · cases h
    · exact hrouting h
  refine follows_locked hgraph (follows_bind (follows_free _ _) fun n => ?_)
  refine follows_bind (follows_free _ _) fun _ => ?_
  cases Message.create K H.byteOrder MessageType.Hello n.graph.mHelloSequence []
      (some n.ecdsaPair) none with
  | error e => exact follows_raise _ _
  | ok message => exact follows_broadcast hfree message none

end Following

end NodeLocks
