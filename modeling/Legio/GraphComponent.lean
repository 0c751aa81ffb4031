import Legio.NodeComponents

set_option linter.style.header false

/-! The link-state graph: vertices, the routing table search, State messages. A function
that the code runs under the graph's lock runs here on the whole node, because it also
reads and writes the routing component. The state and the edges kept for an identifier are
read from the vertex store through its pointers. -/
namespace LegioNode

open LegioBinary LegioCrypto LegioMessage Containers

variable {Id Pair Ecdh Chan : Type}

def newVertice (id : Id) : Vertice Id := ⟨id, none, ∅, none, -1, false⟩

def Vertice.content (v : Vertice Id) : Id × Option (State Id) × UnorderedMap Id Ptr :=
  (v.mIdentifier, v.state, v.edges)

def Graph.modifyVertice (g : Graph Id Ecdh) (p : Ptr) (f : Vertice Id → Vertice Id) :
    Graph Id Ecdh := { g with heap := Function.update g.heap p (f (g.heap p)) }

section Store
variable [DecidableEq Id]

def Graph.findVertice (g : Graph Id Ecdh) (id : Id) : Option Ptr := g.mVertices.lookup id

/-- `make_shared` of a vertex that is then entered under its identifier. -/
def Graph.storeVertice (g : Graph Id Ecdh) (v : Vertice Id) : Graph Id Ecdh :=
  { g with
    heap := Function.update g.heap g.allocated v
    allocated := g.allocated + 1
    mVertices := emplace v.mIdentifier g.allocated g.mVertices }

def Graph.unlink (vertice : Ptr) (g : Graph Id Ecdh) (id : Id) : Graph Id Ecdh :=
  g.modifyVertice vertice fun v => { v with edges := v.edges.erase id }

def Graph.link (vertice : Ptr) (g : Graph Id Ecdh) (id : Id) : Graph Id Ecdh :=
  match g.mVertices.lookup id with
  | some neighbor =>
    g.modifyVertice vertice fun v => { v with edges := emplace id neighbor v.edges }
  | none =>
    let neighbor := g.allocated
    (g.storeVertice (newVertice id)).modifyVertice vertice fun v =>
      { v with edges := emplace id neighbor v.edges }

end Store

structure Search (Id : Type) where
  heap : Ptr → Vertice Id
  queue : List (Int × Ptr)

/-- The order of the priority queue: distance, then address. -/
def Host.before (H : Host Id) (a b : Int × Ptr) : Prop :=
  a.1 < b.1 ∨ (a.1 = b.1 ∧ H.address a.2 ≤ H.address b.2)

instance (H : Host Id) : DecidableRel H.before :=
  fun a b => inferInstanceAs (Decidable (a.1 < b.1 ∨ (_ ∧ _)))

/-- Body of the inner loop: `neighbor` seen from the expanded `node`. -/
def Search.relax (H : Host Id) (s : Search Id) (distance : Int) (node neighbor : Ptr) : Search Id :=
  if (s.heap neighbor).visited then s
  else
    let tentative := distance + 1
    if (s.heap node).nextHop = none ∨ tentative < (s.heap neighbor).distance then
      let hop := ((s.heap node).nextHop).getD neighbor
      { heap := Function.update s.heap neighbor
          { s.heap neighbor with nextHop := some hop, distance := tentative }
        queue := s.queue.orderedInsert H.before (tentative, neighbor) }
    else s

def Search.expand (H : Host Id) (s : Search Id) (distance : Int) (node : Ptr) : Search Id :=
  (H.enumerate (s.heap node).edges).foldl
    (fun s e => s.relax H distance node e.2) s

/-- One iteration of the queue loop, on the entry at the top. -/
def Search.step (H : Host Id) (s : Search Id) (distance : Int) (node : Ptr) : Search Id :=
  let visited := (s.heap node).visited
  let s := { s with heap := Function.update s.heap node { s.heap node with visited := true } }
  let s := if visited then s else s.expand H distance node
  { s with queue := s.queue.tail }

def searchLoop (H : Host Id) : ℕ → Search Id → Option (Search Id)
  | 0, s => if s.queue = [] then some s else none
  | fuel + 1, s =>
    match s.queue with
    | [] => some s
    | (distance, node) :: _ => searchLoop H fuel (s.step H distance node)

def Graph.resetSearch (g : Graph Id Ecdh) (H : Host Id) : Ptr → Vertice Id :=
  (H.enumerate g.mVertices).foldl
    (fun heap e => Function.update heap e.2
      { heap e.2 with nextHop := none, distance := -1, visited := false }) g.heap

def Graph.edgeCount (g : Graph Id Ecdh) : ℕ :=
  (g.mVertices.entries.map fun e => (g.heap e.2).edges.entries.length).sum

def Graph.tableOf [DecidableEq Id] (g : Graph Id Ecdh) (H : Host Id)
    (heap : Ptr → Vertice Id) : RoutingTable Id :=
  (H.enumerate g.mVertices).foldl
    (fun table e =>
      match (heap e.2).nextHop with
      | some hop => table.add e.1 (heap hop).mIdentifier
      | none => table) .empty

section Operations
variable [LinearOrder Id] [DecidableEq Chan] (K : CryptoPP Id Pair Ecdh) (H : Host Id)

def modifyGraph (f : Graph Id Ecdh → Graph Id Ecdh) : NodeM Id Pair Ecdh Chan Unit :=
  modify fun n => { n with graph := f n.graph }

def Graph.computeRoutingTable : NodeM Id Pair Ecdh Chan Unit := do
  modifyGraph fun g => { g with heap := g.resetSearch H }
  let n ← get
  match n.graph.findVertice (n.id K) with
  | none => throw (.runtimeError "Missing local node in network state")
  | some localVertice =>
    let heap := Function.update n.graph.heap localVertice
      { n.graph.heap localVertice with nextHop := none, distance := 0 }
    match searchLoop H (1 + n.graph.edgeCount) ⟨heap, [(0, localVertice)]⟩ with
    | none => throw .outOfFuel
    | some s =>
      let table := n.graph.tableOf H s.heap
      set { n with
        graph := { n.graph with heap := s.heap, mRoutingTable := table }
        routing := n.routing.setTable (some table) }

def Graph.updateEdges (id : Id) (neighbors : Finset Id) : NodeM Id Pair Ecdh Chan Bool := do
  let n ← get
  match n.graph.findVertice id with
  | none => throw (.invalidArgument "Vertice not found")
  | some vertice =>
    let currentNeighbors := keySet (n.graph.heap vertice).edges
    let added := neighbors \ currentNeighbors
    let removed := currentNeighbors \ neighbors
    if added = ∅ ∧ removed = ∅ then return false
    else
      modifyGraph fun g =>
        (iterate added).foldl (Graph.link vertice)
          ((iterate removed).foldl (Graph.unlink vertice) g)
      Graph.computeRoutingTable K H
      return true

/-- The State that the node announces next. -/
def Node.localState (n : Node Id Pair Ecdh Chan) : State Id :=
  ⟨n.id K, n.graph.mStateSequence, K.ecdhPublicKey n.graph.mEcdh, n.routing.neighbors⟩

/-- `Graph::broadcastState`, given the `updateVertice` it calls. -/
def Graph.broadcastStateWith (update : State Id → NodeM Id Pair Ecdh Chan Bool) :
    NodeM Id Pair Ecdh Chan Unit := do
  let n ← get
  let state := n.localState K
  modifyGraph fun g => { g with mStateSequence := g.mStateSequence + 1 }
  match state.toMessage K H.byteOrder n.ecdsaPair with
  | .error e => throw e
  | .ok message =>
    let _ ← update state
    modify fun n => { n with
      wire := n.routing.broadcast K H.byteOrder n.wire message none
      graph := { n.graph with announced := n.graph.announced ++ [state] } }

/-- `Graph::updateVertice`; the depth counts the calls that may still nest. -/
def Graph.updateVertice : ℕ → State Id → NodeM Id Pair Ecdh Chan Bool
  | 0, _ => throw .stackOverflow
  | depth + 1, state => do
    let n ← get
    match n.graph.findVertice state.id with
    | some vertice =>
      match (n.graph.heap vertice).state with
      | some current =>
        if compareSequence state.sequence current.sequence ≤ 0 then return false
        else
          if current.ecdhPublic ≠ state.ecdhPublic then
            Graph.broadcastStateWith K H (Graph.updateVertice depth)
          modifyGraph fun g => g.modifyVertice vertice fun v => { v with state := some state }
          updateStoredEdges vertice
      | none =>
        Graph.broadcastStateWith K H (Graph.updateVertice depth)
        modifyGraph fun g => g.modifyVertice vertice fun v => { v with state := some state }
        updateStoredEdges vertice
    | none =>
      let vertice := n.graph.allocated
      modifyGraph fun g =>
        g.storeVertice { newVertice state.id with state := some state }
      Graph.broadcastStateWith K H (Graph.updateVertice depth)
      updateStoredEdges vertice
where
  /-- The common tail: the edges follow the state that is stored by now. -/
  updateStoredEdges (vertice : Ptr) : NodeM Id Pair Ecdh Chan Bool := do
    let n ← get
    match (n.graph.heap vertice).state with
    | some state =>
      let _ ← Graph.updateEdges K H (n.graph.heap vertice).mIdentifier state.neighbors
      return true
    | none => return true

/-- `Graph::broadcastState` as called from an event handler. -/
def Graph.broadcastState : NodeM Id Pair Ecdh Chan Unit :=
  Graph.broadcastStateWith K H (Graph.updateVertice K H H.stack)

def Graph.insert (state : State Id) : NodeM Id Pair Ecdh Chan Bool :=
  Graph.updateVertice K H H.stack state

/-- `Graph::notify` on a State message: a State that is news is passed on. -/
def Graph.notifyState (message : Message Id) (channel : Option Chan) :
    NodeM Id Pair Ecdh Chan Unit :=
  match State.fromMessage K message with
  | .error e => throw e
  | .ok state => do
    if ← Graph.insert K H state then
      modify fun n => { n with
        wire := n.routing.broadcast K H.byteOrder n.wire message channel }

def Graph.notifyNeighbor : NodeM Id Pair Ecdh Chan Unit := do
  let n ← get
  if ← Graph.updateEdges K H (n.id K) n.routing.neighbors then
    Graph.broadcastState K H

def emptyGraph (id : Id) (mEcdh : Ecdh) : Graph Id Ecdh where
  mRoutingTable := .empty
  mVertices := ∅
  heap := fun _ => newVertice id
  allocated := 0
  mEcdh := mEcdh
  mHelloSequence := 0
  mStateSequence := 0
  announced := []

/-- `Graph::Graph`: the first State is older by one than the next to announce. -/
def Graph.construct (mEcdh : Ecdh) : NodeM Id Pair Ecdh Chan Unit := do
  let n ← get
  modifyGraph fun _ => emptyGraph (n.id K) mEcdh
  let _ ← Graph.insert K H ⟨n.id K, 0 - 1, K.ecdhPublicKey mEcdh, ∅⟩

def Graph.get (g : Graph Id Ecdh) (nodeId : Id) : Except Error (State Id) :=
  match g.findVertice nodeId with
  | none => .error (.runtimeError "Attempted to get state for unknown node")
  | some vertice =>
    match (g.heap vertice).state with
    | none => .error (.runtimeError "Unknown node state")
    | some state => .ok state

def Graph.nodes (g : Graph Id Ecdh) : List Id :=
  ((H.enumerate g.mVertices).filter fun e => (g.heap e.2).state.isSome).map Prod.fst

def Graph.count (g : Graph Id Ecdh) : ℕ := g.mVertices.entries.length

end Operations

-- Nodes of the toy instance, before their graphs are constructed. Numbers name channels, all of
-- them open.
namespace Sample

def host : Host (Fin 4) where
  byteOrder := .little
  address := id
  address_injective := Function.injective_id
  enumerate m := m.entries.map fun e => (e.1, e.2)
  enumerate_perm _ := .refl _
  stack := 2
  stack_nested := Nat.le_refl 2

def node (i : Fin 4) : Node (Fin 4) (Fin 4) (Fin 4) ℕ where
  ecdsaPair := i
  wire := ⟨fun _ => true, fun _ => []⟩
  routing := .initial
  graph := emptyGraph i i
  signaling := .initial MessageType.Signaling 0
  userTransport := .initial MessageType.User 0

end Sample

variable [DecidableEq Id]

def Graph.stateOf (g : Graph Id Ecdh) (id : Id) : Option (State Id) :=
  (g.findVertice id).bind fun p => (g.heap p).state

def Graph.edgesOf (g : Graph Id Ecdh) (id : Id) : Finset Id :=
  match g.findVertice id with
  | some p => keySet (g.heap p).edges
  | none => ∅

/-- The pointer structure of the store: vertices are allocated, know the identifier they
are stored under, and an edge points to the vertex stored under its key. -/
structure Graph.Linked (g : Graph Id Ecdh) : Prop where
  fresh : ∀ {id p}, g.mVertices.lookup id = some p → p < g.allocated
  named : ∀ {id p}, g.mVertices.lookup id = some p → (g.heap p).mIdentifier = id
  edge : ∀ {id p t q}, g.mVertices.lookup id = some p →
    (g.heap p).edges.lookup t = some q → g.mVertices.lookup t = some q

theorem Graph.Linked.pointer_unique {g : Graph Id Ecdh} (h : g.Linked) {id id' : Id} {p : Ptr}
    (hp : g.mVertices.lookup id = some p) (hp' : g.mVertices.lookup id' = some p) :
    id = id' := (h.named hp).symm.trans (h.named hp')

theorem mem_edgesOf {g : Graph Id Ecdh} {id t : Id} :
    t ∈ g.edgesOf id ↔
      ∃ p q, g.mVertices.lookup id = some p ∧ (g.heap p).edges.lookup t = some q := by
  unfold Graph.edgesOf Graph.findVertice
  cases hp : g.mVertices.lookup id with
  | none => simp
  | some p => simp [mem_iff_lookup]

theorem stateOf_congr {g g' : Graph Id Ecdh} (hv : g'.mVertices = g.mVertices)
    (hh : ∀ p, (g'.heap p).content = (g.heap p).content) (id : Id) :
    g'.stateOf id = g.stateOf id := by
  unfold Graph.stateOf Graph.findVertice
  rw [hv]
  cases g.mVertices.lookup id with
  | none => rfl
  | some p => exact congrArg (fun c => c.2.1) (hh p)

theorem edgesOf_congr {g g' : Graph Id Ecdh} (hv : g'.mVertices = g.mVertices)
    (hh : ∀ p, (g'.heap p).content = (g.heap p).content) (id : Id) :
    g'.edgesOf id = g.edgesOf id := by
  unfold Graph.edgesOf Graph.findVertice
  rw [hv]
  cases g.mVertices.lookup id with
  | none => rfl
  | some p => exact congrArg (fun c => keySet c.2.2) (hh p)

theorem Graph.Linked.congr {g g' : Graph Id Ecdh} (h : g.Linked) (hv : g'.mVertices = g.mVertices)
    (ha : g'.allocated = g.allocated)
    (hh : ∀ p, (g'.heap p).content = (g.heap p).content) : g'.Linked where
  fresh hp := by rw [ha]; exact h.fresh (hv ▸ hp)
  named {id p} hp := by
    have hc := congrArg Prod.fst (hh p)
    exact hc.trans (h.named (hv ▸ hp))
  edge {id p t q} hp hq := by
    have hc : (g'.heap p).edges = (g.heap p).edges := congrArg (fun c => c.2.2) (hh p)
    rw [hv] at hp ⊢
    exact h.edge hp (hc ▸ hq)

theorem mem_enumerate (H : Host Id) (m : UnorderedMap Id Ptr) (id : Id) (p : Ptr) :
    (id, p) ∈ H.enumerate m ↔ m.lookup id = some p := by
  rw [(H.enumerate_perm m).mem_iff, ← mem_entries]
  simp only [List.mem_map, Prod.mk.injEq]
  constructor
  · rintro ⟨e, he, rfl, rfl⟩; exact he
  · intro he; exact ⟨_, he, rfl, rfl⟩

omit [DecidableEq Id] in
theorem nodup_enumerate (H : Host Id) (m : UnorderedMap Id Ptr) :
    ((H.enumerate m).map Prod.fst).Nodup := by
  rw [((H.enumerate_perm m).map Prod.fst).nodup_iff, List.map_map]
  exact m.keys_nodup

omit [DecidableEq Id] in
theorem length_enumerate (H : Host Id) (m : UnorderedMap Id Ptr) :
    (H.enumerate m).length = m.entries.length := by
  rw [(H.enumerate_perm m).length_eq, List.length_map]

end LegioNode
