import Legio.LinkStateStore

set_option linter.style.header false

/-! What the operations of the graph do to a node, in terms of the view of its store. The
local State is announced from inside other updates; the announcement itself never nests
any deeper, because the local vertex already has the local ECDH key. -/
namespace GraphUpdates

open LegioBinary LegioCrypto LegioMessage LegioNode Containers RoutingTableSearch
open ExceptionStates LinkStateStore

variable {Id Pair Ecdh Chan : Type}

/-- The part of a node that no change of the vertex store touches. -/
structure Surroundings (Id Pair Ecdh Chan : Type) where
  ecdsaPair : Pair
  wire : Wire Chan
  mChannels : Finset Chan
  mNeighbors : UnorderedMap Id Chan
  mEcdh : Ecdh
  mHelloSequence : UInt32
  mStateSequence : UInt32
  announced : List (State Id)
  signaling : Transport Id
  userTransport : Transport Id

def surroundings (n : Node Id Pair Ecdh Chan) : Surroundings Id Pair Ecdh Chan where
  ecdsaPair := n.ecdsaPair
  wire := n.wire
  mChannels := n.routing.mChannels
  mNeighbors := n.routing.mNeighbors
  mEcdh := n.graph.mEcdh
  mHelloSequence := n.graph.mHelloSequence
  mStateSequence := n.graph.mStateSequence
  announced := n.graph.announced
  signaling := n.signaling
  userTransport := n.userTransport

section Operations
variable [LinearOrder Id] (K : CryptoPP Id Pair Ecdh) (H : Host Id)

/-- A store that a routing table can be computed over. -/
structure Rooted (n : Node Id Pair Ecdh Chan) : Prop where
  linked : n.graph.Linked
  root : n.id K ∈ n.graph.mVertices

variable {K}

omit [LinearOrder Id] in
theorem id_congr {n n' : Node Id Pair Ecdh Chan} (h : surroundings n' = surroundings n) :
    n'.id K = n.id K :=
  congrArg (fun s : Surroundings Id Pair Ecdh Chan => K.publicKey s.ecdsaPair) h

omit [LinearOrder Id] in
theorem localState_congr {n n' : Node Id Pair Ecdh Chan} (h : surroundings n' = surroundings n) :
    n'.localState K = n.localState K :=
  congrArg (fun s : Surroundings Id Pair Ecdh Chan => (⟨K.publicKey s.ecdsaPair, s.mStateSequence,
    K.ecdhPublicKey s.mEcdh, keySet s.mNeighbors⟩ : State Id)) h

theorem rooted_congr {n n' : Node Id Pair Ecdh Chan} (h : Rooted K n) (hid : n'.id K = n.id K)
    (hv : n'.graph.mVertices = n.graph.mVertices) (ha : n'.graph.allocated = n.graph.allocated)
    (hh : ∀ p, ((n'.graph.heap p).mIdentifier, (n'.graph.heap p).edges) =
      ((n.graph.heap p).mIdentifier, (n.graph.heap p).edges)) : Rooted K n' := by
  constructor
  · constructor
    · intro id p hp
      rw [ha]
      exact h.linked.fresh (hv ▸ hp)
    · intro id p hp
      exact (congrArg Prod.fst (hh p)).trans (h.linked.named (hv ▸ hp))
    · intro id p t q hp hq
      have hedges : (n'.graph.heap p).edges = (n.graph.heap p).edges :=
        congrArg Prod.snd (hh p)
      rw [hv] at hp ⊢
      exact h.linked.edge hp (hedges ▸ hq)
  · rw [hid, hv]
    exact h.root

theorem fromMessage_ok {m : Message Id} {s : State Id} (h : State.fromMessage K m = .ok s) :
    m.source = some s.id ∧ m.type = MessageType.State ∧ m.sequence = s.sequence ∧
      ∃ reader, (BinaryReader.ofBinary m.body).read ecdhKeySize = .ok (s.ecdhPublic, reader) ∧
        readNeighbors K reader.size reader ∅ = .ok s.neighbors := by
  rw [State.fromMessage] at h
  cases hsource : m.source with
  | none =>
    rw [hsource] at h
    cases h
  | some source =>
    rw [hsource] at h
    dsimp only at h
    split_ifs at h with htype
    obtain ⟨⟨key, reader⟩, hkey, h⟩ := bind_eq_ok h
    obtain ⟨neighbors, hneighbors, h⟩ := bind_eq_ok h
    cases h
    exact ⟨rfl, not_not.mp htype, rfl, reader, hkey, hneighbors⟩

theorem mem_vertices {g : LegioNode.Graph Id Ecdh} {id : Id} :
    id ∈ (view g).vertices ↔ id ∈ g.mVertices := Iff.rfl

/-- A completed change of the store: what it says now, with the rest of the node and the
place of every vertex unchanged. -/
structure StoreChange (K : CryptoPP Id Pair Ecdh) (n n' : Node Id Pair Ecdh Chan)
    (v : View Id) : Prop where
  rooted : Rooted K n'
  view_eq : view n'.graph = v
  kept : surroundings n' = surroundings n
  pointers : ∀ {id p}, n.graph.mVertices.lookup id = some p →
    n'.graph.mVertices.lookup id = some p

theorem computeRoutingTable_change {n : Node Id Pair Ecdh Chan} (h : Rooted K n) :
    ∃ n', Graph.computeRoutingTable K H n = .ok () n' ∧ StoreChange K n n' (view n.graph) := by
  obtain ⟨n', heap, table, hrun, hn', hcontent, _⟩ :=
    computeRoutingTable_spec K H h.linked h.root
  subst hn'
  exact ⟨_, hrun, ⟨h.linked.congr rfl rfl hcontent, h.root⟩, view_congr rfl hcontent, rfl,
    fun hp => hp⟩

theorem connect_self {n : Node Id Pair Ecdh Chan} (h : n.graph.Linked) (id : Id) :
    (view n.graph).connect id (n.graph.edgesOf id) = view n.graph := by
  ext x
  · have := @edgesOf_subset _ _ _ _ h id x
    simp only [View.connect, Finset.mem_union]
    exact ⟨fun hx => hx.elim (fun hx => hx) this, Or.inl⟩
  · rfl
  · simp [View.connect]

theorem updateEdges_relinked {n : Node Id Pair Ecdh Chan} (h : Rooted K n) {id : Id}
    (hid : id ∈ n.graph.mVertices) {neighbors : Finset Id} (hne : n.graph.edgesOf id ≠ neighbors) :
    ∃ n₁, StoreChange K n n₁ ((view n.graph).connect id neighbors) ∧
      Graph.updateEdges K H id neighbors n =
        (Graph.computeRoutingTable K H >>= fun _ => pure true) n₁ := by
  obtain ⟨p, hp⟩ := mem_iff_lookup.mp hid
  have hcurrent : keySet (n.graph.heap p).edges = n.graph.edgesOf id :=
    (edgesOf_of_lookup hp).symm
  set n₁ : Node Id Pair Ecdh Chan := { n with
    graph := (iterate (neighbors \ n.graph.edgesOf id)).foldl (Graph.link p)
      ((iterate (n.graph.edgesOf id \ neighbors)).foldl (Graph.unlink p) n.graph) } with hn₁
  have hadded : (iterate (neighbors \ n.graph.edgesOf id)).toFinset =
      neighbors \ n.graph.edgesOf id := by ext; simp
  have hremoved : (iterate (n.graph.edgesOf id \ neighbors)).toFinset =
      n.graph.edgesOf id \ neighbors := by ext; simp
  obtain ⟨hlinked, hview, hkept⟩ := relink_spec h.linked hp neighbors hadded hremoved
  have hsur : surroundings n₁ = surroundings n := by
    simp only [kept, Prod.mk.injEq] at hkept
    simp only [surroundings, hn₁, hkept]
  have hroot : Rooted K n₁ := by
    refine ⟨hlinked, ?_⟩
    rw [← mem_vertices, hview]
    exact Finset.mem_union_left _ h.root
  have hdiff : ¬ (neighbors \ n.graph.edgesOf id = ∅ ∧ n.graph.edgesOf id \ neighbors = ∅) := by
    rintro ⟨h₁, h₂⟩
    exact hne (Finset.Subset.antisymm (Finset.sdiff_eq_empty_iff_subset.mp h₂)
      (Finset.sdiff_eq_empty_iff_subset.mp h₁))
  refine ⟨n₁, ⟨hroot, hview, hsur, fun hq => pointers_relink p _ _ n.graph hq⟩, ?_⟩
  simp only [Graph.updateEdges, Graph.findVertice, get_bind_run, hp, hcurrent,
    if_neg hdiff, modifyGraph, modify_bind_run]
  rfl

theorem updateEdges_unknown {n : Node Id Pair Ecdh Chan} {id : Id} (hid : id ∉ n.graph.mVertices)
    (neighbors : Finset Id) : Graph.updateEdges K H id neighbors n =
      .error (.invalidArgument "Vertice not found") n := by
  have hnone : n.graph.findVertice id = none := by
    rw [Graph.findVertice, ← Option.not_isSome_iff_eq_none, AList.lookup_isSome]
    exact hid
  simp only [Graph.updateEdges, get_bind_run, hnone]
  rfl

/-- `updateEdges` makes the edges of a stored vertex the given set, and reports whether
they were different before. -/
theorem updateEdges_spec {n : Node Id Pair Ecdh Chan} (h : Rooted K n) {id : Id}
    (hid : id ∈ n.graph.mVertices) (neighbors : Finset Id) :
    ∃ n', Graph.updateEdges K H id neighbors n =
        .ok (decide (n.graph.edgesOf id ≠ neighbors)) n' ∧
      StoreChange K n n' ((view n.graph).connect id neighbors) := by
  by_cases heq : n.graph.edgesOf id = neighbors
  · obtain ⟨p, hp⟩ := mem_iff_lookup.mp hid
    have hcurrent : keySet (n.graph.heap p).edges = n.graph.edgesOf id :=
      (edgesOf_of_lookup hp).symm
    refine ⟨n, ?_, h, ?_, rfl, fun hp => hp⟩
    · simp [Graph.updateEdges, Graph.findVertice, hp, hcurrent, heq]
    · rw [← heq, connect_self h.linked]
  · obtain ⟨n₁, hrelinked, hrun⟩ := updateEdges_relinked H h hid heq
    obtain ⟨n', hcompute, hchange⟩ := computeRoutingTable_change H hrelinked.rooted
    refine ⟨n', ?_, hchange.rooted, hchange.view_eq.trans hrelinked.view_eq,
      hchange.kept.trans hrelinked.kept, fun hq => hchange.pointers (hrelinked.pointers hq)⟩
    rw [hrun, bind_ok hcompute]
    simp [heq]

/-- The local vertex has the State announced last, under the local ECDH key. -/
def LocalCurrent (K : CryptoPP Id Pair Ecdh) (n : Node Id Pair Ecdh Chan) : Prop :=
  ∃ c, n.graph.stateOf (n.id K) = some c ∧ c.ecdhPublic = K.ecdhPublicKey n.graph.mEcdh ∧
    c.sequence = n.graph.mStateSequence - 1

/-- The local vertex has a State under the local ECDH key that is older than the next one to
announce. Numbers may have been lost on announcements that did not fit in a message. -/
def LocalOlder (K : CryptoPP Id Pair Ecdh) (n : Node Id Pair Ecdh Chan) : Prop :=
  ∃ c, n.graph.stateOf (n.id K) = some c ∧ c.ecdhPublic = K.ecdhPublicKey n.graph.mEcdh ∧
    0 < compareSequence n.graph.mStateSequence c.sequence

def neighborLimit : ℕ := 1983

theorem length_body (hK : EcdsaLaws K) (s : State Id) :
    (s.body K).length = s.ecdhPublic.length + identifierSize * s.neighbors.card := by
  have hfold : ∀ (l : List Id) (w : BinaryWriter),
      (l.foldl (fun w id => w.write (K.encodePoint id)) w).data.length =
        w.data.length + identifierSize * l.length := by
    intro l
    induction l with
    | nil => simp
    | cons id l ih =>
      intro w
      rw [List.foldl_cons, ih]
      simp only [data_write, List.length_append, hK.encode_length, List.length_cons,
        Nat.mul_succ]
      omega
  rw [State.body, hfold]
  simp

/-- A State fits into a message exactly up to the limit. -/
theorem length_body_le_iff (hK : EcdsaLaws K) {s : State Id}
    (hkey : s.ecdhPublic.length = ecdhKeySize) :
    (s.body K).length ≤ uint16Max ↔ s.neighbors.card ≤ neighborLimit := by
  rw [length_body hK, hkey, ecdhKeySize, identifierSize, uint16Max, neighborLimit]
  omega

theorem localState_message (hK : EcdsaLaws K) (hE : EcdhLaws K) (o : ByteOrder)
    {n : Node Id Pair Ecdh Chan} (hcard : n.routing.neighbors.card ≤ neighborLimit) :
    ∃ m, (n.localState K).toMessage K o n.ecdsaPair = .ok m ∧ SignedBy K n.ecdsaPair m ∧
      m.type = MessageType.State ∧ m.sequence = n.graph.mStateSequence ∧
      m.destination = none ∧ m.body = (n.localState K).body K :=
  create_signed K o _ _ _ n.ecdsaPair none
    ((length_body_le_iff hK (hE.public_length _)).mpr hcard)

theorem compareSequence_next (s : UInt32) : compareSequence s (s - 1) = 1 := by
  have hdiff : s - (s - 1) = 1 := by grind
  have hne : s ≠ s - 1 := by
    intro h
    rw [← h, UInt32.sub_self] at hdiff
    cases hdiff
  rw [compareSequence, if_neg hne, hdiff]
  rfl

theorem localCurrent_older {n : Node Id Pair Ecdh Chan} (h : LocalCurrent K n) :
    LocalOlder K n := by
  obtain ⟨c, hc, hkey, hseq⟩ := h
  refine ⟨c, hc, hkey, ?_⟩
  rw [hseq, compareSequence_next]
  decide

/-- The common tail of `updateVertice`. -/
theorem updateStoredEdges_spec {n : Node Id Pair Ecdh Chan} (h : Rooted K n) {id : Id} {p : Ptr}
    {s : State Id} (hp : n.graph.mVertices.lookup id = some p)
    (hs : (n.graph.heap p).state = some s) :
    ∃ n', Graph.updateVertice.updateStoredEdges K H p n = .ok true n' ∧
      StoreChange K n n' ((view n.graph).connect id s.neighbors) := by
  obtain ⟨n', hrun, hchange⟩ :=
    updateEdges_spec H h (mem_iff_lookup.mpr ⟨p, hp⟩) s.neighbors
  refine ⟨n', ?_, hchange⟩
  simp only [Graph.updateVertice.updateStoredEdges, get_bind_run, hs, h.linked.named hp]
  rw [bind_ok hrun]
  rfl

theorem storeState_spec {n : Node Id Pair Ecdh Chan} (h : Rooted K n) {s : State Id} {p : Ptr}
    (hp : n.graph.mVertices.lookup s.id = some p) :
    let n' : Node Id Pair Ecdh Chan := { n with
      graph := n.graph.modifyVertice p fun v => { v with state := some s } }
    StoreChange K n n' ((view n.graph).put s) ∧ (n'.graph.heap p).state = some s := by
  have hmem : s.id ∈ keySet n.graph.mVertices := mem_iff_lookup.mpr ⟨p, hp⟩
  have hlinked : (n.graph.modifyVertice p fun v => { v with state := some s }).Linked :=
    linked_modifyVertice h.linked hp (h.linked.named hp) fun hq => h.linked.edge hp hq
  refine ⟨⟨⟨hlinked, h.root⟩, ?_, rfl, fun hp => hp⟩, by simp [Graph.modifyVertice]⟩
  have hread := read_modifyVertice h.linked hp fun v => { v with state := some s }
  ext x
  · simp only [View.put, Finset.insert_eq_of_mem (show s.id ∈ (view n.graph).vertices from hmem)]
    rfl
  · simp only [view_states, put_states]
    rw [(hread x).1, Function.update_apply]
  · simp only [view_edges, put_edges]
    rw [(hread x).2]
    split_ifs with hx
    · rw [hx, edgesOf_of_lookup hp]
    · rfl

theorem storeNew_spec {n : Node Id Pair Ecdh Chan} (h : n.graph.Linked) {s : State Id}
    (hroot : n.id K = s.id ∨ n.id K ∈ n.graph.mVertices)
    (hp : n.graph.mVertices.lookup s.id = none) :
    let n' : Node Id Pair Ecdh Chan := { n with
      graph := n.graph.storeVertice { newVertice s.id with state := some s } }
    StoreChange K n n' ((view n.graph).put s) ∧
      n'.graph.mVertices.lookup s.id = some n.graph.allocated := by
  obtain ⟨hlinked, hstored, hview⟩ :=
    storeVertice_spec h (v := { newVertice s.id with state := some s }) hp rfl
  have hroot' : n.id K ∈
      (n.graph.storeVertice { newVertice s.id with state := some s }).mVertices :=
    (mem_emplace _ _ _ _).mpr hroot
  exact ⟨⟨⟨hlinked, hroot'⟩, hview, rfl, fun hq => lookup_emplace_of_lookup hq⟩, hstored⟩

theorem storeState_edges {n : Node Id Pair Ecdh Chan} (h : Rooted K n) {s : State Id} {p : Ptr}
    (hp : n.graph.mVertices.lookup s.id = some p) :
    ∃ n', (do
        modifyGraph fun g => g.modifyVertice p fun v => { v with state := some s }
        Graph.updateVertice.updateStoredEdges K H p : NodeM Id Pair Ecdh Chan Bool) n =
          .ok true n' ∧ StoreChange K n n' ((view n.graph).accept s) := by
  obtain ⟨hput, hstate⟩ := storeState_spec h hp
  obtain ⟨n', hrun, hconnect⟩ :=
    updateStoredEdges_spec H hput.rooted (hput.pointers hp) hstate
  have hview := hconnect.view_eq
  rw [hput.view_eq] at hview
  exact ⟨n', hrun, hconnect.rooted, hview, hconnect.kept.trans hput.kept,
    fun hq => hconnect.pointers (hput.pointers hq)⟩

variable [DecidableEq Chan]

theorem updateVertice_newer {n : Node Id Pair Ecdh Chan} (h : Rooted K n) {s c : State Id}
    (hc : n.graph.stateOf s.id = some c) (hnewer : 0 < compareSequence s.sequence c.sequence)
    (hkey : c.ecdhPublic = s.ecdhPublic) (depth : ℕ) :
    ∃ n', Graph.updateVertice K H (depth + 1) s n = .ok true n' ∧
      StoreChange K n n' ((view n.graph).accept s) := by
  cases hp : n.graph.mVertices.lookup s.id with
  | none =>
    rw [stateOf_of_notMem hp] at hc
    cases hc
  | some p =>
    rw [stateOf_of_lookup hp] at hc
    obtain ⟨n', hrun, hrest⟩ := storeState_edges H h hp
    refine ⟨n', ?_, hrest⟩
    have hnot : ¬ compareSequence s.sequence c.sequence ≤ 0 := by omega
    have hsame : ¬ c.ecdhPublic ≠ s.ecdhPublic := not_not.mpr hkey
    simp only [Graph.updateVertice, get_bind_run, Graph.findVertice, hp, hc, if_neg hnot,
      if_neg hsame]
    exact hrun

theorem updateVertice_stale {n : Node Id Pair Ecdh Chan} {s c : State Id}
    (hc : n.graph.stateOf s.id = some c) (hstale : compareSequence s.sequence c.sequence ≤ 0)
    (depth : ℕ) : Graph.updateVertice K H (depth + 1) s n = .ok false n := by
  cases hp : n.graph.mVertices.lookup s.id with
  | none =>
    rw [stateOf_of_notMem hp] at hc
    cases hc
  | some p =>
    rw [stateOf_of_lookup hp] at hc
    simp only [Graph.updateVertice, get_bind_run, Graph.findVertice, hp, hc, if_pos hstale]
    rfl

/-- A broadcast of the local State: it takes effect in the store and leaves on every open
channel. -/
structure Announced (K : CryptoPP Id Pair Ecdh) (n n' : Node Id Pair Ecdh Chan)
    (message : Message Id) : Prop where
  created : (n.localState K).toMessage K H.byteOrder n.ecdsaPair = .ok message
  kept : surroundings n' = { surroundings n with
    mStateSequence := n.graph.mStateSequence + 1
    announced := n.graph.announced ++ [n.localState K]
    wire := n.routing.broadcast K H.byteOrder n.wire message none }

omit [DecidableEq Chan] in
theorem localKey_congr {n n' : Node Id Pair Ecdh Chan} {P : UInt32 → UInt32 → Prop}
    (h : ∃ c, n.graph.stateOf (n.id K) = some c ∧ c.ecdhPublic = K.ecdhPublicKey n.graph.mEcdh ∧
      P n.graph.mStateSequence c.sequence)
    (hsur : surroundings n' = surroundings n)
    (hstate : n'.graph.stateOf (n.id K) = n.graph.stateOf (n.id K)) :
    ∃ c, n'.graph.stateOf (n'.id K) = some c ∧ c.ecdhPublic = K.ecdhPublicKey n'.graph.mEcdh ∧
      P n'.graph.mStateSequence c.sequence := by
  obtain ⟨c, hc, hkey, hseq⟩ := h
  have hid : n'.id K = n.id K := id_congr hsur
  simp only [surroundings, Surroundings.mk.injEq] at hsur
  refine ⟨c, ?_, ?_, ?_⟩
  · rw [hid, hstate, hc]
  · rw [hkey, hsur.2.2.2.2.1]
  · rw [hsur.2.2.2.2.2.2.1]
    exact hseq

omit [DecidableEq Chan] in
theorem localCurrent_congr {n n' : Node Id Pair Ecdh Chan} (h : LocalCurrent K n)
    (hsur : surroundings n' = surroundings n)
    (hstate : n'.graph.stateOf (n.id K) = n.graph.stateOf (n.id K)) : LocalCurrent K n' :=
  localKey_congr (P := fun next sequence => sequence = next - 1) h hsur hstate

omit [DecidableEq Chan] in
theorem localOlder_congr {n n' : Node Id Pair Ecdh Chan} (h : LocalOlder K n)
    (hsur : surroundings n' = surroundings n)
    (hstate : n'.graph.stateOf (n.id K) = n.graph.stateOf (n.id K)) : LocalOlder K n' :=
  localKey_congr (P := fun next sequence => 0 < compareSequence next sequence) h hsur hstate

theorem announced_id {n n' : Node Id Pair Ecdh Chan} {message : Message Id}
    (h : Announced H K n n' message) : n'.id K = n.id K :=
  congrArg (fun s : Surroundings Id Pair Ecdh Chan => K.publicKey s.ecdsaPair) h.kept

theorem announced_localCurrent {n n' : Node Id Pair Ecdh Chan} {message : Message Id}
    (h : Announced H K n n' message)
    (hstate : n'.graph.stateOf (n.id K) = some (n.localState K)) : LocalCurrent K n' := by
  have hkept := h.kept
  simp only [surroundings, Surroundings.mk.injEq] at hkept
  refine ⟨n.localState K, ?_, ?_, ?_⟩
  · rw [announced_id H h, hstate]
  · rw [hkept.2.2.2.2.1]
    rfl
  · rw [hkept.2.2.2.2.2.2.1]
    change n.graph.mStateSequence = _
    grind

/-- The local State, announced while it is the newest one of the local vertex. -/
theorem broadcastState_spec (hK : EcdsaLaws K) (hE : EcdhLaws K) {n : Node Id Pair Ecdh Chan}
    (h : Rooted K n) (hl : LocalOlder K n)
    (hcard : n.routing.neighbors.card ≤ neighborLimit) (depth : ℕ) :
    ∃ n' message, Graph.broadcastStateWith K H (Graph.updateVertice K H (depth + 1)) n =
        .ok () n' ∧ Rooted K n' ∧ view n'.graph = (view n.graph).accept (n.localState K) ∧
      Announced H K n n' message ∧
      ∀ {id p}, n.graph.mVertices.lookup id = some p →
        n'.graph.mVertices.lookup id = some p := by
  obtain ⟨message, hmessage, _⟩ := localState_message hK hE H.byteOrder hcard
  obtain ⟨c, hc, hkey, hnewer⟩ := hl
  set n₁ : Node Id Pair Ecdh Chan :=
    { n with graph := { n.graph with mStateSequence := n.graph.mStateSequence + 1 } } with hn₁
  have h₁ : Rooted K n₁ := ⟨h.linked.congr rfl rfl fun _ => rfl, h.root⟩
  obtain ⟨n₂, hrun, hchange⟩ :=
    updateVertice_newer H h₁ (s := n.localState K) hc hnewer hkey depth
  let n' : Node Id Pair Ecdh Chan := { n₂ with
    wire := n₂.routing.broadcast K H.byteOrder n₂.wire message none
    graph := { n₂.graph with announced := n₂.graph.announced ++ [n.localState K] } }
  have hview₁ : view n₁.graph = view n.graph := view_congr rfl fun _ => rfl
  have hview : view n'.graph = (view n.graph).accept (n.localState K) := by
    calc view n'.graph = view n₂.graph := view_congr rfl fun _ => rfl
      _ = (view n₁.graph).accept (n.localState K) := hchange.view_eq
      _ = (view n.graph).accept (n.localState K) := by rw [hview₁]
  have hkept : surroundings n' = { surroundings n with
      mStateSequence := n.graph.mStateSequence + 1
      announced := n.graph.announced ++ [n.localState K]
      wire := n.routing.broadcast K H.byteOrder n.wire message none } := by
    have hsur := hchange.kept
    simp only [surroundings, Surroundings.mk.injEq, hn₁] at hsur
    obtain ⟨h₁, h₂, h₃, h₄, h₅, h₆, h₇, h₈, h₉, h₁₀⟩ := hsur
    simp only [surroundings, n', Routing.broadcast, h₁, h₂, h₃, h₄, h₅, h₆, h₇, h₈, h₉, h₁₀]
  have hrooted : Rooted K n' :=
    ⟨hchange.rooted.linked.congr rfl rfl fun _ => rfl, hchange.rooted.root⟩
  refine ⟨n', message, ?_, hrooted, hview, ⟨hmessage, hkept⟩, fun hp => hchange.pointers hp⟩
  simp only [Graph.broadcastStateWith, get_bind_run, modifyGraph, modify_bind_run, hmessage]
  rw [bind_ok hrun]
  rfl

def Fresh (n : Node Id Pair Ecdh Chan) (s : State Id) : Prop :=
  ∀ c, n.graph.stateOf s.id = some c → 0 < compareSequence s.sequence c.sequence

def KnownKey (n : Node Id Pair Ecdh Chan) (s : State Id) : Prop :=
  ∃ c, n.graph.stateOf s.id = some c ∧ c.ecdhPublic = s.ecdhPublic

omit [DecidableEq Chan] in
theorem not_fresh_iff {n : Node Id Pair Ecdh Chan} {s : State Id} :
    ¬ Fresh n s ↔ ∃ c, n.graph.stateOf s.id = some c ∧
      compareSequence s.sequence c.sequence ≤ 0 := by
  simp only [Fresh, not_forall, not_lt, exists_prop]

theorem insert_notFresh {n : Node Id Pair Ecdh Chan} {s : State Id} (h : ¬ Fresh n s) :
    Graph.insert K H s n = .ok false n := by
  obtain ⟨c, hc, hstale⟩ := not_fresh_iff.mp h
  obtain ⟨depth, hdepth⟩ := H.stack_succ
  rw [Graph.insert, hdepth]
  exact updateVertice_stale H hc hstale depth

theorem insert_knownKey {n : Node Id Pair Ecdh Chan} (h : Rooted K n) {s : State Id}
    (hfresh : Fresh n s) (hkey : KnownKey n s) :
    ∃ n', Graph.insert K H s n = .ok true n' ∧
      StoreChange K n n' ((view n.graph).accept s) := by
  obtain ⟨c, hc, hsame⟩ := hkey
  obtain ⟨depth, hdepth⟩ := H.stack_succ
  rw [Graph.insert, hdepth]
  exact updateVertice_newer H h hc (hfresh c hc) hsame depth

/-- Everything that `updateVertice` can do with a State of another node. -/
inductive Updated (K : CryptoPP Id Pair Ecdh) (n : Node Id Pair Ecdh Chan) (s : State Id) :
    Bool → Node Id Pair Ecdh Chan → Prop where
  | stale : ¬ Fresh n s → Updated K n s false n
  | accepted {n'} : Fresh n s → KnownKey n s → view n'.graph = (view n.graph).accept s →
      surroundings n' = surroundings n → Updated K n s true n'
  | answered {n' message} : Fresh n s → ¬ KnownKey n s →
      view n'.graph = ((view n.graph).accept (n.localState K)).accept s →
      Announced H K n n' message → Updated K n s true n'

/-- The branch for an identifier that is not stored. -/
theorem updateVertice_unknown {n n₁ n' : Node Id Pair Ecdh Chan} {s : State Id} {depth : ℕ}
    (hp : n.graph.mVertices.lookup s.id = none)
    (hbroadcast : Graph.broadcastStateWith K H (Graph.updateVertice K H depth) { n with
      graph := n.graph.storeVertice { newVertice s.id with state := some s } } = .ok () n₁)
    (hedges : Graph.updateVertice.updateStoredEdges K H n.graph.allocated n₁ = .ok true n') :
    Graph.updateVertice K H (depth + 1) s n = .ok true n' := by
  rw [Graph.updateVertice]
  simp only [get_bind_run, Graph.findVertice, hp, modifyGraph, modify_bind_run]
  rw [bind_ok hbroadcast]
  exact hedges

/-- A State of another node runs to completion within two nested calls. -/
theorem updateVertice_updated (hK : EcdsaLaws K) (hE : EcdhLaws K) {n : Node Id Pair Ecdh Chan}
    (h : Rooted K n) (hl : LocalOlder K n)
    (hcard : n.routing.neighbors.card ≤ neighborLimit) {s : State Id} (hs : s.id ≠ n.id K)
    (depth : ℕ) :
    ∃ accepted n', Graph.updateVertice K H (depth + 2) s n = .ok accepted n' ∧
      Rooted K n' ∧ Updated H K n s accepted n' := by
  by_cases hfresh : Fresh n s
  swap
  · -- the stored State is at least as new
    obtain ⟨c, hc, hstale⟩ := not_fresh_iff.mp hfresh
    exact ⟨false, n, updateVertice_stale H hc hstale (depth + 1), h, .stale hfresh⟩
  by_cases hkey : KnownKey n s
  · obtain ⟨c, hc, hsame⟩ := hkey
    obtain ⟨n', hrun, hchange⟩ :=
      updateVertice_newer H h hc (hfresh c hc) hsame (depth + 1)
    exact ⟨true, n', hrun, hchange.rooted,
      .accepted hfresh ⟨c, hc, hsame⟩ hchange.view_eq hchange.kept⟩
  -- the announcement comes first, then the State takes effect
  suffices hsuff : ∃ n₁ n' message,
      Graph.updateVertice K H (depth + 2) s n = .ok true n' ∧ Rooted K n' ∧
      view n'.graph = ((view n.graph).accept (n.localState K)).accept s ∧
      Announced H K n n₁ message ∧ surroundings n' = surroundings n₁ by
    obtain ⟨n₁, n', message, hrun, hrooted, hview, hann, hkept⟩ := hsuff
    exact ⟨true, n', hrun, hrooted,
      .answered hfresh hkey hview ⟨hann.created, hkept.trans hann.kept⟩⟩
  cases hp : n.graph.mVertices.lookup s.id with
  | some p =>
    -- a vertex without a state, or with another key
    obtain ⟨n₁, message, hrun₁, hrooted₁, hview₁, hann, hpointers⟩ :=
      broadcastState_spec H hK hE h hl hcard depth
    obtain ⟨n', hrun', hchange⟩ := storeState_edges H hrooted₁ (hpointers hp)
    refine ⟨n₁, n', message, ?_, hchange.rooted, ?_, hann, hchange.kept⟩
    · have hstate := stateOf_of_lookup hp
      cases hc : (n.graph.heap p).state with
      | none =>
        rw [Graph.updateVertice]
        simp only [get_bind_run, Graph.findVertice, hp, hc]
        rw [bind_ok hrun₁]
        exact hrun'
      | some c =>
        rw [hc] at hstate
        have hnot : ¬ compareSequence s.sequence c.sequence ≤ 0 := by
          have := hfresh c hstate
          omega
        have hdiff : c.ecdhPublic ≠ s.ecdhPublic := fun heq => hkey ⟨c, hstate, heq⟩
        rw [Graph.updateVertice]
        simp only [get_bind_run, Graph.findVertice, hp, hc, if_neg hnot, if_pos hdiff]
        rw [bind_ok hrun₁]
        exact hrun'
    · rw [hchange.view_eq, hview₁]
  | none =>
    -- the vertex is entered with its State before the announcement, without edges
    let n₀ : Node Id Pair Ecdh Chan := { n with
      graph := n.graph.storeVertice { newVertice s.id with state := some s } }
    obtain ⟨hput, hstored⟩ := storeNew_spec h.linked (Or.inr h.root) hp
    have hlocal₀ : LocalOlder K n₀ := by
      apply localOlder_congr hl hput.kept
      rw [← view_states, hput.view_eq, put_states, Function.update_of_ne hs.symm, view_states]
    obtain ⟨n₁, message, hrun₁, hrooted₁, hview, hann, hpointers⟩ :=
      broadcastState_spec H hK hE hput.rooted hlocal₀ hcard depth
    rw [hput.view_eq] at hview
    have hview₁ : view n₁.graph = ((view n.graph).put s).accept (n.localState K) := hview
    have hp₁ := hpointers hstored
    have hstate₁ : (n₁.graph.heap n.graph.allocated).state = some s := by
      have hne : s.id ≠ (n.localState K).id := hs
      rw [← stateOf_of_lookup hp₁, ← view_states, hview₁, accept_states,
        Function.update_of_ne hne, put_states, Function.update_self]
    obtain ⟨n', hrun', hchange⟩ := updateStoredEdges_spec H hrooted₁ hp₁ hstate₁
    refine ⟨n₁, n', message, updateVertice_unknown H hp hrun₁ hrun', hchange.rooted, ?_,
      ⟨hann.created, hann.kept⟩, hchange.kept⟩
    rw [hchange.view_eq, hview₁]
    exact put_accept_comm (view n.graph) (t := n.localState K) hs

theorem updated_own {n n' : Node Id Pair Ecdh Chan} {s : State Id} {accepted : Bool}
    (hu : Updated H K n s accepted n') (hs : s.id ≠ n.id K) :
    (n'.graph.stateOf (n.id K) = n.graph.stateOf (n.id K) ∧ surroundings n' = surroundings n) ∨
      LocalCurrent K n' := by
  cases hu with
  | stale _ => exact Or.inl ⟨rfl, rfl⟩
  | accepted _ _ hview hkept =>
    refine Or.inl ⟨?_, hkept⟩
    rw [← view_states, hview, accept_states, Function.update_of_ne hs.symm, view_states]
  | answered _ _ hview hann =>
    refine Or.inr (announced_localCurrent H hann ?_)
    rw [← view_states, hview, accept_states, Function.update_of_ne hs.symm, accept_states]
    exact Function.update_self ..

theorem updateVertice_spec (hK : EcdsaLaws K) (hE : EcdhLaws K) {n : Node Id Pair Ecdh Chan}
    (h : Rooted K n) (hl : LocalCurrent K n)
    (hcard : n.routing.neighbors.card ≤ neighborLimit) {s : State Id} (hs : s.id ≠ n.id K)
    (depth : ℕ) :
    ∃ accepted n', Graph.updateVertice K H (depth + 2) s n = .ok accepted n' ∧
      Rooted K n' ∧ LocalCurrent K n' ∧ Updated H K n s accepted n' := by
  obtain ⟨accepted, n', hrun, hrooted, hu⟩ :=
    updateVertice_updated H hK hE h (localCurrent_older hl) hcard hs depth
  refine ⟨accepted, n', hrun, hrooted, ?_, hu⟩
  rcases updated_own H hu hs with ⟨hstate, hkept⟩ | hcurrent
  · exact localCurrent_congr hl hkept hstate
  · exact hcurrent

omit [DecidableEq Chan] in
theorem linked_emptyGraph (id : Id) (mEcdh : Ecdh) : (emptyGraph id mEcdh).Linked := by
  constructor
  · intro _ _ h; cases h
  · intro _ _ h; cases h
  · intro _ _ _ _ h; cases h

omit [LinearOrder Id] [DecidableEq Chan] in
theorem neighbors_congr {n n' : Node Id Pair Ecdh Chan} (h : surroundings n' = surroundings n) :
    n'.routing.neighbors = n.routing.neighbors :=
  congrArg (fun s : Surroundings Id Pair Ecdh Chan => keySet s.mNeighbors) h

/-- What a Neighbor event does: nothing if the edges are right already, else the local
State is announced with the neighbours of the routing component. -/
inductive Notified (K : CryptoPP Id Pair Ecdh) (n n' : Node Id Pair Ecdh Chan) : Prop where
  | unchanged : n.graph.edgesOf (n.id K) = n.routing.neighbors → view n'.graph = view n.graph →
      surroundings n' = surroundings n → Notified K n n'
  | announced {message} : n.graph.edgesOf (n.id K) ≠ n.routing.neighbors →
      view n'.graph = (view n.graph).accept (n.localState K) →
      Announced H K n n' message → Notified K n n'

theorem notifyNeighbor_notified (hK : EcdsaLaws K) (hE : EcdhLaws K)
    {n : Node Id Pair Ecdh Chan} (h : Rooted K n) (hl : LocalOlder K n)
    (hcard : n.routing.neighbors.card ≤ neighborLimit) :
    ∃ n', Graph.notifyNeighbor K H n = .ok () n' ∧ Rooted K n' ∧ Notified H K n n' := by
  obtain ⟨n₁, hrun₁, hchange⟩ := updateEdges_spec H h h.root n.routing.neighbors
  have hstates : n₁.graph.stateOf = n.graph.stateOf := by
    rw [← view_states, hchange.view_eq, connect_states, view_states]
  have hl₁ : LocalOlder K n₁ := localOlder_congr hl hchange.kept (by rw [hstates])
  by_cases heq : n.graph.edgesOf (n.id K) = n.routing.neighbors
  · refine ⟨n₁, ?_, hchange.rooted, .unchanged heq ?_ hchange.kept⟩
    · simp only [Graph.notifyNeighbor, get_bind_run]
      rw [bind_ok hrun₁]
      simp [heq]
    · rw [hchange.view_eq, ← heq, connect_self h.linked]
  · obtain ⟨depth, hdepth⟩ := H.stack_succ
    obtain ⟨n', message, hrun, hrooted, hview, hann, _⟩ :=
      broadcastState_spec H hK hE hchange.rooted hl₁
        (by rw [neighbors_congr hchange.kept]; exact hcard) depth
    have hlocal : n₁.localState K = n.localState K := localState_congr hchange.kept
    have hview' : view n'.graph = (view n.graph).accept (n.localState K) := by
      rw [hview, hchange.view_eq, hlocal]
      exact connect_accept (view n.graph) (n.localState K)
    have hann' : Announced H K n n' message := by
      have hkept := hchange.kept
      have hmessage := hann.created
      simp only [surroundings, Surroundings.mk.injEq] at hkept
      obtain ⟨h₁, h₂, h₃, h₄, h₅, h₆, h₇, h₈, h₉, h₁₀⟩ := hkept
      rw [hlocal, h₁] at hmessage
      refine ⟨hmessage, ?_⟩
      rw [hann.kept, hlocal]
      simp only [surroundings, Routing.broadcast, h₁, h₂, h₃, h₄, h₅, h₆, h₇, h₈, h₉, h₁₀]
    refine ⟨n', ?_, hrooted, .announced heq hview' hann'⟩
    simp only [Graph.notifyNeighbor, get_bind_run]
    rw [bind_ok hrun₁]
    simp only [heq, ne_eq, not_false_eq_true, decide_true, if_true, Graph.broadcastState, hdepth]
    exact hrun

theorem notified_own {n n' : Node Id Pair Ecdh Chan} (hn : Notified H K n n') :
    (n'.graph.stateOf (n.id K) = n.graph.stateOf (n.id K) ∧ surroundings n' = surroundings n) ∨
      LocalCurrent K n' := by
  cases hn with
  | unchanged _ hview hkept =>
    refine Or.inl ⟨?_, hkept⟩
    rw [← view_states, hview, view_states]
  | announced _ hview hann =>
    refine Or.inr (announced_localCurrent H hann ?_)
    rw [← view_states, hview, accept_states]
    exact Function.update_self ..

theorem notifyNeighbor_spec (hK : EcdsaLaws K) (hE : EcdhLaws K) {n : Node Id Pair Ecdh Chan}
    (h : Rooted K n) (hl : LocalCurrent K n)
    (hcard : n.routing.neighbors.card ≤ neighborLimit) :
    ∃ n', Graph.notifyNeighbor K H n = .ok () n' ∧ Rooted K n' ∧ LocalCurrent K n' ∧
      Notified H K n n' := by
  obtain ⟨n', hrun, hrooted, hn⟩ :=
    notifyNeighbor_notified H hK hE h (localCurrent_older hl) hcard
  refine ⟨n', hrun, hrooted, ?_, hn⟩
  rcases notified_own H hn with ⟨hstate, hkept⟩ | hcurrent
  · exact localCurrent_congr hl hkept hstate
  · exact hcurrent

theorem construct_spec (hK : EcdsaLaws K) (hE : EcdhLaws K) (n : Node Id Pair Ecdh Chan)
    (mEcdh : Ecdh) (hcard : n.routing.neighbors.card ≤ neighborLimit) :
    let n₀ : Node Id Pair Ecdh Chan := { n with graph := emptyGraph (n.id K) mEcdh }
    ∃ n' message, Graph.construct K H mEcdh n = .ok () n' ∧ Rooted K n' ∧ LocalCurrent K n' ∧
      view n'.graph = (view n₀.graph).accept (n₀.localState K) ∧ Announced H K n₀ n' message := by
  intro n₀
  let s₀ : State Id := ⟨n.id K, 0 - 1, K.ecdhPublicKey mEcdh, ∅⟩
  obtain ⟨hput, hstored⟩ :=
    storeNew_spec (K := K) (n := n₀) (s := s₀) (linked_emptyGraph _ _) (Or.inl rfl) rfl
  set n₁ : Node Id Pair Ecdh Chan := { n₀ with
    graph := n₀.graph.storeVertice { newVertice s₀.id with state := some s₀ } } with hn₁
  have hlocal₁ : LocalCurrent K n₁ := by
    refine ⟨s₀, ?_, rfl, rfl⟩
    rw [← view_states, hput.view_eq, put_states]
    exact Function.update_self ..
  obtain ⟨depth, hdepth⟩ := H.stack_succ_succ
  obtain ⟨n₂, message, hrun₂, hrooted₂, hview, hann, hpointers⟩ :=
    broadcastState_spec H hK hE hput.rooted (localCurrent_older hlocal₁) hcard depth
  rw [hput.view_eq] at hview
  have hview₂ : view n₂.graph = ((view n₀.graph).put s₀).accept (n₀.localState K) := hview
  -- the vertex just entered has the announced State by now
  have hp₂ := hpointers hstored
  have hstate₂ : (n₂.graph.heap n₀.graph.allocated).state = some (n₀.localState K) := by
    rw [← stateOf_of_lookup hp₂, ← view_states, hview₂, accept_states]
    exact Function.update_self ..
  obtain ⟨n', hrun', hchange⟩ := updateStoredEdges_spec H hrooted₂ hp₂ hstate₂
  have hview' : view n'.graph = (view n₀.graph).accept (n₀.localState K) := by
    rw [hchange.view_eq, hview₂]
    exact put_accept_same (view n₀.graph) (s := s₀) (t := n₀.localState K) rfl
  have hann' : Announced H K n₀ n' message := ⟨hann.created, hchange.kept.trans hann.kept⟩
  refine ⟨n', message, ?_, hchange.rooted, ?_, hview', hann'⟩
  · have hrun : Graph.updateVertice K H (depth + 2) s₀ n₀ = .ok true n' :=
      updateVertice_unknown H rfl hrun₂ hrun'
    simp only [Graph.construct, get_bind_run, modifyGraph, modify_bind_run, Graph.insert, hdepth]
    rw [bind_ok hrun]
    rfl
  · apply announced_localCurrent H hann'
    rw [← view_states, hview', accept_states]
    exact Function.update_self ..

end Operations

end GraphUpdates
