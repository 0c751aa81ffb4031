import Legio.LinkStateStore

set_option linter.style.header false

/-! Invariants of nodes that every operation of the graph keeps, whether it returns or
throws. A vertex stays where it was entered, so the update that an announcement nests
leaves the vertex of the outer update in its place. -/
namespace GraphInvariants

open LegioBinary LegioCrypto LegioMessage LegioNode Containers RoutingTableSearch
open ExceptionStates LinkStateStore

variable {Id Pair Ecdh Chan : Type} [LinearOrder Id] [DecidableEq Chan]

/-- What an invariant has to withstand. `A` holds of the States that may be stored and `M`
of the messages that announcements send. -/
structure Withstands (K : CryptoPP Id Pair Ecdh) (H : Host Id)
    (I : Node Id Pair Ecdh Chan → Prop) (A : State Id → Prop) (M : Message Id → Prop) :
    Prop where
  own : ∀ n, I n → A (n.localState K)
  signed : ∀ n m, I n → (n.localState K).toMessage K H.byteOrder n.ecdsaPair = .ok m → M m
  edges : ∀ id neighbors, Keeps I (Graph.updateEdges K H id neighbors)
  counted : ∀ n, I n →
    I { n with graph := { n.graph with mStateSequence := n.graph.mStateSequence + 1 } }
  announced : ∀ n s m, I n → M m → I { n with
    wire := n.routing.broadcast K H.byteOrder n.wire m none
    graph := { n.graph with announced := n.graph.announced ++ [s] } }
  stored : ∀ n s p, I n → A s → n.graph.mVertices.lookup s.id = some p →
    I { n with graph := n.graph.modifyVertice p fun v => { v with state := some s } }
  entered : ∀ n s, I n → A s → n.graph.mVertices.lookup s.id = none →
    I { n with graph := n.graph.storeVertice { newVertice s.id with state := some s } }

/-- A neighbour set that an operation of the graph may give to `updateEdges`. -/
def Sourced (n : Node Id Pair Ecdh Chan) (neighbors : Finset Id) : Prop :=
  neighbors = n.routing.neighbors ∨
    ∃ id s, n.graph.stateOf id = some s ∧ neighbors = s.neighbors

/-- What `Withstands` asks, of an invariant that matters which neighbours a vertex is given. -/
structure Endures (K : CryptoPP Id Pair Ecdh) (H : Host Id)
    (I : Node Id Pair Ecdh Chan → Prop) (A : State Id → Prop) (M : Message Id → Prop) :
    Prop where
  own : ∀ n, I n → A (n.localState K)
  signed : ∀ n m, I n → (n.localState K).toMessage K H.byteOrder n.ecdsaPair = .ok m → M m
  edges : ∀ n id neighbors, I n → Sourced n neighbors →
    I (final (Graph.updateEdges K H id neighbors n))
  counted : ∀ n, I n →
    I { n with graph := { n.graph with mStateSequence := n.graph.mStateSequence + 1 } }
  announced : ∀ n s m, I n → M m → I { n with
    wire := n.routing.broadcast K H.byteOrder n.wire m none
    graph := { n.graph with announced := n.graph.announced ++ [s] } }
  stored : ∀ n s p, I n → A s → n.graph.mVertices.lookup s.id = some p →
    I { n with graph := n.graph.modifyVertice p fun v => { v with state := some s } }
  entered : ∀ n s, I n → A s → n.graph.mVertices.lookup s.id = none →
    I { n with graph := n.graph.storeVertice { newVertice s.id with state := some s } }

theorem Withstands.endures {K : CryptoPP Id Pair Ecdh} {H : Host Id}
    {I : Node Id Pair Ecdh Chan → Prop} {A : State Id → Prop} {M : Message Id → Prop}
    (h : Withstands K H I A M) : Endures K H I A M where
  own := h.own
  signed := h.signed
  edges n id neighbors hn _ := h.edges id neighbors n hn
  counted := h.counted
  announced := h.announced
  stored := h.stored
  entered := h.entered

def Placed (n₀ n : Node Id Pair Ecdh Chan) : Prop :=
  ∀ id p, n₀.graph.mVertices.lookup id = some p → n.graph.mVertices.lookup id = some p

section Places
variable {K : CryptoPP Id Pair Ecdh} (H : Host Id) {n₀ n₁ n₂ : Node Id Pair Ecdh Chan}

omit [DecidableEq Chan] in
theorem placed_trans (h₁ : Placed n₀ n₁) (h₂ : Placed n₁ n₂) : Placed n₀ n₂ :=
  fun id p hp => h₂ id p (h₁ id p hp)

omit [DecidableEq Chan] in
theorem placed_computeRoutingTable :
    Keeps (Placed n₀) (Graph.computeRoutingTable K H : NodeM Id Pair Ecdh Chan Unit) := by
  refine keeps_bind (keeps_modify fun n hn => hn) fun _ => keeps_get_bind fun n hn => ?_
  cases n.graph.findVertice (n.id K) with
  | none => exact hn
  | some localVertice =>
    dsimp only
    generalize searchLoop H _ _ = result
    cases result with
    | none => exact hn
    | some s => exact hn

omit [DecidableEq Chan] in
theorem placed_updateEdges (id : Id) (neighbors : Finset Id) :
    Keeps (Placed n₀) (Graph.updateEdges K H id neighbors : NodeM Id Pair Ecdh Chan Bool) := by
  refine keeps_get_bind fun n hn => ?_
  cases n.graph.findVertice id with
  | none => exact hn
  | some vertice =>
    dsimp only
    split_ifs
    · exact hn
    · refine keeps_bind (keeps_modify fun n hn => ?_)
        (fun _ => keeps_bind (placed_computeRoutingTable H) fun _ => keeps_pure _) n hn
      exact fun x p hp => pointers_relink vertice _ _ n.graph (hn x p hp)

end Places

section Enduring
variable {K : CryptoPP Id Pair Ecdh} {H : Host Id} {I : Node Id Pair Ecdh Chan → Prop}
  {A : State Id → Prop} {M : Message Id → Prop} (h : Endures K H I A M)
  {n₀ : Node Id Pair Ecdh Chan}
include h

theorem endures_updateStoredEdges {id : Id} {vertice : Ptr}
    (hp : n₀.graph.mVertices.lookup id = some vertice) :
    Keeps (fun n => I n ∧ Placed n₀ n)
      (Graph.updateVertice.updateStoredEdges K H vertice) := by
  refine keeps_get_bind fun n hn => ?_
  cases hs : (n.graph.heap vertice).state with
  | none => exact hn
  | some s =>
    have hsourced : Sourced n s.neighbors :=
      Or.inr ⟨id, s, (stateOf_of_lookup (hn.2 id vertice hp)).trans hs, rfl⟩
    dsimp only
    refine final_bind (I := fun n => I n ∧ Placed n₀ n) ⟨?_, ?_⟩ fun _ => keeps_pure _
    · exact h.edges n (n.graph.heap vertice).mIdentifier s.neighbors hn.1 hsourced
    · exact placed_updateEdges H (n.graph.heap vertice).mIdentifier s.neighbors n hn.2

theorem endures_broadcastStateWith {update : State Id → NodeM Id Pair Ecdh Chan Bool}
    (hu : ∀ s, A s → Keeps (fun n => I n ∧ Placed n₀ n) (update s)) :
    Keeps (fun n => I n ∧ Placed n₀ n) (Graph.broadcastStateWith K H update) := by
  refine keeps_get_bind fun n hn => ?_
  have hcount : Keeps (fun n => I n ∧ Placed n₀ n) (modifyGraph fun g =>
      { g with mStateSequence := g.mStateSequence + 1 } : NodeM Id Pair Ecdh Chan Unit) :=
    keeps_modify fun n hn => ⟨h.counted n hn.1, hn.2⟩
  refine keeps_bind hcount (fun _ => ?_) n hn
  cases hm : (n.localState K).toMessage K H.byteOrder n.ecdsaPair with
  | error e => exact keeps_throw e
  | ok m =>
    exact keeps_bind (hu _ (h.own n hn.1)) fun _ =>
      keeps_modify fun n' hn' => ⟨h.announced n' _ m hn'.1 (h.signed n m hn.1 hm), hn'.2⟩

theorem endures_store {vertice : Ptr} {s : State Id} (hs : A s)
    (hp : n₀.graph.mVertices.lookup s.id = some vertice) :
    Keeps (fun n => I n ∧ Placed n₀ n) (do
      modifyGraph fun g => g.modifyVertice vertice fun v => { v with state := some s }
      Graph.updateVertice.updateStoredEdges K H vertice) :=
  keeps_bind (keeps_modify fun n hn => ⟨h.stored n s vertice hn.1 hs (hn.2 _ _ hp), hn.2⟩)
    fun _ => endures_updateStoredEdges h hp

omit h in
theorem lookup_storeVertice {g : LegioNode.Graph Id Ecdh} {v : Vertice Id}
    (hp : g.mVertices.lookup v.mIdentifier = none) :
    (g.storeVertice v).mVertices.lookup v.mIdentifier = some g.allocated := by
  refine lookup_emplace_of_notMem _ fun hmem => ?_
  obtain ⟨p, hp'⟩ := mem_iff_lookup.mp hmem
  rw [hp] at hp'
  cases hp'

theorem endures_updateVertice (depth : ℕ) : ∀ (s : State Id), A s →
    ∀ n₀, Keeps (fun n => I n ∧ Placed n₀ n) (Graph.updateVertice K H depth s) := by
  induction depth with
  | zero => exact fun s _ n₀ => keeps_throw _
  | succ depth ih =>
    intro s hs n₀ n hn
    -- the places of the node as it is now are kept, and those of the earlier one with them
    suffices hlocal : I (final (Graph.updateVertice K H (depth + 1) s n)) ∧
        Placed n (final (Graph.updateVertice K H (depth + 1) s n)) from
      ⟨hlocal.1, placed_trans hn.2 hlocal.2⟩
    have hstart : I n ∧ Placed n n := ⟨hn.1, fun _ _ hp => hp⟩
    have hannounce : ∀ n₁, Keeps (fun n' => I n' ∧ Placed n₁ n')
        (Graph.broadcastStateWith K H (Graph.updateVertice K H depth)) :=
      fun n₁ => endures_broadcastStateWith h fun s hs => ih s hs n₁
    rw [Graph.updateVertice, get_bind_run]
    cases hp : n.graph.findVertice s.id with
    | none =>
      let n₁ : Node Id Pair Ecdh Chan := { n with
        graph := n.graph.storeVertice { newVertice s.id with state := some s } }
      have hentered : Placed n n₁ := fun _ _ hq => lookup_emplace_of_lookup hq
      have hlookup : n₁.graph.mVertices.lookup s.id = some n.graph.allocated :=
        lookup_storeVertice (v := { newVertice s.id with state := some s }) hp
      have hrest := keeps_bind (hannounce n₁)
        (fun _ => endures_updateStoredEdges h hlookup) n₁
          ⟨h.entered n s hn.1 hs hp, fun _ _ hq => hq⟩
      exact ⟨hrest.1, placed_trans hentered hrest.2⟩
    | some vertice =>
      have hstore := endures_store h hs hp
      dsimp only
      cases (n.graph.heap vertice).state with
      | none => exact keeps_bind (hannounce n) (fun _ => hstore) n hstart
      | some current =>
        dsimp only
        split_ifs
        · exact hstart
        · exact keeps_bind (hannounce n) (fun _ => hstore) n hstart
        · exact hstore n hstart

theorem endures_insert {s : State Id} (hs : A s) : Keeps I (Graph.insert K H s) :=
  fun n hn => (endures_updateVertice h H.stack s hs n n ⟨hn, fun _ _ hp => hp⟩).1

theorem endures_broadcastState : Keeps I (Graph.broadcastState K H) :=
  fun n hn => (endures_broadcastStateWith h (fun s hs => endures_updateVertice h H.stack s hs n) n
    ⟨hn, fun _ _ hp => hp⟩).1

theorem endures_notifyNeighbor : Keeps I (Graph.notifyNeighbor K H) := by
  refine keeps_get_bind fun n hn => ?_
  refine final_bind (h.edges n (n.id K) n.routing.neighbors hn (Or.inl rfl)) fun changed => ?_
  cases changed with
  | true => exact endures_broadcastState h
  | false => exact keeps_pure _

/-- The constructor enters the local vertex first, into a graph that is still empty. -/
theorem construct_endures {mEcdh : Ecdh} {n : Node Id Pair Ecdh Chan}
    (hfirst : I { n with
      graph := (emptyGraph (n.id K) mEcdh).storeVertice { newVertice (n.id K) with
        state := some ⟨n.id K, 0 - 1, K.ecdhPublicKey mEcdh, ∅⟩ } }) :
    I (final (Graph.construct K H mEcdh n)) := by
  obtain ⟨depth, hdepth⟩ := H.stack_succ
  let n₀ : Node Id Pair Ecdh Chan := { n with graph := emptyGraph (n.id K) mEcdh }
  let s₀ : State Id := ⟨n.id K, 0 - 1, K.ecdhPublicKey mEcdh, ∅⟩
  let n₁ : Node Id Pair Ecdh Chan := { n₀ with
    graph := n₀.graph.storeVertice { newVertice s₀.id with state := some s₀ } }
  have hlookup : n₁.graph.mVertices.lookup s₀.id = some 0 :=
    lookup_storeVertice (g := n₀.graph) (v := { newVertice s₀.id with state := some s₀ }) rfl
  have hinsert : I (final (Graph.updateVertice K H (depth + 1) s₀ n₀)) := by
    rw [Graph.updateVertice]
    exact (keeps_bind
      (endures_broadcastStateWith h fun s hs => endures_updateVertice h depth s hs n₁)
      (fun _ => endures_updateStoredEdges h hlookup) n₁ ⟨hfirst, fun _ _ hp => hp⟩).1
  have hrun : Graph.construct K H mEcdh n =
      (Graph.updateVertice K H (depth + 1) s₀ >>= fun _ => pure ()) n₀ := by
    simp only [Graph.construct, get_bind_run, modifyGraph, modify_bind_run, Graph.insert, hdepth]
    rfl
  rw [hrun]
  exact final_bind hinsert fun _ => keeps_pure _

end Enduring

section Keeping
variable {K : CryptoPP Id Pair Ecdh} {H : Host Id} {I : Node Id Pair Ecdh Chan → Prop}
  {A : State Id → Prop} {M : Message Id → Prop} (h : Withstands K H I A M)
  {n₀ : Node Id Pair Ecdh Chan}
include h

theorem keeps_broadcastStateWith {update : State Id → NodeM Id Pair Ecdh Chan Bool}
    (hu : ∀ s, A s → Keeps (fun n => I n ∧ Placed n₀ n) (update s)) :
    Keeps (fun n => I n ∧ Placed n₀ n) (Graph.broadcastStateWith K H update) :=
  endures_broadcastStateWith h.endures hu

theorem keeps_updateVertice (depth : ℕ) (s : State Id) (hs : A s)
    (n₀ : Node Id Pair Ecdh Chan) :
    Keeps (fun n => I n ∧ Placed n₀ n) (Graph.updateVertice K H depth s) :=
  endures_updateVertice h.endures depth s hs n₀

theorem keeps_insert {s : State Id} (hs : A s) : Keeps I (Graph.insert K H s) :=
  endures_insert h.endures hs

theorem keeps_notifyNeighbor : Keeps I (Graph.notifyNeighbor K H) :=
  endures_notifyNeighbor h.endures

theorem construct_keeps {mEcdh : Ecdh} {n : Node Id Pair Ecdh Chan}
    (hfirst : I { n with
      graph := (emptyGraph (n.id K) mEcdh).storeVertice { newVertice (n.id K) with
        state := some ⟨n.id K, 0 - 1, K.ecdhPublicKey mEcdh, ∅⟩ } }) :
    I (final (Graph.construct K H mEcdh n)) :=
  construct_endures h.endures hfirst

end Keeping

/-- Neither the graph, apart from its key, nor the published table matters to a property. -/
def GraphFree (I : Node Id Pair Ecdh Chan → Prop) : Prop :=
  ∀ n graph table, graph.mEcdh = n.graph.mEcdh → I n →
    I { n with graph, routing := n.routing.setTable table }

omit [LinearOrder Id] [DecidableEq Chan] in
theorem foldl_mEcdh {f : LegioNode.Graph Id Ecdh → Id → LegioNode.Graph Id Ecdh}
    (hf : ∀ g id, (f g id).mEcdh = g.mEcdh) (ids : List Id) :
    ∀ g, (ids.foldl f g).mEcdh = g.mEcdh := by
  induction ids with
  | nil => exact fun g => rfl
  | cons id ids ih => exact fun g => (ih (f g id)).trans (hf g id)

omit [DecidableEq Chan] in
theorem link_mEcdh (vertice : Ptr) (g : LegioNode.Graph Id Ecdh) (id : Id) :
    (Graph.link vertice g id).mEcdh = g.mEcdh := by
  rw [Graph.link]
  cases g.mVertices.lookup id <;> rfl

section Free
variable {K : CryptoPP Id Pair Ecdh} {H : Host Id} {I : Node Id Pair Ecdh Chan → Prop}
  {M : Message Id → Prop} (hI : GraphFree I)
include hI

omit [LinearOrder Id] [DecidableEq Chan] in
theorem free_modifyGraph {f : LegioNode.Graph Id Ecdh → LegioNode.Graph Id Ecdh}
    (hf : ∀ g, (f g).mEcdh = g.mEcdh) :
    Keeps I (modifyGraph f : NodeM Id Pair Ecdh Chan Unit) :=
  keeps_modify fun n hn => hI n (f n.graph) n.routing.mTable (hf n.graph) hn

omit [DecidableEq Chan] in
theorem free_computeRoutingTable :
    Keeps I (Graph.computeRoutingTable K H : NodeM Id Pair Ecdh Chan Unit) := by
  refine keeps_bind (free_modifyGraph hI fun _ => rfl) fun _ => keeps_get_bind fun n hn => ?_
  cases n.graph.findVertice (n.id K) with
  | none => exact hn
  | some localVertice =>
    dsimp only
    generalize searchLoop H _ _ = result
    cases result with
    | none => exact hn
    | some s => exact hI n _ _ (by rfl) hn

omit [DecidableEq Chan] in
theorem free_updateEdges (id : Id) (neighbors : Finset Id) :
    Keeps I (Graph.updateEdges K H id neighbors : NodeM Id Pair Ecdh Chan Bool) := by
  refine keeps_get_bind fun n hn => ?_
  cases n.graph.findVertice id with
  | none => exact hn
  | some vertice =>
    dsimp only
    split_ifs
    · exact hn
    · have hkey : ∀ (added removed : List Id) (g : LegioNode.Graph Id Ecdh),
          (added.foldl (Graph.link vertice) (removed.foldl (Graph.unlink vertice) g)).mEcdh =
            g.mEcdh := fun added removed g =>
        (foldl_mEcdh (link_mEcdh vertice) added _).trans
          (foldl_mEcdh (by exact fun _ _ => rfl) removed g)
      exact keeps_bind (free_modifyGraph hI (hkey _ _))
        (fun _ => keeps_bind (free_computeRoutingTable hI) fun _ => keeps_pure _) n hn

theorem free_withstands
    (hsigned : ∀ n m, I n → (n.localState K).toMessage K H.byteOrder n.ecdsaPair = .ok m → M m)
    (hannounced : ∀ n m, I n → M m →
      I { n with wire := n.routing.broadcast K H.byteOrder n.wire m none }) :
    Withstands K H I (fun _ => True) M where
  own _ _ := trivial
  signed := hsigned
  edges := free_updateEdges hI
  counted n hn := hI n _ n.routing.mTable (by rfl) hn
  announced n _ m hn hm := hI _ _ n.routing.mTable (by rfl) (hannounced n m hn hm)
  stored n _ _ hn _ _ := hI n _ n.routing.mTable (by rfl) hn
  entered n _ hn _ _ := hI n _ n.routing.mTable (by rfl) hn

end Free

end GraphInvariants
