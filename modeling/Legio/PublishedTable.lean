import Legio.GraphRuns
import Legio.NodeInvariants

set_option linter.style.header false

/-! The routing table that the graph publishes. No edge changes without a new table, also
where an announcement nested in an update throws. -/
namespace PublishedTable

open LegioBinary LegioCrypto LegioMessage LegioNode Containers RoutingTableSearch
open ExceptionStates LinkStateStore GraphUpdates GraphRuns GraphInvariants NodeRuns
open NodeInvariants

variable {Id Pair Ecdh Chan : Type} [LinearOrder Id] [DecidableEq Chan]

structure Published (K : CryptoPP Id Pair Ecdh) (n : Node Id Pair Ecdh Chan) : Prop where
  rooted : Rooted K n
  shared : n.routing.mTable = some n.graph.mRoutingTable
  direct : Direct n.graph (n.id K) n.graph.mRoutingTable

variable {K : CryptoPP Id Pair Ecdh} (H : Host Id) {n n' : Node Id Pair Ecdh Chan}

omit [DecidableEq Chan] in
theorem direct_congr {g g' : LegioNode.Graph Id Ecdh} {localId : Id} {table : RoutingTable Id}
    (hedges : g'.edgesOf = g.edgesOf) (h : Direct g localId table) : Direct g' localId table := by
  intro v hop
  rw [hedges]
  exact h v hop

omit [DecidableEq Chan] in
theorem published_congr (h : Published K n) (hrooted : Rooted K n')
    (hid : n'.id K = n.id K) (hshared : n'.routing.mTable = n.routing.mTable)
    (htable : n'.graph.mRoutingTable = n.graph.mRoutingTable)
    (hedges : n'.graph.edgesOf = n.graph.edgesOf) : Published K n' := by
  refine ⟨hrooted, ?_, ?_⟩
  · rw [hshared, h.shared, htable]
  · rw [hid, htable]
    exact direct_congr hedges h.direct

omit [DecidableEq Chan] in
/-- Computing the table establishes everything. -/
theorem computeRoutingTable_published (h : Rooted K n) :
    ∃ n', Graph.computeRoutingTable K H n = .ok () n' ∧ Published K n' ∧ n'.id K = n.id K ∧
      n'.graph.edgesOf = n.graph.edgesOf := by
  obtain ⟨n', heap, table, hrun, hc⟩ := computeRoutingTable_spec K H h.linked h.root
  have hresult := hc.result
  subst hresult
  have hedges : ({ n.graph with heap := heap, mRoutingTable := table } :
      LegioNode.Graph Id Ecdh).edgesOf = n.graph.edgesOf :=
    funext (edgesOf_congr rfl hc.content)
  exact ⟨_, hrun, ⟨⟨h.linked.congr rfl rfl hc.content, h.root⟩, rfl,
    direct_congr hedges hc.direct⟩, rfl, hedges⟩

omit [DecidableEq Chan] in
theorem published_updateEdges (id : Id) (neighbors : Finset Id) :
    Keeps (Published K) (Graph.updateEdges K H id neighbors : NodeM Id Pair Ecdh Chan Bool) := by
  intro n hn
  by_cases hid : id ∈ n.graph.mVertices
  · by_cases heq : n.graph.edgesOf id = neighbors
    · obtain ⟨p, hp⟩ := mem_iff_lookup.mp hid
      have hcurrent : keySet (n.graph.heap p).edges = n.graph.edgesOf id :=
        (edgesOf_of_lookup hp).symm
      have hrun : Graph.updateEdges K H id neighbors n = .ok false n := by
        simp [Graph.updateEdges, Graph.findVertice, hp, hcurrent, heq]
      rw [hrun]
      exact hn
    · obtain ⟨n₁, hrelinked, hrun⟩ := updateEdges_relinked H hn.rooted hid heq
      obtain ⟨n', hcompute, hpublished, _⟩ := computeRoutingTable_published H hrelinked.rooted
      rw [hrun, bind_ok hcompute]
      exact hpublished
  · rw [updateEdges_unknown H hid]
    exact hn

theorem published_withstands :
    Withstands K H (Published K : Node Id Pair Ecdh Chan → Prop) (fun _ => True)
      (fun _ => True) := by
  constructor
  · exact fun _ _ => trivial
  · exact fun _ _ _ _ => trivial
  · exact published_updateEdges H
  · exact fun n hn => published_congr hn (rooted_congr hn.rooted rfl rfl rfl fun _ => rfl) rfl rfl
      rfl rfl
  · exact fun n s m hn _ => published_congr hn (rooted_congr hn.rooted rfl rfl rfl fun _ => rfl)
      rfl rfl rfl rfl
  · intro n s p hn _ hp
    obtain ⟨hput, _⟩ := storeState_spec hn.rooted hp
    exact published_congr hn hput.rooted rfl rfl rfl (congrArg View.edges hput.view_eq)
  · intro n s hn _ hp
    obtain ⟨hput, _⟩ := storeNew_spec hn.rooted.linked (Or.inr hn.rooted.root) hp
    exact published_congr hn hput.rooted rfl rfl rfl (congrArg View.edges hput.view_eq)

omit [DecidableEq Chan] in
theorem published_core (h : Published K n) (hcore : n'.core = n.core) : Published K n' := by
  simp only [Node.core, Prod.mk.injEq] at hcore
  obtain ⟨hpair, hrouting, hgraph⟩ := hcore
  have hid : n'.id K = n.id K := congrArg K.publicKey hpair
  refine ⟨⟨?_, ?_⟩, ?_, ?_⟩
  · rw [hgraph]
    exact h.rooted.linked
  · rw [hgraph, hid]
    exact h.rooted.root
  · rw [hgraph, hrouting]
    exact h.shared
  · rw [hgraph, hid]
    exact h.direct

omit [DecidableEq Chan] in
theorem published_routing (h : Published K n) (r : Routing Id Chan)
    (htable : r.mTable = n.routing.mTable) : Published K { n with routing := r } :=
  ⟨⟨h.rooted.linked, h.rooted.root⟩, htable.trans h.shared, h.direct⟩

theorem published_lasting :
    Lasting K H (Published K : Node Id Pair Ecdh Chan → Prop) where
  withstands := published_withstands H
  core := published_core
  routing r hn htable := published_routing hn r htable
  hello hn := published_congr hn (rooted_congr hn.rooted rfl rfl rfl fun _ => rfl) rfl rfl rfl rfl

theorem constructed_published {n₀ : Node Id Pair Ecdh Chan} {mEcdh : Ecdh}
    (hrouting : n₀.routing = Routing.initial) (hrun : Graph.construct K H mEcdh n₀ = .ok () n) :
    Published K n := by
  suffices hkeeps : Published K (final (Graph.construct K H mEcdh n₀)) by
    rw [hrun] at hkeeps
    exact hkeeps
  apply construct_keeps (published_withstands H)
  · obtain ⟨hput, _⟩ := storeNew_spec (K := K)
      (n := { n₀ with graph := emptyGraph (n₀.id K) mEcdh })
      (s := ⟨n₀.id K, 0 - 1, K.ecdhPublicKey mEcdh, ∅⟩) (linked_emptyGraph _ _) (Or.inl rfl) rfl
    refine ⟨hput.rooted, by rw [hrouting]; rfl, ?_⟩
    have hedges := congrArg View.edges hput.view_eq
    refine direct_congr (g := emptyGraph (n₀.id K) mEcdh) hedges fun v hop => ?_
    constructor
    · intro hentry
      cases hentry
    · rintro ⟨_, _, hmem⟩
      cases hmem

theorem created_published (h : Created K H n) : Published K n := by
  obtain ⟨n₀, mEcdh, hrouting, _, _, hrun⟩ := h.constructed
  exact constructed_published H hrouting hrun

/-- After every event of a run: the two components hold the same table, and computing it
again from the edges stored then changes no entry. -/
theorem published_table (h : Created K H n) (events : List (NodeEvent Id Chan)) :
    let m := run K H n events
    m.routing.mTable = some m.graph.mRoutingTable ∧
      ∃ m', Graph.computeRoutingTable K H m = .ok () m' ∧
        m'.graph.mRoutingTable.findNextHop = m.graph.mRoutingTable.findNextHop := by
  intro m
  have hm : Published K m := lasting_run (published_lasting H) events n (created_published H h)
  obtain ⟨m', hrun, hpublished, hid, hedges⟩ := computeRoutingTable_published H hm.rooted
  refine ⟨hm.shared, m', hrun, ?_⟩
  funext v
  apply Option.ext
  intro hop
  rw [hpublished.direct v hop, hm.direct v hop, hid, hedges]

-- Node 1 learns of neighbour 2 over channel 0.
namespace Sample
open LegioNode.Sample

def started (i : Fin 4) : Node (Fin 4) (Fin 4) (Fin 4) ℕ :=
  final (Graph.construct LegioCrypto.Sample.crypto host i (node i))

theorem created (i : Fin 4) : Created LegioCrypto.Sample.crypto host (started i) := by
  have hb : Bounded (node i) := Nat.zero_le _
  obtain ⟨n', hrun, _⟩ := construct_step host LegioCrypto.Sample.ecdsaLaws
    LegioCrypto.Sample.ecdhLaws (node i) hb i
  refine ⟨node i, i, rfl, fun _ => rfl, fun port => ?_, ?_⟩
  · cases port with
    | signaling => exact ⟨0, rfl⟩
    | user => exact ⟨0, rfl⟩
  · rw [started, hrun]
    rfl

theorem published_neighbor :
    let m := run LegioCrypto.Sample.crypto host (started 1) [.addChannel 0, .addNeighbor 2 0]
    m.routing.mTable = some m.graph.mRoutingTable ∧
      m.graph.mRoutingTable.findNextHop 2 = some 2 := by
  refine ⟨(published_table host (created 1) _).1, ?_⟩
  decide +kernel

end Sample

end PublishedTable
