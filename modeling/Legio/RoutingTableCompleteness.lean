import Legio.ChannelTopology
import Legio.GraphInvariants
import Legio.GraphRuns
import Mathlib.Logic.Relation

set_option linter.style.header false

/-! Which vertices the routing table covers, and what its entries say about the graph. The
pointer structure survives every run, exceptions included, so the search result is known in
every reachable state. The distance that the search leaves at a vertex is that of a shortest
path, which begins with the next hop. -/
namespace RoutingTableCompleteness

open LegioBinary LegioCrypto LegioMessage LegioNode Containers RoutingTableSearch
open ExceptionStates LinkStateStore GraphUpdates GraphRuns
open GraphInvariants (Withstands keeps_insert keeps_notifyNeighbor construct_keeps)

variable {Id Pair Ecdh Chan : Type} [LinearOrder Id]
variable {K : CryptoPP Id Pair Ecdh} (H : Host Id)

theorem keeps_updateEdges (id : Id) (neighbors : Finset Id) :
    Keeps (Rooted K) (Graph.updateEdges K H id neighbors : NodeM Id Pair Ecdh Chan Bool) := by
  intro n hn
  by_cases hid : id ∈ n.graph.mVertices
  · obtain ⟨n', hrun, hchange⟩ := updateEdges_spec H hn hid neighbors
    rw [hrun]
    exact hchange.rooted
  · rw [updateEdges_unknown H hid]
    exact hn

variable [DecidableEq Chan]

theorem withstands_rooted : Withstands K H
    (fun n : Node Id Pair Ecdh Chan => Rooted K n) (fun _ => True) fun _ => True where
  own _ _ := trivial
  signed _ _ _ _ := trivial
  edges := keeps_updateEdges H
  counted _ hn := rooted_congr hn rfl rfl rfl fun _ => rfl
  announced _ _ _ hn _ := rooted_congr hn rfl rfl rfl fun _ => rfl
  stored _ _ _ hn _ hp := (storeState_spec hn hp).1.rooted
  entered _ _ hn _ hp := (storeNew_spec hn.linked (Or.inr hn.root) hp).1.rooted

theorem keeps_handle (ev : GraphEvent Id Chan) :
    Keeps (Rooted K) (ev.handle K H : NodeM Id Pair Ecdh Chan Unit) := by
  cases ev with
  | environment routing wire signaling userTransport =>
    apply keeps_modify
    intro n hn
    exact rooted_congr hn rfl rfl rfl fun _ => rfl
  | state message channel =>
    simp only [GraphEvent.handle, Graph.notifyState]
    cases State.fromMessage K message with
    | error e => exact keeps_throw e
    | ok s =>
      refine keeps_bind (keeps_insert (withstands_rooted H) trivial) fun accepted => ?_
      cases accepted with
      | true => exact keeps_modify fun n hn => rooted_congr hn rfl rfl rfl fun _ => rfl
      | false => exact keeps_pure _
  | neighbor => exact keeps_notifyNeighbor (withstands_rooted H)

theorem rooted_construct {n n' : Node Id Pair Ecdh Chan} {mEcdh : Ecdh}
    (hrun : Graph.construct K H mEcdh n = .ok () n') : Rooted K n' := by
  let n₀ : Node Id Pair Ecdh Chan := { n with graph := emptyGraph (n.id K) mEcdh }
  let s₀ : State Id := ⟨n.id K, 0 - 1, K.ecdhPublicKey mEcdh, ∅⟩
  have hfirst := storeNew_spec (n := n₀) (s := s₀) (linked_emptyGraph _ _) (Or.inl rfl) rfl
  have hrooted : Rooted K (final (Graph.construct K H mEcdh n)) :=
    construct_keeps (withstands_rooted H) hfirst.1.rooted
  rwa [hrun] at hrooted

variable {initial : Node Id Pair Ecdh Chan → Prop}
variable {allowed : Node Id Pair Ecdh Chan → GraphEvent Id Chan → Prop}

theorem reachable_rooted {n : Node Id Pair Ecdh Chan} (h : Reachable K H initial allowed n) :
    Rooted K n := by
  induction h with
  | construct mEcdh _ hrun => exact rooted_construct H hrun
  | event ev _ _ ih => exact keeps_handle H ev _ ih

def Edge (g : LegioNode.Graph Id Ecdh) (a b : Id) : Prop := b ∈ g.edgesOf a

/-- The table has an entry for exactly the vertices reachable along edges. -/
def Complete (g : LegioNode.Graph Id Ecdh) (localId : Id) (table : RoutingTable Id) : Prop :=
  ∀ v, v ≠ localId →
    ((∃ h, table.findNextHop v = some h) ↔ Relation.TransGen (Edge g) localId v)

/-- Every vertex that is reachable from the local one is one of its neighbours. -/
def AllDirect (g : LegioNode.Graph Id Ecdh) (localId : Id) : Prop :=
  ∀ v, v ≠ localId → Relation.TransGen (Edge g) localId v → v ∈ g.edgesOf localId

theorem complete_iff {g : LegioNode.Graph Id Ecdh} {localId : Id} {table : RoutingTable Id}
    (h : Direct g localId table) : Complete g localId table ↔ AllDirect g localId := by
  have hentry : ∀ v, (∃ h, table.findNextHop v = some h) ↔
      v ≠ localId ∧ v ∈ g.edgesOf localId := by
    intro v
    constructor
    · rintro ⟨hop, hhop⟩
      exact ((h v hop).mp hhop).2
    · intro hv
      exact ⟨v, (h v v).mpr ⟨rfl, hv⟩⟩
  constructor
  · intro hc v hne hreach
    exact ((hentry v).mp ((hc v hne).mpr hreach)).2
  · intro hd v hne
    rw [hentry v]
    constructor
    · intro hv
      exact Relation.TransGen.single hv.2
    · intro hreach
      exact ⟨hne, hd v hne hreach⟩

/-- In every reachable state the routing table is computed, and it covers the reachable
vertices exactly when all of them are direct neighbours. -/
theorem computeRoutingTable_complete_iff {n : Node Id Pair Ecdh Chan}
    (h : Reachable K H initial allowed n) :
    ∃ n', Graph.computeRoutingTable K H n = .ok () n' ∧
      n'.routing.mTable = some n'.graph.mRoutingTable ∧
      n'.graph.edgesOf = n.graph.edgesOf ∧
      (Complete n.graph (n.id K) n'.graph.mRoutingTable ↔ AllDirect n.graph (n.id K)) := by
  have hrooted := reachable_rooted H h
  obtain ⟨n', heap, table, hrun, hc⟩ := computeRoutingTable_spec K H hrooted.linked hrooted.root
  have hresult := hc.result
  subst hresult
  exact ⟨_, hrun, rfl, funext (edgesOf_congr rfl hc.content), complete_iff hc.direct⟩

-- A run of node 1: its neighbour 2 announces an edge to node 3.
namespace Sample
open LegioNode.Sample

def stateMessage (s : State (Fin 4)) : Message (Fin 4) :=
  let m : Message (Fin 4) := ⟨MessageType.State, s.sequence, some s.id, none,
    s.body LegioCrypto.Sample.crypto, []⟩
  { m with signature := LegioCrypto.Sample.sign s.id (m.signedBytes LegioCrypto.Sample.crypto) }

def linked : GraphEvent (Fin 4) ℕ :=
  .environment ⟨none, {0}, emplace 2 0 ∅⟩ (node 1).wire (node 1).signaling (node 1).userTransport

def announced : GraphEvent (Fin 4) ℕ :=
  .state (stateMessage ⟨2, 5, LegioCrypto.Sample.crypto.ecdhPublicKey 2, {1, 3}⟩) (some 0)

def run (events : List (GraphEvent (Fin 4) ℕ)) : Node (Fin 4) (Fin 4) (Fin 4) ℕ :=
  events.foldl (fun n ev => final (ev.handle LegioCrypto.Sample.crypto host n))
    (final (Graph.construct LegioCrypto.Sample.crypto host 1 (node 1)))

abbrev AnyRun := @Reachable _ _ _ ℕ _ _ LegioCrypto.Sample.crypto host (fun _ => True)
  fun _ _ => True

theorem reachable_run (events : List (GraphEvent (Fin 4) ℕ)) : AnyRun (run events) := by
  induction events using List.reverseRecOn with
  | nil =>
    obtain ⟨n', hrun, _⟩ := construct_step host LegioCrypto.Sample.ecdsaLaws
      LegioCrypto.Sample.ecdhLaws (node 1) (by unfold Bounded; decide) 1
    have hfinal : run [] = n' := congrArg final hrun
    rw [hfinal]
    exact .construct 1 trivial hrun
  | append_singleton events ev ih =>
    rw [run, List.foldl_append]
    exact .event ev ih trivial

/-- Node 3 is two hops away and the table has no entry for it. -/
theorem two_hops_missing : AnyRun (run [linked, .neighbor, announced]) ∧
    ∃ n', Graph.computeRoutingTable LegioCrypto.Sample.crypto host
        (run [linked, .neighbor, announced]) = .ok () n' ∧
      ¬ Complete (run [linked, .neighbor, announced]).graph 1 n'.graph.mRoutingTable := by
  have hreachable := reachable_run [linked, .neighbor, announced]
  have hone : (run [linked, .neighbor, announced]).graph.edgesOf 1 = {2} := by decide +kernel
  have htwo : (run [linked, .neighbor, announced]).graph.edgesOf 2 = {1, 3} := by
    decide +kernel
  have hmissing : (final (Graph.computeRoutingTable LegioCrypto.Sample.crypto host
      (run [linked, .neighbor, announced]))).graph.mRoutingTable.findNextHop 3 = none := by
    decide +kernel
  generalize run [linked, .neighbor, announced] = n at *
  have hrooted := reachable_rooted host hreachable
  obtain ⟨n', _, _, hrun, _⟩ :=
    computeRoutingTable_spec LegioCrypto.Sample.crypto host hrooted.linked hrooted.root
  refine ⟨hreachable, n', hrun, ?_⟩
  intro hcomplete
  have hfirst : Edge n.graph 1 2 := by
    rw [Edge, hone]
    decide
  have hsecond : Edge n.graph 2 3 := by
    rw [Edge, htwo]
    decide
  have hreach := (Relation.TransGen.single hfirst).tail hsecond
  obtain ⟨hop, hhop⟩ := (hcomplete 3 (by decide)).mpr hreach
  rw [hrun, final_ok, hhop] at hmissing
  cases hmissing

/-- Before the State of node 2 arrives, the only reachable vertex is a neighbour. -/
theorem direct_neighbor_complete : ∃ n', Graph.computeRoutingTable LegioCrypto.Sample.crypto host
      (run [linked, .neighbor]) = .ok () n' ∧
    Complete (run [linked, .neighbor]).graph 1 n'.graph.mRoutingTable := by
  have hreachable := reachable_run [linked, .neighbor]
  have hid : (run [linked, .neighbor]).id LegioCrypto.Sample.crypto = 1 := by decide +kernel
  have hone : (run [linked, .neighbor]).graph.edgesOf 1 = {2} := by decide +kernel
  have htwo : (run [linked, .neighbor]).graph.edgesOf 2 = ∅ := by decide +kernel
  generalize run [linked, .neighbor] = n at *
  obtain ⟨n', hrun, _, _, hiff⟩ := computeRoutingTable_complete_iff host hreachable
  rw [hid] at hiff
  refine ⟨n', hrun, hiff.mpr ?_⟩
  intro v _ hreach
  have hv : v = 2 := by
    induction hreach with
    | single h => exact Finset.mem_singleton.mp (hone ▸ h)
    | @tail b c _ h ih =>
      by_cases hb : b = 1
      · exact Finset.mem_singleton.mp (hone ▸ hb ▸ h)
      · have hempty : c ∈ (∅ : Finset (Fin 4)) := htwo ▸ ih hb ▸ h
        exact absurd hempty (Finset.notMem_empty c)
  rw [hone, hv]
  exact Finset.mem_singleton_self 2

end Sample

end RoutingTableCompleteness

namespace RoutingTableSoundness

open LegioMessage LegioCrypto LegioNode Containers
open ChannelTopology (Walk Distance distance_one)
open RoutingTableSearch (Direct Discovered computeRoutingTable_discovers direct_of_discovered)
open ExceptionStates (final)
open RoutingTableCompleteness (Edge reachable_rooted)

variable {Id Pair Ecdh Chan : Type} [LinearOrder Id]

structure Sound (g : LegioNode.Graph Id Ecdh) (localId : Id) (heap : Ptr → Vertice Id)
    (v h : Id) : Prop where
  remote : v ≠ localId
  adjacent : Edge g localId h
  shortest : ∃ p k, g.mVertices.lookup v = some p ∧ (heap p).distance = ((k + 1 : ℕ) : Int) ∧
    Distance (Edge g) (k + 1) localId v ∧ Walk (Edge g) k h v

theorem sound_of_direct {g : LegioNode.Graph Id Ecdh} {localId : Id} (hg : g.Linked) {l : Ptr}
    (hl : g.mVertices.lookup localId = some l) {s : Search Id}
    (hd : Discovered g.heap (fun p => ∃ id, g.mVertices.lookup id = some p) l s)
    {table : RoutingTable Id} (htable : Direct g localId table) {v h : Id}
    (hentry : table.findNextHop v = some h) : Sound g localId s.heap v h := by
  obtain ⟨rfl, hremote, hmem⟩ := (htable v h).mp hentry
  refine ⟨hremote, hmem, ?_⟩
  obtain ⟨l', p, hl', hp⟩ := mem_edgesOf.mp hmem
  obtain rfl : l = l' := Option.some.inj (hl.symm.trans hl')
  have hv := hg.edge hl hp
  have hne : p ≠ l := by
    rintro rfl
    exact hremote (hg.pointer_unique hv hl)
  exact ⟨p, 0, hv, (hd.target p ⟨hne, h, hp⟩).2, distance_one hremote.symm hmem, .nil h⟩

/-- Over any stored graph, and however the queue breaks ties, the routing table is computed,
and each of its entries is sound. -/
theorem computeRoutingTable_sound (K : CryptoPP Id Pair Ecdh) (H : Host Id)
    {n : Node Id Pair Ecdh Chan} (hg : n.graph.Linked) (hl : n.id K ∈ n.graph.mVertices) :
    ∃ n', Graph.computeRoutingTable K H n = .ok () n' ∧
      n'.routing.mTable = some n'.graph.mRoutingTable ∧
      n'.graph.edgesOf = n.graph.edgesOf ∧
      ∀ v h, n'.graph.mRoutingTable.findNextHop v = some h →
        Sound n.graph (n.id K) n'.graph.heap v h := by
  obtain ⟨l, hp⟩ := mem_iff_lookup.mp hl
  obtain ⟨s, hrun, hd⟩ := computeRoutingTable_discovers K H hg hp
  refine ⟨_, hrun, rfl, funext (edgesOf_congr rfl hd.content), ?_⟩
  intro v h hentry
  exact sound_of_direct hg hp hd (direct_of_discovered H hg hp hd) hentry

-- The state of the sample run, in which node 2 has announced an edge back to node 1.
namespace Sample
open LegioNode.Sample RoutingTableCompleteness.Sample

theorem computeRoutingTable_sound_sample :
    (final (Graph.computeRoutingTable LegioCrypto.Sample.crypto host
      (run [linked, .neighbor, announced]))).graph.mRoutingTable.findNextHop 2 = some 2 ∧
    ∃ n', Graph.computeRoutingTable LegioCrypto.Sample.crypto host
        (run [linked, .neighbor, announced]) = .ok () n' ∧
      n'.routing.mTable = some n'.graph.mRoutingTable ∧
      n'.graph.edgesOf = (run [linked, .neighbor, announced]).graph.edgesOf ∧
      ∀ v h, n'.graph.mRoutingTable.findNextHop v = some h →
        Sound (run [linked, .neighbor, announced]).graph
          ((run [linked, .neighbor, announced]).id LegioCrypto.Sample.crypto)
          n'.graph.heap v h :=
  ⟨by decide +kernel,
    computeRoutingTable_sound LegioCrypto.Sample.crypto host
      (reachable_rooted host (reachable_run [linked, .neighbor, announced])).linked
      (reachable_rooted host (reachable_run [linked, .neighbor, announced])).root⟩

end Sample

end RoutingTableSoundness
