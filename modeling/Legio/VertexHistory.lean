import Legio.GraphInvariants
import Legio.GraphRuns
import Legio.RoutingTableCompleteness

set_option linter.style.header false

/-! Where the vertices of the store come from. No operation takes a vertex out again, so a
vertex is explained by the history of a run and not by the edges that are left. -/
namespace VertexHistory

open LegioBinary LegioCrypto LegioMessage LegioNode Containers
open ExceptionStates LinkStateStore GraphUpdates GraphRuns GraphInvariants

variable {Id Pair Ecdh Chan : Type} [LinearOrder Id] [DecidableEq Chan]

/-- What a run has told a graph: who announced a State that was not turned away, and who was
named as a neighbour, by such a State or by Routing. A State counts also where its insertion
throws, be it before the State is stored or after. -/
structure Told (Id : Type) where
  announced : Finset Id
  named : Finset Id

/-- A State that `updateVertice` does not turn away. -/
def News (g : LegioNode.Graph Id Ecdh) (s : State Id) : Prop :=
  ∀ current ∈ g.stateOf s.id, 0 < compareSequence s.sequence current.sequence

instance (g : LegioNode.Graph Id Ecdh) (s : State Id) : Decidable (News g s) :=
  inferInstanceAs (Decidable (∀ current ∈ g.stateOf s.id, _))

section Runs
variable (K : CryptoPP Id Pair Ecdh) (H : Host Id)

def tell (n : Node Id Pair Ecdh Chan) (t : Told Id) : GraphEvent Id Chan → Told Id
  | .environment routing _ _ _ => { t with named := t.named ∪ routing.neighbors }
  | .state message _ =>
    match State.fromMessage K message with
    | .error _ => t
    | .ok s =>
      if News n.graph s then ⟨insert s.id t.announced, t.named ∪ s.neighbors⟩ else t
  | .neighbor => t

/-- The states of a node along any run of its graph, with what the run has told it. -/
inductive History : Node Id Pair Ecdh Chan → Told Id → Prop where
  | construct {n₀ n} (mEcdh : Ecdh) : Graph.construct K H mEcdh n₀ = .ok () n →
      History n ⟨∅, n₀.routing.neighbors⟩
  | event {n t} (ev : GraphEvent Id Chan) : History n t →
      History (final (ev.handle K H n)) (tell K n t ev)

end Runs

/-- A State that the run accounts for. -/
def Storable (localId : Id) (t : Told Id) (s : State Id) : Prop :=
  (s.id = localId ∨ s.id ∈ t.announced) ∧ s.neighbors ⊆ t.named

structure Explained (K : CryptoPP Id Pair Ecdh) (localId : Id) (t : Told Id)
    (n : Node Id Pair Ecdh Chan) : Prop where
  name : n.id K = localId
  rooted : Rooted K n
  routed : n.routing.neighbors ⊆ t.named
  states : ∀ id s, n.graph.stateOf id = some s → s.id = id ∧ Storable localId t s
  vertices : ∀ id ∈ (view n.graph).vertices,
    id = localId ∨ (n.graph.stateOf id).isSome ∨ id ∈ t.named

variable {K : CryptoPP Id Pair Ecdh} {H : Host Id} {localId : Id} {t : Told Id}
  {n n' : Node Id Pair Ecdh Chan}

omit [DecidableEq Chan] in
theorem explained_mono (h : Explained K localId t n) {t' : Told Id}
    (hannounced : t.announced ⊆ t'.announced) (hnamed : t.named ⊆ t'.named) :
    Explained K localId t' n where
  name := h.name
  rooted := h.rooted
  routed := h.routed.trans hnamed
  states id s hs := by
    obtain ⟨hid, hwho, hneighbors⟩ := h.states id s hs
    exact ⟨hid, hwho.imp_right fun hmem => hannounced hmem, hneighbors.trans hnamed⟩
  vertices id hid := (h.vertices id hid).imp_right (Or.imp_right fun hmem => hnamed hmem)

omit [DecidableEq Chan] in
theorem explained_congr (h : Explained K localId t n) (hrooted : Rooted K n')
    (hid : n'.id K = n.id K) (hrouted : n'.routing.neighbors ⊆ t.named)
    (hview : view n'.graph = view n.graph) : Explained K localId t n' where
  name := hid.trans h.name
  rooted := hrooted
  routed := hrouted
  states := by
    rw [← view_states, hview]
    exact h.states
  vertices := by
    rw [← view_states, hview]
    exact h.vertices

omit [DecidableEq Chan] in
theorem explained_put (h : Explained K localId t n) {s : State Id} (hs : Storable localId t s)
    (hc : StoreChange K n n' ((view n.graph).put s)) : Explained K localId t n' where
  name := (id_congr hc.kept).trans h.name
  rooted := hc.rooted
  routed := by
    rw [neighbors_congr hc.kept]
    exact h.routed
  states id s' hs' := by
    rw [← view_states, hc.view_eq, put_states] at hs'
    rcases stored_of_update hs' with hold | ⟨rfl, rfl⟩
    · exact h.states id s' hold
    · exact ⟨rfl, hs⟩
  vertices id hid := by
    rw [← view_states, hc.view_eq, put_states]
    rw [hc.view_eq] at hid
    by_cases heq : id = s.id
    · rw [heq, Function.update_self]
      exact Or.inr (Or.inl rfl)
    · rw [Function.update_of_ne heq]
      exact h.vertices id (Finset.mem_of_mem_insert_of_ne hid heq)

omit [DecidableEq Chan] in
theorem explained_updateEdges (h : Explained K localId t n) (id : Id) {neighbors : Finset Id}
    (hs : Sourced n neighbors) :
    Explained K localId t (final (Graph.updateEdges K H id neighbors n)) := by
  have hnamed : neighbors ⊆ t.named := by
    rcases hs with rfl | ⟨id', s, hs, rfl⟩
    · exact h.routed
    · exact (h.states id' s hs).2.2
  by_cases hid : id ∈ n.graph.mVertices
  · obtain ⟨n', hrun, hc⟩ := updateEdges_spec H h.rooted hid neighbors
    rw [hrun, final_ok]
    refine ⟨(id_congr hc.kept).trans h.name, hc.rooted, ?_, ?_, ?_⟩
    · rw [neighbors_congr hc.kept]
      exact h.routed
    · rw [← view_states, hc.view_eq, connect_states]
      exact h.states
    · intro id' hid'
      rw [← view_states, hc.view_eq, connect_states]
      rw [hc.view_eq] at hid'
      rcases Finset.mem_union.mp hid' with hold | hnew
      · exact h.vertices id' hold
      · exact Or.inr (Or.inr (hnamed hnew))
  · rw [updateEdges_unknown H hid]
    exact h

theorem explained_endures : Endures K H
    (Explained K localId t : Node Id Pair Ecdh Chan → Prop) (Storable localId t)
    (fun _ => True) where
  own _ hn := ⟨Or.inl hn.name, hn.routed⟩
  signed _ _ _ _ := trivial
  edges _ id _ hn hs := explained_updateEdges hn id hs
  counted _ hn := explained_congr hn (rooted_congr hn.rooted rfl rfl rfl fun _ => rfl) rfl
    hn.routed rfl
  announced _ _ _ hn _ := explained_congr hn (rooted_congr hn.rooted rfl rfl rfl fun _ => rfl) rfl
    hn.routed rfl
  stored _ _ _ hn hs hp := explained_put hn hs (storeState_spec hn.rooted hp).1
  entered _ _ hn hs hp :=
    explained_put hn hs (storeNew_spec hn.rooted.linked (Or.inr hn.rooted.root) hp).1

theorem construct_explained {n₀ : Node Id Pair Ecdh Chan} {mEcdh : Ecdh}
    (hrun : Graph.construct K H mEcdh n₀ = .ok () n) :
    Explained K (n₀.id K) ⟨∅, n₀.routing.neighbors⟩ n := by
  have hput := (storeNew_spec (K := K)
    (n := { n₀ with graph := emptyGraph (n₀.id K) mEcdh })
    (s := ⟨n₀.id K, 0 - 1, K.ecdhPublicKey mEcdh, ∅⟩) (linked_emptyGraph _ _) (Or.inl rfl) rfl).1
  have hempty : Explained K (n₀.id K) ⟨∅, n₀.routing.neighbors⟩
      (final (Graph.construct K H mEcdh n₀)) := by
    refine construct_endures explained_endures ⟨rfl, hput.rooted, Finset.Subset.refl _, ?_, ?_⟩
    · intro id s hs
      have hstates := congrFun (congrArg View.states hput.view_eq) id
      rcases stored_of_update (hstates.symm.trans hs) with hold | ⟨rfl, rfl⟩
      · cases hold
      · exact ⟨rfl, Or.inl rfl, Finset.empty_subset _⟩
    · intro id hid
      have hvertices := congrArg View.vertices hput.view_eq
      rcases Finset.mem_insert.mp (hvertices.subset hid) with rfl | hold
      · exact Or.inl rfl
      · exact absurd hold (Finset.notMem_empty id)
  rw [hrun] at hempty
  exact hempty

/-- A State that is no news changes nothing at all. -/
theorem insert_old {s : State Id} (h : ¬ News n.graph s) :
    Graph.insert K H s n = .ok false n := by
  rw [News] at h
  push Not at h
  obtain ⟨current, hcurrent, hstale⟩ := h
  obtain ⟨depth, hdepth⟩ := H.stack_succ
  rw [Graph.insert, hdepth]
  exact updateVertice_stale H hcurrent hstale depth

omit [DecidableEq Chan] in
theorem explained_environment (h : Explained K localId t n) (routing : Routing Id Chan)
    (wire : Wire Chan) (signaling userTransport : Transport Id) :
    Explained K localId { t with named := t.named ∪ routing.neighbors }
      { n with routing, wire, signaling, userTransport } :=
  explained_congr (explained_mono h (Finset.Subset.refl _) Finset.subset_union_left)
    (rooted_congr h.rooted rfl rfl rfl fun _ => rfl) rfl Finset.subset_union_right rfl

theorem explained_state (h : Explained K localId t n) (message : Message Id)
    (channel : Option Chan) :
    Explained K localId (tell K n t (.state message channel))
      (final (Graph.notifyState K H message channel n)) := by
  rw [tell, Graph.notifyState]
  cases State.fromMessage K message with
  | error e => exact h
  | ok s =>
    dsimp only
    have hforward : ∀ (t : Told Id) (accepted : Bool), Keeps (Explained K localId t)
        (if accepted then modify fun n => { n with
          wire := n.routing.broadcast K H.byteOrder n.wire message channel }
        else pure () : NodeM Id Pair Ecdh Chan Unit) := by
      intro t accepted n hn
      cases accepted with
      | true =>
        exact explained_congr hn (rooted_congr hn.rooted rfl rfl rfl fun _ => rfl) rfl
          hn.routed rfl
      | false => exact hn
    split_ifs with hnews
    · have hstorable : Storable localId ⟨insert s.id t.announced, t.named ∪ s.neighbors⟩ s :=
        ⟨Or.inr (Finset.mem_insert_self _ _), Finset.subset_union_right⟩
      exact keeps_bind (endures_insert explained_endures hstorable) (hforward _) n
        (explained_mono h (Finset.subset_insert _ _) Finset.subset_union_left)
    · rw [bind_ok (insert_old hnews)]
      exact hforward t false n h

theorem explained_event (h : Explained K localId t n) (ev : GraphEvent Id Chan) :
    Explained K localId (tell K n t ev) (final (ev.handle K H n)) := by
  cases ev with
  | environment routing wire signaling userTransport =>
    exact explained_environment h routing wire signaling userTransport
  | state message channel => exact explained_state h message channel
  | neighbor => exact endures_notifyNeighbor explained_endures n h

theorem history_explained (h : History K H n t) : Explained K (n.id K) t n := by
  suffices hlocal : ∃ localId, Explained K localId t n by
    obtain ⟨localId, hlocal⟩ := hlocal
    rw [hlocal.name]
    exact hlocal
  induction h with
  | construct mEcdh hrun => exact ⟨_, construct_explained hrun⟩
  | event ev _ ih =>
    obtain ⟨localId, ih⟩ := ih
    exact ⟨localId, explained_event ih ev⟩

theorem endures_true : Endures K H (fun _ : Node Id Pair Ecdh Chan => True) (fun _ => True)
    (fun _ => True) := by
  constructor <;> intros <;> trivial

theorem placed_notifyState (message : Message Id) (channel : Option Chan) :
    Placed n (final (Graph.notifyState K H message channel n)) := by
  rw [Graph.notifyState]
  cases State.fromMessage K message with
  | error e => exact fun _ _ hp => hp
  | ok s =>
    have hinsert := (endures_updateVertice (K := K) (H := H) endures_true H.stack s trivial n n
      ⟨trivial, fun _ _ hp => hp⟩).2
    refine final_bind hinsert fun accepted => ?_
    cases accepted with
    | true => exact keeps_modify fun _ hn => hn
    | false => exact keeps_pure _

theorem placed_notifyNeighbor : Placed n (final (Graph.notifyNeighbor K H n)) := by
  rw [Graph.notifyNeighbor, get_bind_run]
  have hedges := placed_updateEdges (K := K) H (n.id K) n.routing.neighbors n
    (fun (_ : Id) (_ : Ptr) hp => hp)
  refine final_bind hedges fun changed n' hn' => ?_
  cases changed with
  | false => exact hn'
  | true =>
    exact (endures_broadcastStateWith (K := K) (H := H) endures_true
      (fun s hs => endures_updateVertice endures_true H.stack s hs n) n' ⟨trivial, hn'⟩).2

theorem placed_event (ev : GraphEvent Id Chan) : Placed n (final (ev.handle K H n)) := by
  cases ev with
  | environment _ _ _ _ => exact fun _ _ hp => hp
  | state message channel => exact placed_notifyState message channel
  | neighbor => exact placed_notifyNeighbor

omit [DecidableEq Chan] in
theorem count_eq (g : LegioNode.Graph Id Ecdh) : g.count = (view g).vertices.card := by
  simp [Graph.count, view, keySet, AList.keys, List.keys]

omit [DecidableEq Chan] in
theorem explained_count (h : Explained K localId t n) :
    n.graph.count ≤ (insert localId (t.announced ∪ t.named)).card := by
  rw [count_eq]
  refine Finset.card_le_card fun id hid => ?_
  rw [Finset.mem_insert, Finset.mem_union]
  rcases h.vertices id hid with hlocal | hstate | hnamed
  · exact Or.inl hlocal
  · obtain ⟨s, hs⟩ := Option.isSome_iff_exists.mp hstate
    obtain ⟨rfl, hwho, _⟩ := h.states id s hs
    exact hwho.imp_right Or.inl
  · exact Or.inr (Or.inr hnamed)

/-- In every state of every run a vertex has a State or was named at some time, and no event
takes a vertex away. -/
theorem vertices_explained (h : History K H n t) :
    (∀ id ∈ n.graph.mVertices, id ≠ n.id K →
      (n.graph.stateOf id).isSome ∨ id ∈ t.named) ∧
    n.graph.count ≤ (insert (n.id K) (t.announced ∪ t.named)).card ∧
    ∀ (ev : GraphEvent Id Chan) (id : Id), id ∈ n.graph.mVertices →
      id ∈ (final (ev.handle K H n)).graph.mVertices := by
  have hn := history_explained h
  refine ⟨fun id hid hne => ?_, explained_count hn, fun ev id hid => ?_⟩
  · exact (hn.vertices id hid).resolve_left hne
  · obtain ⟨p, hp⟩ := mem_iff_lookup.mp hid
    exact mem_iff_lookup.mpr ⟨p, placed_event ev id p hp⟩

/-- What the edges alone would explain. -/
def NoOrphans (K : CryptoPP Id Pair Ecdh) (n : Node Id Pair Ecdh Chan) : Prop :=
  ∀ id ∈ n.graph.mVertices, id ≠ n.id K →
    (n.graph.stateOf id).isSome ∨ ∃ x ∈ n.graph.mVertices, id ∈ n.graph.edgesOf x

-- Node 2 names 3 in one State and nobody in the next.
namespace Sample
open LegioNode.Sample
open RoutingTableCompleteness.Sample (stateMessage run)

def named : GraphEvent (Fin 4) ℕ :=
  .state (stateMessage ⟨2, 5, LegioCrypto.Sample.crypto.ecdhPublicKey 2, {3}⟩) (some 0)

def dropped : GraphEvent (Fin 4) ℕ :=
  .state (stateMessage ⟨2, 6, LegioCrypto.Sample.crypto.ecdhPublicKey 2, ∅⟩) (some 0)

theorem history_run (events : List (GraphEvent (Fin 4) ℕ)) :
    ∃ t, History LegioCrypto.Sample.crypto host (run events) t := by
  induction events using List.reverseRecOn with
  | nil =>
    obtain ⟨n', hrun, _⟩ := construct_step host LegioCrypto.Sample.ecdsaLaws
      LegioCrypto.Sample.ecdhLaws (node 1) (by unfold Bounded; decide) 1
    have hfinal : run [] = n' := congrArg final hrun
    rw [hfinal]
    exact ⟨_, .construct 1 hrun⟩
  | append_singleton events ev ih =>
    obtain ⟨t, ih⟩ := ih
    rw [run, List.foldl_append]
    exact ⟨_, .event ev ih⟩

theorem dropped_left :
    (run [named, dropped]).id LegioCrypto.Sample.crypto = 1 ∧
    (3 : Fin 4) ∈ (run [named, dropped]).graph.mVertices ∧
    (run [named, dropped]).graph.stateOf 3 = none ∧
    ∀ x : Fin 4, 3 ∉ (run [named, dropped]).graph.edgesOf x :=
  ⟨by decide +kernel, by decide +kernel, by decide +kernel, by decide +kernel⟩

/-- Vertex 3 has no State and no edge leads to it. -/
theorem orphan_left : ¬ ∀ (n : Node (Fin 4) (Fin 4) (Fin 4) ℕ) (t : Told (Fin 4)),
    History LegioCrypto.Sample.crypto host n t → NoOrphans LegioCrypto.Sample.crypto n := by
  intro hall
  obtain ⟨t, hhistory⟩ := history_run [named, dropped]
  obtain ⟨hid, hmem, hstate, hedges⟩ := dropped_left
  have horphans := hall _ t hhistory
  generalize run [named, dropped] = n at *
  rcases horphans 3 hmem (by rw [hid]; decide) with hsome | ⟨x, _, hedge⟩
  · rw [hstate] at hsome
    cases hsome
  · exact hedges x hedge

/-- The vertex is there because 3 was named. -/
theorem orphan_explained : ∃ (n : Node (Fin 4) (Fin 4) (Fin 4) ℕ) (t : Told (Fin 4)),
    History LegioCrypto.Sample.crypto host n t ∧ n.graph.stateOf 3 = none ∧ 3 ∈ t.named := by
  obtain ⟨t, hhistory⟩ := history_run [named, dropped]
  obtain ⟨hid, hmem, hstate, _⟩ := dropped_left
  refine ⟨_, t, hhistory, hstate, ?_⟩
  generalize run [named, dropped] = n at *
  rcases (vertices_explained hhistory).1 3 hmem (by rw [hid]; decide) with hsome | hnamed
  · rw [hstate] at hsome
    cases hsome
  · exact hnamed

end Sample

end VertexHistory
