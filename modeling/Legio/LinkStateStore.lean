import Legio.ExceptionStates
import Legio.RoutingTableSearch

set_option linter.style.header false

/-! The vertex store seen from outside: which vertices are known, what State each has and
where its edges go. Every operation of the pointer structure is one of three changes of
this view. -/
namespace LinkStateStore

open LegioBinary LegioCrypto LegioMessage LegioNode Containers RoutingTableSearch
open ExceptionStates

variable {Id Pair Ecdh Chan : Type}

@[ext] structure View (Id : Type) where
  vertices : Finset Id
  states : Id → Option (State Id)
  edges : Id → Finset Id

section Abstract
variable [DecidableEq Id]

def View.put (v : View Id) (s : State Id) : View Id :=
  { v with
    vertices := insert s.id v.vertices
    states := Function.update v.states s.id (some s) }

def View.connect (v : View Id) (id : Id) (neighbors : Finset Id) : View Id :=
  { v with
    vertices := v.vertices ∪ neighbors
    edges := Function.update v.edges id neighbors }

/-- A State takes effect: it is stored and the edges follow it. -/
def View.accept (v : View Id) (s : State Id) : View Id := (v.put s).connect s.id s.neighbors

@[simp] theorem put_states (v : View Id) (s : State Id) :
    (v.put s).states = Function.update v.states s.id (some s) := rfl

@[simp] theorem put_edges (v : View Id) (s : State Id) : (v.put s).edges = v.edges := rfl

@[simp] theorem connect_states (v : View Id) (id : Id) (neighbors : Finset Id) :
    (v.connect id neighbors).states = v.states := rfl

@[simp] theorem connect_edges (v : View Id) (id : Id) (neighbors : Finset Id) :
    (v.connect id neighbors).edges = Function.update v.edges id neighbors := rfl

@[simp] theorem accept_states (v : View Id) (s : State Id) :
    (v.accept s).states = Function.update v.states s.id (some s) := rfl

@[simp] theorem accept_edges (v : View Id) (s : State Id) :
    (v.accept s).edges = Function.update v.edges s.id s.neighbors := rfl

theorem stored_of_update {states : Id → Option (State Id)} {s t : State Id} {id : Id}
    (h : Function.update states s.id (some s) id = some t) :
    states id = some t ∨ id = s.id ∧ t = s := by
  by_cases hid : id = s.id
  · rw [hid, Function.update_self, Option.some.injEq] at h
    exact Or.inr ⟨hid, h.symm⟩
  · rw [Function.update_of_ne hid] at h
    exact Or.inl h

/-- States of different vertices take effect independently. -/
theorem put_accept_comm (v : View Id) {s t : State Id} (h : s.id ≠ t.id) :
    ((v.put s).accept t).connect s.id s.neighbors = (v.accept t).accept s := by
  ext x
  · simp only [View.accept, View.put, View.connect, Finset.mem_union, Finset.mem_insert]
    tauto
  · simp only [View.accept, View.put, View.connect]
    rw [Function.update_comm h]
  · rfl

theorem put_accept_same (v : View Id) {s t : State Id} (h : s.id = t.id) :
    ((v.put s).accept t).connect t.id t.neighbors = v.accept t := by
  ext x
  · simp only [View.accept, View.put, View.connect, Finset.mem_union, Finset.mem_insert, h]
    tauto
  · simp only [View.accept, View.put, View.connect, h, Function.update_idem]
  · simp only [View.accept, View.put, View.connect, Function.update_idem]

theorem connect_accept (v : View Id) (s : State Id) :
    (v.connect s.id s.neighbors).accept s = v.accept s := by
  ext x
  · simp only [View.accept, View.put, View.connect, Finset.mem_union, Finset.mem_insert]
    tauto
  · rfl
  · simp only [View.accept, View.put, View.connect, Function.update_idem]

end Abstract

section Store
variable [DecidableEq Id]

def view (g : LegioNode.Graph Id Ecdh) : View Id := ⟨keySet g.mVertices, g.stateOf, g.edgesOf⟩

@[simp] theorem view_states (g : LegioNode.Graph Id Ecdh) : (view g).states = g.stateOf := rfl

@[simp] theorem view_edges (g : LegioNode.Graph Id Ecdh) : (view g).edges = g.edgesOf := rfl

theorem view_congr {g g' : LegioNode.Graph Id Ecdh} (hv : g'.mVertices = g.mVertices)
    (hh : ∀ p, (g'.heap p).content = (g.heap p).content) : view g' = view g := by
  ext x
  · simp [view, hv]
  · simp [stateOf_congr hv hh]
  · simp [edgesOf_congr hv hh]

theorem stateOf_of_lookup {g : LegioNode.Graph Id Ecdh} {id : Id} {p : Ptr}
    (hp : g.mVertices.lookup id = some p) : g.stateOf id = (g.heap p).state := by
  simp [Graph.stateOf, Graph.findVertice, hp]

theorem edgesOf_of_lookup {g : LegioNode.Graph Id Ecdh} {id : Id} {p : Ptr}
    (hp : g.mVertices.lookup id = some p) : g.edgesOf id = keySet (g.heap p).edges := by
  simp [Graph.edgesOf, Graph.findVertice, hp]

theorem stateOf_of_notMem {g : LegioNode.Graph Id Ecdh} {id : Id}
    (hp : g.mVertices.lookup id = none) : g.stateOf id = none := by
  simp [Graph.stateOf, Graph.findVertice, hp]

theorem edgesOf_of_notMem {g : LegioNode.Graph Id Ecdh} {id : Id}
    (hp : g.mVertices.lookup id = none) : g.edgesOf id = ∅ := by
  simp [Graph.edgesOf, Graph.findVertice, hp]

theorem edgesOf_subset {g : LegioNode.Graph Id Ecdh} (hg : g.Linked) (id : Id) :
    g.edgesOf id ⊆ keySet g.mVertices := by
  intro t ht
  obtain ⟨p, q, hp, hq⟩ := mem_edgesOf.mp ht
  exact mem_iff_lookup.mpr ⟨q, hg.edge hp hq⟩

theorem read_modifyVertice {g : LegioNode.Graph Id Ecdh} (hg : g.Linked) {id : Id} {p : Ptr}
    (hp : g.mVertices.lookup id = some p) (f : Vertice Id → Vertice Id) (x : Id) :
    (g.modifyVertice p f).stateOf x =
      (if x = id then (f (g.heap p)).state else g.stateOf x) ∧
    (g.modifyVertice p f).edgesOf x =
      (if x = id then keySet (f (g.heap p)).edges else g.edgesOf x) := by
  by_cases hx : x = id
  · subst hx
    have hp' : (g.modifyVertice p f).mVertices.lookup x = some p := hp
    rw [stateOf_of_lookup hp', edgesOf_of_lookup hp', if_pos rfl, if_pos rfl]
    simp [Graph.modifyVertice]
  · rw [if_neg hx, if_neg hx]
    cases hq : g.mVertices.lookup x with
    | none =>
      have hq' : (g.modifyVertice p f).mVertices.lookup x = none := hq
      rw [stateOf_of_notMem hq', stateOf_of_notMem hq, edgesOf_of_notMem hq',
        edgesOf_of_notMem hq]
      exact ⟨rfl, rfl⟩
    | some q =>
      have hne : q ≠ p := fun h => hx (hg.pointer_unique hq (h ▸ hp))
      have hq' : (g.modifyVertice p f).mVertices.lookup x = some q := hq
      rw [stateOf_of_lookup hq', stateOf_of_lookup hq, edgesOf_of_lookup hq',
        edgesOf_of_lookup hq]
      simp [Graph.modifyVertice, hne]

theorem linked_modifyVertice {g : LegioNode.Graph Id Ecdh} (hg : g.Linked) {id : Id} {p : Ptr}
    (hp : g.mVertices.lookup id = some p) {f : Vertice Id → Vertice Id}
    (hname : (f (g.heap p)).mIdentifier = id)
    (hedges : ∀ {t q}, (f (g.heap p)).edges.lookup t = some q →
      g.mVertices.lookup t = some q) : (g.modifyVertice p f).Linked where
  fresh hq := hg.fresh hq
  named {x q} hq := by
    by_cases h : q = p
    · subst h
      rw [hg.pointer_unique hq hp]
      simpa [Graph.modifyVertice] using hname
    · simpa [Graph.modifyVertice, h] using hg.named hq
  edge {x q t r} hq hr := by
    by_cases h : q = p
    · subst h
      rw [Graph.modifyVertice] at hr
      simp only [Function.update_self] at hr
      exact hedges hr
    · refine hg.edge hq ?_
      simpa [Graph.modifyVertice, h] using hr

theorem storeVertice_spec {g : LegioNode.Graph Id Ecdh} (hg : g.Linked) {v : Vertice Id}
    (hnew : g.mVertices.lookup v.mIdentifier = none) (hedges : v.edges = ∅) :
    (g.storeVertice v).Linked ∧
      (g.storeVertice v).mVertices.lookup v.mIdentifier = some g.allocated ∧
      view (g.storeVertice v) =
        { view g with
          vertices := insert v.mIdentifier (view g).vertices
          states := Function.update (view g).states v.mIdentifier v.state } := by
  have hnot : v.mIdentifier ∉ g.mVertices := by
    rw [mem_iff_lookup]
    rintro ⟨p, hp⟩
    rw [hnew] at hp
    cases hp
  have hself : (g.storeVertice v).mVertices.lookup v.mIdentifier = some g.allocated :=
    lookup_emplace_of_notMem _ hnot
  have hother : ∀ x, x ≠ v.mIdentifier →
      (g.storeVertice v).mVertices.lookup x = g.mVertices.lookup x :=
    fun x hx => lookup_emplace_ne _ _ hx
  have hheap : ∀ {x p}, g.mVertices.lookup x = some p →
      (g.storeVertice v).heap p = g.heap p := by
    intro x p hp
    simp [Graph.storeVertice, (hg.fresh hp).ne]
  have hheap' : (g.storeVertice v).heap g.allocated = v := by simp [Graph.storeVertice]
  refine ⟨⟨?_, ?_, ?_⟩, hself, ?_⟩
  · intro x p hp
    change p < g.allocated + 1
    by_cases hx : x = v.mIdentifier
    · rw [hx, hself] at hp
      cases hp
      exact Nat.lt_succ_self _
    · rw [hother x hx] at hp
      exact Nat.lt_succ_of_lt (hg.fresh hp)
  · intro x p hp
    by_cases hx : x = v.mIdentifier
    · rw [hx, hself] at hp
      cases hp
      rw [hheap', hx]
    · rw [hother x hx] at hp
      rw [hheap hp]
      exact hg.named hp
  · intro x p t q hp hq
    by_cases hx : x = v.mIdentifier
    · rw [hx, hself] at hp
      cases hp
      rw [hheap', hedges] at hq
      simp at hq
    · rw [hother x hx] at hp
      rw [hheap hp] at hq
      exact lookup_emplace_of_lookup (hg.edge hp hq)
  · ext x
    · simp [view, Graph.storeVertice]
    · simp only [view_states]
      by_cases hx : x = v.mIdentifier
      · rw [hx, stateOf_of_lookup hself, hheap', Function.update_self]
      · rw [Function.update_of_ne hx]
        cases hp : g.mVertices.lookup x with
        | none => rw [stateOf_of_notMem hp, stateOf_of_notMem ((hother x hx).trans hp)]
        | some p =>
          rw [stateOf_of_lookup hp, stateOf_of_lookup ((hother x hx).trans hp), hheap hp]
    · simp only [view_edges]
      by_cases hx : x = v.mIdentifier
      · rw [hx, edgesOf_of_lookup hself, hheap', hedges, edgesOf_of_notMem hnew]
        simp
      · cases hp : g.mVertices.lookup x with
        | none => rw [edgesOf_of_notMem hp, edgesOf_of_notMem ((hother x hx).trans hp)]
        | some p =>
          rw [edgesOf_of_lookup hp, edgesOf_of_lookup ((hother x hx).trans hp), hheap hp]

theorem unlink_spec {g : LegioNode.Graph Id Ecdh} (hg : g.Linked) {id : Id} {p : Ptr}
    (hp : g.mVertices.lookup id = some p) (t : Id) :
    (g.unlink p t).Linked ∧
      view (g.unlink p t) = { view g with
        edges := Function.update (view g).edges id ((g.edgesOf id).erase t) } := by
  constructor
  · exact linked_modifyVertice hg hp (hg.named hp)
      fun hq => hg.edge hp (lookup_erase_some.mp hq).2
  · ext x
    · rfl
    · simp only [view_states]
      rw [Graph.unlink, (read_modifyVertice hg hp _ x).1]
      split_ifs with hx
      · rw [hx, stateOf_of_lookup hp]
      · rfl
    · simp only [view_edges]
      rw [Graph.unlink, (read_modifyVertice hg hp _ x).2, Function.update_apply]
      split_ifs with hx
      · rw [keySet_erase, edgesOf_of_lookup hp]
      · rfl

theorem linkStored_spec {g : LegioNode.Graph Id Ecdh} (hg : g.Linked) {id : Id} {p : Ptr}
    (hp : g.mVertices.lookup id = some p) {t : Id} {q : Ptr}
    (hq : g.mVertices.lookup t = some q) :
    let g' := g.modifyVertice p fun v => { v with edges := emplace t q v.edges }
    g'.Linked ∧ view g' = { view g with
      edges := Function.update (view g).edges id (insert t (g.edgesOf id)) } := by
  constructor
  · apply linked_modifyVertice hg hp (hg.named hp)
    intro t' q' hq'
    rw [lookup_emplace] at hq'
    split_ifs at hq' with h
    · cases hq'
      rw [h.1, hq]
    · exact hg.edge hp hq'
  · ext x
    · rfl
    · simp only [view_states]
      rw [(read_modifyVertice hg hp _ x).1]
      split_ifs with hx
      · rw [hx, stateOf_of_lookup hp]
      · rfl
    · simp only [view_edges]
      rw [(read_modifyVertice hg hp _ x).2, Function.update_apply]
      split_ifs with hx
      · rw [keySet_emplace, edgesOf_of_lookup hp]
      · rfl

theorem link_spec {g : LegioNode.Graph Id Ecdh} (hg : g.Linked) {id : Id} {p : Ptr}
    (hp : g.mVertices.lookup id = some p) (t : Id) :
    (g.link p t).Linked ∧ (g.link p t).mVertices.lookup id = some p ∧
      view (g.link p t) =
        { vertices := insert t (view g).vertices
          states := (view g).states
          edges := Function.update (view g).edges id (insert t (g.edgesOf id)) } := by
  cases hq : g.mVertices.lookup t with
  | some q =>
    obtain ⟨hlinked, hview⟩ := linkStored_spec hg hp hq
    have hmem : t ∈ keySet g.mVertices := mem_iff_lookup.mpr ⟨q, hq⟩
    simp only [Graph.link, hq]
    refine ⟨hlinked, hp, ?_⟩
    rw [hview]
    simp only [View.mk.injEq, and_true]
    exact (Finset.insert_eq_of_mem hmem).symm
  | none =>
    obtain ⟨hlinked, hstored, hview⟩ :=
      storeVertice_spec hg (v := newVertice t) hq rfl
    have hself : (g.storeVertice (newVertice t)).mVertices.lookup t = some g.allocated :=
      hstored
    have hp' : (g.storeVertice (newVertice t)).mVertices.lookup id = some p :=
      lookup_emplace_of_lookup hp
    obtain ⟨hlinked', hview'⟩ := linkStored_spec hlinked hp' hself
    have hedges : (g.storeVertice (newVertice t)).edgesOf = g.edgesOf :=
      congrArg View.edges hview
    have hstates : g.stateOf t = none := stateOf_of_notMem hq
    simp only [Graph.link, hq]
    refine ⟨hlinked', hp', ?_⟩
    rw [hview', hview]
    simp only [hedges, View.mk.injEq, view_edges, and_true]
    refine ⟨rfl, ?_⟩
    rw [view_states, Function.update_eq_self_iff]
    exact hstates.symm

theorem foldl_unlink (p : Ptr) (id : Id) (l : List Id) : ∀ g : LegioNode.Graph Id Ecdh, g.Linked →
    g.mVertices.lookup id = some p →
    let g' := l.foldl (Graph.unlink p) g
    g'.Linked ∧ g'.mVertices.lookup id = some p ∧
      view g' = { view g with
        edges := Function.update (view g).edges id (g.edgesOf id \ l.toFinset) } := by
  induction l with
  | nil =>
    intro g hg hp
    refine ⟨hg, hp, ?_⟩
    ext x <;> simp
  | cons t l ih =>
    intro g hg hp
    obtain ⟨hlinked, hview⟩ := unlink_spec hg hp t
    obtain ⟨hlinked', hp', hview'⟩ := ih _ hlinked hp
    refine ⟨hlinked', hp', ?_⟩
    have hedges : (g.unlink p t).edgesOf id = (g.edgesOf id).erase t := by
      rw [← view_edges, hview]
      simp
    simp only [List.foldl_cons]
    rw [hview', hview, hedges]
    simp only [Function.update_idem, List.toFinset_cons, View.mk.injEq, true_and]
    congr 1
    ext x
    simp only [Finset.mem_sdiff, Finset.mem_erase, Finset.mem_insert]
    tauto

theorem foldl_link (p : Ptr) (id : Id) (l : List Id) : ∀ g : LegioNode.Graph Id Ecdh, g.Linked →
    g.mVertices.lookup id = some p →
    let g' := l.foldl (Graph.link p) g
    g'.Linked ∧ view g' =
      { vertices := (view g).vertices ∪ l.toFinset
        states := (view g).states
        edges := Function.update (view g).edges id (g.edgesOf id ∪ l.toFinset) } := by
  induction l with
  | nil =>
    intro g hg hp
    refine ⟨hg, ?_⟩
    ext x <;> simp
  | cons t l ih =>
    intro g hg hp
    obtain ⟨hlinked, hp', hview⟩ := link_spec hg hp t
    obtain ⟨hlinked', hview'⟩ := ih _ hlinked hp'
    refine ⟨hlinked', ?_⟩
    have hedges : (g.link p t).edgesOf id = insert t (g.edgesOf id) := by
      rw [← view_edges, hview]
      simp
    simp only [List.foldl_cons]
    rw [hview', hview, hedges]
    simp only [Function.update_idem, List.toFinset_cons, Finset.insert_union,
      Finset.union_insert]

def kept (g : LegioNode.Graph Id Ecdh) : Ecdh × UInt32 × UInt32 × List (State Id) :=
  (g.mEcdh, g.mHelloSequence, g.mStateSequence, g.announced)

omit [DecidableEq Id] in
theorem kept_foldl {α : Type} {f : LegioNode.Graph Id Ecdh → α → LegioNode.Graph Id Ecdh}
    (hf : ∀ g a, kept (f g a) = kept g) (l : List α) (g : LegioNode.Graph Id Ecdh) :
    kept (l.foldl f g) = kept g := by
  induction l generalizing g with
  | nil => rfl
  | cons a l ih => exact (ih (f g a)).trans (hf g a)

theorem kept_link (p : Ptr) (g : LegioNode.Graph Id Ecdh) (t : Id) :
    kept (g.link p t) = kept g := by
  unfold Graph.link
  split <;> rfl

theorem mVertices_foldl_unlink (p : Ptr) (l : List Id) (g : LegioNode.Graph Id Ecdh) :
    (l.foldl (Graph.unlink p) g).mVertices = g.mVertices := by
  induction l generalizing g with
  | nil => rfl
  | cons t l ih => exact ih (g.unlink p t)

theorem pointers_link (p : Ptr) (g : LegioNode.Graph Id Ecdh) (t : Id) {x : Id} {q : Ptr}
    (hq : g.mVertices.lookup x = some q) : (g.link p t).mVertices.lookup x = some q := by
  unfold Graph.link
  split
  · exact hq
  · exact lookup_emplace_of_lookup hq

theorem pointers_relink (p : Ptr) (added removed : List Id) (g : LegioNode.Graph Id Ecdh)
    {x : Id} {q : Ptr}
    (hq : g.mVertices.lookup x = some q) :
    (added.foldl (Graph.link p) (removed.foldl (Graph.unlink p) g)).mVertices.lookup x =
      some q := by
  rw [← mVertices_foldl_unlink p removed g] at hq
  generalize removed.foldl (Graph.unlink p) g = g₁ at hq
  induction added generalizing g₁ with
  | nil => exact hq
  | cons t l ih => exact ih _ (pointers_link p g₁ t hq)

/-- The two loops of `updateEdges` make the edges what they are asked to be. -/
theorem relink_spec {g : LegioNode.Graph Id Ecdh} (hg : g.Linked) {id : Id} {p : Ptr}
    (hp : g.mVertices.lookup id = some p) (neighbors : Finset Id) {added removed : List Id}
    (hadded : added.toFinset = neighbors \ g.edgesOf id)
    (hremoved : removed.toFinset = g.edgesOf id \ neighbors) :
    let g' := added.foldl (Graph.link p) (removed.foldl (Graph.unlink p) g)
    g'.Linked ∧ view g' = (view g).connect id neighbors ∧ kept g' = kept g := by
  obtain ⟨hlinked, hp', hview⟩ := foldl_unlink p id removed g hg hp
  obtain ⟨hlinked', hview'⟩ := foldl_link p id added _ hlinked hp'
  have hkept : kept (removed.foldl (Graph.unlink p) g) = kept g :=
    kept_foldl (f := Graph.unlink p) (fun _ _ => rfl) removed g
  refine ⟨hlinked', ?_, (kept_foldl (kept_link p) added _).trans hkept⟩
  have hedges : (removed.foldl (Graph.unlink p) g).edgesOf id = g.edgesOf id ∩ neighbors := by
    rw [← view_edges, hview, hremoved]
    ext x
    simp
  rw [hview', hview, hedges, hadded]
  ext x
  · have hsub : x ∈ g.edgesOf id → x ∈ (view g).vertices := fun h => edgesOf_subset hg id h
    simp only [View.connect, Finset.mem_union, Finset.mem_sdiff]
    tauto
  · rfl
  · rename_i y
    simp only [View.connect, Function.update_apply]
    split_ifs with hx
    · simp only [Finset.mem_union, Finset.mem_inter, Finset.mem_sdiff]
      tauto
    · rfl

end Store

end LinkStateStore
