import Legio.ExceptionStates
import Legio.GraphComponent
import Mathlib.Logic.Relation
import Mathlib.Algebra.Order.BigOperators.Group.List

set_option linter.style.header false

/-! What `computeRoutingTable` computes. Only the local vertex has no next hop when it is
expanded, and an undiscovered vertex has distance -1, so no later expansion relaxes
anything: the table holds the direct neighbours and nothing else. -/
namespace RoutingTableSearch

open LegioBinary LegioCrypto LegioMessage LegioNode Containers ExceptionStates

variable {Id Pair Ecdh Chan : Type}

def reset (v : Vertice Id) : Vertice Id :=
  { v with nextHop := none, distance := -1, visited := false }

theorem reset_fold (l : List (Id × Ptr)) (heap : Ptr → Vertice Id) (p : Ptr) :
    (l.foldl (fun (h : Ptr → Vertice Id) e => Function.update h e.2 (reset (h e.2))) heap) p =
      if p ∈ l.map Prod.snd then reset (heap p) else heap p := by
  induction l generalizing heap with
  | nil => simp
  | cons e l ih =>
    rw [List.foldl_cons, ih]
    by_cases he : p = e.2
    · subst he
      by_cases hl : e.2 ∈ l.map Prod.snd <;> simp [hl, reset]
    · have hm : p ∈ (e :: l).map Prod.snd ↔ p ∈ l.map Prod.snd := by simp [he]
      by_cases hl : p ∈ l.map Prod.snd
      · rw [if_pos hl, if_pos (hm.mpr hl), Function.update_of_ne he]
      · rw [if_neg hl, if_neg (fun h => hl (hm.mp h)), Function.update_of_ne he]

theorem resetSearch_content (H : Host Id) (g : LegioNode.Graph Id Ecdh) (p : Ptr) :
    (g.resetSearch H p).content = (g.heap p).content := by
  have h := reset_fold (H.enumerate g.mVertices) g.heap p
  change g.resetSearch H p = _ at h
  rw [h]
  split_ifs <;> rfl

theorem resetSearch_stored [DecidableEq Id] (H : Host Id) {g : LegioNode.Graph Id Ecdh} {id : Id}
    {p : Ptr}
    (hp : g.mVertices.lookup id = some p) : g.resetSearch H p = reset (g.heap p) := by
  have h := reset_fold (H.enumerate g.mVertices) g.heap p
  change g.resetSearch H p = _ at h
  rw [h, if_pos]
  exact List.mem_map.mpr ⟨(id, p), (mem_enumerate H _ _ _).mpr hp, rfl⟩

theorem foldl_fixed {α β : Type} {f : α → β → α} {a : α} {l : List β}
    (h : ∀ b ∈ l, f a b = a) : l.foldl f a = a := by
  induction l with
  | nil => rfl
  | cons b l ih =>
    rw [List.foldl_cons, h b (by simp)]
    exact ih fun c hc => h c (by simp [hc])

section Loop
variable (H : Host Id)

/-- The vertices the search discovers: those the local vertex has an edge to. -/
def Target [DecidableEq Id] (edges : UnorderedMap Id Ptr) (l p : Ptr) : Prop :=
  p ≠ l ∧ ∃ t, edges.lookup t = some p

/-- The search from its second iteration on, `start` being the store it began with.
The queue holds discovered vertices at distance one. -/
structure Discovered [DecidableEq Id] (start : Ptr → Vertice Id) (stored : Ptr → Prop) (l : Ptr)
    (s : Search Id) : Prop where
  content : ∀ p, (s.heap p).content = (start p).content
  local_visited : (s.heap l).visited = true
  target : ∀ p, Target (start l).edges l p →
    (s.heap p).nextHop = some p ∧ (s.heap p).distance = 1
  other : ∀ p, stored p → ¬ Target (start l).edges l p →
    (s.heap p).nextHop = none ∧ (s.heap p).distance ≤ 0
  queue : ∀ e ∈ s.queue, e.1 = 1 ∧ Target (start l).edges l e.2

variable {start : Ptr → Vertice Id} {stored : Ptr → Prop} {l : Ptr}

theorem relax_visited {s : Search Id} {distance : Int} {node p : Ptr}
    (h : (s.heap p).visited = true) : s.relax H distance node p = s := by
  rw [Search.relax, if_pos h]

theorem relax_settled {s : Search Id} {distance : Int} {node p hop : Ptr}
    (hn : (s.heap node).nextHop = some hop) (hd : (s.heap p).distance ≤ distance + 1) :
    s.relax H distance node p = s := by
  have hcond : ¬ ((s.heap node).nextHop = none ∨ distance + 1 < (s.heap p).distance) := by
    rintro (h | h)
    · rw [hn] at h; cases h
    · omega
  unfold Search.relax
  dsimp only
  rw [if_neg hcond, ite_self]

variable [DecidableEq Id]

theorem discovered_visit {s : Search Id} (h : Discovered start stored l s) (node : Ptr) :
    Discovered start stored l
      { s with heap := Function.update s.heap node { s.heap node with visited := true } } where
  content p := by
    by_cases hp : p = node
    · subst hp; simpa [Vertice.content] using h.content p
    · simpa [hp] using h.content p
  local_visited := by
    by_cases hl : l = node
    · subst hl; simp
    · simpa [hl] using h.local_visited
  target p hp := by
    by_cases hn : p = node
    · subst hn; simpa using h.target p hp
    · simpa [hn] using h.target p hp
  other p hs hp := by
    by_cases hn : p = node
    · subst hn; simpa using h.other p hs hp
    · simpa [hn] using h.other p hs hp
  queue := h.queue

theorem expand_discovered {s : Search Id} (h : Discovered start stored l s)
    (closed : ∀ p, stored p → ∀ t q, (start p).edges.lookup t = some q → stored q)
    {node : Ptr} (hs : stored node) (hn : Target (start l).edges l node) :
    s.expand H 1 node = s := by
  apply foldl_fixed
  rintro ⟨t, q⟩ he
  have hq : stored q := by
    have hc : (s.heap node).edges = (start node).edges :=
      congrArg (fun c => c.2.2) (h.content node)
    rw [hc, mem_enumerate] at he
    exact closed node hs t q he
  have hd : (s.heap q).distance ≤ 1 + 1 := by
    by_cases ht : Target (start l).edges l q
    · have := (h.target q ht).2; omega
    · have := (h.other q hq ht).2; omega
  exact relax_settled H (h.target node hn).1 hd

theorem step_discovered {s : Search Id} (h : Discovered start stored l s)
    (closed : ∀ p, stored p → ∀ t q, (start p).edges.lookup t = some q → stored q)
    (hl : stored l) {distance : Int} {node : Ptr} {rest : List (Int × Ptr)}
    (hq : s.queue = (distance, node) :: rest) :
    Discovered start stored l (s.step H distance node) ∧
      (s.step H distance node).queue = rest := by
  obtain ⟨rfl, hn⟩ := h.queue (distance, node) (by simp [hq])
  obtain ⟨t, ht⟩ := hn.2
  have hs : stored node := closed l hl t node ht
  have hv := discovered_visit h node
  have hstep : s.step H 1 node =
      { heap := Function.update s.heap node { s.heap node with visited := true }
        queue := rest } := by
    unfold Search.step
    dsimp only
    split_ifs with hvis
    · rw [hq]; rfl
    · rw [expand_discovered H hv closed hs hn, hq]; rfl
  rw [hstep]
  refine ⟨⟨hv.content, hv.local_visited, hv.target, hv.other, ?_⟩, rfl⟩
  intro e he
  exact h.queue e (by simp [hq, he])

theorem loop_discovered
    (closed : ∀ p, stored p → ∀ t q, (start p).edges.lookup t = some q → stored q)
    (hl : stored l) : ∀ (fuel : ℕ) (s : Search Id), Discovered start stored l s →
      s.queue.length ≤ fuel →
      ∃ s', searchLoop H fuel s = some s' ∧ Discovered start stored l s' := by
  intro fuel
  induction fuel with
  | zero =>
    intro s h hlen
    have hq : s.queue = [] := List.eq_nil_of_length_eq_zero (by omega)
    exact ⟨s, by simp [searchLoop, hq], h⟩
  | succ fuel ih =>
    intro s h hlen
    cases hq : s.queue with
    | nil => exact ⟨s, by simp [searchLoop, hq], h⟩
    | cons e rest =>
      obtain ⟨distance, node⟩ := e
      obtain ⟨hd, hrest⟩ := step_discovered H h closed hl hq
      have hlen' : (s.step H distance node).queue.length ≤ fuel := by
        rw [hrest]
        simp only [hq, List.length_cons] at hlen
        omega
      obtain ⟨s', hs', hd'⟩ := ih _ hd hlen'
      refine ⟨s', ?_, hd'⟩
      rw [searchLoop, hq]
      exact hs'

omit [DecidableEq Id] in
/-- Expanding the local vertex discovers the targets of its edges, each at distance one. -/
theorem expand_local (edges : List (Id × Ptr)) : ∀ (s : Search Id) (rest : List (Int × Ptr)),
    (s.heap l).visited = true → (s.heap l).nextHop = none →
    (∀ e ∈ edges, e.2 ≠ l → (s.heap e.2).visited = false) → s.queue = (0, l) :: rest →
    let s' := edges.foldl (fun s e => s.relax H 0 l e.2) s
    (∀ p, s'.heap p = if p ≠ l ∧ p ∈ edges.map Prod.snd then
        { s.heap p with nextHop := some p, distance := 1 } else s.heap p) ∧
      ∃ rest', s'.queue = (0, l) :: rest' ∧ rest'.length ≤ rest.length + edges.length ∧
        ∀ e ∈ rest', e ∈ rest ∨ (e.1 = 1 ∧ e.2 ≠ l ∧ e.2 ∈ edges.map Prod.snd) := by
  induction edges with
  | nil =>
    intro s rest _ _ _ hq
    exact ⟨by simp, rest, hq, by simp, fun e he => Or.inl he⟩
  | cons e edges ih =>
    intro s rest hv hn hu hq
    by_cases hel : e.2 = l
    · -- a self-edge: the local vertex is visited already
      have hr : s.relax H 0 l e.2 = s := relax_visited H (hel ▸ hv)
      obtain ⟨hheap, rest', hq', hlen, hrest⟩ :=
        ih s rest hv hn (fun e' he' => hu e' (by simp [he'])) hq
      simp only [List.foldl_cons, hr]
      refine ⟨fun p => ?_, rest', hq', by simp only [List.length_cons]; omega, fun e' he' => ?_⟩
      · rw [hheap p]
        by_cases hp : p = l
        · simp [hp]
        · have hm : p ∈ (e :: edges).map Prod.snd ↔ p ∈ edges.map Prod.snd := by
            have hpe : p ≠ e.2 := fun h => hp (h.trans hel)
            simp [hpe]
          by_cases hpm : p ∈ edges.map Prod.snd
          · rw [if_pos ⟨hp, hpm⟩, if_pos ⟨hp, hm.mpr hpm⟩]
          · rw [if_neg fun h => hpm h.2, if_neg fun h => hpm (hm.mp h.2)]
      · rcases hrest e' he' with h | ⟨h₁, h₂, h₃⟩
        · exact Or.inl h
        · exact Or.inr ⟨h₁, h₂, by simp only [List.map_cons, List.mem_cons]; exact Or.inr h₃⟩
    · have hunv : (s.heap e.2).visited = false := hu e (by simp) hel
      let s₁ : Search Id :=
        { heap := Function.update s.heap e.2
            { s.heap e.2 with nextHop := some e.2, distance := 1 }
          queue := (0, l) :: rest.orderedInsert H.before (1, e.2) }
      have hr : s.relax H 0 l e.2 = s₁ := by
        have hb : ¬ H.before ((1 : Int), e.2) ((0 : Int), l) := by
          simp [Host.before]
        simp [Search.relax, hunv, hn, hq, List.orderedInsert_cons, hb, s₁]
      have hll : l ≠ e.2 := fun h => hel h.symm
      obtain ⟨hheap, rest', hq', hlen, hrest⟩ :=
        ih s₁ (rest.orderedInsert H.before (1, e.2)) (by simpa [s₁, hll] using hv)
          (by simpa [s₁, hll] using hn)
          (fun e' he' hne => by
            have h' := hu e' (by simp [he']) hne
            by_cases hee : e'.2 = e.2
            · simp [s₁, hee, hunv]
            · simpa [s₁, hee] using h') rfl
      simp only [List.foldl_cons, hr]
      refine ⟨fun p => ?_, rest', hq', ?_, fun e' he' => ?_⟩
      · rw [hheap p]
        by_cases hpe : p = e.2
        · subst hpe
          by_cases hm : e.2 ∈ edges.map Prod.snd <;>
            simp only [s₁, List.map_cons, List.mem_cons, hel, hm, Function.update_self,
              ne_eq, not_false_eq_true, and_self, and_false, true_or, if_true, if_false]
        · simp only [s₁, List.map_cons, List.mem_cons, hpe, false_or, Function.update_of_ne,
            ne_eq, not_false_eq_true]
      · simp only [List.orderedInsert_length, List.length_cons] at hlen ⊢
        omega
      · rcases hrest e' he' with h | ⟨h₁, h₂, h₃⟩
        · rcases (List.mem_orderedInsert H.before).mp h with rfl | h
          · exact Or.inr ⟨rfl, hel, by simp⟩
          · exact Or.inl h
        · exact Or.inr ⟨h₁, h₂, by simp only [List.map_cons, List.mem_cons]; exact Or.inr h₃⟩

theorem search_discovers {g : LegioNode.Graph Id Ecdh} (hg : g.Linked) {localId : Id}
    (hp : g.mVertices.lookup localId = some l) {heap : Ptr → Vertice Id}
    (hreset : ∀ {id p}, g.mVertices.lookup id = some p → heap p = reset (g.heap p))
    (hcontent : ∀ p, (heap p).content = (g.heap p).content) {fuel : ℕ}
    (hfuel : (g.heap l).edges.entries.length ≤ fuel) :
    ∃ s, searchLoop H (1 + fuel)
        ⟨Function.update heap l { heap l with nextHop := none, distance := 0 }, [(0, l)]⟩ =
          some s ∧
      Discovered g.heap (fun p => ∃ id, g.mVertices.lookup id = some p) l s := by
  have hl : heap l = reset (g.heap l) := hreset hp
  let s₀ : Search Id :=
    ⟨Function.update heap l { heap l with nextHop := none, distance := 0 }, [(0, l)]⟩
  -- the first iteration: only the local vertex is visited
  let s₁ : Search Id :=
    { s₀ with heap := Function.update s₀.heap l { s₀.heap l with visited := true } }
  have hedges : (s₁.heap l).edges = (g.heap l).edges := by simp [s₁, s₀, hl, reset]
  have hstep : s₀.step H 0 l = { s₁.expand H 0 l with queue := (s₁.expand H 0 l).queue.tail } := by
    have hv : (s₀.heap l).visited = false := by simp [s₀, hl, reset]
    unfold Search.step
    dsimp only
    rw [if_neg (by simp [hv])]
  have hmem : ∀ e ∈ H.enumerate (g.heap l).edges, ∃ id, g.mVertices.lookup id = some e.2 := by
    rintro ⟨t, q⟩ he
    exact ⟨t, hg.edge hp ((mem_enumerate H _ _ _).mp he)⟩
  have htarget : ∀ p, Target (g.heap l).edges l p ↔
      p ≠ l ∧ p ∈ (H.enumerate (g.heap l).edges).map Prod.snd := by
    intro p
    refine and_congr_right fun _ => ?_
    rw [List.mem_map]
    constructor
    · rintro ⟨t, ht⟩; exact ⟨(t, p), (mem_enumerate H _ _ _).mpr ht, rfl⟩
    · rintro ⟨⟨t, q⟩, ht, rfl⟩; exact ⟨t, (mem_enumerate H _ _ _).mp ht⟩
  have hunvisited : ∀ e ∈ H.enumerate (g.heap l).edges, e.2 ≠ l →
      (s₁.heap e.2).visited = false := by
    intro e he hne
    obtain ⟨id, hid⟩ := hmem e he
    simp [s₁, s₀, hne, hreset hid, reset]
  obtain ⟨hheap, rest, hqueue, hlen, hrest⟩ :=
    expand_local H (H.enumerate (g.heap l).edges) s₁ [] (by simp [s₁])
      (by simp [s₁, s₀]) hunvisited rfl
  rw [← hedges, ← Search.expand] at hheap hqueue
  have hdiscovered : Discovered g.heap (fun p => ∃ id, g.mVertices.lookup id = some p) l
      (s₀.step H 0 l) := by
    rw [hstep]
    constructor
    · intro p
      have hp₁ : (s₁.heap p).content = (g.heap p).content := by
        by_cases hpl : p = l
        · subst hpl; simpa [s₁, s₀, Vertice.content] using hcontent p
        · simpa [s₁, s₀, hpl] using hcontent p
      rw [← hp₁]
      simp only [hheap p]
      split_ifs <;> rfl
    · simp [hheap l, s₁]
    · intro p ht
      simp only [hheap p]
      rw [hedges, if_pos ((htarget p).mp ht)]
      exact ⟨rfl, rfl⟩
    · rintro p ⟨id, hid⟩ ht
      simp only [hheap p]
      rw [hedges, if_neg (fun h => ht ((htarget p).mpr h))]
      by_cases hpl : p = l
      · subst hpl; simp [s₁, s₀]
      · simp [s₁, s₀, hpl, hreset hid, reset]
    · intro e he
      rw [hqueue, List.tail_cons] at he
      rcases hrest e he with h | ⟨h₁, h₂⟩
      · cases h
      · exact ⟨h₁, (htarget e.2).mpr h₂⟩
  have hlength : (s₀.step H 0 l).queue.length ≤ fuel := by
    rw [hstep]
    simp only [hqueue, List.tail_cons]
    rw [length_enumerate] at hlen
    simp only [List.length_nil] at hlen
    omega
  obtain ⟨s, hs, hd⟩ := loop_discovered H
    (fun p ⟨id, hid⟩ t q hq => ⟨t, hg.edge hid hq⟩) ⟨localId, hp⟩ fuel _ hdiscovered hlength
  refine ⟨s, ?_, hd⟩
  rw [Nat.add_comm, searchLoop]
  exact hs

end Loop

section Table
variable [DecidableEq Id] (H : Host Id)

theorem add_fold (hop : Ptr → Option Id) (l : List (Id × Ptr)) :
    ∀ t : RoutingTable Id, (l.map Prod.fst).Nodup → (∀ e ∈ l, t.findNextHop e.1 = none) →
    ∀ v h, (l.foldl (fun (t : RoutingTable Id) e =>
        match hop e.2 with
        | some h => t.add e.1 h
        | none => t) t).findNextHop v = some h ↔
      t.findNextHop v = some h ∨ ∃ p, (v, p) ∈ l ∧ hop p = some h := by
  induction l with
  | nil => simp
  | cons e l ih =>
    intro t hnd hnone v h
    obtain ⟨hfresh, hnd⟩ := List.nodup_cons.mp hnd
    have hne : ∀ e' ∈ l, e'.1 ≠ e.1 := fun e' he' heq =>
      hfresh (heq ▸ List.mem_map_of_mem he')
    rw [List.foldl_cons]
    cases hhop : hop e.2 with
    | none =>
      rw [ih t hnd (fun e' he' => hnone e' (by simp [he'])) v h]
      constructor
      · rintro (ht | ⟨p, hp, hh⟩)
        · exact Or.inl ht
        · exact Or.inr ⟨p, by simp [hp], hh⟩
      · rintro (ht | ⟨p, hp, hh⟩)
        · exact Or.inl ht
        · rcases List.mem_cons.mp hp with rfl | hp
          · rw [hhop] at hh; cases hh
          · exact Or.inr ⟨p, hp, hh⟩
    | some h' =>
      have hnew : ∀ v, (t.add e.1 h').findNextHop v =
          if v = e.1 then some h' else t.findNextHop v := by
        intro v
        have hmem : e.1 ∉ t.mNextHops := by
          rw [mem_iff_lookup]
          rintro ⟨b, hb⟩
          have := hnone e (by simp)
          rw [RoutingTable.findNextHop, hb] at this
          cases this
        simp [RoutingTable.add, RoutingTable.findNextHop, lookup_emplace, hmem]
      rw [ih _ hnd (fun e' he' => by
        rw [hnew, if_neg (hne e' he'), hnone e' (by simp [he'])]) v h, hnew]
      by_cases hv : v = e.1
      · subst hv
        rw [if_pos rfl]
        constructor
        · rintro (ht | ⟨p, hp, hh⟩)
          · exact Or.inr ⟨e.2, by simp, by rw [hhop, ht]⟩
          · exact Or.inr ⟨p, by simp [hp], hh⟩
        · rintro (ht | ⟨p, hp, hh⟩)
          · rw [hnone e (by simp)] at ht; cases ht
          · rcases List.mem_cons.mp hp with heq | hp
            · left
              rw [← hhop, ← hh, ← heq]
            · exact Or.inr ⟨p, hp, hh⟩
      · rw [if_neg hv]
        constructor
        · rintro (ht | ⟨p, hp, hh⟩)
          · exact Or.inl ht
          · exact Or.inr ⟨p, by simp [hp], hh⟩
        · rintro (ht | ⟨p, hp, hh⟩)
          · exact Or.inl ht
          · rcases List.mem_cons.mp hp with heq | hp
            · exact absurd (congrArg Prod.fst heq) hv
            · exact Or.inr ⟨p, hp, hh⟩

theorem tableOf_spec (g : LegioNode.Graph Id Ecdh) (heap : Ptr → Vertice Id) (v h : Id) :
    (g.tableOf H heap).findNextHop v = some h ↔
      ∃ p, g.mVertices.lookup v = some p ∧
        (heap p).nextHop.map (fun hop => (heap hop).mIdentifier) = some h := by
  have hf := add_fold (fun p => (heap p).nextHop.map fun hop => (heap hop).mIdentifier)
    (H.enumerate g.mVertices) .empty (nodup_enumerate H _) (by
      intro e _; rfl) v h
  have hfold : (g.tableOf H heap) = (H.enumerate g.mVertices).foldl
      (fun (t : RoutingTable Id) e =>
        match (heap e.2).nextHop.map (fun hop => (heap hop).mIdentifier) with
        | some h => t.add e.1 h
        | none => t) .empty := by
    unfold Graph.tableOf
    congr 1
    funext t e
    cases (heap e.2).nextHop <;> rfl
  rw [hfold, hf]
  constructor
  · rintro (he | ⟨p, hp, hh⟩)
    · cases he
    · exact ⟨p, (mem_enumerate H _ _ _).mp hp, hh⟩
  · rintro ⟨p, hp, hh⟩
    exact Or.inr ⟨p, (mem_enumerate H _ _ _).mpr hp, hh⟩

omit [DecidableEq Id] in
theorem edgeCount_resetSearch (g : LegioNode.Graph Id Ecdh) :
    Graph.edgeCount { g with heap := g.resetSearch H } = g.edgeCount := by
  unfold Graph.edgeCount
  congr 1
  exact List.map_congr_left fun e _ =>
    congrArg (fun c => c.2.2.entries.length) (resetSearch_content H g e.2)

theorem edges_le_edgeCount (g : LegioNode.Graph Id Ecdh) {id : Id} {p : Ptr}
    (hp : g.mVertices.lookup id = some p) :
    (g.heap p).edges.entries.length ≤ g.edgeCount := by
  apply List.single_le_sum (by simp)
  exact List.mem_map.mpr ⟨⟨id, p⟩, mem_entries.mpr hp, rfl⟩

end Table

section Result
variable [LinearOrder Id] (K : CryptoPP Id Pair Ecdh) (H : Host Id)

/-- The routing table names every direct neighbour, as its own next hop, and nobody else. -/
def Direct (g : LegioNode.Graph Id Ecdh) (localId : Id) (table : RoutingTable Id) : Prop :=
  ∀ v h, table.findNextHop v = some h ↔ h = v ∧ v ≠ localId ∧ v ∈ g.edgesOf localId

structure Computed (n n' : Node Id Pair Ecdh Chan) (heap : Ptr → Vertice Id)
    (table : RoutingTable Id) : Prop where
  result : n' = { n with
    graph := { n.graph with heap := heap, mRoutingTable := table }
    routing := { n.routing with mTable := some table } }
  content : ∀ p, (heap p).content = (n.graph.heap p).content
  direct : Direct n.graph (n.id K) table

theorem computeRoutingTable_of_search {n : Node Id Pair Ecdh Chan} {l : Ptr}
    (hp : n.graph.mVertices.lookup (n.id K) = some l) {s : Search Id}
    (hs : searchLoop H (1 + Graph.edgeCount { n.graph with heap := n.graph.resetSearch H })
      ⟨Function.update (n.graph.resetSearch H) l
        { n.graph.resetSearch H l with nextHop := none, distance := 0 }, [(0, l)]⟩ = some s) :
    Graph.computeRoutingTable K H n = .ok () { n with
      graph := { n.graph with heap := s.heap, mRoutingTable := n.graph.tableOf H s.heap }
      routing := { n.routing with mTable := some (n.graph.tableOf H s.heap) } } := by
  set g₁ : LegioNode.Graph Id Ecdh := { n.graph with heap := n.graph.resetSearch H } with hg₁
  have hfound : g₁.findVertice (n.id K) = some l := hp
  simp only [Graph.computeRoutingTable, modifyGraph, modify_bind_run, get_bind_run]
  simp only [← hg₁, Node.id] at hfound ⊢
  simp only [hfound]
  rw [hs]
  rfl

/-- The search begins at the local vertex and finishes. -/
theorem computeRoutingTable_discovers {n : Node Id Pair Ecdh Chan} (hg : n.graph.Linked)
    {l : Ptr} (hp : n.graph.mVertices.lookup (n.id K) = some l) :
    ∃ s : Search Id, Graph.computeRoutingTable K H n = .ok () { n with
        graph := { n.graph with heap := s.heap, mRoutingTable := n.graph.tableOf H s.heap }
        routing := { n.routing with mTable := some (n.graph.tableOf H s.heap) } } ∧
      Discovered n.graph.heap (fun p => ∃ id, n.graph.mVertices.lookup id = some p) l s := by
  have hcount : (n.graph.heap l).edges.entries.length ≤
      Graph.edgeCount { n.graph with heap := n.graph.resetSearch H } := by
    rw [edgeCount_resetSearch]
    exact edges_le_edgeCount n.graph hp
  obtain ⟨s, hs, hd⟩ := search_discovers H hg hp (resetSearch_stored H)
    (resetSearch_content H n.graph) hcount
  exact ⟨s, computeRoutingTable_of_search K H hp hs, hd⟩

theorem direct_of_discovered {g : LegioNode.Graph Id Ecdh} (hg : g.Linked) {localId : Id}
    {l : Ptr} (hp : g.mVertices.lookup localId = some l) {s : Search Id}
    (hd : Discovered g.heap (fun p => ∃ id, g.mVertices.lookup id = some p) l s) :
    Direct g localId (g.tableOf H s.heap) := by
  intro v h
  rw [tableOf_spec]
  constructor
  · rintro ⟨p, hv, hh⟩
    by_cases ht : Target (g.heap l).edges l p
    · obtain ⟨hne, t, ht'⟩ := ht
      have htv : t = v := hg.pointer_unique (hg.edge hp ht') hv
      subst htv
      rw [(hd.target p ⟨hne, t, ht'⟩).1, Option.map_some, Option.some.injEq] at hh
      have hname : (s.heap p).mIdentifier = t :=
        (congrArg Prod.fst (hd.content p)).trans (hg.named hv)
      refine ⟨hh.symm.trans hname, ?_, mem_edgesOf.mpr ⟨l, p, hp, ht'⟩⟩
      rintro rfl
      exact hne (Option.some.inj (hv.symm.trans hp))
    · rw [(hd.other p ⟨v, hv⟩ ht).1] at hh
      cases hh
  · rintro ⟨rfl, hne, hmem⟩
    obtain ⟨l', p, hl', hq⟩ := mem_edgesOf.mp hmem
    obtain rfl : l = l' := Option.some.inj (hp.symm.trans hl')
    have hv := hg.edge hp hq
    have ht : Target (g.heap l).edges l p :=
      ⟨fun heq => hne (hg.pointer_unique hv (heq ▸ hp)), h, hq⟩
    refine ⟨p, hv, ?_⟩
    rw [(hd.target p ht).1, Option.map_some]
    exact congrArg some ((congrArg Prod.fst (hd.content p)).trans (hg.named hv))

theorem computeRoutingTable_spec {n : Node Id Pair Ecdh Chan} (hg : n.graph.Linked)
    (hl : n.id K ∈ n.graph.mVertices) :
    ∃ n' heap table, Graph.computeRoutingTable K H n = .ok () n' ∧
      Computed K n n' heap table := by
  obtain ⟨l, hp⟩ := mem_iff_lookup.mp hl
  obtain ⟨s, hrun, hd⟩ := computeRoutingTable_discovers K H hg hp
  refine ⟨_, s.heap, n.graph.tableOf H s.heap, hrun, rfl, hd.content,
    direct_of_discovered H hg hp hd⟩

end Result

end RoutingTableSearch
