import Legio.QueueLoop
import Legio.RoutingTableCompleteness

set_option linter.style.header false

/-! The runs of the queue loop: they keep its invariants, they follow the search over a sorted
queue, and so they end with the routing table computed. -/
namespace QueueRuns

open LegioMessage LegioCrypto LegioNode Containers BinaryHeaps QueueLoop
open RoutingTableSearch (computeRoutingTable_of_search edgeCount_resetSearch resetSearch_content)

variable {Id Pair Ecdh Chan : Type}

structure Invariant (H : Host Id) (start : Ptr → Vertice Id) (stored : Ptr → Prop)
    (localVertice : Ptr) (s : Loop Id) : Prop where
  held : Held H s
  counted : Counted start stored s
  ascending : Ascending localVertice s

section Runs
variable [DecidableEq Id] {H : Host Id} {A : HeapAlgorithms H.before}
variable {start : Ptr → Vertice Id} {stored : Ptr → Prop} {localVertice : Ptr}

omit [DecidableEq Id] in
theorem start_queue (heap : Ptr → Vertice Id) (localVertice : Ptr) :
    (Loop.start H A heap localVertice).queue = [(0, localVertice)] :=
  List.perm_singleton.mp (HeapAlgorithms.push_perm _ isHeap_nil)

omit [DecidableEq Id] in
theorem invariant_start {heap : Ptr → Vertice Id}
    (hcontent : ∀ p, (heap p).content = (start p).content) (hstored : stored localVertice) :
    Invariant H start stored localVertice (Loop.start H A heap localVertice) := by
  have hqueue := start_queue (A := A) heap localVertice
  have honly : ∀ e ∈ (Loop.start H A heap localVertice).queue, e = (0, localVertice) := by
    intro e he
    rw [hqueue] at he
    exact List.mem_singleton.mp he
  have hdistance : ((Loop.start H A heap localVertice).heap localVertice).distance = 0 := by
    simp [Loop.start]
  constructor
  · exact ⟨HeapAlgorithms.push_isHeap _ isHeap_nil, fun _ => rfl, fun hp => absurd rfl hp,
      List.Sublist.refl _⟩
  · refine ⟨?_, ?_, fun _ hp => (by cases hp), fun _ he => absurd he List.not_mem_nil,
      List.nodup_nil, ?_⟩
    · intro p
      rw [← hcontent p]
      by_cases hp : p = localVertice <;> simp [Loop.start, hp, Vertice.content]
    · intro e he
      rw [honly e he]
      exact hstored
    · rw [hqueue]
      exact le_refl 1
  · refine ⟨List.Pairwise.nil, fun _ he => absurd he List.not_mem_nil,
      fun _ he => absurd he List.not_mem_nil, ?_, fun e he => Or.inl (honly e he)⟩
    intro e he _
    rw [honly e he, hdistance, hqueue]
    exact ⟨le_refl 0, List.mem_singleton_self _⟩

variable (closed : Closed start stored)
include closed

theorem invariant_step {s s' : Loop Id} (h : Invariant H start stored localVertice s)
    (hstep : s.step H A = some s') : Invariant H start stored localVertice s' := by
  have hcases := step_cases h.held hstep
  exact ⟨held_step h.held hcases, counted_step closed h.counted hcases,
    ascending_step h.held (fun e he => (h.counted.expanded e he).2) h.ascending hcases⟩

theorem invariant_run {s s' : Loop Id} (h : Invariant H start stored localVertice s)
    (hrun : Run H A s s') : Invariant H start stored localVertice s' := by
  induction hrun with
  | refl => exact h
  | tail _ hstep ih => exact invariant_step closed ih hstep

end Runs

/-- The search of the model, whose queue is a sorted list, at the same place of the loop. -/
structure Matches (H : Host Id) (s : Loop Id) (t : Search Id) : Prop where
  heap : t.heap = s.heap
  sorted : t.queue.Pairwise H.before
  perm : t.queue.Perm s.queue

section Simulation
variable {H : Host Id} {A : HeapAlgorithms H.before} {s : Loop Id} {t : Search Id}

theorem matches_head (hheap : IsHeap H.before s.queue) (h : Matches H s t) {top : Int × Ptr}
    (head : s.queue.head? = some top) : ∃ rest, t.queue = top :: rest := by
  have hmem := h.perm.mem_iff.mpr (List.mem_of_head? head)
  cases hqueue : t.queue with
  | nil =>
    rw [hqueue] at hmem
    cases hmem
  | cons first rest =>
    have hsorted := h.sorted
    rw [hqueue] at hsorted hmem
    have hfirst : first ∈ s.queue := h.perm.mem_iff.mp (hqueue ▸ List.mem_cons_self)
    rcases List.mem_cons.mp hmem with rfl | hrest
    · exact ⟨rest, rfl⟩
    · have hbefore := (List.pairwise_cons.mp hsorted).1 top hrest
      rw [Std.Antisymm.antisymm _ _ hbefore (front_before hheap head hfirst)]
      exact ⟨rest, rfl⟩

theorem relax_farther (h : Matches H s t) {top : Int × Ptr} {neighbor : Ptr}
    (farther : ¬ Closer s.heap top neighbor) : t.relax H top.1 top.2 neighbor = t := by
  unfold Search.relax
  rw [h.heap]
  split_ifs with hvisited
  · rfl
  · dsimp only
    rw [if_neg fun hcond => farther ⟨Bool.eq_false_iff.mpr hvisited, hcond⟩]

theorem relax_closer (h : Matches H s t) {top : Int × Ptr} {neighbor : Ptr}
    (closer : Closer s.heap top neighbor) : t.relax H top.1 top.2 neighbor =
      { heap := assign s.heap (((s.heap top.2).nextHop).getD neighbor) (top.1 + 1) neighbor
        queue := t.queue.orderedInsert H.before (top.1 + 1, neighbor) } := by
  unfold Search.relax
  rw [h.heap, if_neg (by simp [closer.1])]
  dsimp only
  rw [if_pos closer.2]
  rfl

theorem stops_empty (held : Held H s) (h : s.step H A = none) :
    s.point = .condition ∧ s.queue = [] := by
  cases hpoint : s.point with
  | condition =>
    refine ⟨rfl, ?_⟩
    cases hqueue : s.queue with
    | nil => rfl
    | cons top rest =>
      simp only [Loop.step, hpoint, hqueue, List.head?_cons] at h
      split_ifs at h
  | edges rest =>
    obtain ⟨top, hhead, -⟩ := held.busy (by simp [hpoint])
    cases rest with
    | nil => simp [Loop.step, hpoint] at h
    | cons e rest =>
      simp only [Loop.step, hpoint, Loop.relax, hhead, Option.map_eq_none_iff] at h
      split_ifs at h
  | pop =>
    obtain ⟨top, hhead, -⟩ := held.busy (by simp [hpoint])
    obtain ⟨rest, hpop, -⟩ := HeapAlgorithms.pop_spec (A := A) held.isHeap hhead
    simp only [Loop.step, hpoint, hpop, Option.map_some] at h
    cases h

theorem steps_of_busy (A : HeapAlgorithms H.before) (held : Held H s) {top : Int × Ptr}
    (head : s.queue.head? = some top) : ∃ s', s.step H A = some s' ∧ Step H s s' := by
  cases hstep : s.step H A with
  | none =>
    rw [(stops_empty held hstep).2] at head
    cases head
  | some s' => exact ⟨s', rfl, step_cases held hstep⟩

theorem matches_edges {top : Int × Ptr} : ∀ (rest : List (Id × Ptr)) (s : Loop Id) (t : Search Id),
    Held H s → Matches H s t → s.point = .edges rest → s.queue.head? = some top →
    ∃ s', Run H A s s' ∧ Held H s' ∧ s'.point = .pop ∧ s'.queue.head? = some top ∧
      s'.popped = s.popped ∧
      Matches H s' (rest.foldl (fun t e => t.relax H top.1 top.2 e.2) t) := by
  intro rest
  induction rest with
  | nil =>
    intro s t held h hpoint head
    obtain ⟨s', hstep, hcases⟩ := steps_of_busy A held head
    have hafter := held_step held hcases
    cases hcases with
    | leave _ => exact ⟨_, .single hstep, hafter, rfl, head, rfl, h.heap, h.sorted, h.perm⟩
    | skip point | expand point | pass point | push point | pop point =>
      cases hpoint.symm.trans point
  | cons e rest ih =>
    intro s t held h hpoint head
    obtain ⟨s', hstep, hcases⟩ := steps_of_busy A held head
    have hafter := held_step held hcases
    rw [List.foldl_cons]
    cases hcases with
    | @pass top' e' rest' point head' farther =>
      obtain rfl : top = top' := Option.some.inj (head.symm.trans head')
      cases hpoint.symm.trans point
      rw [relax_farther h farther]
      obtain ⟨s'', hrun, hend⟩ := ih _ t hafter ⟨h.heap, h.sorted, h.perm⟩ rfl head
      exact ⟨s'', hrun.head hstep, hend⟩
    | @push top' e' rest' queue point head' closer isHeap perm kept =>
      obtain rfl : top = top' := Option.some.inj (head.symm.trans head')
      cases hpoint.symm.trans point
      rw [relax_closer h closer]
      have hperm := (List.perm_orderedInsert H.before (top.1 + 1, e.2) t.queue).trans
        ((h.perm.cons _).trans perm.symm)
      obtain ⟨s'', hrun, hend⟩ := ih _
        { heap := _, queue := t.queue.orderedInsert H.before (top.1 + 1, e.2) } hafter
        ⟨rfl, h.sorted.orderedInsert _ _, hperm⟩ rfl kept
      exact ⟨s'', hrun.head hstep, hend⟩
    | skip point | expand point | leave point | pop point =>
      cases hpoint.symm.trans point

theorem matches_pop (held : Held H s) (h : Matches H s t) (hpoint : s.point = .pop)
    {top : Int × Ptr} (head : s.queue.head? = some top) :
    ∃ s', s.step H A = some s' ∧ s'.point = .condition ∧
      s'.popped.length = s.popped.length + 1 ∧ Matches H s' { t with queue := t.queue.tail } := by
  obtain ⟨s', hstep, hcases⟩ := steps_of_busy A held head
  obtain ⟨rest, hqueue⟩ := matches_head held.isHeap h head
  refine ⟨s', hstep, ?_⟩
  cases hcases with
  | @pop top' queue point head' bound isHeap perm =>
    obtain rfl : top = top' := Option.some.inj (head.symm.trans head')
    refine ⟨rfl, by simp, h.heap, h.sorted.tail, ?_⟩
    have hperm := h.perm.trans perm
    rw [hqueue] at hperm ⊢
    exact hperm.cons_inv
  | skip point | expand point | leave point | pass point | push point =>
    cases hpoint.symm.trans point

/-- One iteration of the loop is one step of the search. -/
theorem matches_iteration (held : Held H s) (h : Matches H s t) (hpoint : s.point = .condition)
    {top : Int × Ptr} (head : s.queue.head? = some top) :
    ∃ s', Run H A s s' ∧ s'.point = .condition ∧
      s'.popped.length = s.popped.length + 1 ∧ Matches H s' (t.step H top.1 top.2) := by
  obtain ⟨s₁, hstep, hcases⟩ := steps_of_busy A held head
  have held₁ := held_step held hcases
  cases hcases with
  | @skip top' point head' visited =>
    obtain rfl : top = top' := Option.some.inj (head.symm.trans head')
    obtain ⟨s', hpop, hcondition, hpopped, h'⟩ :=
      matches_pop (A := A) (t := ⟨visit s.heap top.2, t.queue⟩) held₁ ⟨rfl, h.sorted, h.perm⟩ rfl
        head
    refine ⟨s', .tail (.single hstep) hpop, hcondition, hpopped, ?_⟩
    rw [Search.step, h.heap, if_pos visited]
    exact h'
  | @expand top' point head' fresh =>
    obtain rfl : top = top' := Option.some.inj (head.symm.trans head')
    obtain ⟨s₂, hedges, held₂, hpoint₂, head₂, hsame, h₂⟩ := matches_edges (A := A) _ _
      ⟨visit s.heap top.2, t.queue⟩ held₁ ⟨rfl, h.sorted, h.perm⟩ rfl head
    obtain ⟨s', hpop, hcondition, hpopped, h'⟩ := matches_pop (A := A) held₂ h₂ hpoint₂ head₂
    refine ⟨s', .tail (hedges.head hstep) hpop, hcondition, hsame ▸ hpopped, ?_⟩
    rw [Search.step, h.heap, if_neg (by simp [fresh])]
    exact h'
  | leave point | pass point | push point | pop point =>
    cases hpoint.symm.trans point

variable [DecidableEq Id] {start : Ptr → Vertice Id} {stored : Ptr → Prop} {localVertice : Ptr}

/-- With fuel for the iterations that its entries can still pay for, the search ends where the
loop ends. -/
theorem matches_search (closed : Closed start stored) {edges : ℕ}
    (total : ∀ s, Counted start stored s →
      (s.expanded.map fun e => degree start e.2).sum ≤ edges) :
    ∀ (fuel : ℕ) (s : Loop Id) (t : Search Id), Invariant H start stored localVertice s →
      s.point = .condition → Matches H s t → 1 + edges ≤ s.popped.length + fuel →
      ∃ s' t', Run H A s s' ∧ s'.point = .condition ∧ s'.queue = [] ∧
        searchLoop H fuel t = some t' ∧ t'.heap = s'.heap := by
  intro fuel
  induction fuel with
  | zero =>
    intro s t hs hpoint h hfuel
    have hcount := hs.counted.count
    have htotal := total s hs.counted
    have hqueue : s.queue = [] := List.eq_nil_of_length_eq_zero (by omega)
    have hempty : t.queue = [] := List.perm_nil.mp (hqueue ▸ h.perm)
    exact ⟨s, t, .refl, hpoint, hqueue, by rw [searchLoop, if_pos hempty], h.heap⟩
  | succ fuel ih =>
    intro s t hs hpoint h hfuel
    cases hhead : s.queue.head? with
    | none =>
      have hqueue := List.head?_eq_none_iff.mp hhead
      have hempty : t.queue = [] := List.perm_nil.mp (hqueue ▸ h.perm)
      exact ⟨s, t, .refl, hpoint, hqueue, by rw [searchLoop, hempty], h.heap⟩
    | some top =>
      obtain ⟨rest, hqueue⟩ := matches_head hs.held.isHeap h hhead
      obtain ⟨s₁, hrun, hpoint₁, hpopped, h₁⟩ := matches_iteration (A := A) hs.held h hpoint hhead
      obtain ⟨s', t', hrun', hend⟩ := ih s₁ (t.step H top.1 top.2)
        (invariant_run closed hs hrun) hpoint₁ h₁ (by omega)
      refine ⟨s', t', hrun.trans hrun', ?_⟩
      rw [searchLoop, hqueue]
      exact hend

end Simulation

/-- What the code relies on, at one statement of the loop: inside the body the entry that was
bound is in front, what is pushed is farther than it, and `queue.pop()` removes it. -/
structure Orderly (H : Host Id) (A : HeapAlgorithms H.before) (edgeCount : ℕ) (s : Loop Id) :
    Prop where
  stops : s.step H A = none → s.point = .condition ∧ s.queue = []
  isHeap : IsHeap H.before s.queue
  idle : s.point = .condition → s.popped = s.bound
  busy : s.point ≠ .condition → ∃ top, s.bound = s.popped ++ [top] ∧
    s.queue.head? = some top ∧ ∀ s', s.step H A = some s' →
      (s.point = .pop → s.queue.Perm (top :: s'.queue)) ∧
      (s.point ≠ .pop →
        s'.queue = s.queue ∨ ∃ e, top.1 < e.1 ∧ s'.queue.Perm (e :: s.queue))
  expanded : s.expanded.Sublist s.bound
  once : (s.expanded.map Prod.snd).Nodup
  sorted : (s.expanded.map Prod.fst).Pairwise (· ≤ ·)
  recorded : ∀ e ∈ s.expanded, (s.heap e.2).distance = e.1
  iterations : s.bound.length ≤ 1 + edgeCount

section Result
variable [DecidableEq Id] {H : Host Id} {A : HeapAlgorithms H.before}
variable {start : Ptr → Vertice Id} {stored : Ptr → Prop} {localVertice : Ptr}

omit [DecidableEq Id] in
theorem orderly_of_invariant {s : Loop Id} {edges : ℕ} (h : Invariant H start stored localVertice s)
    (total : (s.expanded.map fun e => degree start e.2).sum ≤ edges) : Orderly H A edges s := by
  refine ⟨stops_empty h.held, h.held.isHeap, fun hp => (h.held.idle hp).symm, ?_,
    h.held.expanded, h.counted.once, h.ascending.sorted, h.ascending.recorded, ?_⟩
  · intro hpoint
    obtain ⟨top, hhead, hbound, -⟩ := h.held.busy hpoint
    refine ⟨top, hbound, hhead, fun s' hstep => ?_⟩
    cases step_cases h.held hstep with
    | skip point | expand point => exact absurd point hpoint
    | leave point | pass point =>
      exact ⟨fun hp => (by cases point.symm.trans hp), fun _ => Or.inl rfl⟩
    | @push top' e rest queue point head closer isHeap perm kept =>
      obtain rfl : top = top' := Option.some.inj (hhead.symm.trans head)
      exact ⟨fun hp => (by cases point.symm.trans hp),
        fun _ => Or.inr ⟨_, Int.lt_succ top.1, perm⟩⟩
    | @pop top' queue point head bound isHeap perm =>
      obtain rfl : top = top' := Option.some.inj (hhead.symm.trans head)
      exact ⟨fun _ => perm, fun hp => absurd point hp⟩
  · have hcount := h.counted.count
    by_cases hpoint : s.point = .condition
    · rw [h.held.idle hpoint]
      omega
    · obtain ⟨top, hhead, hbound, -⟩ := h.held.busy hpoint
      have hlength := List.length_pos_of_mem (List.mem_of_head? hhead)
      rw [hbound, List.length_append, List.length_singleton]
      omega

theorem degrees_le {g : LegioNode.Graph Id Ecdh} {vertices : List Ptr} (hnodup : vertices.Nodup)
    (hstored : ∀ p ∈ vertices, ∃ id, g.mVertices.lookup id = some p) :
    (vertices.map (degree g.heap)).sum ≤ g.edgeCount := by
  have hsubset : vertices ⊆ g.mVertices.entries.map fun e => e.2 := by
    intro p hp
    obtain ⟨id, hid⟩ := hstored p hp
    exact List.mem_map.mpr ⟨⟨id, p⟩, mem_entries.mpr hid, rfl⟩
  obtain ⟨l, hperm, hsub⟩ := List.subperm_of_subset hnodup hsubset
  rw [← (hperm.map (degree g.heap)).sum_eq]
  have hle := (hsub.map (degree g.heap)).sum_le_sum fun _ _ => Nat.zero_le _
  rwa [List.map_map] at hle

end Result

section Theorem
variable [LinearOrder Id] (K : CryptoPP Id Pair Ecdh) (H : Host Id)

/-- Over any stored graph, with any order of addresses and of iteration and any heap
algorithms, the loop is orderly at every statement, ends, and computes the routing table. -/
theorem queue_loop_orderly (A : HeapAlgorithms H.before) {n : Node Id Pair Ecdh Chan}
    (hg : n.graph.Linked) {l : Ptr} (hl : n.graph.findVertice (n.id K) = some l) :
    (∀ s, Run H A (.start H A (n.graph.resetSearch H) l) s → Orderly H A n.graph.edgeCount s) ∧
    ∃ s, (∀ s', Run H A (.start H A (n.graph.resetSearch H) l) s' → Run H A s' s) ∧
      s.step H A = none ∧
      Graph.computeRoutingTable K H n = .ok () { n with
        graph := { n.graph with heap := s.heap, mRoutingTable := n.graph.tableOf H s.heap }
        routing := { n.routing with mTable := some (n.graph.tableOf H s.heap) } } := by
  let stored : Ptr → Prop := fun p => ∃ id, n.graph.mVertices.lookup id = some p
  have closed : Closed n.graph.heap stored :=
    fun p ⟨id, hid⟩ t q hq => ⟨t, hg.edge hid hq⟩
  have total : ∀ s, Counted n.graph.heap stored s →
      (s.expanded.map fun e => degree n.graph.heap e.2).sum ≤ n.graph.edgeCount := by
    intro s hs
    have hle := degrees_le (g := n.graph) hs.once fun p hp => by
      obtain ⟨e, he, rfl⟩ := List.mem_map.mp hp
      exact (hs.expanded e he).1
    rwa [List.map_map] at hle
  have hstart : Invariant H n.graph.heap stored l (.start H A (n.graph.resetSearch H) l) :=
    invariant_start (resetSearch_content H n.graph) ⟨n.id K, hl⟩
  constructor
  · intro s hrun
    have hs := invariant_run closed hstart hrun
    exact orderly_of_invariant hs (total s hs.counted)
  · have hmatches : Matches H (.start H A (n.graph.resetSearch H) l)
        ⟨Function.update (n.graph.resetSearch H) l
          { n.graph.resetSearch H l with nextHop := none, distance := 0 }, [(0, l)]⟩ :=
      ⟨rfl, List.pairwise_singleton _ _, by rw [start_queue]⟩
    obtain ⟨s, t, hrun, hpoint, hqueue, hsearch, hheap⟩ := matches_search closed total
      (1 + n.graph.edgeCount) _ _ hstart rfl hmatches (Nat.le_add_left _ _)
    have hend : s.step H A = none := by simp [Loop.step, hpoint, hqueue]
    refine ⟨s, fun s' hrun' => ?_, hend, ?_⟩
    · -- a statement leads to one state, so the run to `s'` is a part of the run to `s`
      have unique : Relator.RightUnique fun s s' : Loop Id => s.step H A = some s' :=
        fun a b c hb hc => Option.some.inj (hb.symm.trans hc)
      rcases Relation.ReflTransGen.total_of_right_unique unique hrun' hrun with h | h
      · exact h
      · rcases Relation.ReflTransGen.cases_head h with rfl | ⟨s₁, hstep, -⟩
        · exact .refl
        · rw [hend] at hstep
          cases hstep
    · rw [← hheap]
      apply computeRoutingTable_of_search K H hl
      rw [edgeCount_resetSearch]
      exact hsearch

end Theorem

-- The state of the sample run, in which the local vertex has an edge to 2 and 2 one back.
namespace Sample
open LegioNode.Sample RoutingTableCompleteness.Sample

theorem loop_orderly_sample :
    (run [linked, .neighbor, announced]).graph.edgeCount = 3 ∧
    (∀ s, Run host (sifting host.before) (.start host (sifting host.before)
        ((run [linked, .neighbor, announced]).graph.resetSearch host) 0) s →
      Orderly host (sifting host.before)
        (run [linked, .neighbor, announced]).graph.edgeCount s) ∧
    ∃ s, (∀ s', Run host (sifting host.before) (.start host (sifting host.before)
        ((run [linked, .neighbor, announced]).graph.resetSearch host) 0) s' →
      Run host (sifting host.before) s' s) ∧ s.step host (sifting host.before) = none :=
  have hreachable := reachable_run [linked, .neighbor, announced]
  have hrooted := RoutingTableCompleteness.reachable_rooted host hreachable
  have hloop := queue_loop_orderly LegioCrypto.Sample.crypto host (sifting host.before)
    hrooted.linked (l := 0) (by decide +kernel)
  ⟨by decide +kernel, hloop.1, hloop.2.imp fun _ h => ⟨h.1, h.2.1⟩⟩

end Sample

end QueueRuns
