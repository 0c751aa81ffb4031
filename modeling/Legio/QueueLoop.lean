import Legio.BinaryHeaps
import Legio.GraphComponent
import Mathlib.Logic.Relation

set_option linter.style.header false

/-! The loop of `computeRoutingTable` that empties the priority queue, one statement after the
other. What `queue.top()` binds is a reference into the container: every later use of it reads
the entry that is in front by then. -/
namespace QueueLoop

open LegioMessage LegioCrypto LegioNode Containers BinaryHeaps

variable {Id : Type}

/-- The statement that comes next: the condition of the loop, the edge loop with the edges it
has still to visit, `queue.pop()`. -/
inductive Point (Id : Type) where
  | condition
  | edges (rest : List (Id × Ptr))
  | pop

/-- `queue` is the container of the priority queue. The last three fields are history: what
`queue.top()` was when it was bound, which of these were expanded, what `queue.pop()` removed. -/
structure Loop (Id : Type) where
  heap : Ptr → Vertice Id
  queue : List (Int × Ptr)
  point : Point Id
  bound : List (Int × Ptr)
  expanded : List (Int × Ptr)
  popped : List (Int × Ptr)

section Statements
variable (H : Host Id) (A : HeapAlgorithms H.before)

def Loop.start (heap : Ptr → Vertice Id) (localVertice : Ptr) : Loop Id where
  heap := Function.update heap localVertice
    { heap localVertice with nextHop := none, distance := 0 }
  queue := A.push [] (0, localVertice)
  point := .condition
  bound := []
  expanded := []
  popped := []

def visit (heap : Ptr → Vertice Id) (node : Ptr) : Ptr → Vertice Id :=
  Function.update heap node { heap node with visited := true }

def assign (heap : Ptr → Vertice Id) (hop : Ptr) (tentative : Int) (neighbor : Ptr) :
    Ptr → Vertice Id :=
  Function.update heap neighbor
    { heap neighbor with nextHop := some hop, distance := tentative }

def Loop.relax (s : Loop Id) (neighbor : Ptr) : Option (Loop Id) :=
  match s.queue.head? with
  | none => none
  | some (distance, node) =>
    if (s.heap neighbor).visited then some s
    else
      let tentative := distance + 1
      if (s.heap node).nextHop = none ∨ tentative < (s.heap neighbor).distance then
        let hop := ((s.heap node).nextHop).getD neighbor
        some { s with
          heap := assign s.heap hop tentative neighbor
          queue := A.push s.queue (tentative, neighbor) }
      else some s

/-- One statement; the condition stands for what comes before the edge loop too. None comes
next when the loop ends, or where an empty queue would be read or popped. -/
def Loop.step (s : Loop Id) : Option (Loop Id) :=
  match s.point with
  | .condition =>
    match s.queue.head? with
    | none => none
    | some (distance, node) =>
      let s' := { s with
        heap := visit s.heap node
        bound := s.bound ++ [(distance, node)] }
      if (s.heap node).visited then some { s' with point := .pop }
      else some { s' with
        point := .edges (H.enumerate (s'.heap node).edges)
        expanded := s.expanded ++ [(distance, node)] }
  | .edges [] => some { s with point := .pop }
  | .edges (e :: rest) => (s.relax H A e.2).map fun s' => { s' with point := .edges rest }
  | .pop => (A.pop s.queue).map fun (queue, removed) =>
    { s with
      queue := queue
      point := .condition
      popped := s.popped ++ [removed] }

/-- The states that the loop goes through from a state on. -/
abbrev Run : Loop Id → Loop Id → Prop :=
  Relation.ReflTransGen fun s s' => s.step H A = some s'

end Statements

section Fields
variable {H : Host Id}

instance : Std.Total H.before where
  total a b := by
    unfold Host.before
    omega

instance : IsTrans (Int × Ptr) H.before where
  trans a b c hab hbc := by
    unfold Host.before at *
    omega

instance : Std.Antisymm H.before where
  antisymm a b hab hba := by
    have hdistance : a.1 = b.1 := by
      unfold Host.before at *
      omega
    have haddress : H.address a.2 = H.address b.2 := by
      unfold Host.before at *
      omega
    exact Prod.ext hdistance (H.address_injective haddress)

theorem distance_le {a b : Int × Ptr} (h : H.before a b) : a.1 ≤ b.1 :=
  h.elim le_of_lt fun h => h.1.le

theorem not_before_of_lt {a b : Int × Ptr} (h : a.1 < b.1) : ¬ H.before b a :=
  fun hba => absurd (distance_le hba) (not_le.mpr h)

variable (heap : Ptr → Vertice Id) (node hop neighbor p : Ptr) (tentative : Int)

@[simp] theorem visit_content : (visit heap node p).content = (heap p).content := by
  unfold visit
  by_cases h : p = node <;> simp [h, Vertice.content]

@[simp] theorem visit_distance : (visit heap node p).distance = (heap p).distance := by
  unfold visit
  by_cases h : p = node <;> simp [h]

@[simp] theorem visit_nextHop : (visit heap node p).nextHop = (heap p).nextHop := by
  unfold visit
  by_cases h : p = node <;> simp [h]

theorem visit_visited : (visit heap node p).visited =
    if p = node then true else (heap p).visited := by
  unfold visit
  by_cases h : p = node <;> simp [h]

@[simp] theorem assign_content :
    (assign heap hop tentative neighbor p).content = (heap p).content := by
  unfold assign
  by_cases h : p = neighbor <;> simp [h, Vertice.content]

@[simp] theorem assign_visited :
    (assign heap hop tentative neighbor p).visited = (heap p).visited := by
  unfold assign
  by_cases h : p = neighbor <;> simp [h]

theorem assign_distance : (assign heap hop tentative neighbor p).distance =
    if p = neighbor then tentative else (heap p).distance := by
  unfold assign
  by_cases h : p = neighbor <;> simp [h]

theorem assign_nextHop : (assign heap hop tentative neighbor p).nextHop =
    if p = neighbor then some hop else (heap p).nextHop := by
  unfold assign
  by_cases h : p = neighbor <;> simp [h]

end Fields

/-- What holds of the container at every statement: inside the body the entry that was bound
is in front, and the entries bound before it are the ones that were popped. -/
structure Held (H : Host Id) (s : Loop Id) : Prop where
  isHeap : IsHeap H.before s.queue
  idle : s.point = .condition → s.bound = s.popped
  busy : s.point ≠ .condition → ∃ top, s.queue.head? = some top ∧
    s.bound = s.popped ++ [top] ∧ (s.heap top.2).visited = true
  expanded : s.expanded.Sublist s.bound

def Closer (heap : Ptr → Vertice Id) (top : Int × Ptr) (neighbor : Ptr) : Prop :=
  (heap neighbor).visited = false ∧
    ((heap top.2).nextHop = none ∨ top.1 + 1 < (heap neighbor).distance)

inductive Step (H : Host Id) (s : Loop Id) : Loop Id → Prop where
  | skip {top} (point : s.point = .condition) (head : s.queue.head? = some top)
      (visited : (s.heap top.2).visited = true) :
      Step H s { s with
        heap := visit s.heap top.2
        point := .pop
        bound := s.bound ++ [top] }
  | expand {top} (point : s.point = .condition) (head : s.queue.head? = some top)
      (fresh : (s.heap top.2).visited = false) :
      Step H s { s with
        heap := visit s.heap top.2
        point := .edges (H.enumerate (visit s.heap top.2 top.2).edges)
        bound := s.bound ++ [top]
        expanded := s.expanded ++ [top] }
  | leave (point : s.point = .edges []) : Step H s { s with point := .pop }
  | pass {top e rest} (point : s.point = .edges (e :: rest)) (head : s.queue.head? = some top)
      (farther : ¬ Closer s.heap top e.2) : Step H s { s with point := .edges rest }
  | push {top e rest queue} (point : s.point = .edges (e :: rest))
      (head : s.queue.head? = some top) (closer : Closer s.heap top e.2)
      (isHeap : IsHeap H.before queue) (perm : queue.Perm ((top.1 + 1, e.2) :: s.queue))
      (kept : queue.head? = some top) :
      Step H s { s with
        heap := assign s.heap (((s.heap top.2).nextHop).getD e.2) (top.1 + 1) e.2
        queue := queue
        point := .edges rest }
  | pop {top queue} (point : s.point = .pop) (head : s.queue.head? = some top)
      (bound : s.bound = s.popped ++ [top]) (isHeap : IsHeap H.before queue)
      (perm : s.queue.Perm (top :: queue)) :
      Step H s { s with
        queue := queue
        point := .condition
        popped := s.popped ++ [top] }

section Steps
variable {H : Host Id} {A : HeapAlgorithms H.before} {s s' : Loop Id}

theorem step_cases (h : Held H s) (hstep : s.step H A = some s') : Step H s s' := by
  unfold Loop.step at hstep
  cases hpoint : s.point with
  | condition =>
    rw [hpoint] at hstep
    cases hhead : s.queue.head? with
    | none =>
      rw [hhead] at hstep
      cases hstep
    | some top =>
      rw [hhead] at hstep
      dsimp only at hstep
      split_ifs at hstep with hvisited
      · cases hstep
        exact .skip hpoint hhead hvisited
      · cases hstep
        exact .expand hpoint hhead (Bool.eq_false_iff.mpr hvisited)
  | edges rest =>
    cases rest with
    | nil =>
      rw [hpoint] at hstep
      cases hstep
      exact .leave hpoint
    | cons e rest =>
      obtain ⟨top, hhead, -⟩ := h.busy (by simp [hpoint])
      rw [hpoint] at hstep
      simp only [Loop.relax, hhead] at hstep
      split_ifs at hstep with hvisited hcloser
      · cases hstep
        exact .pass hpoint hhead fun hc => Bool.noConfusion (hvisited.symm.trans hc.1)
      · cases hstep
        have hafter : ¬ H.before (top.1 + 1, e.2) top :=
          not_before_of_lt (show top.1 < top.1 + 1 by omega)
        exact .push hpoint hhead ⟨Bool.eq_false_iff.mpr hvisited, hcloser⟩
          (HeapAlgorithms.push_isHeap _ h.isHeap) (HeapAlgorithms.push_perm _ h.isHeap)
          (HeapAlgorithms.head_push h.isHeap hhead hafter)
      · cases hstep
        exact .pass hpoint hhead fun hc => hcloser hc.2
  | pop =>
    obtain ⟨top, hhead, hbound, -⟩ := h.busy (by simp [hpoint])
    obtain ⟨rest, hpop, hheap, hperm⟩ := HeapAlgorithms.pop_spec (A := A) h.isHeap hhead
    rw [hpoint] at hstep
    simp only [hpop] at hstep
    cases hstep
    exact .pop hpoint hhead hbound hheap hperm

/-- Every statement keeps the entry that was bound in front, until it is popped. -/
theorem held_step (h : Held H s) (hstep : Step H s s') : Held H s' := by
  cases hstep with
  | @skip top point head visited =>
    refine ⟨h.isHeap, nofun, fun _ => ⟨top, head, ?_, ?_⟩, ?_⟩
    · rw [h.idle point]
    · simp [visit_visited]
    · exact h.expanded.trans (List.sublist_append_left _ _)
  | @expand top point head fresh =>
    refine ⟨h.isHeap, nofun, fun _ => ⟨top, head, ?_, ?_⟩, ?_⟩
    · rw [h.idle point]
    · simp [visit_visited]
    · exact h.expanded.append (List.Sublist.refl _)
  | leave point =>
    exact ⟨h.isHeap, nofun, fun _ => h.busy (by simp [point]), h.expanded⟩
  | pass point head farther =>
    exact ⟨h.isHeap, nofun, fun _ => h.busy (by simp [point]), h.expanded⟩
  | @push top e rest queue point head closer isHeap perm kept =>
    obtain ⟨bound, hhead, hbound, hvisited⟩ := h.busy (by simp [point])
    obtain rfl : bound = top := Option.some.inj (hhead.symm.trans head)
    exact ⟨isHeap, nofun,
      fun _ => ⟨bound, kept, hbound, (assign_visited ..).trans hvisited⟩, h.expanded⟩
  | @pop top queue point head bound isHeap perm =>
    exact ⟨isHeap, fun _ => bound, fun hp => absurd rfl hp, h.expanded⟩

end Steps

def degree (heap : Ptr → Vertice Id) (p : Ptr) : ℕ := (heap p).edges.entries.length

def Point.remaining : Point Id → ℕ
  | .edges rest => rest.length
  | _ => 0

/-- The edges of the vertices of the graph lead to vertices of the graph. -/
def Closed [DecidableEq Id] (start : Ptr → Vertice Id) (stored : Ptr → Prop) : Prop :=
  ∀ p, stored p → ∀ t q, (start p).edges.lookup t = some q → stored q

/-- Every vertex is expanded once, and an entry of the queue is paid for by an edge. `start` is
the store that the loop began with, `stored` the vertices of the graph. -/
structure Counted (start : Ptr → Vertice Id) (stored : Ptr → Prop) (s : Loop Id) : Prop where
  content : ∀ p, (s.heap p).content = (start p).content
  queued : ∀ e ∈ s.queue, stored e.2
  ahead : ∀ rest, s.point = .edges rest → ∀ e ∈ rest, stored e.2
  expanded : ∀ e ∈ s.expanded, stored e.2 ∧ (s.heap e.2).visited = true
  once : (s.expanded.map Prod.snd).Nodup
  count : s.popped.length + s.queue.length + s.point.remaining ≤
    1 + (s.expanded.map fun e => degree start e.2).sum

section Counts
variable [DecidableEq Id] {H : Host Id} {start : Ptr → Vertice Id} {stored : Ptr → Prop}
variable {s s' : Loop Id}

theorem counted_step (closed : Closed start stored)
    (h : Counted start stored s) (hstep : Step H s s') : Counted start stored s' := by
  have hcount := h.count
  have hvisited : ∀ node, ∀ e ∈ s.expanded,
      stored e.2 ∧ (visit s.heap node e.2).visited = true := by
    intro node e he
    rw [visit_visited, (h.expanded e he).2, ite_self]
    exact ⟨(h.expanded e he).1, rfl⟩
  cases hstep with
  | @skip top point head visited =>
    refine ⟨fun p => by simpa using h.content p, h.queued, nofun, hvisited top.2, h.once, ?_⟩
    rw [point] at hcount
    exact hcount
  | @expand top point head fresh =>
    have hedges : (visit s.heap top.2 top.2).edges = (start top.2).edges :=
      congrArg (fun c => c.2.2) ((visit_content ..).trans (h.content top.2))
    have htop := h.queued top (List.mem_of_head? head)
    refine ⟨fun p => by simpa using h.content p, h.queued, ?_, ?_, ?_, ?_⟩
    · rintro rest hrest ⟨t, q⟩ he
      cases hrest
      rw [hedges, mem_enumerate] at he
      exact closed top.2 htop t q he
    · intro e he
      rcases List.mem_append.mp he with he | he
      · exact hvisited top.2 e he
      · obtain rfl := List.mem_singleton.mp he
        exact ⟨htop, (visit_visited ..).trans (if_pos rfl)⟩
    · -- what was expanded before is visited, the top is not
      rw [List.map_append, List.map_singleton, List.nodup_append]
      refine ⟨h.once, List.nodup_singleton _, ?_⟩
      rintro p hp q hq rfl
      obtain ⟨e, he, hep⟩ := List.mem_map.mp hp
      have hvisited := (h.expanded e he).2
      rw [hep, List.mem_singleton.mp hq, fresh] at hvisited
      cases hvisited
    · rw [point] at hcount
      simp only [Point.remaining, Nat.add_zero] at hcount
      simp only [Point.remaining, length_enumerate, hedges, List.map_append, List.sum_append,
        List.map_singleton, List.sum_singleton, degree]
      simp only [degree] at hcount
      omega
  | leave point =>
    refine ⟨h.content, h.queued, nofun, h.expanded, h.once, ?_⟩
    rw [point] at hcount
    exact hcount
  | @pass top e rest point head farther =>
    refine ⟨h.content, h.queued, ?_, h.expanded, h.once, ?_⟩
    · rintro rest' hrest e' he
      cases hrest
      exact h.ahead _ point e' (List.mem_cons_of_mem _ he)
    · rw [point] at hcount
      simp only [Point.remaining, List.length_cons] at hcount ⊢
      omega
  | @push top e rest queue point head closer isHeap perm kept =>
    refine ⟨fun p => by simpa using h.content p, ?_, ?_, ?_, h.once, ?_⟩
    · intro e' he
      rcases List.mem_cons.mp (perm.mem_iff.mp he) with rfl | he
      · exact h.ahead _ point e List.mem_cons_self
      · exact h.queued e' he
    · rintro rest' hrest e' he
      cases hrest
      exact h.ahead _ point e' (List.mem_cons_of_mem _ he)
    · intro e' he
      rw [assign_visited]
      exact h.expanded e' he
    · rw [point] at hcount
      simp only [Point.remaining, List.length_cons, perm.length_eq] at hcount ⊢
      omega
  | @pop top queue point head bound isHeap perm =>
    refine ⟨h.content, ?_, nofun, h.expanded, h.once, ?_⟩
    · intro e he
      exact h.queued e (perm.mem_iff.mpr (List.mem_cons_of_mem _ he))
    · rw [point, perm.length_eq] at hcount
      simp only [Point.remaining, List.length_cons, List.length_append,
        List.length_nil] at hcount ⊢
      omega

end Counts

/-- The vertices are expanded by distance. Of the entries that wait for a vertex one has its
recorded distance, and none a smaller one; only the local vertex has no next hop. -/
structure Ascending (localVertice : Ptr) (s : Loop Id) : Prop where
  sorted : (s.expanded.map Prod.fst).Pairwise (· ≤ ·)
  recorded : ∀ e ∈ s.expanded, (s.heap e.2).distance = e.1
  floor : ∀ e ∈ s.expanded, ∀ e' ∈ s.queue, e.1 ≤ e'.1
  waiting : ∀ e ∈ s.queue, (s.heap e.2).visited = false →
    (s.heap e.2).distance ≤ e.1 ∧ ((s.heap e.2).distance, e.2) ∈ s.queue
  hops : ∀ e ∈ s.queue, e = (0, localVertice) ∨ 1 ≤ e.1 ∧ (s.heap e.2).nextHop ≠ none

section Ascent
variable {H : Host Id} {localVertice : Ptr} {s s' : Loop Id}

/-- The first entry of a vertex that comes up has the distance that the vertex records. -/
theorem top_recorded (held : Held H s) (h : Ascending localVertice s) {top : Int × Ptr}
    (head : s.queue.head? = some top) (fresh : (s.heap top.2).visited = false) :
    (s.heap top.2).distance = top.1 := by
  obtain ⟨hle, hmem⟩ := h.waiting top (List.mem_of_head? head) fresh
  exact le_antisymm hle (distance_le (front_before held.isHeap head hmem))

theorem closer_le (held : Held H s) (h : Ascending localVertice s) (hpoint : s.point ≠ .condition)
    {top e : Int × Ptr} (head : s.queue.head? = some top) (closer : Closer s.heap top e.2)
    (he : e ∈ s.queue) : top.1 + 1 ≤ e.1 := by
  obtain ⟨bound, hhead, -, hvisited⟩ := held.busy hpoint
  obtain rfl : bound = top := Option.some.inj (hhead.symm.trans head)
  rcases closer.2 with hnone | hless
  · rcases h.hops bound (List.mem_of_head? head) with rfl | ⟨-, hhop⟩
    · rcases h.hops e he with rfl | ⟨hle, -⟩
      · exact absurd (hvisited.symm.trans closer.1) (by simp)
      · exact hle
    · exact absurd hnone hhop
  · exact hless.le.trans (h.waiting e he closer.1).1

theorem ascending_step (held : Held H s) (visited : ∀ e ∈ s.expanded, (s.heap e.2).visited = true)
    (h : Ascending localVertice s) (hstep : Step H s s') : Ascending localVertice s' := by
  have hwaiting : ∀ node, ∀ e ∈ s.queue, (visit s.heap node e.2).visited = false →
      (s.heap e.2).distance ≤ e.1 ∧ ((s.heap e.2).distance, e.2) ∈ s.queue := by
    intro node e he hfresh
    rw [visit_visited] at hfresh
    split_ifs at hfresh
    exact h.waiting e he hfresh
  cases hstep with
  | @skip top point head visited' =>
    exact ⟨h.sorted, by simpa using h.recorded, h.floor, by simpa using hwaiting top.2,
      by simpa using h.hops⟩
  | @expand top point head fresh =>
    refine ⟨?_, ?_, ?_, by simpa using hwaiting top.2, by simpa using h.hops⟩
    · rw [List.map_append, List.map_singleton, List.pairwise_append]
      refine ⟨h.sorted, List.pairwise_singleton _ _, ?_⟩
      intro d hd d' hd'
      obtain ⟨e, he, rfl⟩ := List.mem_map.mp hd
      rw [List.mem_singleton.mp hd']
      exact h.floor e he top (List.mem_of_head? head)
    · intro e he
      rw [visit_distance]
      rcases List.mem_append.mp he with he | he
      · exact h.recorded e he
      · rw [List.mem_singleton.mp he]
        exact top_recorded held h head fresh
    · intro e he e' he'
      rcases List.mem_append.mp he with he | he
      · exact h.floor e he e' he'
      · rw [List.mem_singleton.mp he]
        exact distance_le (front_before held.isHeap head he')
  | leave point => exact ⟨h.sorted, h.recorded, h.floor, h.waiting, h.hops⟩
  | pass point head farther => exact ⟨h.sorted, h.recorded, h.floor, h.waiting, h.hops⟩
  | @push top e rest queue point head closer isHeap perm kept =>
    have hcloser : ∀ e' ∈ s.queue, e'.2 = e.2 → top.1 + 1 ≤ e'.1 := fun e' he' heq =>
      closer_le held h (by simp [point]) head (heq ▸ closer) he'
    have hmem : ∀ e', e' ∈ queue ↔ e' = (top.1 + 1, e.2) ∨ e' ∈ s.queue := fun e' => by
      rw [perm.mem_iff, List.mem_cons]
    have hpos : 0 ≤ top.1 := by
      rcases h.hops top (List.mem_of_head? head) with rfl | ⟨hle, -⟩
      · exact le_refl _
      · omega
    refine ⟨h.sorted, ?_, ?_, ?_, ?_⟩
    · intro e' he'
      -- an expanded vertex is visited, so it is not the one that was found closer
      have hne : e'.2 ≠ e.2 := fun heq => by
        have := visited e' he'
        rw [heq, closer.1] at this
        cases this
      rw [assign_distance, if_neg hne]
      exact h.recorded e' he'
    · intro x hx e' he'
      rcases (hmem e').mp he' with rfl | he'
      · have := h.floor x hx top (List.mem_of_head? head)
        omega
      · exact h.floor x hx e' he'
    · intro e' he' hfresh
      rw [assign_visited] at hfresh
      rw [assign_distance]
      rcases (hmem e').mp he' with rfl | hold
      · rw [if_pos rfl]
        exact ⟨le_refl _, he'⟩
      · split_ifs with heq
        · exact ⟨hcloser e' hold heq, (hmem _).mpr (Or.inl (by rw [heq]))⟩
        · obtain ⟨hle, hwait⟩ := h.waiting e' hold hfresh
          exact ⟨hle, (hmem _).mpr (Or.inr hwait)⟩
    · intro e' he'
      rw [assign_nextHop]
      rcases (hmem e').mp he' with rfl | hold
      · rw [if_pos rfl]
        exact Or.inr ⟨by omega, Option.some_ne_none _⟩
      · split_ifs with heq
        · have := hcloser e' hold heq
          exact Or.inr ⟨by omega, Option.some_ne_none _⟩
        · exact h.hops e' hold
  | @pop top queue point head bound isHeap perm =>
    obtain ⟨bound', hhead, -, hvisited⟩ := held.busy (by simp [point])
    obtain rfl : bound' = top := Option.some.inj (hhead.symm.trans head)
    have hmem : ∀ e ∈ queue, e ∈ s.queue := fun e he =>
      perm.mem_iff.mpr (List.mem_cons_of_mem _ he)
    refine ⟨h.sorted, h.recorded, fun e he e' he' => h.floor e he e' (hmem e' he'), ?_,
      fun e he => h.hops e (hmem e he)⟩
    intro e he hfresh
    obtain ⟨hle, hwait⟩ := h.waiting e (hmem e he) hfresh
    refine ⟨hle, ?_⟩
    -- the entry with the recorded distance is not the popped one, whose vertex is visited
    rcases List.mem_cons.mp (perm.mem_iff.mp hwait) with heq | hrest
    · rw [← heq, hfresh] at hvisited
      cases hvisited
    · exact hrest

end Ascent

end QueueLoop
