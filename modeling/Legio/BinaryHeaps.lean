import Mathlib.Data.List.Perm.Basic
import Mathlib.Order.Defs.Unbundled

set_option linter.style.header false

/-! Heaps in a sequence container: the order of the entries along the tree of positions, what
the two heap algorithms of a standard library promise about it, and the priority queue that
is built on them. -/
namespace BinaryHeaps

variable {α : Type} {before : α → α → Prop}

def Ordered (before : α → α → Prop) (l : List α) (i j : ℕ) : Prop :=
  ∀ a b, l[i]? = some a → l[j]? = some b → before a b

def IsHeap (before : α → α → Prop) (l : List α) : Prop :=
  ∀ i, 0 < i → Ordered before l ((i - 1) / 2) i

theorem isHeap_nil : IsHeap before [] := fun _ _ _ _ h => by simp at h

theorem front_before [Std.Refl before] [IsTrans α before] {l : List α} (h : IsHeap before l)
    {top a : α} (htop : l.head? = some top) (ha : a ∈ l) : before top a := by
  obtain ⟨i, hi⟩ := List.mem_iff_getElem?.mp ha
  clear ha
  induction i using Nat.strongRecOn generalizing a with
  | ind i ih =>
    rcases Nat.eq_zero_or_pos i with rfl | hpos
    · rw [← List.head?_eq_getElem?, htop] at hi
      cases hi
      exact Std.Refl.refl _
    · have hlt : (i - 1) / 2 < i := by omega
      have hlen : (i - 1) / 2 < l.length := by
        have := (List.getElem?_eq_some_iff.mp hi).1
        omega
      have hparent := List.getElem?_eq_getElem hlen
      exact IsTrans.trans _ _ _ (ih _ hlt hparent) (h i hpos _ _ hparent hi)

/-- What the standard says of `push_heap`, on a range that is a heap up to its last entry, and
of `pop_heap`, on a heap that is not empty. -/
structure HeapAlgorithms (before : α → α → Prop) where
  pushHeap : List α → List α
  popHeap : List α → List α
  pushHeap_spec : ∀ (l : List α) (a : α), IsHeap before l →
    IsHeap before (pushHeap (l ++ [a])) ∧ (pushHeap (l ++ [a])).Perm (l ++ [a])
  popHeap_spec : ∀ (l : List α) (a : α), IsHeap before (a :: l) →
    ∃ rest, popHeap (a :: l) = rest ++ [a] ∧ IsHeap before rest ∧ rest.Perm l

namespace HeapAlgorithms
variable (A : HeapAlgorithms before)

def push (queue : List α) (a : α) : List α := A.pushHeap (queue ++ [a])

def pop (queue : List α) : Option (List α × α) :=
  match queue with
  | [] => none
  | _ :: _ =>
    let queue := A.popHeap queue
    queue.getLast?.map fun removed => (queue.dropLast, removed)

variable {A}

theorem push_isHeap {queue : List α} (a : α) (h : IsHeap before queue) :
    IsHeap before (A.push queue a) := (A.pushHeap_spec queue a h).1

theorem push_perm {queue : List α} (a : α) (h : IsHeap before queue) :
    (A.push queue a).Perm (a :: queue) :=
  (A.pushHeap_spec queue a h).2.trans (List.perm_append_singleton a queue)

theorem mem_push {queue : List α} {a b : α} (h : IsHeap before queue) :
    b ∈ A.push queue a ↔ b = a ∨ b ∈ queue := by
  rw [(push_perm a h).mem_iff, List.mem_cons]

theorem head_push [Std.Refl before] [IsTrans α before] [Std.Antisymm before] {queue : List α}
    {top a : α} (h : IsHeap before queue) (htop : queue.head? = some top) (ha : ¬ before a top) :
    (A.push queue a).head? = some top := by
  have hmem : top ∈ A.push queue a := (mem_push h).mpr (Or.inr (List.mem_of_head? htop))
  obtain ⟨front, hfront⟩ : ∃ front, (A.push queue a).head? = some front := by
    rw [← Option.isSome_iff_exists, List.isSome_head?]
    exact List.ne_nil_of_mem hmem
  have hbefore := front_before (push_isHeap a h) hfront hmem
  rcases (mem_push h).mp (List.mem_of_head? hfront) with rfl | hold
  · exact absurd hbefore ha
  · rw [hfront, Std.Antisymm.antisymm _ _ hbefore (front_before h htop hold)]

theorem pop_spec {queue : List α} {top : α} (h : IsHeap before queue)
    (htop : queue.head? = some top) :
    ∃ rest, A.pop queue = some (rest, top) ∧ IsHeap before rest ∧ queue.Perm (top :: rest) := by
  obtain ⟨l, rfl⟩ := List.head?_eq_some_iff.mp htop
  obtain ⟨rest, hpop, hheap, hperm⟩ := A.popHeap_spec l top h
  refine ⟨rest, ?_, hheap, hperm.symm.cons top⟩
  simp only [pop, hpop, List.getLast?_concat, Option.map_some, List.dropLast_concat]

end HeapAlgorithms

def exchange (i j : ℕ) (l : List α) : List α :=
  match l[i]?, l[j]? with
  | some a, some b => (l.set i b).set j a
  | _, _ => l

theorem length_exchange (i j : ℕ) (l : List α) : (exchange i j l).length = l.length := by
  unfold exchange
  split
  · rw [List.length_set, List.length_set]
  · rfl

theorem exchange_perm (i j : ℕ) (l : List α) : (exchange i j l).Perm l := by
  unfold exchange
  split
  case h_1 a b ha hb =>
    obtain ⟨hi, rfl⟩ := List.getElem?_eq_some_iff.mp ha
    obtain ⟨hj, rfl⟩ := List.getElem?_eq_some_iff.mp hb
    exact List.set_set_perm hi hj
  case h_2 => exact List.Perm.refl l

theorem getElem?_exchange {i j : ℕ} {l : List α} {a b : α} (ha : l[i]? = some a)
    (hb : l[j]? = some b) (k : ℕ) :
    (exchange i j l)[k]? = if k = j then some a else if k = i then some b else l[k]? := by
  obtain ⟨hi, -⟩ := List.getElem?_eq_some_iff.mp ha
  obtain ⟨hj, -⟩ := List.getElem?_eq_some_iff.mp hb
  simp only [exchange, ha, hb, List.getElem?_set, List.length_set]
  split_ifs <;> grind

section Sift
variable (before) [DecidableRel before]

def siftUp (l : List α) (i : ℕ) : List α :=
  if 0 < i then
    match l[(i - 1) / 2]?, l[i]? with
    | some parent, some a =>
      if before parent a then l else siftUp (exchange ((i - 1) / 2) i l) ((i - 1) / 2)
    | _, _ => l
  else l
termination_by i
decreasing_by omega

def firstChild (l : List α) (i : ℕ) : Option ℕ :=
  match l[2 * i + 1]?, l[2 * i + 2]? with
  | some a, some b => if before a b then some (2 * i + 1) else some (2 * i + 2)
  | some _, none => some (2 * i + 1)
  | none, _ => none

theorem firstChild_lt {l : List α} {i c : ℕ} (h : firstChild before l i = some c) :
    i < c ∧ c < l.length := by
  unfold firstChild at h
  split at h
  case h_1 a b ha hb =>
    have hlen := (List.getElem?_eq_some_iff.mp hb).1
    split_ifs at h <;> cases h <;> omega
  case h_2 a ha hb =>
    have hlen := (List.getElem?_eq_some_iff.mp ha).1
    cases h
    omega
  case h_3 => cases h

theorem firstChild_none {l : List α} {i : ℕ} (h : firstChild before l i = none) :
    l.length ≤ 2 * i + 1 := by
  unfold firstChild at h
  split at h
  case h_1 => split_ifs at h
  case h_2 => cases h
  case h_3 hnone => exact List.getElem?_eq_none_iff.mp hnone

def siftDown (l : List α) (i : ℕ) : List α :=
  match hc : firstChild before l i with
  | none => l
  | some c =>
    have := firstChild_lt before hc
    match l[i]?, l[c]? with
    | some a, some child =>
      if before a child then l else siftDown (exchange i c l) c
    | _, _ => l
termination_by l.length - i
decreasing_by
  rw [length_exchange]
  omega

theorem siftUp_perm (l : List α) (i : ℕ) : (siftUp before l i).Perm l := by
  fun_induction siftUp before l i with
  | case1 => exact List.Perm.refl _
  | case2 l i _ parent a _ _ _ ih => exact ih.trans (exchange_perm _ _ l)
  | case3 => exact List.Perm.refl _
  | case4 => exact List.Perm.refl _

theorem siftDown_perm (l : List α) (i : ℕ) : (siftDown before l i).Perm l := by
  fun_induction siftDown before l i with
  | case1 => exact List.Perm.refl _
  | case2 => exact List.Perm.refl _
  | case3 l i c _ _ a child _ _ _ ih => exact ih.trans (exchange_perm _ _ l)
  | case4 => exact List.Perm.refl _

end Sift

section Order

/-- Only the entry at `i` may come before its parent, and its children do not. -/
structure ReadyUp (before : α → α → Prop) (l : List α) (i : ℕ) : Prop where
  rest : ∀ k, 0 < k → k ≠ i → Ordered before l ((k - 1) / 2) k
  grand : 0 < i → ∀ k, 0 < k → (k - 1) / 2 = i → Ordered before l ((i - 1) / 2) k

/-- Only the children of the entry at `i` may come before it, and not before its parent. -/
structure ReadyDown (before : α → α → Prop) (l : List α) (i : ℕ) : Prop where
  rest : ∀ k, 0 < k → (k - 1) / 2 ≠ i → Ordered before l ((k - 1) / 2) k
  grand : 0 < i → ∀ k, 0 < k → (k - 1) / 2 = i → Ordered before l ((i - 1) / 2) k

variable {l : List α} {i : ℕ}

theorem readyUp_exchange [IsTrans α before] {parent a : α} (h : ReadyUp before l i) (hi : 0 < i)
    (hparent : l[(i - 1) / 2]? = some parent) (ha : l[i]? = some a) (hbefore : before a parent) :
    ReadyUp before (exchange ((i - 1) / 2) i l) ((i - 1) / 2) := by
  have hread := getElem?_exchange hparent ha
  constructor
  · intro k hk hne x y hx hy
    rw [hread] at hx hy
    rw [if_neg hne] at hy
    by_cases hki : k = i
    · subst hki
      rw [if_neg (by omega), if_pos rfl] at hx
      rw [if_pos rfl] at hy
      cases hx
      cases hy
      exact hbefore
    · rw [if_neg hki] at hy
      by_cases hchild : (k - 1) / 2 = i
      · rw [if_pos hchild] at hx
        cases hx
        exact h.grand hi k hk hchild _ _ hparent hy
      · rw [if_neg hchild] at hx
        split_ifs at hx with hsibling
        · cases hx
          exact IsTrans.trans _ _ _ hbefore (h.rest k hk hki _ _ (hsibling ▸ hparent) hy)
        · exact h.rest k hk hki _ _ hx hy
  · intro hpos k hk hchild x y hx hy
    have habove := h.rest ((i - 1) / 2) hpos (by omega)
    rw [hread, if_neg (by omega), if_neg (by omega)] at hx
    have hfirst := habove _ _ hx hparent
    rw [hread] at hy
    split_ifs at hy with hki hkp
    · cases hy
      exact hfirst
    · omega
    · exact IsTrans.trans _ _ _ hfirst (h.rest k hk hki _ _ (hchild ▸ hparent) hy)

theorem readyDown_exchange {c : ℕ} {a child : α} (h : ReadyDown before l i) (hc : 0 < c)
    (hchild : (c - 1) / 2 = i) (ha : l[i]? = some a) (hcChild : l[c]? = some child)
    (hbefore : before child a) (hfirst : ∀ k, 0 < k → (k - 1) / 2 = i → Ordered before l c k) :
    ReadyDown before (exchange i c l) c := by
  have hread := getElem?_exchange ha hcChild
  constructor
  · intro k hk hne x y hx hy
    rw [hread] at hx hy
    rw [if_neg hne] at hx
    by_cases hkc : k = c
    · subst hkc
      rw [if_pos hchild] at hx
      rw [if_pos rfl] at hy
      cases hx
      cases hy
      exact hbefore
    · rw [if_neg hkc] at hy
      by_cases hki : k = i
      · subst hki
        rw [if_neg (by omega)] at hx
        rw [if_pos rfl] at hy
        cases hy
        exact h.grand hk c hc hchild _ _ hx hcChild
      · rw [if_neg hki] at hy
        split_ifs at hx with hsibling
        · cases hx
          exact hfirst k hk hsibling _ _ hcChild hy
        · exact h.rest k hk hsibling _ _ hx hy
  · intro _ k hk hgrand x y hx hy
    rw [hread, hchild, if_neg (by omega), if_pos rfl] at hx
    rw [hread, if_neg (by omega), if_neg (by omega)] at hy
    cases hx
    exact h.rest k hk (by omega) _ _ (hgrand ▸ hcChild) hy

theorem not_before [Std.Total before] {a b : α} (h : ¬ before a b) : before b a :=
  (Std.Total.total a b).resolve_left h

variable [DecidableRel before] [Std.Total before] [IsTrans α before]

theorem siftUp_isHeap (h : ReadyUp before l i) (hi : i < l.length) :
    IsHeap before (siftUp before l i) := by
  fun_induction siftUp before l i with
  | case1 l i hpos parent a ha hparent hbefore =>
    intro k hk
    by_cases hki : k = i
    · subst hki
      intro x y hx hy
      rw [hparent] at hx
      rw [ha] at hy
      cases hx
      cases hy
      exact hbefore
    · exact h.rest k hk hki
  | case2 l i hpos parent a ha hparent hbefore ih =>
    have hlen := length_exchange ((i - 1) / 2) i l
    exact ih (readyUp_exchange h hpos hparent ha (not_before hbefore)) (by omega)
  | case3 l i hpos hnone =>
    exact absurd (List.getElem?_eq_getElem hi)
      (hnone _ _ (List.getElem?_eq_getElem (by omega)))
  | case4 l i hzero =>
    intro k hk
    exact h.rest k hk (by omega)

omit [IsTrans α before] in
/-- The first child stands below `i`, and no other entry below `i` comes before it. -/
theorem firstChild_spec {c : ℕ} (h : firstChild before l i = some c) :
    0 < c ∧ (c - 1) / 2 = i ∧ ∀ k, 0 < k → (k - 1) / 2 = i → Ordered before l c k := by
  have hchildren : ∀ k, 0 < k → (k - 1) / 2 = i → k = 2 * i + 1 ∨ k = 2 * i + 2 := by
    intro k hk hki
    omega
  unfold firstChild at h
  split at h
  case h_1 a b ha hb =>
    split_ifs at h with hbefore
    · cases h
      refine ⟨by omega, by omega, fun k hk hki x y hx hy => ?_⟩
      rw [ha] at hx
      cases hx
      rcases hchildren k hk hki with rfl | rfl
      · rw [ha] at hy
        cases hy
        exact Std.Refl.refl _
      · rw [hb] at hy
        cases hy
        exact hbefore
    · cases h
      refine ⟨by omega, by omega, fun k hk hki x y hx hy => ?_⟩
      rw [hb] at hx
      cases hx
      rcases hchildren k hk hki with rfl | rfl
      · rw [ha] at hy
        cases hy
        exact not_before hbefore
      · rw [hb] at hy
        cases hy
        exact Std.Refl.refl _
  case h_2 a ha hb =>
    cases h
    refine ⟨by omega, by omega, fun k hk hki x y hx hy => ?_⟩
    rcases hchildren k hk hki with rfl | rfl
    · rw [hx] at hy
      cases hy
      exact Std.Refl.refl _
    · rw [hb] at hy
      cases hy
  case h_3 => cases h

theorem siftDown_isHeap (h : ReadyDown before l i) : IsHeap before (siftDown before l i) := by
  fun_induction siftDown before l i with
  | case1 l i hnone =>
    intro k hk x y hx hy
    by_cases hki : (k - 1) / 2 = i
    · -- `k` stands at or behind the place of a first child
      have hlen := firstChild_none before hnone
      have hk' := (List.getElem?_eq_some_iff.mp hy).1
      omega
    · exact h.rest k hk hki _ _ hx hy
  | case2 l i c hc _ a child hchild ha hbefore =>
    obtain ⟨hpos, hci, hfirst⟩ := firstChild_spec hc
    intro k hk x y hx hy
    by_cases hki : (k - 1) / 2 = i
    · rw [hki, ha] at hx
      cases hx
      exact IsTrans.trans _ _ _ hbefore (hfirst k hk hki _ _ hchild hy)
    · exact h.rest k hk hki _ _ hx hy
  | case3 l i c hc _ a child hchild ha hbefore ih =>
    obtain ⟨hpos, hci, hfirst⟩ := firstChild_spec hc
    exact ih (readyDown_exchange h hpos hci ha hchild (not_before hbefore) hfirst)
  | case4 l i c hc hlt hnone =>
    exact absurd (List.getElem?_eq_getElem hlt.2)
      (hnone _ _ (List.getElem?_eq_getElem (by omega)))

end Order

section Algorithms
variable (before) [DecidableRel before] [Std.Total before] [IsTrans α before]

def pushHeap (l : List α) : List α := siftUp before l (l.length - 1)

def popHeap : List α → List α
  | [] => []
  | a :: l =>
    match l.getLast? with
    | none => [a]
    | some last => siftDown before (last :: l.dropLast) 0 ++ [a]

theorem pushHeap_isHeap {l : List α} (a : α) (h : IsHeap before l) :
    IsHeap before (pushHeap before (l ++ [a])) := by
  have hlen : (l ++ [a]).length - 1 = l.length := by simp
  have hbound : ∀ k y, (l ++ [a])[k]? = some y → k ≤ l.length := by
    intro k y hy
    have := (List.getElem?_eq_some_iff.mp hy).1
    rw [List.length_append, List.length_singleton] at this
    omega
  rw [pushHeap, hlen]
  apply siftUp_isHeap
  · constructor
    · intro k hk hne x y hx hy
      have hle := hbound k y hy
      rw [List.getElem?_append_left (by omega)] at hx hy
      exact h k hk x y hx hy
    · intro _ k hk hchild x y _ hy
      have hle := hbound k y hy
      omega
  · simp

theorem popHeap_spec (l : List α) (a : α) (h : IsHeap before (a :: l)) :
    ∃ rest, popHeap before (a :: l) = rest ++ [a] ∧ IsHeap before rest ∧ rest.Perm l := by
  rw [popHeap]
  cases hlast : l.getLast? with
  | none =>
    rw [List.getLast?_eq_none_iff.mp hlast]
    exact ⟨[], rfl, isHeap_nil, List.Perm.refl _⟩
  | some last =>
    obtain ⟨initial, rfl⟩ := List.getLast?_eq_some_iff.mp hlast
    rw [List.dropLast_concat]
    refine ⟨_, rfl, siftDown_isHeap ⟨?_, fun hpos => absurd hpos (Nat.lt_irrefl 0)⟩,
      (siftDown_perm before _ 0).trans (List.perm_append_singleton last initial).symm⟩
    intro k hk hne x y hx hy
    -- away from the first position both ranges hold the same entries
    have hread : ∀ j z, (last :: initial)[j + 1]? = some z →
        (a :: (initial ++ [last]))[j + 1]? = some z := by
      intro j z hz
      rw [List.getElem?_cons_succ] at hz ⊢
      rw [List.getElem?_append_left (List.getElem?_eq_some_iff.mp hz).1]
      exact hz
    obtain ⟨j, hj⟩ : ∃ j, (k - 1) / 2 = j + 1 := Nat.exists_eq_succ_of_ne_zero hne
    obtain ⟨i, rfl⟩ : ∃ i, k = i + 1 := Nat.exists_eq_succ_of_ne_zero (by omega)
    rw [hj] at hx
    exact h (i + 1) hk x y (hj ▸ hread j x hx) (hread i y hy)

def sifting : HeapAlgorithms before where
  pushHeap := pushHeap before
  popHeap := popHeap before
  pushHeap_spec _ a h := ⟨pushHeap_isHeap before a h, siftUp_perm before _ _⟩
  popHeap_spec := popHeap_spec before

end Algorithms

example : (sifting (· ≤ · : ℕ → ℕ → Prop)).push [1, 3, 2] 2 = [1, 2, 2, 3] := by decide +kernel

end BinaryHeaps
