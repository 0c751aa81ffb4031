import Mathlib.Data.List.Basic
import Mathlib.Data.Nat.Basic
import Mathlib.Order.Basic

set_option linter.style.header false

/-! Channels with two sides and their queues, and walks along a relation between nodes. -/
namespace ChannelTopology

variable {V Chan : Type}

/-- Every side of a channel belongs to a node and has the other side for its peer. -/
structure Cabling (V Chan : Type) where
  owner : Chan → V
  peer : Chan → Chan
  peer_peer : ∀ c, peer (peer c) = c

def Cabling.remote (N : Cabling V Chan) (c : Chan) : V := N.owner (N.peer c)

@[simp] theorem Cabling.remote_peer (N : Cabling V Chan) (c : Chan) :
    N.remote (N.peer c) = N.owner c := by
  rw [Cabling.remote, N.peer_peer]

section Queues
variable {α β : Type} {queue : Chan → List α} {targets : Chan → Bool} {a b : α} {c : Chan}

def push (queue : Chan → List α) (targets : Chan → Bool) (a : α) : Chan → List α :=
  fun c => if targets c then queue c ++ [a] else queue c

theorem mem_push : b ∈ push queue targets a c ↔ b ∈ queue c ∨ targets c = true ∧ b = a := by
  unfold push
  by_cases h : targets c = true <;> simp [h]

theorem mem_push_of_mem (targets : Chan → Bool) (a : α) (h : b ∈ queue c) :
    b ∈ push queue targets a c :=
  mem_push.mpr (Or.inl h)

theorem push_of_not (a : α) (h : targets c ≠ true) : push queue targets a c = queue c := if_neg h

theorem prefix_push (a : α) (c : Chan) : queue c <+: push queue targets a c := by
  unfold push
  split_ifs
  · exact List.prefix_append _ _
  · exact List.prefix_rfl

theorem push_ne_nil (h : push queue targets a c ≠ []) : queue c ≠ [] ∨ targets c = true := by
  by_cases hc : targets c = true
  · exact Or.inr hc
  · rw [push_of_not a hc] at h
    exact Or.inl h

theorem map_push (f : α → β) (c : Chan) :
    (push queue targets a c).map f = push (fun c => (queue c).map f) targets (f a) c := by
  unfold push
  split_ifs
  · rw [List.map_append]
    rfl
  · rfl

theorem filterMap_push {f : α → Option β} {p : β} (h : ∀ c, targets c = true → f a = some p)
    (c : Chan) : (push queue targets a c).filterMap f =
      push (fun c => (queue c).filterMap f) targets p c := by
  unfold push
  split_ifs with hc
  · rw [List.filterMap_append, List.filterMap_cons_some (h c hc), List.filterMap_nil]
  · rfl

theorem filterMap_push_none {f : α → Option β} (h : ∀ c, targets c = true → f a = none)
    (c : Chan) : (push queue targets a c).filterMap f = (queue c).filterMap f := by
  unfold push
  split_ifs with hc
  · rw [List.filterMap_append, List.filterMap_cons_none (h c hc), List.filterMap_nil,
      List.append_nil]
  · rfl

end Queues

inductive Walk (R : V → V → Prop) : ℕ → V → V → Prop where
  | nil (u) : Walk R 0 u u
  | cons {n u v w} : R u v → Walk R n v w → Walk R (n + 1) u w

structure Distance (R : V → V → Prop) (n : ℕ) (u v : V) : Prop where
  walk : Walk R n u v
  shortest : ∀ k, Walk R k u v → n ≤ k

variable {R : V → V → Prop} {n : ℕ} {u v w : V}

theorem walk_zero (h : Walk R 0 u v) : u = v := by
  cases h
  rfl

theorem walk_one (h : Walk R 1 u v) : R u v := by
  cases h with
  | cons hR hw =>
    cases hw
    exact hR

theorem Distance.unique {k : ℕ} (h : Distance R n u v) (h' : Distance R k u v) : n = k :=
  Nat.le_antisymm (h.shortest k h'.walk) (h'.shortest n h.walk)

theorem distance_self (u : V) : Distance R 0 u u := ⟨.nil u, fun _ _ => Nat.zero_le _⟩

theorem Distance.zero_iff (h : Distance R n u v) : n = 0 ↔ u = v := by
  constructor
  · rintro rfl
    exact walk_zero h.walk
  · rintro rfl
    exact h.unique (distance_self u)

theorem distance_one (hne : u ≠ v) (hR : R u v) : Distance R 1 u v := by
  refine ⟨.cons hR (.nil v), fun k hk => ?_⟩
  cases hk with
  | nil => exact absurd rfl hne
  | cons _ _ => omega

theorem Distance.le_one_iff (h : Distance R n u v) : n ≤ 1 ↔ u = v ∨ R u v := by
  constructor
  · intro hn
    obtain rfl | rfl : n = 0 ∨ n = 1 := by omega
    · exact Or.inl (walk_zero h.walk)
    · exact Or.inr (walk_one h.walk)
  · rintro (rfl | hR)
    · exact h.shortest 0 (.nil u) |>.trans (Nat.zero_le 1)
    · exact h.shortest 1 (.cons hR (.nil v))

theorem distance_two (hne : u ≠ w) (hfar : ¬ R u w) (h₁ : R u v) (h₂ : R v w) :
    Distance R 2 u w := by
  refine ⟨.cons h₁ (.cons h₂ (.nil w)), fun k hk => ?_⟩
  cases hk with
  | nil => exact absurd rfl hne
  | cons hR hw =>
    cases hw with
    | nil => exact absurd hR hfar
    | cons _ _ => omega

end ChannelTopology
