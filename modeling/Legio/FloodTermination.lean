import Legio.ChannelTopology
import Mathlib.Algebra.BigOperators.Group.Finset.Piecewise
import Mathlib.Algebra.BigOperators.Ring.Finset
import Mathlib.Algebra.Order.BigOperators.Group.Finset
import Mathlib.Data.Fintype.Prod

set_option linter.style.header false

/-! Why a flooding of versioned announcements comes to an end. `known x v` is the version of
node `v` that node `x` has heard of, 0 if none, and `news` contains every version in flight.
What nodes transmit is taken from a reserve: a node may still pass on every version newer
than the one it knows, once for each of its channels, and announce itself once for every node
it has not heard of, which all nodes may then pass on. -/
namespace FloodTermination

variable {V : Type}

def pending (known : V → V → ℕ) (news : Finset (V × ℕ)) (x : V) : ℕ :=
  (news.filter fun p => known x p.1 < p.2).card

variable [Fintype V]

def unknown (known : V → V → ℕ) : ℕ :=
  (Finset.univ.filter fun p : V × V => known p.1 p.2 = 0).card

def reserve (degree : V → ℕ) (known : V → V → ℕ) (news : Finset (V × ℕ)) : ℕ :=
  ∑ x, degree x * pending known news x + (∑ x, degree x) * unknown known

section Learning
variable {known known' : V → V → ℕ} {news : Finset (V × ℕ)} (degree : V → ℕ) {x v : V} {k : ℕ}
variable (hle : ∀ y w, known y w ≤ known' y w)
include hle

omit [Fintype V] in
theorem pending_subset (y : V) : (news.filter fun p => known' y p.1 < p.2) ⊆
    news.filter fun p => known y p.1 < p.2 := by
  intro p hp
  rw [Finset.mem_filter] at hp ⊢
  exact ⟨hp.1, (hle y p.1).trans_lt hp.2⟩

omit [Fintype V] in
theorem pending_mono (y : V) : pending known' news y ≤ pending known news y :=
  Finset.card_le_card (pending_subset hle y)

omit [Fintype V] in
theorem pending_lt (hmem : (v, k) ∈ news) (hnew : known x v < k) (hk : k ≤ known' x v) :
    pending known' news x < pending known news x := by
  apply Finset.card_lt_card
  rw [Finset.ssubset_iff_of_subset (pending_subset hle x)]
  refine ⟨(v, k), Finset.mem_filter.mpr ⟨hmem, hnew⟩, fun h => ?_⟩
  exact Nat.not_lt.mpr hk (Finset.mem_filter.mp h).2

theorem unknown_subset : (Finset.univ.filter fun p : V × V => known' p.1 p.2 = 0) ⊆
    Finset.univ.filter fun p : V × V => known p.1 p.2 = 0 := by
  intro p hp
  rw [Finset.mem_filter] at hp ⊢
  exact ⟨hp.1, Nat.le_zero.mp ((hle p.1 p.2).trans_eq hp.2)⟩

theorem unknown_mono : unknown known' ≤ unknown known :=
  Finset.card_le_card (unknown_subset hle)

theorem unknown_lt (hzero : known x v = 0) (hpos : 0 < known' x v) :
    unknown known' < unknown known := by
  apply Finset.card_lt_card
  rw [Finset.ssubset_iff_of_subset (unknown_subset hle)]
  refine ⟨(x, v), Finset.mem_filter.mpr ⟨Finset.mem_univ _, hzero⟩, fun h => ?_⟩
  exact absurd (Finset.mem_filter.mp h).2 (Nat.ne_of_gt hpos)

theorem reserve_mono : reserve degree known' news ≤ reserve degree known news := by
  apply Nat.add_le_add
  · exact Finset.sum_le_sum fun y _ => Nat.mul_le_mul_left _ (pending_mono hle y)
  · exact Nat.mul_le_mul_left _ (unknown_mono hle)

variable [DecidableEq V]

omit hle in
theorem degree_eq_sum (degree : V → ℕ) (x : V) :
    degree x = ∑ y, if y = x then degree y else 0 := by
  rw [Finset.sum_ite_eq' Finset.univ x, if_pos (Finset.mem_univ x)]

theorem sum_accept (hmem : (v, k) ∈ news) (hnew : known x v < k) (hk : k ≤ known' x v) :
    degree x + ∑ y, degree y * pending known' news y ≤ ∑ y, degree y * pending known news y := by
  rw [degree_eq_sum degree x, ← Finset.sum_add_distrib]
  refine Finset.sum_le_sum fun y _ => ?_
  by_cases hy : y = x
  · subst hy
    rw [if_pos rfl, Nat.add_comm, ← Nat.mul_succ]
    exact Nat.mul_le_mul_left _ (pending_lt hle hmem hnew hk)
  · rw [if_neg hy, Nat.zero_add]
    exact Nat.mul_le_mul_left _ (pending_mono hle y)

theorem reserve_accept (hmem : (v, k) ∈ news) (hnew : known x v < k) (hk : k ≤ known' x v) :
    degree x + reserve degree known' news ≤ reserve degree known news := by
  rw [reserve, ← Nat.add_assoc]
  exact Nat.add_le_add (sum_accept degree hle hmem hnew hk)
    (Nat.mul_le_mul_left _ (unknown_mono hle))

/-- The first version that a node takes over of another sets free what an announcement
costs. -/
theorem reserve_first (hmem : (v, k) ∈ news) (hzero : known x v = 0) (hpos : 0 < k)
    (hk : k ≤ known' x v) :
    (∑ y, degree y) + degree x + reserve degree known' news ≤ reserve degree known news := by
  have hsum := sum_accept degree hle hmem (hzero ▸ hpos) hk
  have hunknown := unknown_lt hle hzero (hpos.trans_le hk)
  have hmul : (∑ y, degree y) * (unknown known' + 1) ≤ (∑ y, degree y) * unknown known :=
    Nat.mul_le_mul_left _ hunknown
  rw [Nat.mul_succ] at hmul
  unfold reserve
  omega

theorem reserve_announce (hk : k ≤ known' x x) :
    degree x + reserve degree known' (insert (x, k) news) ≤
      reserve degree known news + ∑ y, degree y := by
  have hunknown : (∑ y, degree y) * unknown known' ≤ (∑ y, degree y) * unknown known :=
    Nat.mul_le_mul_left _ (unknown_mono hle)
  have hsum : degree x + ∑ y, degree y * pending known' (insert (x, k) news) y ≤
      ∑ y, degree y * pending known news y + ∑ y, degree y := by
    rw [degree_eq_sum degree x, ← Finset.sum_add_distrib, ← Finset.sum_add_distrib]
    refine Finset.sum_le_sum fun y _ => ?_
    by_cases hy : y = x
    · -- the announcement is no news to its own node
      subst hy
      have hsame : pending known' (insert (y, k) news) y = pending known' news y := by
        rw [pending, Finset.filter_insert, if_neg (Nat.not_lt.mpr hk)]
        rfl
      rw [if_pos rfl, hsame, Nat.add_comm]
      exact Nat.add_le_add_right (Nat.mul_le_mul_left _ (pending_mono hle y)) _
    · have hmore : pending known' (insert (x, k) news) y ≤ pending known news y + 1 := by
        refine le_trans ?_ (Nat.add_le_add_right (pending_mono hle y) 1)
        rw [pending, Finset.filter_insert]
        split_ifs
        · exact Finset.card_insert_le _ _
        · exact Nat.le_succ _
      rw [if_neg hy, Nat.zero_add, ← Nat.mul_succ]
      exact Nat.mul_le_mul_left _ hmore
  unfold reserve
  omega

end Learning

theorem reserve_le (degree : V → ℕ) (known : V → V → ℕ) (news : Finset (V × ℕ)) :
    reserve degree known news ≤ (∑ x, degree x) * (news.card + unknown known) := by
  have hsum : ∑ x, degree x * pending known news x ≤ (∑ x, degree x) * news.card := by
    rw [Finset.sum_mul]
    exact Finset.sum_le_sum fun x _ => Nat.mul_le_mul_left _ (Finset.card_filter_le _ _)
  rw [Nat.mul_add]
  exact Nat.add_le_add_right hsum _

section Transmissions
open ChannelTopology (push prefix_push)
variable {Chan α : Type} {T F : Finset Chan} {counted : Chan → α → Bool}
  {before between after : Chan → List α} {targets : Chan → Bool} {a : α}

def transmitted (T : Finset Chan) (counted : Chan → α → Bool) (before after : Chan → List α) : ℕ :=
  ∑ c ∈ T, ((after c).drop (before c).length).countP (counted c)

theorem transmitted_self : transmitted T counted before before = 0 := by
  refine Finset.sum_eq_zero fun c _ => ?_
  rw [List.drop_length, List.countP_nil]

theorem transmitted_trans (h : ∀ c, before c <+: between c) (h' : ∀ c, between c <+: after c) :
    transmitted T counted before after =
      transmitted T counted before between + transmitted T counted between after := by
  rw [transmitted, transmitted, transmitted, ← Finset.sum_add_distrib]
  refine Finset.sum_congr rfl fun c _ => ?_
  obtain ⟨first, hfirst⟩ := h c
  obtain ⟨second, hsecond⟩ := h' c
  rw [← hsecond, ← hfirst, List.append_assoc, List.drop_left, List.drop_left,
    ← List.append_assoc, List.drop_left, List.countP_append]

theorem drop_push (c : Chan) :
    (push before targets a c).drop (before c).length = if targets c then [a] else [] := by
  unfold push
  split_ifs
  · exact List.drop_left
  · exact List.drop_length

theorem transmitted_push_le [DecidableEq Chan] (hF : ∀ c, targets c = true → c ∈ F) :
    transmitted T counted before (push before targets a) ≤ F.card := by
  calc transmitted T counted before (push before targets a)
      ≤ ∑ c ∈ T, if c ∈ F then 1 else 0 := by
        refine Finset.sum_le_sum fun c _ => ?_
        rw [drop_push]
        by_cases hc : targets c = true
        · rw [if_pos hc, if_pos (hF c hc)]
          exact List.countP_le_length
        · rw [if_neg hc, List.countP_nil]
          exact Nat.zero_le _
    _ = (T.filter fun c => c ∈ F).card := (Finset.card_filter _ T).symm
    _ ≤ F.card := Finset.card_le_card fun c hc => (Finset.mem_filter.mp hc).2

theorem transmitted_push_other (h : ∀ c, counted c a = false) :
    transmitted T counted before (push before targets a) = 0 := by
  refine Finset.sum_eq_zero fun c _ => ?_
  rw [drop_push]
  split_ifs
  · rw [List.countP_singleton, h, if_neg Bool.false_ne_true]
  · rfl

end Transmissions

end FloodTermination
