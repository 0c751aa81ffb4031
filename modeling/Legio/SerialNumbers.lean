import Mathlib.Data.List.Basic
import Mathlib.Logic.Function.Basic

set_option linter.style.header false

/-! Serial numbers: unbounded indices of which only the residue is sent. Two indices no
farther apart than a window below half the modulus are ordered by their residues alone.
The unbounded replay filter, per source, accepts what exceeds everything it has seen. Tables
that keep the greatest value presented for each key do not depend on the order or the
multiplicity in which the values came. -/
namespace SerialNumbers

/-- The way forward from `y` to `x` on a circle of `M` numbers. -/
def forward (M x y : ℕ) : ℕ := (M - y % M + x % M) % M

variable {M W x y : ℕ}

theorem forward_of_le (h : y ≤ x) (hd : x - y < M) : forward M x y = x - y := by
  have hM : y % M < M := Nat.mod_lt y (by omega)
  have hsum : M - y % M + x = M * (y / M + 1) + (x - y) := by
    have := Nat.div_add_mod y M
    rw [Nat.mul_succ]
    omega
  calc forward M x y = (M - y % M + x) % M := by simp [forward]
    _ = (x - y) % M := by rw [hsum, Nat.mul_add_mod]
    _ = x - y := Nat.mod_eq_of_lt hd

theorem forward_of_gt (h : x < y) (hd : y - x < M) : forward M x y = M - (y - x) := by
  have hM : y % M < M := Nat.mod_lt y (by omega)
  have hsum : M - y % M + x = M * (y / M) + (M - (y - x)) := by
    have := Nat.div_add_mod y M
    omega
  calc forward M x y = (M - y % M + x) % M := by simp [forward]
    _ = (M - (y - x)) % M := by rw [hsum, Nat.mul_add_mod]
    _ = M - (y - x) := Nat.mod_eq_of_lt (by omega)

theorem forward_within_iff (hM : 2 * W < M) (hxy : x ≤ y + W) (hyx : y ≤ x + W) :
    (0 < forward M x y ∧ forward M x y ≤ W) ↔ y < x := by
  rcases Nat.lt_or_ge x y with h | h
  · rw [forward_of_gt h (by omega)]
    omega
  · rw [forward_of_le h (by omega)]
    omega

theorem forward_eq_zero_iff (hM : 2 * W < M) (hxy : x ≤ y + W) (hyx : y ≤ x + W) :
    forward M x y = 0 ↔ x = y := by
  rcases Nat.lt_or_ge x y with h | h
  · rw [forward_of_gt h (by omega)]
    omega
  · rw [forward_of_le h (by omega)]
    omega

section Filter
variable {S : Type} [DecidableEq S]

def accepts (highest : S → Option ℕ) (m : S × ℕ) : Bool :=
  match highest m.1 with
  | none => true
  | some k => decide (k < m.2)

def record (highest : S → Option ℕ) (m : S × ℕ) : S → Option ℕ :=
  if accepts highest m then Function.update highest m.1 (some m.2) else highest

def highestOf (run : List (S × ℕ)) : S → Option ℕ := run.foldl record fun _ => none

/-- The table entry of a source is the greatest index presented under its name. -/
structure Greatest (highest : S → Option ℕ) (past : List (S × ℕ)) : Prop where
  presented : ∀ {s k}, highest s = some k → (s, k) ∈ past
  bound : ∀ {s j}, (s, j) ∈ past → ∃ k, highest s = some k ∧ j ≤ k

theorem greatest_record {highest : S → Option ℕ} {past : List (S × ℕ)}
    (h : Greatest highest past) (m : S × ℕ) : Greatest (record highest m) (past ++ [m]) := by
  constructor
  · intro s k hk
    unfold record at hk
    split_ifs at hk with ha
    · by_cases hs : s = m.1
      · subst hs
        rw [Function.update_self, Option.some.injEq] at hk
        simp [← hk]
      · rw [Function.update_of_ne hs] at hk
        exact List.mem_append_left _ (h.presented hk)
    · exact List.mem_append_left _ (h.presented hk)
  · intro s j hj
    unfold record
    rcases List.mem_append.mp hj with hj | hj
    · obtain ⟨k, hk, hjk⟩ := h.bound hj
      split_ifs with ha
      · by_cases hs : s = m.1
        · subst hs
          refine ⟨m.2, Function.update_self .., ?_⟩
          simp only [accepts, hk, decide_eq_true_eq] at ha
          omega
        · exact ⟨k, by rw [Function.update_of_ne hs]; exact hk, hjk⟩
      · exact ⟨k, hk, hjk⟩
    · obtain rfl : (s, j) = m := List.mem_singleton.mp hj
      split_ifs with ha
      · exact ⟨j, Function.update_self .., Nat.le_refl j⟩
      · unfold accepts at ha
        cases hk : highest s with
        | none => simp [hk] at ha
        | some k =>
          refine ⟨k, rfl, ?_⟩
          simp only [hk, decide_eq_true_eq] at ha
          omega

theorem greatest_foldl (run : List (S × ℕ)) : ∀ {highest past}, Greatest highest past →
    Greatest (run.foldl record highest) (past ++ run) := by
  induction run with
  | nil => intro highest past h; simpa using h
  | cons m run ih =>
    intro highest past h
    have := ih (greatest_record h m)
    simpa using this

theorem greatest_highestOf (run : List (S × ℕ)) : Greatest (highestOf run) run := by
  have h : Greatest (fun _ : S => none) [] := by
    constructor
    · intro s k hk; cases hk
    · intro s j hj; cases hj
  simpa [highestOf] using greatest_foldl run h

omit [DecidableEq S] in
/-- The filter accepts an index exactly when it exceeds all earlier ones of its source. -/
theorem accepts_iff {highest : S → Option ℕ} {past : List (S × ℕ)} (h : Greatest highest past)
    (m : S × ℕ) : accepts highest m = true ↔ ∀ j, (m.1, j) ∈ past → j < m.2 := by
  unfold accepts
  cases hk : highest m.1 with
  | none =>
    simp only [true_iff]
    intro j hj
    obtain ⟨k, hk', _⟩ := h.bound hj
    rw [hk] at hk'
    cases hk'
  | some k =>
    simp only [decide_eq_true_eq]
    constructor
    · intro hlt j hj
      obtain ⟨k', hk', hjk⟩ := h.bound hj
      rw [hk, Option.some.injEq] at hk'
      omega
    · intro hall
      exact hall k (h.presented hk)

end Filter

end SerialNumbers

namespace LatestValues

variable {α κ : Type*} (key : α → κ) (rank : α → ℕ)

/-- The entry for `k` is the greatest value of the history under that key, if any. -/
structure Latest (table : κ → Option α) (k : κ) (history : List α) : Prop where
  presented : ∀ {a}, table k = some a → a ∈ history ∧ key a = k
  bound : ∀ {a}, a ∈ history → key a = k → ∃ b, table k = some b ∧ rank a ≤ rank b

def Ranked (history : List α) : Prop :=
  ∀ a ∈ history, ∀ b ∈ history, key a = key b → rank a = rank b → a = b

variable {key rank} {table table' : κ → Option α} {k : κ} {history : List α} {a : α}

theorem latest_nil (h : table k = none) : Latest key rank table k [] := by
  constructor
  · intro a ha
    rw [h] at ha
    cases ha
  · intro a ha
    cases ha

theorem latest_kept (h : Latest key rank table k history) (htable : table' k = table k)
    (ha : key a = k → ∃ b, table k = some b ∧ rank a ≤ rank b) :
    Latest key rank table' k (history ++ [a]) := by
  constructor
  · intro b hb
    rw [htable] at hb
    exact ⟨List.mem_append_left _ (h.presented hb).1, (h.presented hb).2⟩
  · intro b hb hk
    rw [htable]
    rcases List.mem_append.mp hb with hb | hb
    · exact h.bound hb hk
    · obtain rfl := List.mem_singleton.mp hb
      exact ha hk

theorem latest_replaced (h : Latest key rank table k history) (hk : key a = k)
    (htable : table' k = some a) (ha : ∀ b, table k = some b → rank b ≤ rank a) :
    Latest key rank table' k (history ++ [a]) := by
  constructor
  · intro b hb
    rw [htable, Option.some.injEq] at hb
    subst hb
    exact ⟨by simp, hk⟩
  · intro b hb hbk
    refine ⟨a, htable, ?_⟩
    rcases List.mem_append.mp hb with hb | hb
    · obtain ⟨c, hc, hbc⟩ := h.bound hb hbk
      exact Nat.le_trans hbc (ha c hc)
    · obtain rfl := List.mem_singleton.mp hb
      exact Nat.le_refl _

theorem latest_iff (h : Latest key rank table k history) (hr : Ranked key rank history) :
    table k = some a ↔
      a ∈ history ∧ key a = k ∧ ∀ b ∈ history, key b = k → rank b ≤ rank a := by
  constructor
  · intro ha
    obtain ⟨hmem, hk⟩ := h.presented ha
    refine ⟨hmem, hk, ?_⟩
    intro b hb hbk
    obtain ⟨c, hc, hbc⟩ := h.bound hb hbk
    rw [ha, Option.some.injEq] at hc
    subst hc
    exact hbc
  · rintro ⟨hmem, hk, hmax⟩
    obtain ⟨c, hc, hac⟩ := h.bound hmem hk
    obtain ⟨hcmem, hck⟩ := h.presented hc
    have hca := hmax c hcmem hck
    rw [hc, hr a hmem c hcmem (hk.trans hck.symm) (Nat.le_antisymm hac hca)]

theorem latest_agree {history' : List α} (h : Latest key rank table k history)
    (h' : Latest key rank table' k history') (hr : Ranked key rank history)
    (hsame : ∀ a, a ∈ history ↔ a ∈ history') : table k = table' k := by
  have hr' : Ranked key rank history' := fun a ha b hb =>
    hr a ((hsame a).mpr ha) b ((hsame b).mpr hb)
  apply Option.ext
  intro a
  simp only [latest_iff h hr, latest_iff h' hr', hsame]

end LatestValues
