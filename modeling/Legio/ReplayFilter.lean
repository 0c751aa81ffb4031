import Legio.NodeComponents
import Legio.SerialNumbers

set_option linter.style.header false

/-! The replay filter of a transport. Its 32-bit table refines the unbounded filter as
long as the indices of one source stay within the window of `compare_sequence`. -/
namespace ReplayFilter

open LegioMessage LegioNode Containers SerialNumbers

def sequenceWindow : ℕ := 2 ^ 31 - 2

theorem compareSequence_ofNat {x y : ℕ} (hxy : x ≤ y + sequenceWindow)
    (hyx : y ≤ x + sequenceWindow) :
    compareSequence (UInt32.ofNat x) (UInt32.ofNat y) =
      if x = y then 0 else if y < x then 1 else -1 := by
  have hM : 2 * sequenceWindow < 2 ^ 32 := by decide
  have hforward : (UInt32.ofNat x - UInt32.ofNat y).toNat = forward (2 ^ 32) x y := by
    rw [UInt32.toNat_sub, UInt32.toNat_ofNat', UInt32.toNat_ofNat']
    rfl
  have heq : UInt32.ofNat x = UInt32.ofNat y ↔ x = y := by
    rw [← forward_eq_zero_iff hM hxy hyx, ← hforward, ← UInt32.toNat_zero, UInt32.toNat_inj]
    grind
  have hlt : UInt32.ofNat x - UInt32.ofNat y < 0xFFFFFFFF / 2 ↔
      forward (2 ^ 32) x y ≤ sequenceWindow := by
    rw [UInt32.lt_iff_toNat_lt, hforward]
    have hhalf : (0xFFFFFFFF / 2 : UInt32).toNat = sequenceWindow + 1 := by decide
    rw [hhalf]
    exact Nat.lt_succ_iff
  unfold compareSequence
  by_cases h : x = y
  · rw [if_pos h, if_pos (heq.mpr h)]
  · rw [if_neg h, if_neg (fun h' => h (heq.mp h'))]
    have hpos : 0 < forward (2 ^ 32) x y := by
      rw [Nat.pos_iff_ne_zero]
      exact fun h' => h ((forward_eq_zero_iff hM hxy hyx).mp h')
    have hwithin := forward_within_iff hM hxy hyx
    by_cases hy : y < x
    · rw [if_pos hy, if_pos (hlt.mpr (hwithin.mpr hy).2)]
    · rw [if_neg hy, if_neg (fun h' => hy (hwithin.mp ⟨hpos, hlt.mp h'⟩))]

section Runs
variable {Id : Type} [DecidableEq Id]

/-- A transport's filter on a message that carries the residue of its index. -/
def present (t : Transport Id) (m : Id × ℕ) : Bool × Transport Id :=
  t.checkSequence m.1 (UInt32.ofNat m.2)

def presentAll (t : Transport Id) (run : List (Id × ℕ)) : Transport Id :=
  run.foldl (fun t m => (present t m).2) t

def accepted (t : Transport Id) : List (Id × ℕ) → List (Id × ℕ)
  | [] => []
  | m :: run =>
    if (present t m).1 then m :: accepted (present t m).2 run
    else accepted (present t m).2 run

/-- The table holds the residue of the greatest index of every source. -/
def Refines (t : Transport Id) (highest : Id → Option ℕ) : Prop :=
  ∀ s, t.mSequences.lookup s = (highest s).map UInt32.ofNat

theorem present_refines {t : Transport Id} {highest : Id → Option ℕ} {m : Id × ℕ}
    (h : Refines t highest)
    (hwindow : ∀ k, highest m.1 = some k → k ≤ m.2 + sequenceWindow ∧
      m.2 ≤ k + sequenceWindow) :
    (present t m).1 = accepts highest m ∧ Refines (present t m).2 (record highest m) := by
  have hlookup := h m.1
  unfold present Transport.checkSequence record accepts
  cases hk : highest m.1 with
  | none =>
    rw [hk, Option.map_none] at hlookup
    have hnot : m.1 ∉ t.mSequences := by
      rw [mem_iff_lookup]
      rintro ⟨b, hb⟩
      rw [hlookup] at hb
      cases hb
    rw [hlookup]
    refine ⟨rfl, ?_⟩
    intro s
    by_cases hs : s = m.1
    · subst hs
      rw [if_pos rfl, Function.update_self]
      exact lookup_emplace_of_notMem _ hnot
    · rw [if_pos rfl, Function.update_of_ne hs, ← h s]
      exact lookup_emplace_ne _ _ hs
  | some k =>
    rw [hk, Option.map_some] at hlookup
    obtain ⟨hle, hge⟩ := hwindow k hk
    rw [hlookup]
    dsimp only
    rw [compareSequence_ofNat hge hle]
    by_cases hlt : k < m.2
    · rw [if_neg (by omega : ¬ m.2 = k), if_pos hlt, if_pos (by decide)]
      simp only [hlt, decide_true, if_true, true_and]
      intro s
      by_cases hs : s = m.1
      · subst hs
        rw [Function.update_self]
        exact AList.lookup_insert _
      · rw [Function.update_of_ne hs, ← h s]
        exact AList.lookup_insert_ne hs
    · have hcompare : ¬ (if m.2 = k then (0 : Int) else if k < m.2 then 1 else -1) > 0 := by
        rw [if_neg hlt]
        split_ifs <;> decide
      rw [if_neg hcompare]
      simp only [hlt, decide_false, Bool.false_eq_true, if_false, true_and]
      exact h

/-- Any two indices of one source in the run fit into the window. -/
def WithinWindow (run : List (Id × ℕ)) : Prop :=
  ∀ a ∈ run, ∀ b ∈ run, a.1 = b.1 → a.2 ≤ b.2 + sequenceWindow

theorem window_highest {past : List (Id × ℕ)} {m : Id × ℕ} (hw : WithinWindow (past ++ [m])) :
    ∀ k, highestOf past m.1 = some k → k ≤ m.2 + sequenceWindow ∧
      m.2 ≤ k + sequenceWindow := by
  intro k hk
  have hmem := (greatest_highestOf past).presented hk
  constructor
  · exact hw (m.1, k) (List.mem_append_left _ hmem) m (by simp) rfl
  · exact hw m (by simp) (m.1, k) (List.mem_append_left _ hmem) rfl

theorem presentAll_refines (past : List (Id × ℕ)) {t : Transport Id} (ht : t.mSequences = ∅)
    (hw : WithinWindow past) : Refines (presentAll t past) (highestOf past) := by
  induction past using List.reverseRecOn with
  | nil =>
    intro s
    change t.mSequences.lookup s = none
    rw [ht]
    rfl
  | append_singleton past m ih =>
    have hpast : WithinWindow past := fun a ha b hb =>
      hw a (List.mem_append_left _ ha) b (List.mem_append_left _ hb)
    have hstep := (present_refines (ih hpast) (window_highest hw)).2
    rw [presentAll, List.foldl_append, highestOf, List.foldl_append]
    exact hstep

/-- Which message of a run is accepted depends on the earlier ones of its source only. -/
theorem present_iff {t : Transport Id} (ht : t.mSequences = ∅) {past : List (Id × ℕ)}
    {m : Id × ℕ} (hw : WithinWindow (past ++ [m])) :
    (present (presentAll t past) m).1 = true ↔ ∀ k, (m.1, k) ∈ past → k < m.2 := by
  have hpast : WithinWindow past := fun a ha b hb =>
    hw a (List.mem_append_left _ ha) b (List.mem_append_left _ hb)
  rw [(present_refines (presentAll_refines past ht hpast) (window_highest hw)).1]
  exact accepts_iff (greatest_highestOf past) m

theorem presentAll_concat (t : Transport Id) (past : List (Id × ℕ)) (m : Id × ℕ) :
    presentAll t (past ++ [m]) = (present (presentAll t past) m).2 := by
  rw [presentAll, List.foldl_append]
  rfl

theorem accepted_increasing {t : Transport Id} (ht : t.mSequences = ∅) (run : List (Id × ℕ)) :
    ∀ past : List (Id × ℕ), WithinWindow (past ++ run) →
      (∀ m ∈ accepted (presentAll t past) run, ∀ k, (m.1, k) ∈ past → k < m.2) ∧
      (accepted (presentAll t past) run).Pairwise fun a b => a.1 = b.1 → a.2 < b.2 := by
  induction run with
  | nil => intro past _; simp [accepted]
  | cons m run ih =>
    intro past hw
    have hsplit : past ++ m :: run = past ++ [m] ++ run := by simp
    rw [hsplit] at hw
    have hm : WithinWindow (past ++ [m]) := fun a ha b hb =>
      hw a (List.mem_append_left _ ha) b (List.mem_append_left _ hb)
    obtain ⟨habove, hpairwise⟩ := ih (past ++ [m]) hw
    rw [presentAll_concat] at habove hpairwise
    have hrest : ∀ a ∈ accepted (present (presentAll t past) m).2 run,
        ∀ k, (a.1, k) ∈ past → k < a.2 :=
      fun a ha k hk => habove a ha k (List.mem_append_left _ hk)
    unfold accepted
    split_ifs with haccept
    · constructor
      · intro a ha
        rcases List.mem_cons.mp ha with rfl | ha
        · exact (present_iff ht hm).mp haccept
        · exact hrest a ha
      · refine List.Pairwise.cons ?_ hpairwise
        intro a ha heq
        exact habove a ha m.2 (by simp [← heq])
    · exact ⟨hrest, hpairwise⟩

/-- Over a whole run from an empty table: acceptance is the unbounded comparison with all
earlier indices of the source, and the accepted indices of a source strictly increase. -/
theorem replay_filter_refines {t : Transport Id} (ht : t.mSequences = ∅)
    (run : List (Id × ℕ)) (hw : WithinWindow run) :
    (∀ past m later, run = past ++ m :: later →
      ((present (presentAll t past) m).1 = true ↔ ∀ k, (m.1, k) ∈ past → k < m.2)) ∧
    (accepted t run).Pairwise (fun a b => a.1 = b.1 → a.2 < b.2) ∧ (accepted t run).Nodup := by
  obtain ⟨_, hpairwise⟩ := accepted_increasing ht run [] (by simpa using hw)
  refine ⟨?_, hpairwise, ?_⟩
  · rintro past m later rfl
    apply present_iff ht
    intro a ha b hb
    apply hw a _ b
    · simp only [List.mem_append, List.mem_cons, List.not_mem_nil, or_false] at hb ⊢
      tauto
    · simp only [List.mem_append, List.mem_cons, List.not_mem_nil, or_false] at ha ⊢
      tauto
  · apply hpairwise.imp
    rintro a b hab rfl
    exact Nat.lt_irrefl _ (hab rfl)

/-- Two sources, one of them wrapping around, with a duplicate and a late arrival. -/
theorem replay_filter_sample :
    let run : List (Fin 4 × ℕ) :=
      [(1, 4294967295), (2, 7), (1, 4294967296), (1, 4294967295), (2, 7), (2, 9)]
    WithinWindow run ∧ (accepted (.initial 0x80 0) run).Nodup ∧
      accepted (.initial 0x80 0) run = [(1, 4294967295), (2, 7), (1, 4294967296), (2, 9)] := by
  have hw : WithinWindow ([(1, 4294967295), (2, 7), (1, 4294967296), (1, 4294967295), (2, 7),
      (2, 9)] : List (Fin 4 × ℕ)) := by
    unfold WithinWindow
    decide
  exact ⟨hw, (replay_filter_refines rfl _ hw).2.2, by decide +kernel⟩

end Runs

end ReplayFilter
