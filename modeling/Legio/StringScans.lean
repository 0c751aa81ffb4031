import Legio.Base64
import Mathlib.Data.List.Basic

set_option linter.style.header false

/-! The loops of `unpack_strings` over indices. A read behind the last byte is `undefined`;
`i` is at most one more than the size of a vector, so the `size_t` it is never wraps. -/
namespace StringScans

open LegioBinary
open Base64 (Outcome)

/-- The inner loop: bytes are appended to `str` from index `i` on. -/
def appendBytes (bin : Binary) : ℕ → ℕ → Binary → Outcome (ℕ × Binary)
  | 0, _, _ => .running
  | steps + 1, i, str =>
    if i < bin.length then
      match bin[i]? with
      | none => .undefined
      | some byte =>
        if byte ≠ 0 then appendBytes bin steps (i + 1) (str ++ [byte]) else .returned (i, str)
    else .returned (i, str)

/-- The outer loop, with `result` the array of strings. -/
def fillStrings (bin : Binary) : ℕ → ℕ → ℕ → List Binary → Outcome (List Binary)
  | 0, _, _, _ => .running
  | steps + 1, i, j, result =>
    if i < bin.length ∧ j < result.length then
      match result[j]? with
      | none => .undefined
      | some str =>
        (appendBytes bin (steps + 1) i str).bind fun scanned =>
          fillStrings bin steps (scanned.1 + 1) (j + 1) (result.set j scanned.2)
    else .returned result

def unpackStrings (steps C : ℕ) (bin : Binary) : Outcome (List Binary) :=
  fillStrings bin steps 0 0 (List.replicate C [])

theorem unpackString_rest (bin : Binary) :
    (unpackString bin).2 = bin.drop ((unpackString bin).1.length + 1) := by
  induction bin with
  | nil => rfl
  | cons byte bin ih =>
    rw [unpackString]
    split_ifs with hzero
    · rfl
    · simpa using ih

theorem unpackStrings_nil (count : ℕ) :
    LegioBinary.unpackStrings count [] = List.replicate count [] := by
  induction count with
  | zero => rfl
  | succ count ih => rw [LegioBinary.unpackStrings, unpackString, ih, List.replicate_succ]

theorem appendBytes_spec (bin : Binary) (steps : ℕ) {i : ℕ} (str : Binary) (hi : i ≤ bin.length)
    (hsteps : bin.length < steps + i) :
    appendBytes bin steps i str = .returned (i + (unpackString (bin.drop i)).1.length,
      str ++ (unpackString (bin.drop i)).1) := by
  induction steps generalizing i str with
  | zero => omega
  | succ steps ih =>
    rw [appendBytes]
    split_ifs with hin
    · rw [List.getElem?_eq_getElem hin, List.drop_eq_getElem_cons hin, unpackString]
      by_cases hzero : bin[i] = 0
      · simp [hzero]
      · have hnext := ih (str ++ [bin[i]]) (i := i + 1) (by omega) (by omega)
        simp only [ne_eq, hzero, not_false_eq_true, if_true, if_false, hnext, List.length_cons,
          List.append_assoc, List.singleton_append]
        congr 2
        omega
    · have hend : i = bin.length := by omega
      rw [hend, List.drop_length, unpackString]
      simp

theorem fillStrings_spec (bin : Binary) (steps : ℕ) {i : ℕ} (done : List Binary) (count : ℕ)
    (hsteps : bin.length < steps + i) (hpos : 0 < steps) :
    fillStrings bin steps i done.length (done ++ List.replicate count []) =
      .returned (done ++ LegioBinary.unpackStrings count (bin.drop i)) := by
  induction steps generalizing i done count with
  | zero => omega
  | succ steps ih =>
    rw [fillStrings]
    split_ifs with hin
    · obtain ⟨hi, hj⟩ := hin
      obtain ⟨count, rfl⟩ : ∃ n, count = n + 1 := by
        refine Nat.exists_eq_succ_of_ne_zero ?_
        rintro rfl
        simp at hj
      have hslot : (done ++ List.replicate (count + 1) [])[done.length]? = some [] := by
        simp
      have hscan := appendBytes_spec bin (steps + 1) [] hi.le (by omega)
      have hset : (done ++ List.replicate (count + 1) []).set done.length
          (unpackString (bin.drop i)).1 =
            (done ++ [(unpackString (bin.drop i)).1]) ++ List.replicate count [] := by
        simp [List.replicate_succ]
      simp only [hslot, hscan, Outcome.bind, List.nil_append, hset]
      have hnext := ih (done ++ [(unpackString (bin.drop i)).1]) count
        (i := i + (unpackString (bin.drop i)).1.length + 1) (by omega) (by omega)
      rw [List.length_append, List.length_singleton] at hnext
      rw [hnext, LegioBinary.unpackStrings, unpackString_rest (bin.drop i), List.drop_drop]
      simp [Nat.add_assoc]
    · rw [not_and_or] at hin
      rcases hin with hi | hj
      · rw [List.drop_eq_nil_of_le (by omega), unpackStrings_nil]
      · obtain rfl : count = 0 := by simpa using hj
        rfl

/-- The loops compute the strings that the list traversal gives. -/
theorem unpackStrings_eq {steps : ℕ} (C : ℕ) {bin : Binary} (hsteps : bin.length < steps) :
    unpackStrings steps C bin = .returned (LegioBinary.unpackStrings C bin) := by
  have hfill := fillStrings_spec bin steps [] C (i := 0) (by omega) (by omega)
  simpa [unpackStrings] using hfill

theorem splitOn_unpackString (bin : Binary) :
    bin.splitOn 0 = (unpackString bin).1 ::
      if 0 ∈ bin then (unpackString bin).2.splitOn 0 else [] := by
  induction bin with
  | nil => rfl
  | cons byte bin ih =>
    rw [List.splitOn, List.splitOnP_cons_eq_if_modifyHead, unpackString]
    by_cases hzero : byte = 0
    · simp [hzero, List.splitOn]
    · rw [← List.splitOn, ih]
      simp [hzero, Ne.symm hzero]

theorem unpackString_unterminated {bin : Binary} (h : 0 ∉ bin) : (unpackString bin).2 = [] := by
  induction bin with
  | nil => rfl
  | cons byte bin ih =>
    obtain ⟨hbyte, hbin⟩ := List.ne_and_not_mem_of_not_mem_cons h
    rw [unpackString, if_neg hbyte.symm]
    exact ih hbin

theorem unpackStrings_getElem (bin : Binary) {C j : ℕ} (hj : j < C) :
    (LegioBinary.unpackStrings C bin)[j]? = some ((bin.splitOn 0)[j]?.getD []) := by
  induction C generalizing bin j with
  | zero => omega
  | succ C ih =>
    rw [LegioBinary.unpackStrings, splitOn_unpackString]
    cases j with
    | zero => simp
    | succ j =>
      rw [List.getElem?_cons_succ, List.getElem?_cons_succ, ih _ (by omega)]
      split_ifs with hzero
      · rfl
      · rw [unpackString_unterminated hzero]
        cases j <;> simp

theorem length_unpackStrings (C : ℕ) (bin : Binary) :
    (LegioBinary.unpackStrings C bin).length = C := by
  induction C generalizing bin with
  | zero => rfl
  | succ C ih => rw [LegioBinary.unpackStrings, List.length_cons, ih]

/-- Packed strings come out as they went in, whatever follows them; of any input whatsoever
the `j`-th string is the `j`-th zero-delimited segment, and the scan ends inside it. -/
theorem strings_survive_packing :
    (∀ strs : List Binary, (∀ str ∈ strs, 0 ∉ str) → ∀ (t : Binary) (steps : ℕ),
      (packStrings strs ++ t).length < steps →
        unpackStrings steps strs.length (packStrings strs ++ t) = .returned strs) ∧
    ∀ (C : ℕ) (bin : Binary) (steps : ℕ), bin.length < steps →
      ∃ strs, unpackStrings steps C bin = .returned strs ∧ strs.length = C ∧
        ∀ j < C, strs[j]? = some ((bin.splitOn 0)[j]?.getD []) := by
  refine ⟨?_, ?_⟩
  · intro strs hstrs t steps hsteps
    rw [unpackStrings_eq strs.length hsteps, unpack_pack hstrs]
  · intro C bin steps hsteps
    exact ⟨_, unpackStrings_eq C hsteps, length_unpackStrings C bin,
      fun j hj => unpackStrings_getElem bin hj⟩

namespace Sample

theorem survive_packing :
    unpackStrings 20 3 (packStrings [ascii "offer", [], ascii "x"] ++ [7, 0, 9]) =
        .returned [ascii "offer", [], ascii "x"] ∧
      ∃ strs, unpackStrings 20 3 [0, 65] = .returned strs ∧ strs.length = 3 ∧
        ∀ j < 3, strs[j]? = some (([0, 65] : Binary).splitOn 0 |>.getD j []) := by
  refine ⟨?_, ?_⟩
  · exact strings_survive_packing.1 [ascii "offer", [], ascii "x"] (by decide) [7, 0, 9] 20
      (by decide)
  · simpa using strings_survive_packing.2 3 [0, 65] 20 (by decide)

end Sample

end StringScans
