import Legio.Hex
import Mathlib.Data.List.Induction

set_option linter.style.header false

/-! What `from_hex` accepts and returns, and its round trips with `to_hex`. -/
namespace Hex

open LegioBinary
open Base64 (Outcome intMax isSpace)

/-- Pairs from which no number can be extracted: a prefix without digits, nothing but space
or a sign before a character that is no digit, or any other character in front. -/
def Rejected (first second : UInt8) : Prop :=
  if isHexDigit first then first = '0'.toUInt8 ∧ (second = 'x'.toUInt8 ∨ second = 'X'.toUInt8)
  else if isSpace first || isSign first then isHexDigit second = false
  else True

instance (first second : UInt8) : Decidable (Rejected first second) := by
  unfold Rejected
  infer_instance

theorem skipSign_plain {c : UInt8} (hc : isSign c = false) (rest : Binary) :
    skipSign (c :: rest) = c :: rest := by
  simp [skipSign, hc]

theorem skipPrefix_single (c : UInt8) : skipPrefix [c] = [c] := by
  simp [skipPrefix]

theorem extractHex_digit {first : UInt8} (second : UInt8) (hfirst : isHexDigit first = true) :
    extractHex [first, second] = none ↔
      first = '0'.toUInt8 ∧ (second = 'x'.toUInt8 ∨ second = 'X'.toUInt8) := by
  obtain ⟨hspace, hsign⟩ := isHexDigit_plain first hfirst
  by_cases hprefix : first = '0'.toUInt8 ∧ (second = 'x'.toUInt8 ∨ second = 'X'.toUInt8)
  · refine iff_of_true ?_ hprefix
    obtain ⟨rfl, rfl | rfl⟩ := hprefix <;> decide
  · simp [extractHex, skipSign_plain hsign, skipPrefix, hspace, hprefix, hfirst]

theorem extractHex_space {first : UInt8} (second : UInt8) (hfirst : isSpace first = true) :
    extractHex [first, second] = extractHex [second] := by
  simp [extractHex, List.dropWhile_cons, hfirst]

theorem extractHex_sign {first : UInt8} (second : UInt8) (hfirst : isSign first = true) :
    extractHex [first, second] = none ↔ isHexDigit second = false := by
  obtain ⟨hspace, -⟩ := isSign_plain first hfirst
  have hskip : skipSign [first, second] = [second] := by simp [skipSign, hfirst]
  simp only [extractHex, List.dropWhile_cons, hspace, Bool.false_eq_true, if_false, hskip,
    skipPrefix_single]
  cases hsecond : isHexDigit second <;> simp [hsecond]

theorem extractHex_none (first second : UInt8) :
    extractHex [first, second] = none ↔ Rejected first second := by
  rw [Rejected]
  split_ifs with hdigit hskip
  · exact extractHex_digit second hdigit
  · rcases Bool.or_eq_true_iff.mp hskip with hspace | hsign
    · rw [extractHex_space second hspace, extractHex_single]
    · exact extractHex_sign second hsign
  · simp only [Bool.or_eq_true, not_or, Bool.not_eq_true] at hskip hdigit
    have hprefix : first ≠ '0'.toUInt8 := by
      rintro rfl
      exact absurd hdigit (by decide)
    simp [extractHex, skipSign_plain hskip.2, skipPrefix, hskip.1, hdigit, hprefix]

theorem not_rejected {first second : UInt8} (hfirst : isHexDigit first = true)
    (hsecond : isHexDigit second = true) : ¬ Rejected first second := by
  rw [Rejected, if_pos hfirst]
  rintro ⟨-, rfl | rfl⟩ <;> exact absurd hsecond (by decide)

theorem extractHex_pair {first second : UInt8} (hfirst : isHexDigit first = true)
    (hsecond : isHexDigit second = true) :
    extractHex [first, second] = some (16 * digit first + digit second) := by
  obtain ⟨hspace, hsign⟩ := isHexDigit_plain first hfirst
  have haccepted := not_rejected hfirst hsecond
  rw [Rejected, if_pos hfirst] at haccepted
  have hminus : first ≠ '-'.toUInt8 := by
    rintro rfl
    exact absurd hfirst (by decide)
  simp [extractHex, skipSign_plain hsign, skipPrefix, hspace, haccepted, hfirst, hsecond,
    hminus, digit]

def firstChar (str : Binary) (i : ℕ) : UInt8 := str.getD (2 * i) '0'.toUInt8
def secondChar (str : Binary) (i : ℕ) : UInt8 := str.getD (2 * i + 1) '0'.toUInt8

def pairByte (str : Binary) (i : ℕ) : UInt8 :=
  UInt8.ofNat (16 * digit (firstChar str i) + digit (secondChar str i))

def nibbles (str : Binary) : Binary := (List.range ((str.length + 1) / 2)).map (pairByte str)

def HexText (str : Binary) : Prop := ∀ c ∈ str, isHexDigit c = true

instance (str : Binary) : Decidable (HexText str) :=
  inferInstanceAs (Decidable (∀ c ∈ str, isHexDigit c = true))

theorem pairAt_eq {str : Binary} {i : ℕ} (h : 2 * i < str.length) :
    pairAt str i = some [firstChar str i, secondChar str i] := by
  have hindex : i * 2 = 2 * i := Nat.mul_comm i 2
  simp only [pairAt, hindex, List.getElem?_eq_getElem h, firstChar, secondChar,
    List.getD_eq_getElem?_getD]
  by_cases hlast : 2 * i + 1 = str.length
  · simp [hlast]
  · have hsecond : 2 * i + 1 < str.length := by omega
    simp [hlast, hsecond]

theorem isHexDigit_getD {str : Binary} (hhex : HexText str) (n : ℕ) :
    isHexDigit (str.getD n '0'.toUInt8) = true := by
  rw [List.getD_eq_getElem?_getD]
  cases hget : str[n]? with
  | none => decide
  | some c => exact hhex c (List.mem_of_getElem? hget)

theorem hexText_accepted {str : Binary} (hhex : HexText str) (i : ℕ) :
    extractHex [firstChar str i, secondChar str i] =
      some (16 * digit (firstChar str i) + digit (secondChar str i)) :=
  extractHex_pair (isHexDigit_getD hhex _) (isHexDigit_getD hhex _)

theorem fromHexLoop_threw (str : Binary) (steps i : ℕ) (out : Binary)
    (hin : 2 * (i + steps) ≤ str.length + 1) :
    (∃ what, fromHexLoop str steps i out = .threw (.invalidArgument what)) ↔
      ∃ k, i ≤ k ∧ k < i + steps ∧ k < 2 ^ 30 ∧ Rejected (firstChar str k) (secondChar str k) := by
  induction steps generalizing i out with
  | zero =>
    rw [fromHexLoop]
    constructor
    · rintro ⟨what, hthrew⟩
      cases hthrew
    · rintro ⟨k, hle, hlt, -⟩
      omega
  | succ steps ih =>
    rw [fromHexLoop, pairAt_eq (by omega)]
    by_cases hover : intMax < i * 2 + 1
    · have hend : 2 ^ 30 ≤ i := by
        rw [intMax] at hover
        omega
      rw [if_pos hover]
      constructor
      · rintro ⟨what, hthrew⟩
        cases hthrew
      · rintro ⟨k, hle, -, hlt, -⟩
        omega
    · have hindex : i < 2 ^ 30 := by
        rw [intMax] at hover
        omega
      rw [if_neg hover]
      dsimp only
      cases hextract : extractHex [firstChar str i, secondChar str i] with
      | none =>
        have hrejected := (extractHex_none _ _).mp hextract
        exact iff_of_true ⟨_, rfl⟩ ⟨i, le_rfl, by omega, hindex, hrejected⟩
      | some value =>
        have haccepted : ¬ Rejected (firstChar str i) (secondChar str i) := by
          rw [← extractHex_none, hextract]
          simp
        refine (ih (i + 1) _ (by omega)).trans ⟨?_, ?_⟩
        · rintro ⟨k, hle, hlt, hk, hrejected⟩
          exact ⟨k, by omega, by omega, hk, hrejected⟩
        · rintro ⟨k, hle, hlt, hk, hrejected⟩
          have hne : k ≠ i := by
            rintro rfl
            exact haccepted hrejected
          exact ⟨k, by omega, by omega, hk, hrejected⟩

theorem fromHexLoop_digits {str : Binary} (hhex : HexText str) (steps i : ℕ) (out : Binary)
    (hin : 2 * (i + steps) ≤ str.length + 1) :
    fromHexLoop str steps i out =
      if steps = 0 ∨ i + steps ≤ 2 ^ 30 then
        .returned (out ++ (List.range' i steps).map (pairByte str))
      else .undefined := by
  induction steps generalizing i out with
  | zero => simp [fromHexLoop]
  | succ steps ih =>
    rw [fromHexLoop, pairAt_eq (by omega)]
    by_cases hover : intMax < i * 2 + 1
    · rw [if_pos hover, if_neg]
      rw [intMax] at hover
      omega
    · rw [if_neg hover]
      have hmask : ∀ n : ℕ, UInt8.ofNat (n &&& 0xFF) = UInt8.ofNat n := by
        intro n
        apply UInt8.toNat_inj.mp
        rw [UInt8.toNat_ofNat', UInt8.toNat_ofNat', Nat.and_two_pow_sub_one_eq_mod n 8]
        simp
      simp only [hexText_accepted hhex, hmask]
      rw [ih (i + 1) _ (by omega), List.range'_succ, List.map_cons, List.append_assoc]
      rw [intMax] at hover
      have hsame : (steps = 0 ∨ i + 1 + steps ≤ 2 ^ 30) ↔
          (steps + 1 = 0 ∨ i + (steps + 1) ≤ 2 ^ 30) := by omega
      simp only [hsame, List.singleton_append]
      rfl

theorem toInt_le (n : ℕ) : toInt n ≤ n := by
  unfold toInt
  rw [Int.bmod_def]
  push_cast
  split_ifs <;> omega

theorem toInt_small {n : ℕ} (h : n < 2 ^ 31) : toInt n = n := by
  have hrange : -(2 ^ 32 : ℤ) ≤ 2 * n ∧ 2 * (n : ℤ) < 2 ^ 32 := by omega
  exact Int.bmod_eq_of_le_mul_two (by push_cast; omega) (by push_cast; omega)

def pairCount (str : Binary) : ℤ := toInt ((str.length + 1) / 2)

theorem pairCount_in (str : Binary) : 2 * (0 + (pairCount str).toNat) ≤ str.length + 1 := by
  have hle := toInt_le ((str.length + 1) / 2)
  rw [pairCount]
  omega

theorem pairCount_small {str : Binary} (h : str.length ≤ 2 ^ 31) :
    pairCount str = ((str.length + 1) / 2 : ℕ) :=
  toInt_small (by omega)

theorem fromHex_nonempty {str : Binary} (h : str ≠ []) :
    fromHex str = if pairCount str < 0 then .threw (.logicError "vector::reserve")
      else fromHexLoop str (pairCount str).toNat 0 [] := by
  rw [fromHex, if_neg h]
  rfl

theorem fromHex_threw (str : Binary) :
    (∃ what, fromHex str = .threw (.invalidArgument what)) ↔
      ∃ k : ℕ, (k : ℤ) < pairCount str ∧ k < 2 ^ 30 ∧
        Rejected (firstChar str k) (secondChar str k) := by
  rcases eq_or_ne str [] with rfl | hne
  · constructor
    · rintro ⟨what, hthrew⟩
      cases hthrew
    · rintro ⟨k, hlt, -⟩
      rw [pairCount_small (Nat.zero_le _)] at hlt
      simp at hlt
      omega
  · rw [fromHex_nonempty hne]
    split_ifs with hnegative
    · constructor
      · rintro ⟨what, hthrew⟩
        cases hthrew
      · rintro ⟨k, hlt, -⟩
        omega
    · refine (fromHexLoop_threw str _ 0 [] (pairCount_in str)).trans ⟨?_, ?_⟩
      · rintro ⟨k, -, hlt, hk, hrejected⟩
        exact ⟨k, by omega, hk, hrejected⟩
      · rintro ⟨k, hlt, hk, hrejected⟩
        exact ⟨k, Nat.zero_le k, by omega, hk, hrejected⟩

/-- On digits all bytes come out, or fewer than there are pairs: the text is then too long
for an `int` to count. -/
theorem fromHex_digits {str : Binary} (hhex : HexText str) :
    (str.length ≤ 2 ^ 31 → fromHex str = .returned (nibbles str)) ∧
      ∀ out, fromHex str = .returned out → out.length ≤ 2 ^ 30 := by
  have hloop := fromHexLoop_digits hhex _ 0 [] (pairCount_in str)
  rcases eq_or_ne str [] with rfl | hne
  · refine ⟨fun _ => rfl, ?_⟩
    intro out hout
    cases hout
    exact Nat.zero_le _
  · rw [fromHex_nonempty hne, hloop]
    refine ⟨?_, ?_⟩
    · intro hshort
      have hcount := pairCount_small hshort
      rw [if_neg (by omega), if_pos (by omega), hcount, Int.toNat_natCast, List.nil_append,
        nibbles, List.range_eq_range']
    · intro out hout
      split_ifs at hout with hnegative hsteps
      rw [← Outcome.returned.inj hout, List.nil_append, List.length_map, List.length_range']
      omega

theorem length_nibbles (str : Binary) : (nibbles str).length = (str.length + 1) / 2 := by
  rw [nibbles, List.length_map, List.length_range]

theorem fromHex_nibbles {str : Binary} (hhex : HexText str) :
    fromHex str = .returned (nibbles str) ↔ str.length ≤ 2 ^ 31 := by
  obtain ⟨hshort, hreturned⟩ := fromHex_digits hhex
  refine ⟨?_, hshort⟩
  intro hout
  have hlength := hreturned _ hout
  rw [length_nibbles] at hlength
  omega

theorem rejected_not_hexText {str : Binary} {k : ℕ}
    (hrejected : Rejected (firstChar str k) (secondChar str k)) : ¬ HexText str := fun hhex =>
  not_rejected (isHexDigit_getD hhex _) (isHexDigit_getD hhex _) hrejected

/-- Decoding as it should be: it refuses a text with a character that is no digit, and
returns the bytes of any other. -/
def DecodesHex (str : Binary) : Prop :=
  ((∃ what, fromHex str = .threw (.invalidArgument what)) ↔ ∃ c ∈ str, isHexDigit c = false) ∧
    (HexText str → fromHex str = .returned (nibbles str))

theorem not_hexText_iff (str : Binary) : (∃ c ∈ str, isHexDigit c = false) ↔ ¬ HexText str := by
  simp [HexText]

/-- `from_hex` accepts exactly hexadecimal text where the text is all digits, few enough to
be counted, or where the loop comes to a pair from which no number can be extracted. -/
theorem fromHex_decodes_iff (str : Binary) :
    DecodesHex str ↔
      (HexText str ∧ str.length ≤ 2 ^ 31) ∨
        ∃ k : ℕ, (k : ℤ) < toInt ((str.length + 1) / 2) ∧ k < 2 ^ 30 ∧
          Rejected (str.getD (2 * k) '0'.toUInt8) (str.getD (2 * k + 1) '0'.toUInt8) := by
  have hthrew := fromHex_threw str
  rw [DecodesHex, not_hexText_iff]
  by_cases hhex : HexText str
  · have hno : ¬ ∃ k : ℕ, (k : ℤ) < pairCount str ∧ k < 2 ^ 30 ∧
        Rejected (firstChar str k) (secondChar str k) := by
      rintro ⟨k, -, -, hrejected⟩
      exact rejected_not_hexText hrejected hhex
    have hfirst : (∃ what, fromHex str = .threw (.invalidArgument what)) ↔ ¬ HexText str :=
      iff_of_false (hthrew.not.mpr hno) (not_not_intro hhex)
    rw [and_iff_right hfirst, fromHex_nibbles hhex]
    constructor
    · intro hlength
      exact .inl ⟨hhex, hlength hhex⟩
    · rintro (⟨-, hlength⟩ | hrejected) -
      · exact hlength
      · exact absurd hrejected hno
  · constructor
    · rintro ⟨hfirst, -⟩
      exact .inr (hthrew.mp (hfirst.mpr hhex))
    · rintro (⟨hdigits, -⟩ | hrejected)
      · exact absurd hdigits hhex
      · exact ⟨iff_of_true (hthrew.mpr hrejected) hhex, fun hdigits => absurd hdigits hhex⟩

theorem toHexLoop_eq (bin : Binary) (i : ℕ) (oss : OStream) :
    toHexLoop i bin oss = if bin = [] ∨ i + bin.length ≤ intMax then
      .returned (oss.text ++ bin.flatMap hexByte) else .undefined := by
  induction bin generalizing i oss with
  | nil => simp [toHexLoop]
  | cons byte bin ih =>
    rw [toHexLoop]
    dsimp only
    by_cases hover : intMax < i + 1
    · rw [if_pos hover, if_neg]
      rw [List.length_cons]
      simp only [reduceCtorEq, false_or]
      omega
    · rw [if_neg hover, ih]
      have hsame : (bin = [] ∨ i + 1 + bin.length ≤ intMax) ↔
          (byte :: bin = [] ∨ i + (byte :: bin).length ≤ intMax) := by
        simp only [reduceCtorEq, false_or, List.length_cons, ← List.length_eq_zero_iff]
        omega
      simp only [hsame, OStream.put, digits_padded, List.flatMap_cons, List.append_assoc]

theorem toHex_eq (bin : Binary) :
    toHex bin = if bin.length < 2 ^ 31 then .returned (bin.flatMap hexByte)
      else .undefined := by
  rw [toHex, toHexLoop_eq]
  have hsame : (bin = [] ∨ 0 + bin.length ≤ intMax) ↔ bin.length < 2 ^ 31 := by
    rw [← List.length_eq_zero_iff, intMax]
    omega
  simp only [hsame, OStream.start, List.nil_append]

theorem length_flatMap_hexByte (bin : Binary) :
    (bin.flatMap hexByte).length = 2 * bin.length := by
  induction bin with
  | nil => rfl
  | cons byte bin ih =>
    rw [List.flatMap_cons, List.length_append, ih, List.length_cons]
    simp [hexByte]
    omega

theorem hexText_hexByte (bin : Binary) : HexText (bin.flatMap hexByte) := by
  have hchar : ∀ d < 16, isHexDigit (hexChar d) = true := by
    intro d hd
    rw [isHexDigit, hexDigit_hexChar d hd]
    rfl
  intro c hc
  obtain ⟨byte, -, hc⟩ := List.mem_flatMap.mp hc
  have hbyte := byte.toNat_lt
  rcases List.mem_pair.mp hc with rfl | rfl
  · exact hchar _ (by omega)
  · exact hchar _ (by omega)

theorem nibbles_cons (first second : UInt8) (str : Binary) :
    nibbles (first :: second :: str) =
      UInt8.ofNat (16 * digit first + digit second) :: nibbles str := by
  have hcount : ((first :: second :: str).length + 1) / 2 = (str.length + 1) / 2 + 1 := by
    rw [List.length_cons, List.length_cons]
    omega
  rw [nibbles, hcount, List.range_succ_eq_map, List.map_cons, List.map_map]
  rfl

theorem nibbles_flatMap (bin : Binary) : nibbles (bin.flatMap hexByte) = bin := by
  induction bin with
  | nil => rfl
  | cons byte bin ih =>
    have hbyte := byte.toNat_lt
    have hdigit : ∀ d < 16, digit (hexChar d) = d := by
      intro d hd
      rw [digit, hexDigit_hexChar d hd, Option.getD_some]
    have hvalue : 16 * (byte.toNat / 16) + byte.toNat % 16 = byte.toNat := by omega
    rw [List.flatMap_cons, hexByte, List.cons_append, List.cons_append, List.nil_append,
      nibbles_cons, ih, hdigit _ (by omega), hdigit _ (by omega), hvalue, UInt8.ofNat_toNat]

theorem hexByte_pair {first second : UInt8} (hfirst : isHexDigit first = true)
    (hsecond : isHexDigit second = true) :
    hexByte (UInt8.ofNat (16 * digit first + digit second)) = [upper first, upper second] := by
  have hhigh := digit_lt first
  have hlow := digit_lt second
  have hvalue : (UInt8.ofNat (16 * digit first + digit second)).toNat =
      16 * digit first + digit second := by
    rw [UInt8.toNat_ofNat']
    omega
  rw [hexByte, hvalue, ← hexChar_digit first hfirst, ← hexChar_digit second hsecond]
  have hdiv : (16 * digit first + digit second) / 16 = digit first := by omega
  have hmod : (16 * digit first + digit second) % 16 = digit second := by omega
  rw [hdiv, hmod]

theorem flatMap_nibbles {str : Binary} (hhex : HexText str) (heven : Even str.length) :
    (nibbles str).flatMap hexByte = str.map upper := by
  induction str using List.twoStepInduction with
  | nil => rfl
  | singleton c =>
    rw [List.length_singleton] at heven
    exact absurd heven (by decide)
  | cons_cons first second str ih =>
    have hrest : Even str.length := by
      simpa [Nat.even_add_one] using heven
    rw [nibbles_cons, List.flatMap_cons, ih (fun c hc => hhex c (by simp [hc])) hrest,
      hexByte_pair (hhex first (by simp)) (hhex second (by simp))]
    rfl

theorem decode_encode_iff {bin : Binary} (h : bin.length < 2 ^ 31) :
    (toHex bin).bind fromHex = .returned bin ↔ bin.length ≤ 2 ^ 30 := by
  have hnibbles := fromHex_nibbles (hexText_hexByte bin)
  rw [nibbles_flatMap, length_flatMap_hexByte] at hnibbles
  rw [toHex_eq, if_pos h]
  refine hnibbles.trans ?_
  omega

theorem encode_decode_iff {str : Binary} (hhex : HexText str) (heven : Even str.length) :
    (fromHex str).bind toHex = .returned (str.map upper) ↔ str.length ≤ 2 ^ 31 := by
  obtain ⟨hshort, hreturned⟩ := fromHex_digits hhex
  constructor
  · intro hround
    cases hout : fromHex str with
    | running => rw [hout] at hround; cases hround
    | undefined => rw [hout] at hround; cases hround
    | threw error => rw [hout] at hround; cases hround
    | returned out =>
      have hlength := hreturned out hout
      rw [hout, Outcome.bind, toHex_eq, if_pos (by omega)] at hround
      have htext := congrArg List.length (Outcome.returned.inj hround)
      rw [length_flatMap_hexByte, List.length_map] at htext
      omega
  · intro hlength
    have hbytes := length_nibbles str
    rw [hshort hlength, Outcome.bind, toHex_eq, if_pos (by omega), flatMap_nibbles hhex heven]

/-- Both round trips hold up to the length at which the index of the decoder overflows. -/
theorem hex_round_trips_iff {bin str : Binary} (hbin : bin.length < 2 ^ 31)
    (hhex : HexText str) (heven : Even str.length) :
    ((toHex bin).bind fromHex = .returned bin ↔ bin.length ≤ 2 ^ 30) ∧
      ((fromHex str).bind toHex = .returned (str.map upper) ↔ str.length ≤ 2 ^ 31) :=
  ⟨decode_encode_iff hbin, encode_decode_iff hhex heven⟩

namespace Sample

/-- One digit and a letter that is none make a byte. -/
theorem accepts_other_text : ¬ ∀ str : Binary, DecodesHex str := by
  intro hall
  have htext := (hall (ascii "1g")).1.mpr ⟨'g'.toUInt8, by decide, by decide⟩
  have hbyte : fromHex (ascii "1g") = .returned [0x01] := by decide +kernel
  obtain ⟨what, hthrew⟩ := htext
  rw [hbyte] at hthrew
  cases hthrew

/-- A gibibyte of zeros and one zero more. -/
theorem long_binary :
    ¬ ∀ bin : Binary, bin.length < 2 ^ 31 → (toHex bin).bind fromHex = .returned bin := by
  intro hall
  have hlength : (List.replicate (2 ^ 30 + 1) (0 : UInt8)).length = 2 ^ 30 + 1 :=
    List.length_replicate
  have hround := (decode_encode_iff (by rw [hlength]; decide)).mp
    (hall (List.replicate (2 ^ 30 + 1) 0) (by rw [hlength]; decide))
  rw [hlength] at hround
  exact absurd hround (by decide)

theorem round_trips_here :
    ((toHex [0x00, 0xA5]).bind fromHex = .returned [0x00, 0xA5] ↔
        ([0x00, 0xA5] : Binary).length ≤ 2 ^ 30) ∧
      ((fromHex (ascii "0aFf")).bind toHex = .returned ((ascii "0aFf").map upper) ↔
        (ascii "0aFf").length ≤ 2 ^ 31) :=
  hex_round_trips_iff (by decide +kernel) (by decide +kernel) (by decide +kernel)

end Sample

end Hex
