import Legio.Base64Decoding

set_option linter.style.header false

/-! Encoding and decoding one after the other, in both orders: the six-bit values of a group
and its bytes give each other back, and a group cut short does not. -/
namespace Base64

open LegioBinary

theorem toNat_pack {a b k : UInt8} (hk : k.toNat < 8) (hb : b.toNat < 2 ^ k.toNat) :
    ((a <<< k) ||| b).toNat = a.toNat * 2 ^ k.toNat % 256 + b.toNat := by
  have hpow : 256 = 2 ^ (8 - k.toNat) * 2 ^ k.toNat := by
    rw [← Nat.pow_add, Nat.sub_add_cancel hk.le]
  rw [UInt8.toNat_or, UInt8.toNat_shiftLeft, Nat.mod_eq_of_lt hk, Nat.shiftLeft_eq]
  change a.toNat * 2 ^ k.toNat % 256 ||| b.toNat = _
  rw [hpow, Nat.mul_mod_mul_right, ← Nat.shiftLeft_eq, Nat.shiftLeft_add_eq_or_of_lt hb]

theorem toNat_take {a k : UInt8} (hk : k.toNat < 8) :
    (a >>> k).toNat = a.toNat / 2 ^ k.toNat := by
  rw [UInt8.toNat_shiftRight, Nat.mod_eq_of_lt hk, Nat.shiftRight_eq_div_pow]

theorem toNat_low {a m : UInt8} (w : ℕ) (hm : m.toNat = 2 ^ w - 1) :
    (a &&& m).toNat = a.toNat % 2 ^ w := by
  rw [UInt8.toNat_and, hm, Nat.and_two_pow_sub_one_eq_mod]

def first (d0 : UInt8) : UInt8 := d0 >>> 2

def second (d0 d1 : UInt8) : UInt8 := ((d0 &&& 3) <<< 4) ||| (d1 >>> 4)

def third (d1 d2 : UInt8) : UInt8 := ((d1 &&& 0x0F) <<< 2) ||| (d2 >>> 6)

def fourth (d2 : UInt8) : UInt8 := d2 &&& 0x3F

variable {d0 d1 d2 t0 t1 t2 t3 : UInt8}

theorem first_toNat : (first d0).toNat = d0.toNat / 4 := toNat_take (by decide)

theorem second_toNat : (second d0 d1).toNat = d0.toNat % 4 * 16 + d1.toNat / 16 := by
  have hlow : (d0 &&& 3).toNat = d0.toNat % 4 := toNat_low 2 rfl
  have hhigh : (d1 >>> 4).toNat = d1.toNat / 16 := toNat_take (by decide)
  have hbound := d1.toNat_lt
  have hpack := toNat_pack (a := d0 &&& 3) (b := d1 >>> 4) (k := 4) (by decide) (by
    rw [hhigh]
    change d1.toNat / 16 < 16
    omega)
  rw [second, hpack, hlow, hhigh]
  change d0.toNat % 4 * 16 % 256 + _ = _
  omega

theorem third_toNat : (third d1 d2).toNat = d1.toNat % 16 * 4 + d2.toNat / 64 := by
  have hlow : (d1 &&& 0x0F).toNat = d1.toNat % 16 := toNat_low 4 rfl
  have hhigh : (d2 >>> 6).toNat = d2.toNat / 64 := toNat_take (by decide)
  have hbound := d2.toNat_lt
  have hpack := toNat_pack (a := d1 &&& 0x0F) (b := d2 >>> 6) (k := 2) (by decide) (by
    rw [hhigh]
    change d2.toNat / 64 < 4
    omega)
  rw [third, hpack, hlow, hhigh]
  change d1.toNat % 16 * 4 % 256 + _ = _
  omega

theorem fourth_toNat : (fourth d2).toNat = d2.toNat % 64 := toNat_low 6 rfl

theorem byte0_toNat (h1 : t1.toNat < 64) :
    ((t0 <<< 2) ||| (t1 >>> 4)).toNat = t0.toNat * 4 % 256 + t1.toNat / 16 := by
  have hhigh : (t1 >>> 4).toNat = t1.toNat / 16 := toNat_take (by decide)
  have hpack := toNat_pack (a := t0) (b := t1 >>> 4) (k := 2) (by decide) (by
    rw [hhigh]
    change t1.toNat / 16 < 4
    omega)
  rw [hpack, hhigh]
  rfl

theorem byte1_toNat (h2 : t2.toNat < 64) :
    ((t1 <<< 4) ||| (t2 >>> 2)).toNat = t1.toNat * 16 % 256 + t2.toNat / 4 := by
  have hhigh : (t2 >>> 2).toNat = t2.toNat / 4 := toNat_take (by decide)
  have hpack := toNat_pack (a := t1) (b := t2 >>> 2) (k := 4) (by decide) (by
    rw [hhigh]
    change t2.toNat / 4 < 16
    omega)
  rw [hpack, hhigh]
  rfl

theorem byte2_toNat (h3 : t3.toNat < 64) :
    ((t2 <<< 6) ||| t3).toNat = t2.toNat * 64 % 256 + t3.toNat := toNat_pack (by decide) h3

theorem groupBytes_four : groupBytes [t0, t1, t2, t3] =
    [(t0 <<< 2) ||| (t1 >>> 4), (t1 <<< 4) ||| (t2 >>> 2), (t2 <<< 6) ||| t3] := rfl

theorem groupBytes_values (d0 d1 d2 : UInt8) :
    groupBytes [first d0, second d0 d1, third d1 d2, fourth d2] = [d0, d1, d2] := by
  have hb0 := d0.toNat_lt
  have hb1 := d1.toNat_lt
  have hb2 := d2.toNat_lt
  have h1 : (second d0 d1).toNat < 64 := by rw [second_toNat]; omega
  have h2 : (third d1 d2).toNat < 64 := by rw [third_toNat]; omega
  have h3 : (fourth d2).toNat < 64 := by rw [fourth_toNat]; omega
  have hbyte0 : (first d0 <<< 2) ||| (second d0 d1 >>> 4) = d0 := by
    apply UInt8.toNat_inj.mp
    rw [byte0_toNat h1, first_toNat, second_toNat]
    omega
  have hbyte1 : (second d0 d1 <<< 4) ||| (third d1 d2 >>> 2) = d1 := by
    apply UInt8.toNat_inj.mp
    rw [byte1_toNat h2, second_toNat, third_toNat]
    omega
  have hbyte2 : (third d1 d2 <<< 6) ||| fourth d2 = d2 := by
    apply UInt8.toNat_inj.mp
    rw [byte2_toNat h3, third_toNat, fourth_toNat]
    omega
  rw [groupBytes_four, hbyte0, hbyte1, hbyte2]

theorem values_groupBytes (h0 : t0.toNat < 64) (h1 : t1.toNat < 64) (h2 : t2.toNat < 64)
    (h3 : t3.toNat < 64) :
    [first ((t0 <<< 2) ||| (t1 >>> 4)),
      second ((t0 <<< 2) ||| (t1 >>> 4)) ((t1 <<< 4) ||| (t2 >>> 2)),
      third ((t1 <<< 4) ||| (t2 >>> 2)) ((t2 <<< 6) ||| t3), fourth ((t2 <<< 6) ||| t3)] =
      [t0, t1, t2, t3] := by
  have hvalue0 : first ((t0 <<< 2) ||| (t1 >>> 4)) = t0 := by
    apply UInt8.toNat_inj.mp
    rw [first_toNat, byte0_toNat h1]
    omega
  have hvalue1 : second ((t0 <<< 2) ||| (t1 >>> 4)) ((t1 <<< 4) ||| (t2 >>> 2)) = t1 := by
    apply UInt8.toNat_inj.mp
    rw [second_toNat, byte0_toNat h1, byte1_toNat h2]
    omega
  have hvalue2 : third ((t1 <<< 4) ||| (t2 >>> 2)) ((t2 <<< 6) ||| t3) = t2 := by
    apply UInt8.toNat_inj.mp
    rw [third_toNat, byte1_toNat h2, byte2_toNat h3]
    omega
  have hvalue3 : fourth ((t2 <<< 6) ||| t3) = t3 := by
    apply UInt8.toNat_inj.mp
    rw [fourth_toNat, byte2_toNat h3]
    omega
  rw [hvalue0, hvalue1, hvalue2, hvalue3]

def valuesOf : Binary → Binary
  | d0 :: d1 :: d2 :: bin =>
    [first d0, second d0 d1, third d1 d2, fourth d2] ++ valuesOf bin
  | [d0, d1] => [first d0, second d0 d1, third d1 0]
  | [d0] => [first d0, second d0 0]
  | [] => []

def padOf (padding : Bool) (bin : Binary) : Binary :=
  if padding then List.replicate ((3 - bin.length % 3) % 3) equalsSign else []

def textOf (tab : Binary) (padding : Bool) (bin : Binary) : Binary :=
  (valuesOf bin).map (fun d => tab.getD d.toNat 0) ++ padOf padding bin

theorem textOf_group (tab : Binary) (padding : Bool) (d0 d1 d2 : UInt8) (bin : Binary) :
    textOf tab padding (d0 :: d1 :: d2 :: bin) =
      [first d0, second d0 d1, third d1 d2, fourth d2].map (fun d => tab.getD d.toNat 0) ++
        textOf tab padding bin := by
  have hpad : padOf padding (d0 :: d1 :: d2 :: bin) = padOf padding bin := by
    rw [padOf, padOf, List.length_cons, List.length_cons, List.length_cons]
    exact congrArg (fun r => if padding then List.replicate ((3 - r) % 3) equalsSign else [])
      (Nat.add_mod_right bin.length 3)
  rw [textOf, hpad, valuesOf, List.map_append, List.append_assoc]
  rfl

theorem toBase64Impl_cases (tab : Binary) (padding : Bool) (i : ℕ) (bin out : Binary) :
    toBase64Impl tab padding i bin out = .returned (out ++ textOf tab padding bin) ∨
      toBase64Impl tab padding i bin out = .undefined ∧ intMax < i + bin.length := by
  fun_induction toBase64Impl tab padding i bin out with
  | case1 i d0 d1 d2 bin out hover =>
    right
    refine ⟨rfl, ?_⟩
    simp only [List.length_cons]
    omega
  | case2 i d0 d1 d2 bin out hover ih =>
    rcases ih with h | ⟨h, hlength⟩
    · left
      rw [h, textOf_group, List.append_assoc]
      rfl
    · right
      refine ⟨h, ?_⟩
      simp only [List.length_cons]
      omega
  | case3 i d0 d1 out =>
    left
    have hthird : (d1 &&& 0x0F) <<< 2 = third d1 0 := by
      simp [third]
    rw [hthird, List.append_assoc]
    cases padding <;> rfl
  | case4 i d0 out =>
    left
    have hsecond : (d0 &&& 3) <<< 4 = second d0 0 := by
      simp [second]
    rw [hsecond, List.append_assoc, List.append_assoc]
    cases padding <;> rfl
  | case5 i out =>
    left
    cases padding <;> simp [textOf, valuesOf, padOf]

theorem toBase64Impl_text (tab : Binary) (padding : Bool) {bin : Binary}
    (h : bin.length < 2 ^ 31) :
    toBase64Impl tab padding 0 bin [] = .returned (textOf tab padding bin) := by
  rcases toBase64Impl_cases tab padding 0 bin [] with htext | ⟨-, hover⟩
  · exact htext
  · rw [intMax] at hover
    omega

theorem valuesOf_lt (bin : Binary) : ∀ d ∈ valuesOf bin, d.toNat < 64 := by
  have hfirst : ∀ d0 : UInt8, (first d0).toNat < 64 := by
    intro d0
    have := d0.toNat_lt
    rw [first_toNat]
    omega
  have hsecond : ∀ d0 d1 : UInt8, (second d0 d1).toNat < 64 := by
    intro d0 d1
    have := d1.toNat_lt
    rw [second_toNat]
    omega
  have hthird : ∀ d1 d2 : UInt8, (third d1 d2).toNat < 64 := by
    intro d1 d2
    have := d2.toNat_lt
    rw [third_toNat]
    omega
  have hfourth : ∀ d2 : UInt8, (fourth d2).toNat < 64 := by
    intro d2
    rw [fourth_toNat]
    omega
  fun_induction valuesOf bin with
  | case1 d0 d1 d2 bin ih =>
    rw [List.forall_mem_append]
    refine ⟨?_, ih⟩
    simp [hfirst, hsecond, hthird, hfourth]
  | case2 d0 d1 => simp [hfirst, hsecond, hthird]
  | case3 d0 => simp [hfirst, hsecond]
  | case4 => simp

theorem valuesOf_length (bin : Binary) : (valuesOf bin).length = (4 * bin.length + 2) / 3 := by
  fun_induction valuesOf bin with
  | case1 d0 d1 d2 bin ih =>
    rw [List.length_append, ih]
    simp only [List.length_cons, List.length_nil]
    omega
  | case2 d0 d1 => simp
  | case3 d0 => simp
  | case4 => rfl

/-- Each group of three bytes comes back, and a shorter one as a byte more than it was. -/
theorem bytesOf_valuesOf (bin : Binary) :
    (3 ∣ bin.length → bytesOf (valuesOf bin) = bin) ∧
      (¬ 3 ∣ bin.length → (bytesOf (valuesOf bin)).length = bin.length + 1) := by
  fun_induction valuesOf bin with
  | case1 d0 d1 d2 bin ih =>
    have hgroup : bytesOf ([first d0, second d0 d1, third d1 d2, fourth d2] ++ valuesOf bin) =
        [d0, d1, d2] ++ bytesOf (valuesOf bin) := by
      rw [← groupBytes_values d0 d1 d2]
      rfl
    have hlength : (d0 :: d1 :: d2 :: bin).length = bin.length + 3 := rfl
    rw [hgroup, hlength, Nat.dvd_add_self_right]
    constructor
    · intro h
      rw [ih.1 h]
      rfl
    · intro h
      rw [List.length_append, ih.2 h]
      simp only [List.length_cons, List.length_nil]
      omega
  | case2 d0 d1 =>
    refine ⟨fun h => ?_, fun _ => rfl⟩
    rw [List.length_cons, List.length_singleton] at h
    omega
  | case3 d0 =>
    refine ⟨fun h => ?_, fun _ => rfl⟩
    rw [List.length_singleton] at h
    omega
  | case4 => exact ⟨fun _ => rfl, fun h => absurd (Nat.dvd_zero 3) h⟩

theorem standardTab_sextet {d : UInt8} (hd : d.toNat < 64) :
    sextet (standardTab.getD d.toNat 0) = some d := by
  have hall : ∀ k < 64, sextet (standardTab.getD k 0) = some (UInt8.ofNat k) := by
    decide +kernel
  rw [hall _ hd, UInt8.ofNat_toNat]

theorem urlTab_sextet {d : UInt8} (hd : d.toNat < 64) :
    sextet (urlTab.getD d.toNat 0) = some d := by
  have hall : ∀ k < 64, sextet (urlTab.getD k 0) = some (UInt8.ofNat k) := by decide +kernel
  rw [hall _ hd, UInt8.ofNat_toNat]

section Alphabet

variable {tab : Binary} (htab : ∀ {d : UInt8}, d.toNat < 64 → sextet (tab.getD d.toNat 0) = some d)

include htab

theorem spells_valuesOf (bin : Binary) :
    Spells ((valuesOf bin).map fun d => tab.getD d.toNat 0) (valuesOf bin) := by
  rw [Spells, List.map_map]
  exact List.map_congr_left fun d hd => htab (valuesOf_lt bin d hd)

theorem textOf_ends (padding : Bool) (bin : Binary) :
    Ends (fun fuel => fromBase64Impl fuel (textOf tab padding bin))
      (if (valuesOf bin).length ≤ intMax then .returned (bytesOf (valuesOf bin))
        else .undefined) := by
  have hspells := spells_valuesOf htab bin
  have hlength := spells_length hspells
  have htail : padOf padding bin = [] ∨ ∃ rest, padOf padding bin = equalsSign :: rest := by
    rw [padOf]
    split_ifs
    · cases (3 - bin.length % 3) % 3 with
      | zero => exact Or.inl rfl
      | succ k => exact Or.inr ⟨_, List.replicate_succ⟩
    · exact Or.inl rfl
  rw [ends_iff, textOf]
  split_ifs with hshort
  · refine ⟨by simp, ?_⟩
    exact scan_text htail _ hspells (Nat.zero_lt_succ 3) (by omega)
  · refine ⟨by simp, ?_⟩
    exact scan_overflow _ _ hspells (Nat.zero_le _) (by omega)

theorem comesBack_iff (padding : Bool) (bin : Binary) :
    (∃ text, toBase64Impl tab padding 0 bin [] = .returned text ∧
      Ends (fun fuel => fromBase64Impl fuel text) (.returned bin)) ↔
      3 ∣ bin.length ∧ bin.length < 3 * 2 ^ 29 := by
  have hends := textOf_ends htab padding bin
  have hlength := valuesOf_length bin
  have hbytes := bytesOf_valuesOf bin
  constructor
  · rintro ⟨text, htext, hback⟩
    rcases toBase64Impl_cases tab padding 0 bin [] with h | ⟨h, -⟩
    · obtain rfl : textOf tab padding bin = text := by
        rw [h] at htext
        exact Outcome.returned.inj htext
      have hsame := ends_unique hends hback
      split_ifs at hsame with hshort
      · have hbin := Outcome.returned.inj hsame
        refine ⟨?_, ?_⟩
        · by_contra hthree
          have := hbytes.2 hthree
          rw [hbin] at this
          omega
        · rw [intMax] at hshort
          omega
    · rw [h] at htext
      cases htext
  · rintro ⟨hthree, hbound⟩
    refine ⟨textOf tab padding bin, toBase64Impl_text tab padding (by omega), ?_⟩
    have hshort : (valuesOf bin).length ≤ intMax := by
      rw [intMax]
      omega
    rw [if_pos hshort, hbytes.1 hthree] at hends
    exact hends

end Alphabet

structure RoundTrips (bin : Binary) (padding : Bool) : Prop where
  standard : ∃ text, toBase64 bin padding = .returned text ∧
    Ends (fun fuel => fromBase64 fuel text) (.returned bin)
  url : ∃ text, toBase64Url bin padding = .returned text ∧
    Ends (fun fuel => fromBase64Url fuel text) (.returned bin)

/-- Decoding undoes encoding for whole groups of three bytes, as long as the text can be
indexed, and for no other byte string. -/
theorem roundTrips_iff (bin : Binary) (padding : Bool) :
    RoundTrips bin padding ↔ 3 ∣ bin.length ∧ bin.length < 3 * 2 ^ 29 := by
  constructor
  · intro h
    exact (comesBack_iff standardTab_sextet padding bin).mp h.standard
  · intro h
    exact ⟨(comesBack_iff standardTab_sextet padding bin).mpr h,
      (comesBack_iff urlTab_sextet padding bin).mpr h⟩

/-- A single byte comes back as two. -/
theorem byte_grows : ¬ ∀ (bin : Binary) (padding : Bool), bin.length < 2 ^ 31 →
    RoundTrips bin padding := by
  intro h
  obtain ⟨text, htext, hends⟩ := (h [0x41] false (by decide)).standard
  obtain rfl : ascii "QQ" = text := Outcome.returned.inj htext
  obtain ⟨-, hscan⟩ := ends_iff.mp hends
  have hdecoded : scan 0 (ascii "QQ") [] [] = .returned [0x41, 0x00] := by decide +kernel
  rw [hdecoded] at hscan
  exact absurd hscan (by decide)

def IsLetter (c : UInt8) : Prop :=
  'A'.toUInt8 ≤ c ∧ c ≤ 'Z'.toUInt8 ∨ 'a'.toUInt8 ≤ c ∧ c ≤ 'z'.toUInt8

def IsDigit (c : UInt8) : Prop := '0'.toUInt8 ≤ c ∧ c ≤ '9'.toUInt8

def IsText (c : UInt8) : Prop := IsLetter c ∨ IsDigit c ∨ c ∈ ascii "+-/_"

instance (c : UInt8) : Decidable (IsLetter c) := inferInstanceAs (Decidable (_ ∧ _ ∨ _ ∧ _))

instance (c : UInt8) : Decidable (IsDigit c) := inferInstanceAs (Decidable (_ ∧ _))

instance (c : UInt8) : Decidable (IsText c) := inferInstanceAs (Decidable (_ ∨ _ ∨ _))

/-- The character with the same value in the standard alphabet. -/
def standardChar (c : UInt8) : UInt8 :=
  if c = '-'.toUInt8 then '+'.toUInt8 else if c = '_'.toUInt8 then '/'.toUInt8 else c

/-- The character with the same value in the URL-safe alphabet. -/
def urlChar (c : UInt8) : UInt8 :=
  if c = '+'.toUInt8 then '-'.toUInt8 else if c = '/'.toUInt8 then '_'.toUInt8 else c

theorem text_value {c : UInt8} (hc : IsText c) : ∃ d, sextet c = some d ∧
    standardTab.getD d.toNat 0 = standardChar c ∧ urlTab.getD d.toNat 0 = urlChar c ∧
    c ≠ ':'.toUInt8 := by
  have hall : ∀ k < 256, IsText (UInt8.ofNat k) → ∃ d ∈ sextet (UInt8.ofNat k),
      standardTab.getD d.toNat 0 = standardChar (UInt8.ofNat k) ∧
      urlTab.getD d.toNat 0 = urlChar (UInt8.ofNat k) ∧ UInt8.ofNat k ≠ ':'.toUInt8 := by
    decide +kernel
  rw [← UInt8.ofNat_toNat (x := c)] at hc ⊢
  exact hall c.toNat c.toNat_lt hc

theorem isText_value {d : UInt8} (hd : d.toNat < 64) : IsText (urlTab.getD d.toNat 0) := by
  have hall : ∀ k < 64, IsText (urlTab.getD k 0) := by decide +kernel
  exact hall _ hd

theorem valuesOf_bytesOf (ds : Binary) : ∀ k, ds.length = 4 * k → (∀ d ∈ ds, d.toNat < 64) →
    (bytesOf ds).length = 3 * k ∧ valuesOf (bytesOf ds) = ds := by
  fun_induction bytesOf ds with
  | case1 d0 d1 d2 d3 ds ih =>
    intro k hk hlt
    simp only [List.length_cons] at hk
    obtain ⟨k, rfl⟩ : ∃ k', k = k' + 1 := ⟨k - 1, by omega⟩
    simp only [List.forall_mem_cons] at hlt
    obtain ⟨h0, h1, h2, h3, hlt⟩ := hlt
    obtain ⟨hlength, hvalues⟩ := ih k (by omega) hlt
    rw [groupBytes_four]
    constructor
    · rw [List.length_append, hlength]
      simp only [List.length_cons, List.length_nil]
      omega
    · change [_, _, _, _] ++ valuesOf (bytesOf ds) = _
      rw [values_groupBytes h0 h1 h2 h3, hvalues]
      rfl
  | case2 ds hshort =>
    intro k hk _
    rcases ds with _ | ⟨d0, _ | ⟨d1, _ | ⟨d2, _ | ⟨d3, ds⟩⟩⟩⟩
    · obtain rfl : k = 0 := by
        rw [List.length_nil] at hk
        omega
      exact ⟨rfl, rfl⟩
    · simp only [List.length_cons, List.length_nil] at hk
      omega
    · simp only [List.length_cons, List.length_nil] at hk
      omega
    · simp only [List.length_cons, List.length_nil] at hk
      omega
    · exact absurd rfl (hshort d0 d1 d2 d3 ds)

theorem connect_peer {s bin : Binary} (hcolon : ':'.toUInt8 ∉ s)
    (h : Ends (fun fuel => fromBase64Url fuel s) (.returned bin)) :
    Ends (fun fuel => connect fuel s) (.returned (.peer bin)) := by
  obtain ⟨-, enough, hcall⟩ := h
  have hprefix : ∀ pre : Binary, ':'.toUInt8 ∈ pre → matchPrefix s pre = false := by
    intro pre hpre
    rw [← Bool.not_eq_true]
    intro hmatch
    exact hcolon ((List.isPrefixOf_iff_prefix.mp hmatch).subset hpre)
  refine ⟨by simp, enough, fun fuel hfuel => ?_⟩
  have hdecoded : fromBase64Url fuel s = .returned bin := hcall fuel hfuel
  change connect fuel s = _
  rw [connect, hprefix _ (by decide), hprefix _ (by decide), hdecoded]
  rfl

structure Survives (s bin : Binary) : Prop where
  decoded : Ends (fun fuel => fromBase64 fuel s) (.returned bin)
  decodedUrl : Ends (fun fuel => fromBase64Url fuel s) (.returned bin)
  encoded : ∀ padding, toBase64 bin padding = .returned (s.map standardChar)
  encodedUrl : ∀ padding, toBase64Url bin padding = .returned (s.map urlChar)
  connected : Ends (fun fuel => connect fuel s) (.returned (.peer bin))

theorem survives_text {s : Binary} {k : ℕ} (hk : s.length = 4 * k) (hshort : s.length < 2 ^ 31)
    (htext : ∀ c ∈ s, IsText c) : ∃ bin, bin.length = 3 * k ∧ Survives s bin := by
  let ds := s.map fun c => (sextet c).getD 0
  have hspells : Spells s ds := by
    rw [Spells, List.map_map]
    apply List.map_congr_left
    intro c hc
    obtain ⟨d, hd, -⟩ := text_value (htext c hc)
    rw [Function.comp_apply, hd]
    rfl
  have hlt : ∀ d ∈ ds, d.toNat < 64 := by
    intro d hd
    obtain ⟨c, hc, rfl⟩ := List.mem_map.mp hd
    obtain ⟨d, hd, -⟩ := text_value (htext c hc)
    rw [hd]
    exact (sextet_some hd).1
  obtain ⟨hlength, hvalues⟩ := valuesOf_bytesOf ds k (by rw [List.length_map, hk]) hlt
  have hends : Ends (fun fuel => fromBase64Impl fuel s) (.returned (bytesOf ds)) := by
    rw [ends_iff]
    refine ⟨by simp, ?_⟩
    have hscan : scan 0 (s ++ []) [] [] = .returned ([] ++ bytesOf ([] ++ ds)) :=
      scan_text (Or.inl rfl) s hspells (Nat.zero_lt_succ 3) (by rw [intMax]; omega)
    rwa [List.append_nil] at hscan
  have hcolon : ':'.toUInt8 ∉ s := by
    intro hc
    obtain ⟨-, -, -, -, hne⟩ := text_value (htext _ hc)
    exact hne rfl
  have hencoded : ∀ {tab : Binary} {char : UInt8 → UInt8}, (∀ c ∈ s, ∀ d, sextet c = some d →
      tab.getD d.toNat 0 = char c) →
      ∀ padding, toBase64Impl tab padding 0 (bytesOf ds) [] = .returned (s.map char) := by
    intro tab char hchar padding
    have hpad : padOf padding (bytesOf ds) = [] := by
      rw [padOf, hlength, Nat.mul_mod_right]
      exact ite_self _
    rw [toBase64Impl_text tab padding (by omega), textOf, hvalues, hpad, List.append_nil,
      List.map_map]
    refine congrArg _ (List.map_congr_left fun c hc => ?_)
    obtain ⟨d, hd, -⟩ := text_value (htext c hc)
    rw [Function.comp_apply, hd]
    exact hchar c hc d hd
  refine ⟨bytesOf ds, hlength, hends, hends, hencoded ?_, hencoded ?_,
    connect_peer hcolon hends⟩
  · intro c hc d hd
    obtain ⟨d', hd', hstandard, -⟩ := text_value (htext c hc)
    obtain rfl := Option.some.inj (hd.symm.trans hd')
    exact hstandard
  · intro c hc d hd
    obtain ⟨d', hd', -, hurl, -⟩ := text_value (htext c hc)
    obtain rfl := Option.some.inj (hd.symm.trans hd')
    exact hurl

/-- A text of whole groups that an index can count survives decoding and encoding, in
particular the printed form of a node identifier, which connects to that node. -/
theorem text_survives :
    (∀ (s : Binary) (k : ℕ), s.length = 4 * k → s.length < 2 ^ 31 → (∀ c ∈ s, IsText c) →
      ∃ bin, bin.length = 3 * k ∧ Survives s bin) ∧
    ∀ id : Binary, id.length = 33 → ∃ text, toBase64Url id false = .returned text ∧
      text.length = 44 ∧ (∀ c ∈ text, IsText c) ∧ ':'.toUInt8 ∉ text ∧
      Ends (fun fuel => connect fuel text) (.returned (.peer id)) := by
  constructor
  · intro s k hk hshort htext
    exact survives_text hk hshort htext
  · intro id hid
    have hencoded : toBase64Url id false = .returned (textOf urlTab false id) :=
      toBase64Impl_text urlTab false (by omega)
    have hplain : textOf urlTab false id = (valuesOf id).map fun d => urlTab.getD d.toNat 0 :=
      List.append_nil _
    have htext : ∀ c ∈ textOf urlTab false id, IsText c := by
      intro c hc
      rw [hplain] at hc
      obtain ⟨d, hd, rfl⟩ := List.mem_map.mp hc
      exact isText_value (valuesOf_lt id d hd)
    have hcolon : ':'.toUInt8 ∉ textOf urlTab false id := by
      intro hc
      obtain ⟨-, -, -, -, hne⟩ := text_value (htext _ hc)
      exact hne rfl
    obtain ⟨text, hback, hends⟩ :=
      (comesBack_iff urlTab_sextet false id).mpr ⟨⟨11, hid⟩, by omega⟩
    obtain rfl : textOf urlTab false id = text :=
      Outcome.returned.inj (hencoded.symm.trans hback)
    refine ⟨textOf urlTab false id, hencoded, ?_, htext, hcolon, connect_peer hcolon hends⟩
    rw [hplain, List.length_map, valuesOf_length, hid]

theorem text_survives_sample :
    (∃ bin, bin.length = 3 * 1 ∧ Survives (ascii "a+_9") bin) ∧
      ∃ text, toBase64Url (List.replicate 33 0xFB) false = .returned text ∧
        text.length = 44 ∧ (∀ c ∈ text, IsText c) ∧ ':'.toUInt8 ∉ text ∧
        Ends (fun fuel => connect fuel text) (.returned (.peer (List.replicate 33 0xFB))) :=
  ⟨text_survives.1 (ascii "a+_9") 1 (by decide) (by decide) (by decide +kernel),
    text_survives.2 (List.replicate 33 0xFB) (by decide)⟩

theorem long_undefined {n : ℕ} (hn : intMax < n) :
    Ends (fun fuel => fromBase64 fuel (List.replicate n 'A'.toUInt8)) .undefined := by
  have hspells : Spells (List.replicate n 'A'.toUInt8) (List.replicate n 0) := by
    rw [Spells, List.map_replicate, List.map_replicate]
    rfl
  refine ends_iff.mpr ⟨by simp, ?_⟩
  have hscan : scan 0 (List.replicate n 'A'.toUInt8 ++ []) [] [] = .undefined :=
    scan_overflow [] _ hspells (Nat.zero_le _) (by rw [List.length_replicate]; omega)
  rwa [List.append_nil] at hscan

/-- A text that an index cannot count. -/
theorem long_text : ¬ ∀ (s : Binary) (k : ℕ), s.length = 4 * k → (∀ c ∈ s, IsText c) →
    ∃ bin, bin.length = 3 * k ∧ Survives s bin := by
  intro h
  obtain ⟨bin, -, hsurvives⟩ := h (List.replicate (2 ^ 31) 'A'.toUInt8) (2 ^ 29)
    List.length_replicate (by
      intro c hc
      rw [List.eq_of_mem_replicate hc]
      decide)
  have hlong : intMax < 2 ^ 31 := by decide
  exact absurd (ends_unique (long_undefined hlong) hsurvives.decoded) (by simp)

end Base64
