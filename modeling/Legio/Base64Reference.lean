import Legio.Base64RoundTrips

set_option linter.style.header false

/-! The encoding of RFC 4648 over the stream of bits, and the encoder compared with it. -/
namespace Base64

open LegioBinary

def byteBits (d : UInt8) : List Bool :=
  [d.toNat.testBit 7, d.toNat.testBit 6, d.toNat.testBit 5, d.toNat.testBit 4,
    d.toNat.testBit 3, d.toNat.testBit 2, d.toNat.testBit 1, d.toNat.testBit 0]

def bitStream (bin : Binary) : List Bool := bin.flatMap byteBits

def zeroPadded (bits : List Bool) : List Bool :=
  bits ++ List.replicate ((6 - bits.length % 6) % 6) false

def number (bits : List Bool) : ℕ := bits.foldl (fun n b => 2 * n + b.toNat) 0

def sixBits : List Bool → List ℕ
  | b5 :: b4 :: b3 :: b2 :: b1 :: b0 :: bits => number [b5, b4, b3, b2, b1, b0] :: sixBits bits
  | _ => []

def characters (start : Char) (count : ℕ) : Binary :=
  (List.range count).map fun k => UInt8.ofNat (start.toNat + k)

def alphabet (last : String) : Binary :=
  characters 'A' 26 ++ characters 'a' 26 ++ characters '0' 10 ++ ascii last

def standardAlphabet : Binary := alphabet "+/"

def urlAlphabet : Binary := alphabet "-_"

def signPadded (padding : Bool) (text : Binary) : Binary :=
  if padding then text ++ List.replicate ((4 - text.length % 4) % 4) equalsSign else text

/-- The encoding of a byte string. -/
def reference (alphabet : Binary) (padding : Bool) (bin : Binary) : Binary :=
  signPadded padding ((sixBits (zeroPadded (bitStream bin))).map fun n => alphabet.getD n 0)

theorem number_six (b5 b4 b3 b2 b1 b0 : Bool) : number [b5, b4, b3, b2, b1, b0] =
    32 * b5.toNat + 16 * b4.toNat + 8 * b3.toNat + 4 * b2.toNat + 2 * b1.toNat + b0.toNat := by
  simp only [number, List.foldl_cons, List.foldl_nil]
  omega

section Bits

variable (d0 d1 d2 : UInt8)

theorem first_bits : number [d0.toNat.testBit 7, d0.toNat.testBit 6, d0.toNat.testBit 5,
    d0.toNat.testBit 4, d0.toNat.testBit 3, d0.toNat.testBit 2] = (first d0).toNat := by
  have hbound := d0.toNat_lt
  rw [number_six, first_toNat]
  simp only [Nat.toNat_testBit]
  omega

theorem second_bits : number [d0.toNat.testBit 1, d0.toNat.testBit 0, d1.toNat.testBit 7,
    d1.toNat.testBit 6, d1.toNat.testBit 5, d1.toNat.testBit 4] = (second d0 d1).toNat := by
  have hbound := d1.toNat_lt
  rw [number_six, second_toNat]
  simp only [Nat.toNat_testBit]
  omega

theorem third_bits : number [d1.toNat.testBit 3, d1.toNat.testBit 2, d1.toNat.testBit 1,
    d1.toNat.testBit 0, d2.toNat.testBit 7, d2.toNat.testBit 6] = (third d1 d2).toNat := by
  have hbound := d2.toNat_lt
  rw [number_six, third_toNat]
  simp only [Nat.toNat_testBit]
  omega

theorem fourth_bits : number [d2.toNat.testBit 5, d2.toNat.testBit 4, d2.toNat.testBit 3,
    d2.toNat.testBit 2, d2.toNat.testBit 1, d2.toNat.testBit 0] = (fourth d2).toNat := by
  rw [number_six, fourth_toNat]
  simp only [Nat.toNat_testBit]
  omega

theorem sixBits_group (bits : List Bool) :
    sixBits (byteBits d0 ++ byteBits d1 ++ byteBits d2 ++ bits) =
      [first d0, second d0 d1, third d1 d2, fourth d2].map UInt8.toNat ++ sixBits bits := by
  rw [List.map_cons, List.map_cons, List.map_cons, List.map_singleton, ← first_bits,
    ← second_bits, ← third_bits, ← fourth_bits]
  rfl

end Bits

theorem bitStream_length (bin : Binary) : (bitStream bin).length = 8 * bin.length := by
  induction bin with
  | nil => rfl
  | cons d bin ih =>
    rw [bitStream, List.flatMap_cons, List.length_append]
    change 8 + (bitStream bin).length = _
    rw [ih, List.length_cons]
    omega

theorem bitStream_group (d0 d1 d2 : UInt8) (bin : Binary) : bitStream (d0 :: d1 :: d2 :: bin) =
    byteBits d0 ++ byteBits d1 ++ byteBits d2 ++ bitStream bin := by
  simp only [bitStream, List.flatMap_cons, List.append_assoc]

/-- Whole groups before the stream leave its padding as it is. -/
theorem zeroPadded_group (d0 d1 d2 : UInt8) (bits : List Bool) :
    zeroPadded (byteBits d0 ++ byteBits d1 ++ byteBits d2 ++ bits) =
      byteBits d0 ++ byteBits d1 ++ byteBits d2 ++ zeroPadded bits := by
  have hlength : (byteBits d0 ++ byteBits d1 ++ byteBits d2 ++ bits).length % 6 =
      bits.length % 6 := by
    simp only [List.length_append, byteBits, List.length_cons, List.length_nil]
    omega
  rw [zeroPadded, hlength, List.append_assoc]
  rfl

theorem sixBits_valuesOf (bin : Binary) :
    sixBits (zeroPadded (bitStream bin)) = (valuesOf bin).map UInt8.toNat := by
  fun_induction valuesOf bin with
  | case1 d0 d1 d2 bin ih =>
    rw [bitStream_group, zeroPadded_group, sixBits_group, ih, List.map_append]
  | case2 d0 d1 =>
    rw [zeroPadded, bitStream_length, List.length_cons, List.length_singleton, List.map_cons,
      List.map_cons, List.map_singleton, ← first_bits, ← second_bits,
      ← third_bits]
    rfl
  | case3 d0 =>
    rw [zeroPadded, bitStream_length, List.length_singleton, List.map_cons, List.map_singleton,
      ← first_bits, ← second_bits]
    rfl
  | case4 => rfl

theorem textOf_reference (tab : Binary) (padding : Bool) (bin : Binary) :
    textOf tab padding bin = reference tab padding bin := by
  have hlength := valuesOf_length bin
  have hpad : (3 - bin.length % 3) % 3 = (4 - (valuesOf bin).length % 4) % 4 := by
    rw [hlength]
    generalize bin.length = n
    obtain ⟨q, rfl | rfl | rfl⟩ : ∃ q, n = 3 * q ∨ n = 3 * q + 1 ∨ n = 3 * q + 2 :=
      ⟨n / 3, by omega⟩
    · omega
    · omega
    · omega
  rw [reference, sixBits_valuesOf, List.map_map, textOf, padOf, signPadded]
  split_ifs
  · rw [hpad, List.length_map]
    rfl
  · rw [List.append_nil]
    rfl

/-- The encoder returns the encoding of RFC 4648. -/
theorem toBase64_reference {bin : Binary} (h : bin.length < 2 ^ 31) (padding : Bool) :
    toBase64 bin padding = .returned (reference standardAlphabet padding bin) ∧
      toBase64Url bin padding = .returned (reference urlAlphabet padding bin) := by
  have hstandard : standardTab = standardAlphabet := by decide +kernel
  have hurl : urlTab = urlAlphabet := by decide +kernel
  rw [toBase64, toBase64Url, toBase64Impl_text _ _ h, toBase64Impl_text _ _ h,
    textOf_reference, textOf_reference, hstandard, hurl]
  exact ⟨rfl, rfl⟩

theorem toBase64_reference_sample :
    toBase64 [0xFB, 0xF0] true = .returned (ascii "+/A=") ∧
      toBase64 [0xFB, 0xF0] true = .returned (reference standardAlphabet true [0xFB, 0xF0]) ∧
      toBase64Url [0xFB, 0xF0] true = .returned (reference urlAlphabet true [0xFB, 0xF0]) :=
  ⟨by decide +kernel,
    toBase64_reference (show ([0xFB, 0xF0] : Binary).length < 2 ^ 31 by decide) true⟩

end Base64
