import Legio.Base64

set_option linter.style.header false

/-! `to_hex` and `from_hex`, with the stream state that they set and the extraction of a
hexadecimal number by the library. An index of type `int` that overflows is `undefined`;
memory that runs out is left out. -/
namespace Hex

open LegioBinary
open Base64 (Outcome intMax isSpace)

/-- An output stream: width goes back to zero after each output, the rest stays as set. -/
structure OStream where
  hex : Bool
  uppercase : Bool
  fill : UInt8
  width : ℕ
  text : Binary
  deriving DecidableEq, Repr

def OStream.start : OStream := ⟨false, false, 0x20, 0, []⟩

def digits (hex uppercase : Bool) (n : ℕ) : Binary :=
  (Nat.toDigits (if hex then 16 else 10) n).map fun c =>
    UInt8.ofNat (if uppercase then c.toUpper else c).toNat

def OStream.put (oss : OStream) (n : ℕ) : OStream :=
  let text := digits oss.hex oss.uppercase n
  { oss with
    width := 0
    text := oss.text ++ (List.replicate (oss.width - text.length) oss.fill ++ text) }

/-- The loop of `to_hex` from index `i` on; what is left of the input stands behind it. -/
def toHexLoop : ℕ → Binary → OStream → Outcome Binary
  | _, [], oss => .returned oss.text
  | i, byte :: bin, oss =>
    let oss := { oss with hex := true, uppercase := true }
    let oss := { oss with fill := '0'.toUInt8, width := 2 }
    let oss := oss.put byte.toNat
    if intMax < i + 1 then .undefined else toHexLoop (i + 1) bin oss

def toHex (bin : Binary) : Outcome Binary := toHexLoop 0 bin .start

def hexDigit (c : UInt8) : Option ℕ :=
  if '0'.toUInt8 ≤ c ∧ c ≤ '9'.toUInt8 then some (c.toNat - 48)
  else if 'A'.toUInt8 ≤ c ∧ c ≤ 'F'.toUInt8 then some (c.toNat - 55)
  else if 'a'.toUInt8 ≤ c ∧ c ≤ 'f'.toUInt8 then some (c.toNat - 87)
  else none

def isHexDigit (c : UInt8) : Bool := (hexDigit c).isSome

def isSign (c : UInt8) : Bool := decide (c = '+'.toUInt8) || decide (c = '-'.toUInt8)

def skipSign (text : Binary) : Binary := if text.head?.any isSign then text.tail else text

def skipPrefix (text : Binary) : Binary :=
  if text.head? = some '0'.toUInt8 ∧
      (text.tail.head? = some 'x'.toUInt8 ∨ text.tail.head? = some 'X'.toUInt8) then
    text.drop 2
  else text

/-- `iss >> std::hex >> value` on a text of at most two characters, whose number fits. -/
def extractHex (text : Binary) : Option ℕ :=
  let text := text.dropWhile isSpace
  let negative := text.head? = some '-'.toUInt8
  let run := (skipPrefix (skipSign text)).takeWhile isHexDigit
  let value := run.foldl (fun n c => 16 * n + (hexDigit c).getD 0) 0
  if run = [] then none else some (if negative then (2 ^ 32 - value) % 2 ^ 32 else value)

/-- The one or two characters at index `i * 2`, one being completed by `'0'`. -/
def pairAt (str : Binary) (i : ℕ) : Option Binary := do
  let first ← str[i * 2]?
  let second ← if i * 2 + 1 ≠ str.length then str[i * 2 + 1]? else some '0'.toUInt8
  return [first, second]

def invalidHex : Error := .invalidArgument "invalid hexadecimal representation"

/-- The loop of `from_hex` from index `i` on, with the number of steps to `count`. -/
def fromHexLoop (str : Binary) : ℕ → ℕ → Binary → Outcome Binary
  | 0, _, out => .returned out
  | steps + 1, i, out =>
    if intMax < i * 2 + 1 then .undefined
    else
      match pairAt str i with
      | none => .undefined
      | some s =>
        match extractHex s with
        | none => .threw invalidHex
        | some value => fromHexLoop str steps (i + 1) (out ++ [UInt8.ofNat (value &&& 0xFF)])

def toInt (n : ℕ) : ℤ := Int.bmod n (2 ^ 32)

/-- `reserve` refuses a negative count, which it gets as a huge size; the text is the
library's. -/
def fromHex (str : Binary) : Outcome Binary :=
  if str = [] then .returned []
  else
    let count := toInt ((str.length + 1) / 2)
    if count < 0 then .threw (.logicError "vector::reserve")
    else fromHexLoop str count.toNat 0 []

example : fromHex (ascii "0aFf7") = .returned [0x0A, 0xFF, 0x70] := by decide +kernel

theorem forall_byte {P : UInt8 → Prop} : (∀ n < 256, P (UInt8.ofNat n)) ↔ ∀ c, P c := by
  refine ⟨fun hall c => ?_, fun hall n _ => hall (UInt8.ofNat n)⟩
  simpa only [UInt8.ofNat_toNat] using hall c.toNat c.toNat_lt

/-- A property of all bytes is decided by going through them. -/
instance decidableBytes {P : UInt8 → Prop} [DecidablePred P] : Decidable (∀ c, P c) :=
  decidable_of_iff _ forall_byte

def digit (c : UInt8) : ℕ := (hexDigit c).getD 0

def hexChar (d : ℕ) : UInt8 := if d < 10 then UInt8.ofNat (48 + d) else UInt8.ofNat (55 + d)

def hexByte (byte : UInt8) : Binary := [hexChar (byte.toNat / 16), hexChar (byte.toNat % 16)]

def upper (c : UInt8) : UInt8 := if 'a'.toUInt8 ≤ c ∧ c ≤ 'z'.toUInt8 then c - 0x20 else c

theorem digits_padded : ∀ byte : UInt8,
    List.replicate (2 - (digits true true byte.toNat).length) '0'.toUInt8 ++
      digits true true byte.toNat = hexByte byte := by
  decide +kernel

theorem hexDigit_hexChar : ∀ d < 16, hexDigit (hexChar d) = some d := by decide +kernel

theorem hexChar_digit : ∀ c : UInt8, isHexDigit c = true → hexChar (digit c) = upper c := by
  decide +kernel

theorem digit_lt : ∀ c : UInt8, digit c < 16 := by decide +kernel

theorem isHexDigit_plain : ∀ c : UInt8,
    isHexDigit c = true → isSpace c = false ∧ isSign c = false := by
  decide +kernel

theorem isSign_plain : ∀ c : UInt8,
    isSign c = true → isSpace c = false ∧ isHexDigit c = false := by
  decide +kernel

theorem extractHex_single : ∀ c : UInt8, extractHex [c] = none ↔ isHexDigit c = false := by
  decide +kernel

end Hex
