import Mathlib.Data.List.Basic
import Mathlib.Tactic.Ring

set_option linter.style.header false

/-! Byte strings, host byte order, the positional reader and the appending writer. Numbers are
fixed-width base-256 numerals, least significant byte first; a `string` is the list of its
bytes. Exceptions of the C++ code are values of `Error`; a text is the argument of `what()`. -/
namespace RadixBytes

def bytes : ℕ → ℕ → List UInt8
  | 0, _ => []
  | w + 1, n => UInt8.ofNat n :: bytes w (n / 256)

def value : List UInt8 → ℕ
  | [] => 0
  | b :: bs => b.toNat + 256 * value bs

/-- Most-significant-first accumulation by shift and or, as conversion code writes it. -/
def accumulate (bs : List UInt8) : ℕ := bs.foldl (fun acc b => acc <<< 8 ||| b.toNat) 0

@[simp] theorem length_bytes (w n : ℕ) : (bytes w n).length = w := by
  induction w generalizing n with
  | zero => rfl
  | succ w ih => simp [bytes, ih]

theorem value_lt (bs : List UInt8) : value bs < 256 ^ bs.length := by
  induction bs with
  | nil => simp [value]
  | cons b bs ih =>
    have hb := b.toNat_lt
    simp only [value, List.length_cons, pow_succ]
    omega

@[simp] theorem value_bytes (w n : ℕ) : value (bytes w n) = n % 256 ^ w := by
  induction w generalizing n with
  | zero => simp [bytes, value, Nat.mod_one]
  | succ w ih =>
    simp only [bytes, value, ih, UInt8.toNat_ofNat']
    rw [pow_succ (256 : ℕ), mul_comm (256 ^ w) 256, Nat.mod_mul]

theorem value_bytes_of_lt {w n : ℕ} (h : n < 256 ^ w) : value (bytes w n) = n := by
  rw [value_bytes, Nat.mod_eq_of_lt h]

theorem bytes_value {bs : List UInt8} {w : ℕ} (h : bs.length = w) :
    bytes w (value bs) = bs := by
  subst h
  induction bs with
  | nil => rfl
  | cons b bs ih =>
    have hb := b.toNat_lt
    have hd : (b.toNat + 256 * value bs) / 256 = value bs := by omega
    have hm : UInt8.ofNat (b.toNat + 256 * value bs) = b := by
      apply UInt8.toNat_inj.mp
      rw [UInt8.toNat_ofNat']
      omega
    simp only [value, List.length_cons, bytes, hd, hm, ih]

theorem value_append (as bs : List UInt8) :
    value (as ++ bs) = value as + 256 ^ as.length * value bs := by
  induction as with
  | nil => simp [value]
  | cons a as ih =>
    simp only [List.cons_append, value, ih, List.length_cons, pow_succ]
    ring

theorem shift_or_byte (n : ℕ) (b : UInt8) : n <<< 8 ||| b.toNat = 256 * n + b.toNat := by
  rw [← Nat.shiftLeft_add_eq_or_of_lt (by simpa using b.toNat_lt), Nat.shiftLeft_eq]
  ring

/-- Shifting bytes in from the front reads the list as a most-significant-first numeral. -/
theorem accumulate_eq_value (bs : List UInt8) : accumulate bs = value bs.reverse := by
  have main : ∀ (bs : List UInt8) (n : ℕ),
      bs.foldl (fun acc b => acc <<< 8 ||| b.toNat) n =
        value bs.reverse + 256 ^ bs.length * n := by
    intro bs
    induction bs with
    | nil => intro n; simp [value]
    | cons b bs ih =>
      intro n
      rw [List.foldl_cons, ih, shift_or_byte, List.reverse_cons, value_append]
      simp only [value, List.length_reverse, List.length_cons, pow_succ]
      ring
  simpa [accumulate] using main bs 0

end RadixBytes

namespace LegioBinary

open RadixBytes

abbrev Binary := List UInt8

inductive Error where
  | runtimeError (what : String)
  | invalidArgument (what : String)
  | logicError (what : String)
  | cryptoError (what : String)
  | stackOverflow
  | outOfFuel
  deriving DecidableEq, Repr

theorem bind_eq_ok {ε α β : Type} {x : Except ε α} {f : α → Except ε β} {b : β}
    (h : x >>= f = .ok b) : ∃ a, x = .ok a ∧ f a = .ok b := by
  cases x with
  | error e => cases h
  | ok a => exact ⟨a, rfl, h⟩

inductive ByteOrder where
  | little
  | big
  deriving DecidableEq, Repr

/-- Object representation of a `w`-byte unsigned integer in host memory. -/
def ByteOrder.store (o : ByteOrder) (w n : ℕ) : Binary :=
  match o with
  | .little => bytes w n
  | .big => (bytes w n).reverse

def ByteOrder.load (o : ByteOrder) (bs : Binary) : ℕ :=
  match o with
  | .little => value bs
  | .big => value bs.reverse

/-- The conversion all `hton*` functions share: the bytes of `n` in memory, taken as a
most-significant-first number. -/
def ByteOrder.hton (o : ByteOrder) (w n : ℕ) : ℕ := accumulate (o.store w n)

def htons (o : ByteOrder) (n : UInt16) : UInt16 := .ofNat (o.hton 2 n.toNat)
def htonl (o : ByteOrder) (n : UInt32) : UInt32 := .ofNat (o.hton 4 n.toNat)
def htonll (o : ByteOrder) (n : UInt64) : UInt64 := .ofNat (o.hton 8 n.toNat)
def ntohs (o : ByteOrder) (n : UInt16) : UInt16 := htons o n
def ntohl (o : ByteOrder) (n : UInt32) : UInt32 := htonl o n
def ntohll (o : ByteOrder) (n : UInt64) : UInt64 := htonll o n

@[simp] theorem length_store (o : ByteOrder) (w n : ℕ) : (o.store w n).length = w := by
  cases o <;> simp [ByteOrder.store]

theorem hton_lt (o : ByteOrder) (w n : ℕ) : o.hton w n < 256 ^ w := by
  have h := value_lt (o.store w n).reverse
  simpa [ByteOrder.hton, accumulate_eq_value] using h

/-- Converting and then storing leaves the most significant byte first, whatever the host. -/
theorem store_hton (o : ByteOrder) {w n : ℕ} (h : n < 256 ^ w) :
    o.store w (o.hton w n) = (bytes w n).reverse := by
  cases o with
  | little =>
    simp only [ByteOrder.hton, ByteOrder.store, accumulate_eq_value]
    exact bytes_value (by simp)
  | big =>
    simp only [ByteOrder.hton, ByteOrder.store, accumulate_eq_value, List.reverse_reverse]
    rw [value_bytes_of_lt h]

theorem hton_load (o : ByteOrder) {w n : ℕ} (h : n < 256 ^ w) :
    o.hton w (o.load (bytes w n).reverse) = n := by
  cases o with
  | little =>
    simp only [ByteOrder.hton, ByteOrder.store, ByteOrder.load, accumulate_eq_value]
    rw [bytes_value (by simp), List.reverse_reverse, value_bytes_of_lt h]
  | big =>
    simp only [ByteOrder.hton, ByteOrder.store, ByteOrder.load, accumulate_eq_value,
      List.reverse_reverse]
    rw [value_bytes_of_lt h, value_bytes_of_lt h]

theorem store_htons (o : ByteOrder) (n : UInt16) :
    o.store 2 (htons o n).toNat = (bytes 2 n.toNat).reverse := by
  have hn : n.toNat < 256 ^ 2 := by simpa using n.toNat_lt
  have ht : o.hton 2 n.toNat < 2 ^ 16 := by simpa using hton_lt o 2 n.toNat
  rw [htons, UInt16.toNat_ofNat_of_lt' ht, store_hton o hn]

theorem store_htonl (o : ByteOrder) (n : UInt32) :
    o.store 4 (htonl o n).toNat = (bytes 4 n.toNat).reverse := by
  have hn : n.toNat < 256 ^ 4 := by simpa using n.toNat_lt
  have ht : o.hton 4 n.toNat < 2 ^ 32 := by simpa using hton_lt o 4 n.toNat
  rw [htonl, UInt32.toNat_ofNat_of_lt' ht, store_hton o hn]

theorem store_htonll (o : ByteOrder) (n : UInt64) :
    o.store 8 (htonll o n).toNat = (bytes 8 n.toNat).reverse := by
  have hn : n.toNat < 256 ^ 8 := by simpa using n.toNat_lt
  have ht : o.hton 8 n.toNat < 2 ^ 64 := by simpa using hton_lt o 8 n.toNat
  rw [htonll, UInt64.toNat_ofNat_of_lt' ht, store_hton o hn]

theorem load_lt (o : ByteOrder) (bs : Binary) : o.load bs < 256 ^ bs.length := by
  cases o with
  | little => exact value_lt bs
  | big => simpa [ByteOrder.load] using value_lt bs.reverse

theorem ntohs_load (o : ByteOrder) (n : UInt16) :
    ntohs o (.ofNat (o.load (bytes 2 n.toNat).reverse)) = n := by
  have hn : n.toNat < 256 ^ 2 := by simpa using n.toNat_lt
  have hl : o.load (bytes 2 n.toNat).reverse < 2 ^ 16 := by
    simpa using load_lt o (bytes 2 n.toNat).reverse
  rw [ntohs, htons, UInt16.toNat_ofNat_of_lt' hl, hton_load o hn, UInt16.ofNat_toNat]

theorem ntohl_load (o : ByteOrder) (n : UInt32) :
    ntohl o (.ofNat (o.load (bytes 4 n.toNat).reverse)) = n := by
  have hn : n.toNat < 256 ^ 4 := by simpa using n.toNat_lt
  have hl : o.load (bytes 4 n.toNat).reverse < 2 ^ 32 := by
    simpa using load_lt o (bytes 4 n.toNat).reverse
  rw [ntohl, htonl, UInt32.toNat_ofNat_of_lt' hl, hton_load o hn, UInt32.ofNat_toNat]

theorem ntohll_load (o : ByteOrder) (n : UInt64) :
    ntohll o (.ofNat (o.load (bytes 8 n.toNat).reverse)) = n := by
  have hn : n.toNat < 256 ^ 8 := by simpa using n.toNat_lt
  have hl : o.load (bytes 8 n.toNat).reverse < 2 ^ 64 := by
    simpa using load_lt o (bytes 8 n.toNat).reverse
  rw [ntohll, htonll, UInt64.toNat_ofNat_of_lt' hl, hton_load o hn, UInt64.ofNat_toNat]

/-- `mPosition + size` is a sum of machine words in the code. Buffers are far shorter
than the word range and the sizes read here are at most 65535, so it is a plain sum. -/
structure BinaryReader where
  mBinary : Binary
  mPosition : ℕ
  deriving DecidableEq, Repr

def BinaryReader.ofBinary (bin : Binary) : BinaryReader := ⟨bin, 0⟩

def BinaryReader.read (r : BinaryReader) (size : ℕ) : Except Error (Binary × BinaryReader) :=
  if r.mPosition + size > r.mBinary.length then
    .error (.runtimeError "read out of bounds")
  else
    .ok ((r.mBinary.drop r.mPosition).take size, { r with mPosition := r.mPosition + size })

def BinaryReader.size (r : BinaryReader) : ℕ := r.mBinary.length - r.mPosition
def BinaryReader.finished (r : BinaryReader) : Bool := r.mPosition == r.mBinary.length
def BinaryReader.left (r : BinaryReader) : Binary := r.mBinary.drop r.mPosition

structure BinaryWriter where
  mBinary : Binary
  deriving DecidableEq, Repr

def BinaryWriter.empty : BinaryWriter := ⟨[]⟩
def BinaryWriter.write (w : BinaryWriter) (data : Binary) : BinaryWriter :=
  ⟨w.mBinary ++ data⟩
def BinaryWriter.data (w : BinaryWriter) : Binary := w.mBinary

@[simp] theorem data_empty : BinaryWriter.empty.data = [] := rfl
@[simp] theorem data_write (w : BinaryWriter) (d : Binary) :
    (w.write d).data = w.data ++ d := rfl

structure BinaryReader.Ahead (r : BinaryReader) (bin rest : Binary) : Prop where
  source : r.mBinary = bin
  position : ∃ before, bin = before ++ rest ∧ r.mPosition = before.length

theorem ahead_start (bin : Binary) : (BinaryReader.ofBinary bin).Ahead bin bin :=
  ⟨rfl, [], rfl, rfl⟩

theorem read_ahead {r : BinaryReader} {bin d rest : Binary} {n : ℕ}
    (h : r.Ahead bin (d ++ rest)) (hn : d.length = n) :
    ∃ r', r.read n = .ok (d, r') ∧ r'.Ahead bin rest := by
  obtain ⟨rfl, before, hbin, hpos⟩ := h
  subst hn
  have hle : ¬ r.mPosition + d.length > r.mBinary.length := by
    simp only [hbin, hpos, List.length_append]
    omega
  refine ⟨{ r with mPosition := r.mPosition + d.length }, ?_, rfl, before ++ d, ?_, ?_⟩
  · rw [BinaryReader.read, if_neg hle, hbin, hpos]
    simp
  · simp [hbin]
  · simp [hpos]

theorem read_split {r r' : BinaryReader} {bin rest d : Binary} {n : ℕ} (h : r.Ahead bin rest)
    (hr : r.read n = .ok (d, r')) :
    ∃ rest', rest = d ++ rest' ∧ d.length = n ∧ r'.Ahead bin rest' := by
  obtain ⟨rfl, before, hbin, hpos⟩ := h
  rw [BinaryReader.read] at hr
  split_ifs at hr with hshort
  simp only [Except.ok.injEq, Prod.mk.injEq] at hr
  obtain ⟨rfl, rfl⟩ := hr
  have hdrop : r.mBinary.drop r.mPosition = rest := by
    rw [hbin, hpos, List.drop_left]
  have hlength : n ≤ rest.length := by
    rw [hbin, hpos, List.length_append] at hshort
    omega
  have hahead : rest.take n ++ rest.drop n = rest := List.take_append_drop n rest
  refine ⟨rest.drop n, ?_, ?_, rfl, before ++ rest.take n, ?_, ?_⟩
  · rw [hdrop, hahead]
  · rw [hdrop, List.length_take, Nat.min_eq_left hlength]
  · rw [List.append_assoc, hahead]
    exact hbin
  · rw [List.length_append, List.length_take, Nat.min_eq_left hlength, ← hpos]

theorem left_ahead {r : BinaryReader} {bin rest : Binary} (h : r.Ahead bin rest) :
    r.left = rest := by
  obtain ⟨rfl, before, hbin, hpos⟩ := h
  rw [BinaryReader.left, hbin, hpos, List.drop_left]

theorem finished_ahead {r : BinaryReader} {bin : Binary} (h : r.Ahead bin []) :
    r.finished = true := by
  obtain ⟨rfl, before, hbin, hpos⟩ := h
  simp [BinaryReader.finished, hbin, hpos]

theorem size_ahead {r : BinaryReader} {bin rest : Binary} (h : r.Ahead bin rest) :
    r.size = rest.length := by
  obtain ⟨rfl, before, hbin, hpos⟩ := h
  simp [BinaryReader.size, hbin, hpos]

def ascii (s : String) : Binary := s.toList.map fun c => UInt8.ofNat c.toNat

def packStrings (strs : List Binary) : Binary := strs.flatMap fun str => str ++ [0]

/-- The inner loop of `unpack_strings`: a string, and what follows its terminator. -/
def unpackString : Binary → Binary × Binary
  | [] => ([], [])
  | byte :: bin =>
    if byte = 0 then ([], bin) else (byte :: (unpackString bin).1, (unpackString bin).2)

/-- `unpack_strings`: strings for which no bytes are left stay empty. -/
def unpackStrings : ℕ → Binary → List Binary
  | 0, _ => []
  | count + 1, bin => (unpackString bin).1 :: unpackStrings count (unpackString bin).2

theorem unpackString_terminated {str : Binary} (h : 0 ∉ str) (bin : Binary) :
    unpackString (str ++ 0 :: bin) = (str, bin) := by
  induction str with
  | nil => rfl
  | cons byte str ih =>
    obtain ⟨hbyte, hstr⟩ := List.ne_and_not_mem_of_not_mem_cons h
    rw [List.cons_append, unpackString, if_neg (Ne.symm hbyte), ih hstr]

theorem unpack_pack {strs : List Binary} (h : ∀ str ∈ strs, 0 ∉ str) (bin : Binary) :
    unpackStrings strs.length (packStrings strs ++ bin) = strs := by
  induction strs with
  | nil => rfl
  | cons str strs ih =>
    obtain ⟨hstr, hstrs⟩ := List.forall_mem_cons.mp h
    have hsplit : packStrings (str :: strs) ++ bin = str ++ 0 :: (packStrings strs ++ bin) := by
      simp [packStrings]
    rw [hsplit, List.length_cons, unpackStrings, unpackString_terminated hstr, ih hstrs]

end LegioBinary
