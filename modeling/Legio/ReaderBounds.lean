import Legio.FieldCodec

set_option linter.style.header false

/-! The bound check of `binary_reader` in machine words. Every buffer fits in a vector, so its
length is below half of the word range; a size is any word. -/
namespace ReaderBounds

open LegioBinary

inductive Target where
  | native
  | webAssembly
  deriving DecidableEq, Repr

def Target.bits : Target → ℕ
  | .native => 64
  | .webAssembly => 32

def Target.maxSize (t : Target) : ℕ := 2 ^ (t.bits - 1) - 1

abbrev Size (t : Target) := Fin (2 ^ t.bits)

structure Buffer (t : Target) where
  bin : Binary
  fits : bin.length ≤ t.maxSize

inductive Exception where
  | runtimeError (what : String)
  | lengthError
  | badAlloc
  deriving DecidableEq, Repr

inductive Response where
  | undefined
  | threw (exception : Exception) (r : BinaryReader)
  | returned (copied : Binary) (r : BinaryReader)
  deriving DecidableEq, Repr

def Response.reader? : Response → Option BinaryReader
  | .undefined => none
  | .threw _ r => some r
  | .returned _ r => some r

/-- `read(buffer, size)`. The check compares the sum that the words hold; a copy that reaches
behind the last byte is `undefined`. -/
def read {t : Target} (r : BinaryReader) (size : Size t) : Response :=
  let sum := (r.mPosition + size) % 2 ^ t.bits
  if sum > r.mBinary.length then .threw (.runtimeError "read out of bounds") r
  else if r.mPosition + size > r.mBinary.length then .undefined
  else .returned ((r.mBinary.drop r.mPosition).take size) { r with mPosition := sum }

/-- `read(size)`: the result is allocated before anything is read. -/
def readBinary {t : Target} (allocated : Bool) (r : BinaryReader) (size : Size t) : Response :=
  if size > t.maxSize then .threw .lengthError r
  else if allocated then read r size
  else .threw .badAlloc r

inductive Width where
  | one
  | two
  | four
  | eight
  deriving DecidableEq, Repr

def Width.bytes : Width → ℕ
  | .one => 1
  | .two => 2
  | .four => 4
  | .eight => 8

theorem bytes_lt (t : Target) (width : Width) : width.bytes < 2 ^ t.bits := by
  cases t <;> cases width <;> decide

/-- `readInt` up to the conversion: the bytes become the memory of the integer. -/
def readInt {t : Target} (r : BinaryReader) (width : Width) : Response :=
  read (t := t) r ⟨width.bytes, bytes_lt t width⟩

inductive Call (t : Target) where
  | read (size : Size t)
  | readBinary (size : Size t) (allocated : Bool)
  | readInt (width : Width)
  deriving DecidableEq

def Call.size {t : Target} : Call t → ℕ
  | .read size => size
  | .readBinary size _ => size
  | .readInt width => width.bytes

def Call.perform {t : Target} (r : BinaryReader) : Call t → Response
  | .read size => ReaderBounds.read r size
  | .readBinary size allocated => ReaderBounds.readBinary allocated r size
  | .readInt width => ReaderBounds.readInt (t := t) r width

def run {t : Target} (r : BinaryReader) : List (Call t) → Option BinaryReader
  | [] => some r
  | call :: calls => (call.perform r).reader?.bind fun r => run r calls

/-- A reader over a buffer that a vector can hold, at a position inside it. -/
structure Inside (t : Target) (r : BinaryReader) : Prop where
  position : r.mPosition ≤ r.mBinary.length
  fits : r.mBinary.length ≤ t.maxSize

def Fits {t : Target} (r : BinaryReader) : Call t → Prop
  | .read size => r.mPosition + size < 2 ^ t.bits
  | .readBinary _ _ => True
  | .readInt _ => True

instance {t : Target} (r : BinaryReader) (call : Call t) : Decidable (Fits r call) := by
  cases call <;> unfold Fits <;> infer_instance

/-- A call that stays in the buffer: it returns the bytes that follow and moves behind them,
or it throws where it was, which it does whenever there are too few bytes. -/
structure Contained {t : Target} (r : BinaryReader) (call : Call t) : Prop where
  position : r.mPosition ≤ r.mBinary.length
  returns : ∀ copied r', call.perform r = .returned copied r' →
    copied = (r.mBinary.drop r.mPosition).take call.size ∧ copied.length = call.size ∧
      r' = { r with mPosition := r.mPosition + call.size }
  short : r.size < call.size → ∃ exception, call.perform r = .threw exception r
  defined : call.perform r ≠ .undefined
  bounded : ∀ r', (call.perform r).reader? = some r' → r'.mPosition ≤ r'.mBinary.length

theorem maxSize_lt (t : Target) : 2 * t.maxSize < 2 ^ t.bits := by
  cases t <;> decide

theorem maxSize_add_bytes (t : Target) (width : Width) :
    t.maxSize + width.bytes < 2 ^ t.bits := by
  cases t <;> cases width <;> decide

theorem inside_start {t : Target} (buffer : Buffer t) : Inside t (.ofBinary buffer.bin) :=
  ⟨Nat.zero_le _, buffer.fits⟩

theorem read_fits {t : Target} {r : BinaryReader} {size : Size t}
    (hfits : r.mPosition + size < 2 ^ t.bits) :
    ReaderBounds.read r size =
      if r.mPosition + size > r.mBinary.length then
        .threw (.runtimeError "read out of bounds") r
      else .returned ((r.mBinary.drop r.mPosition).take size)
        { r with mPosition := r.mPosition + size } := by
  simp only [ReaderBounds.read, Nat.mod_eq_of_lt hfits]
  split_ifs with hshort <;> rfl

theorem read_eq_reader {t : Target} {r : BinaryReader} {size : Size t}
    (hfits : r.mPosition + size < 2 ^ t.bits) (copied : Binary) (r' : BinaryReader) :
    ReaderBounds.read r size = .returned copied r' ↔ r.read size = .ok (copied, r') := by
  rw [read_fits hfits, BinaryReader.read]
  split_ifs with hshort <;> simp

/-- A sum that wraps passes the check, and the copy leaves the buffer. -/
theorem read_wraps {t : Target} {r : BinaryReader} {size : Size t} (hin : Inside t r)
    (hwraps : 2 ^ t.bits ≤ r.mPosition + size) : ReaderBounds.read r size = .undefined := by
  have hmax := maxSize_lt t
  have hposition := hin.position
  have hlength := hin.fits
  have hsize : (size : ℕ) < 2 ^ t.bits := size.isLt
  have hsum : (r.mPosition + size) % 2 ^ t.bits = r.mPosition + size - 2 ^ t.bits := by
    rw [Nat.mod_eq_sub_mod hwraps, Nat.mod_eq_of_lt (by omega)]
  have hpass : ¬ (r.mPosition + size) % 2 ^ t.bits > r.mBinary.length := by omega
  have hbehind : r.mPosition + size > r.mBinary.length := by omega
  simp only [ReaderBounds.read, if_neg hpass, if_pos hbehind]

theorem contained_read {t : Target} {r : BinaryReader} {call : Call t} (size : Size t)
    (hin : Inside t r) (hsize : call.size = size)
    (hread : call.perform r = ReaderBounds.read r size)
    (hfits : r.mPosition + size < 2 ^ t.bits) : Contained r call := by
  have hposition := hin.position
  rw [read_fits hfits] at hread
  refine ⟨hposition, ?_, ?_, ?_, ?_⟩ <;> rw [hread]
  · intro copied r' hreturn
    split_ifs at hreturn with hshort
    cases hreturn
    refine ⟨by rw [hsize], ?_, by rw [hsize]⟩
    rw [List.length_take, List.length_drop, hsize]
    omega
  · intro hshort
    rw [BinaryReader.size, hsize] at hshort
    exact ⟨_, if_pos (by omega)⟩
  · split_ifs <;> simp
  · intro r' hreader
    split_ifs at hreader with hshort <;> cases hreader
    · exact hposition
    · simpa using hshort

theorem contained_threw {t : Target} {r : BinaryReader} {call : Call t}
    {exception : Exception} (hin : Inside t r)
    (hthrow : call.perform r = .threw exception r) : Contained r call := by
  refine ⟨hin.position, ?_, fun _ => ⟨_, hthrow⟩, ?_, ?_⟩ <;> rw [hthrow]
  · intro copied r' hreturn
    cases hreturn
  · simp
  · intro r' hreader
    cases hreader
    exact hin.position

/-- A call stays in the buffer unless it is a `read(buffer, size)` whose sum wraps: a result
that can be allocated is too short to wrap it, and so is an integer. -/
theorem contained_iff {t : Target} {r : BinaryReader} (hin : Inside t r) (call : Call t) :
    Contained r call ↔ Fits r call := by
  have hposition := hin.position
  have hlength := hin.fits
  cases call with
  | read size =>
    refine ⟨?_, contained_read size hin rfl rfl⟩
    intro hcontained
    by_contra hwraps
    exact hcontained.defined (read_wraps hin (not_lt.mp hwraps))
  | readBinary size allocated =>
    refine ⟨fun _ => trivial, fun _ => ?_⟩
    have hmax := maxSize_lt t
    by_cases hlong : size > t.maxSize
    · exact contained_threw hin (if_pos hlong)
    · cases allocated with
      | false => exact contained_threw hin (if_neg hlong)
      | true => exact contained_read size hin rfl (if_neg hlong) (by omega)
  | readInt width =>
    refine ⟨fun _ => trivial, fun _ => ?_⟩
    have hmax := maxSize_add_bytes t width
    refine contained_read ⟨width.bytes, bytes_lt t width⟩ hin rfl rfl ?_
    show r.mPosition + width.bytes < 2 ^ t.bits
    omega

theorem inside_perform {t : Target} {r r' : BinaryReader} {call : Call t} (hin : Inside t r)
    (hcall : (call.perform r).reader? = some r') : Inside t r' := by
  have hmono : ∀ size : Size t, (ReaderBounds.read r size).reader? = some r' → Inside t r' := by
    intro size hread
    by_cases hfits : r.mPosition + size < 2 ^ t.bits
    · rw [read_fits hfits] at hread
      split_ifs at hread with hshort <;> cases hread
      · exact hin
      · exact ⟨not_lt.mp hshort, hin.fits⟩
    · rw [read_wraps hin (not_lt.mp hfits)] at hread
      cases hread
  cases call with
  | read size => exact hmono size hcall
  | readBinary size allocated =>
    rw [Call.perform, ReaderBounds.readBinary] at hcall
    split_ifs at hcall
    · cases hcall
      exact hin
    · exact hmono size hcall
    · cases hcall
      exact hin
  | readInt width => exact hmono _ hcall

theorem inside_run {t : Target} {r r' : BinaryReader} {calls : List (Call t)}
    (hin : Inside t r) (hrun : run r calls = some r') : Inside t r' := by
  induction calls generalizing r with
  | nil =>
    cases hrun
    exact hin
  | cons call calls ih =>
    obtain ⟨r₁, hcall, hrest⟩ := Option.bind_eq_some_iff.mp hrun
    exact ih (inside_perform hin hcall) hrest

theorem run_defined {t : Target} {r : BinaryReader} {before after : List (Call t)}
    {call : Call t} (hin : Inside t r)
    (hfits : ∀ before' call' after', before ++ call :: after = before' ++ call' :: after' →
      ∀ r', run r before' = some r' → Fits r' call') :
    ∃ r', run r before = some r' := by
  induction before generalizing r with
  | nil => exact ⟨r, rfl⟩
  | cons first before ih =>
    have hfirst := (contained_iff hin first).mpr
      (hfits [] first (before ++ call :: after) rfl r rfl)
    obtain ⟨r₁, hcall⟩ : ∃ r₁, (first.perform r).reader? = some r₁ := by
      cases hresponse : first.perform r with
      | undefined => exact absurd hresponse hfirst.defined
      | threw exception r₁ => exact ⟨r₁, rfl⟩
      | returned copied r₁ => exact ⟨r₁, rfl⟩
    have hstep : ∀ calls, run r (first :: calls) = run r₁ calls := by
      intro calls
      rw [run, hcall, Option.bind_some]
    obtain ⟨r', hrun⟩ := ih (inside_perform hin hcall) (by
      intro before' call' after' heq r' hrun
      refine hfits (first :: before') call' after' (by rw [List.cons_append, heq]; rfl) r' ?_
      rw [hstep, hrun])
    exact ⟨r', by rw [hstep, hrun]⟩

/-- The calls of a run all stay in the buffer just when no `read(buffer, size)` among them is
made at a position with which the sum of its bound check wraps. -/
theorem reads_stay_inside_iff {t : Target} (buffer : Buffer t) (calls : List (Call t)) :
    (∀ before call after, calls = before ++ call :: after →
      ∃ r, run (.ofBinary buffer.bin) before = some r ∧ Contained r call) ↔
    ∀ before call after, calls = before ++ call :: after →
      ∀ r, run (.ofBinary buffer.bin) before = some r → Fits r call := by
  have hin := inside_start buffer
  constructor
  · intro hcontained before call after hcalls r hrun
    obtain ⟨r', hrun', hcall⟩ := hcontained before call after hcalls
    obtain rfl : r' = r := Option.some_inj.mp (hrun'.symm.trans hrun)
    exact (contained_iff (inside_run hin hrun) call).mp hcall
  · intro hfits before call after hcalls
    subst hcalls
    obtain ⟨r, hrun⟩ := run_defined hin hfits
    exact ⟨r, hrun, (contained_iff (inside_run hin hrun) call).mpr
      (hfits before call after rfl r hrun)⟩

namespace Sample

def oneByte : Buffer .native := ⟨[7], by decide⟩

def pastTheEnd : Call .native := .read ⟨2 ^ 64 - 1, by decide⟩

/-- A byte is read; then the position and the size sum up to zero. -/
theorem read_leaves_buffer :
    ¬ (∀ (t : Target) (buffer : Buffer t) (calls : List (Call t)),
      ∀ before call after, calls = before ++ call :: after →
        ∃ r, run (.ofBinary buffer.bin) before = some r ∧ Contained r call) := by
  intro hall
  obtain ⟨r, hrun, hcontained⟩ := hall .native oneByte [.readInt .one, pastTheEnd]
    [.readInt .one] pastTheEnd [] rfl
  obtain rfl : (⟨[7], 1⟩ : BinaryReader) = r := Option.some_inj.mp (by rw [← hrun]; rfl)
  exact hcontained.defined (by decide)

end Sample

end ReaderBounds
