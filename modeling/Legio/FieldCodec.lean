import Legio.BinaryCodec

set_option linter.style.header false

/-! Integer fields in network order: `writeInt` and `readInt` for each width, and a list of
fields written by one host and read by another. A field lies inside the buffer, so the sums
of the reader stay below the length of the buffer. -/
namespace FieldCodec

open LegioBinary RadixBytes

def writeInt8 (o : ByteOrder) (i : UInt8) (w : BinaryWriter) : BinaryWriter :=
  w.write (o.store 1 i.toNat)
def writeInt16 (o : ByteOrder) (i : UInt16) (w : BinaryWriter) : BinaryWriter :=
  w.write (o.store 2 (htons o i).toNat)
def writeInt32 (o : ByteOrder) (i : UInt32) (w : BinaryWriter) : BinaryWriter :=
  w.write (o.store 4 (htonl o i).toNat)
def writeInt64 (o : ByteOrder) (i : UInt64) (w : BinaryWriter) : BinaryWriter :=
  w.write (o.store 8 (htonll o i).toNat)

/-- The bytes that are read become the memory of the integer. -/
def readInt8 (o : ByteOrder) (r : BinaryReader) : Except Error (UInt8 × BinaryReader) := do
  let (memory, r) ← r.read 1
  return (.ofNat (o.load memory), r)

def readInt16 (o : ByteOrder) (r : BinaryReader) : Except Error (UInt16 × BinaryReader) := do
  let (memory, r) ← r.read 2
  return (ntohs o (.ofNat (o.load memory)), r)

def readInt32 (o : ByteOrder) (r : BinaryReader) : Except Error (UInt32 × BinaryReader) := do
  let (memory, r) ← r.read 4
  return (ntohl o (.ofNat (o.load memory)), r)

def readInt64 (o : ByteOrder) (r : BinaryReader) : Except Error (UInt64 × BinaryReader) := do
  let (memory, r) ← r.read 8
  return (ntohll o (.ofNat (o.load memory)), r)

inductive Kind where
  | int8
  | int16
  | int32
  | int64
  | binary (size : ℕ)
  deriving DecidableEq, Repr

inductive Field where
  | int8 (i : UInt8)
  | int16 (i : UInt16)
  | int32 (i : UInt32)
  | int64 (i : UInt64)
  | binary (data : Binary)
  deriving DecidableEq, Repr

def Field.kind : Field → Kind
  | .int8 _ => .int8
  | .int16 _ => .int16
  | .int32 _ => .int32
  | .int64 _ => .int64
  | .binary data => .binary data.length

def Field.write (o : ByteOrder) (w : BinaryWriter) : Field → BinaryWriter
  | .int8 i => writeInt8 o i w
  | .int16 i => writeInt16 o i w
  | .int32 i => writeInt32 o i w
  | .int64 i => writeInt64 o i w
  | .binary data => w.write data

def writeFields (o : ByteOrder) (fields : List Field) : BinaryWriter :=
  fields.foldl (Field.write o) .empty

def Kind.read (o : ByteOrder) (r : BinaryReader) :
    Kind → Except Error (Field × BinaryReader)
  | .int8 => do let (i, r) ← readInt8 o r; return (.int8 i, r)
  | .int16 => do let (i, r) ← readInt16 o r; return (.int16 i, r)
  | .int32 => do let (i, r) ← readInt32 o r; return (.int32 i, r)
  | .int64 => do let (i, r) ← readInt64 o r; return (.int64 i, r)
  | .binary size => do let (data, r) ← r.read size; return (.binary data, r)

def readFields (o : ByteOrder) (r : BinaryReader) :
    List Kind → Except Error (List Field × BinaryReader)
  | [] => return ([], r)
  | kind :: kinds => do
    let (field, r) ← kind.read o r
    let (fields, r) ← readFields o r kinds
    return (field :: fields, r)

/-- A field on the wire: integers with their most significant byte first. -/
def Field.bigEndian : Field → Binary
  | .int8 i => (bytes 1 i.toNat).reverse
  | .int16 i => (bytes 2 i.toNat).reverse
  | .int32 i => (bytes 4 i.toNat).reverse
  | .int64 i => (bytes 8 i.toNat).reverse
  | .binary data => data

theorem store_byte (o : ByteOrder) (i : UInt8) :
    o.store 1 i.toNat = (bytes 1 i.toNat).reverse := by
  cases o <;> rfl

theorem data_write_field (o : ByteOrder) (w : BinaryWriter) (field : Field) :
    (field.write o w).data = w.data ++ field.bigEndian := by
  cases field with
  | int8 i => rw [Field.write, writeInt8, data_write, store_byte, Field.bigEndian]
  | int16 i => rw [Field.write, writeInt16, data_write, store_htons, Field.bigEndian]
  | int32 i => rw [Field.write, writeInt32, data_write, store_htonl, Field.bigEndian]
  | int64 i => rw [Field.write, writeInt64, data_write, store_htonll, Field.bigEndian]
  | binary data => rw [Field.write, data_write, Field.bigEndian]

/-- The bytes written do not depend on the host that writes them. -/
theorem data_writeFields (o : ByteOrder) (fields : List Field) :
    (writeFields o fields).data = fields.flatMap Field.bigEndian := by
  have main : ∀ (fields : List Field) (w : BinaryWriter),
      (fields.foldl (Field.write o) w).data = w.data ++ fields.flatMap Field.bigEndian := by
    intro fields
    induction fields with
    | nil => intro w; simp
    | cons field fields ih =>
      intro w
      rw [List.foldl_cons, ih, data_write_field, List.flatMap_cons, List.append_assoc]
  rw [writeFields, main fields .empty, data_empty, List.nil_append]

theorem load_byte (o : ByteOrder) (i : UInt8) :
    UInt8.ofNat (o.load (bytes 1 i.toNat).reverse) = i := by
  cases o <;> simp [ByteOrder.load, bytes, value]

theorem read_field {r : BinaryReader} {bin rest : Binary} (o : ByteOrder) (field : Field)
    (h : r.Ahead bin (field.bigEndian ++ rest)) :
    ∃ r', field.kind.read o r = .ok (field, r') ∧ r'.Ahead bin rest := by
  cases field with
  | int8 i =>
    obtain ⟨r', hread, hahead⟩ := read_ahead h (n := 1) (by simp [Field.bigEndian])
    refine ⟨r', ?_, hahead⟩
    rw [Field.kind, Kind.read, readInt8, hread]
    exact congrArg (fun j => Except.ok (Field.int8 j, r')) (load_byte o i)
  | int16 i =>
    obtain ⟨r', hread, hahead⟩ := read_ahead h (n := 2) (by simp [Field.bigEndian])
    refine ⟨r', ?_, hahead⟩
    rw [Field.kind, Kind.read, readInt16, hread]
    exact congrArg (fun j => Except.ok (Field.int16 j, r')) (ntohs_load o i)
  | int32 i =>
    obtain ⟨r', hread, hahead⟩ := read_ahead h (n := 4) (by simp [Field.bigEndian])
    refine ⟨r', ?_, hahead⟩
    rw [Field.kind, Kind.read, readInt32, hread]
    exact congrArg (fun j => Except.ok (Field.int32 j, r')) (ntohl_load o i)
  | int64 i =>
    obtain ⟨r', hread, hahead⟩ := read_ahead h (n := 8) (by simp [Field.bigEndian])
    refine ⟨r', ?_, hahead⟩
    rw [Field.kind, Kind.read, readInt64, hread]
    exact congrArg (fun j => Except.ok (Field.int64 j, r')) (ntohll_load o i)
  | binary data =>
    obtain ⟨r', hread, hahead⟩ := read_ahead h (n := data.length) rfl
    refine ⟨r', ?_, hahead⟩
    rw [Field.kind, Kind.read, hread]
    rfl

theorem read_fields {r : BinaryReader} {bin rest : Binary} (o : ByteOrder)
    (fields : List Field) (h : r.Ahead bin (fields.flatMap Field.bigEndian ++ rest)) :
    ∃ r', readFields o r (fields.map Field.kind) = .ok (fields, r') ∧ r'.Ahead bin rest := by
  induction fields generalizing r with
  | nil => exact ⟨r, rfl, h⟩
  | cons field fields ih =>
    rw [List.flatMap_cons, List.append_assoc] at h
    obtain ⟨r₁, hfield, hfirst⟩ := read_field o field h
    obtain ⟨r₂, hfields, hrest⟩ := ih hfirst
    refine ⟨r₂, ?_, hrest⟩
    rw [List.map_cons, readFields, hfield]
    change (readFields o r₁ (fields.map Field.kind) >>= fun p =>
      pure (field :: p.1, p.2)) = _
    rw [hfields]
    rfl

/-- Fields written on one host are read back on another, through bytes that are the same for
all hosts. -/
theorem field_codec_portable (fields : List Field) (writer reader : ByteOrder) :
    (writeFields writer fields).data = fields.flatMap Field.bigEndian ∧
      ∃ r, readFields reader (.ofBinary (writeFields writer fields).data)
          (fields.map Field.kind) = .ok (fields, r) ∧ r.finished = true := by
  refine ⟨data_writeFields writer fields, ?_⟩
  have hstart : (BinaryReader.ofBinary (writeFields writer fields).data).Ahead
      (writeFields writer fields).data (fields.flatMap Field.bigEndian ++ []) := by
    rw [List.append_nil, ← data_writeFields writer]
    exact ahead_start _
  obtain ⟨r, hread, hahead⟩ := read_fields reader fields hstart
  exact ⟨r, hread, finished_ahead hahead⟩

example : (writeFields .little [.int16 0x1234, .binary [7], .int32 1]).data =
    [0x12, 0x34, 7, 0, 0, 0, 1] := by decide

end FieldCodec
