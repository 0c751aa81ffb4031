import Legio.CryptoInterface

set_option linter.style.header false

/-! The message frame: an 8-byte header, optional source and destination, body, signature. The
length field covers the body only, so the signature is what is left. The bound in
`compare_sequence` is one short of half the range of the sequence numbers, so that two
numbers 2^31 - 1 apart are each older than the other. -/
namespace LegioMessage

open LegioBinary LegioCrypto

/-- The packed header struct. `type` ranges over all byte values: the code casts. -/
structure Header where
  type : UInt8
  flags : UInt8
  length : UInt16
  sequence : UInt32
  deriving DecidableEq, Repr

def headerSize : ℕ := 8

def Header.store (o : ByteOrder) (h : Header) : Binary :=
  [h.type, h.flags] ++ (o.store 2 h.length.toNat ++ o.store 4 h.sequence.toNat)

def Header.load (o : ByteOrder) (bin : Binary) : Header where
  type := bin.getD 0 0
  flags := bin.getD 1 0
  length := .ofNat (o.load ((bin.drop 2).take 2))
  sequence := .ofNat (o.load ((bin.drop 4).take 4))

namespace MessageType
def Dummy : UInt8 := 0x00
def Hello : UInt8 := 0x01
def State : UInt8 := 0x02
def Signaling : UInt8 := 0x10
def Provisioning : UInt8 := 0x11
def User : UInt8 := 0x80
end MessageType

namespace Flags
def HasSource : UInt8 := 0x01
def HasDestination : UInt8 := 0x02
end Flags

structure Message (Id : Type) where
  type : UInt8
  sequence : UInt32
  source : Option Id
  destination : Option Id
  body : Binary
  signature : Binary
  deriving DecidableEq, Repr

variable {Id Pair Ecdh : Type}

def uint16Max : ℕ := 65535

/-- The flag bits of a message: which optional identifiers follow the header. -/
def Message.flags (m : Message Id) : UInt8 :=
  let flags := 0
  let flags := if m.source.isSome then flags ||| Flags.HasSource else flags
  if m.destination.isSome then flags ||| Flags.HasDestination else flags

def Message.toBinary (K : CryptoPP Id Pair Ecdh) (o : ByteOrder) (m : Message Id) :
    Except Error Binary :=
  if m.body.length > uint16Max then
    .error (.runtimeError "Message body is too long")
  else
    let header : Header :=
      { type := m.type
        flags := m.flags
        length := htons o (.ofNat m.body.length)
        sequence := htonl o m.sequence }
    let writer := BinaryWriter.empty.write (header.store o)
    let writer := match m.source with
      | some id => writer.write (K.encodePoint id)
      | none => writer
    let writer := match m.destination with
      | some id => writer.write (K.encodePoint id)
      | none => writer
    .ok ((writer.write m.body).write m.signature).data

/-- `Message::sign`: the signature covers the serialisation with an empty signature. -/
def Message.sign (K : CryptoPP Id Pair Ecdh) (o : ByteOrder) (m : Message Id) (pair : Pair) :
    Except Error (Message Id) := do
  let m := { m with source := some (K.publicKey pair), signature := [] }
  let bin ← m.toBinary K o
  return { m with signature := K.sign pair bin }

def Message.create (K : CryptoPP Id Pair Ecdh) (o : ByteOrder) (type : UInt8)
    (sequence : UInt32) (body : Binary) (sourceEcdsaPair : Option Pair)
    (destination : Option Id) : Except Error (Message Id) :=
  let m : Message Id := ⟨type, sequence, none, destination, body, []⟩
  match sourceEcdsaPair with
  | some pair => m.sign K o pair
  | none => .ok m

/-- An optional identifier of the frame: read when its flag is set. -/
def readIdentifier (K : CryptoPP Id Pair Ecdh) (present : Bool) (reader : BinaryReader) :
    Except Error (Option Id × BinaryReader) := do
  if present then
    let (bin, reader) ← reader.read identifierSize
    let id ← K.ecdsaPublic bin
    return (some id, reader)
  else
    return (none, reader)

def Message.parse (K : CryptoPP Id Pair Ecdh) (o : ByteOrder) (bin : Binary) :
    Except Error (Message Id) := do
  let (raw, reader) ← (BinaryReader.ofBinary bin).read headerSize
  let header := Header.load o raw
  let length := (ntohs o header.length).toNat
  let (source, reader) ← readIdentifier K (header.flags &&& Flags.HasSource != 0) reader
  let (destination, reader) ←
    readIdentifier K (header.flags &&& Flags.HasDestination != 0) reader
  let (body, reader) ← reader.read length
  let signature := reader.left
  let m : Message Id :=
    ⟨header.type, ntohl o header.sequence, source, destination, body, signature⟩
  match source with
  | some id =>
    if K.verify id (bin.take (bin.length - signature.length)) signature then .ok m
    else .error (.invalidArgument "Message signature is invalid")
  | none => .ok m

def compareSequence (s1 s2 : UInt32) : Int :=
  if s1 = s2 then 0
  else if s1 - s2 < 0xFFFFFFFF / 2 then 1
  else -1

def optionalBytes (K : CryptoPP Id Pair Ecdh) (id : Option Id) : Binary :=
  match id with
  | some id => K.encodePoint id
  | none => []

/-- The header in network order; no host appears in it. -/
def Message.headerBytes (m : Message Id) : Binary :=
  [m.type, m.flags] ++ ((RadixBytes.bytes 2 m.body.length).reverse ++
    (RadixBytes.bytes 4 m.sequence.toNat).reverse)

def Message.signedBytes (K : CryptoPP Id Pair Ecdh) (m : Message Id) : Binary :=
  m.headerBytes ++ (optionalBytes K m.source ++ (optionalBytes K m.destination ++ m.body))

@[simp] theorem length_headerBytes (m : Message Id) : m.headerBytes.length = headerSize := by
  simp [Message.headerBytes, headerSize]

/-- The serialised form does not depend on the byte order of the host. -/
theorem toBinary_eq (K : CryptoPP Id Pair Ecdh) (o : ByteOrder) (m : Message Id)
    (h : m.body.length ≤ uint16Max) :
    m.toBinary K o = .ok (m.signedBytes K ++ m.signature) := by
  have hlt : m.body.length < 2 ^ 16 := by simp only [uint16Max] at h; omega
  have hbody : (UInt16.ofNat m.body.length).toNat = m.body.length :=
    UInt16.toNat_ofNat_of_lt' hlt
  rw [Message.toBinary, if_neg (by omega)]
  cases hs : m.source <;> cases hd : m.destination <;>
    simp [Header.store, store_htons, store_htonl, hbody, Message.signedBytes,
      Message.headerBytes, optionalBytes, hs, hd]

theorem toBinary_too_long (K : CryptoPP Id Pair Ecdh) (o : ByteOrder) (m : Message Id)
    (h : uint16Max < m.body.length) :
    m.toBinary K o = .error (.runtimeError "Message body is too long") := by
  rw [Message.toBinary, if_pos h]

theorem toBinary_ok_iff (K : CryptoPP Id Pair Ecdh) (o : ByteOrder) (m : Message Id)
    (data : Binary) : m.toBinary K o = .ok data ↔
      m.body.length ≤ uint16Max ∧ data = m.signedBytes K ++ m.signature := by
  rcases Nat.lt_or_ge uint16Max m.body.length with h | h
  · simp [toBinary_too_long K o m h, Nat.not_le.mpr h]
  · simp [toBinary_eq K o m h, h, eq_comm]

/-- A signed message: its source is the signer and its signature is over its own bytes. -/
structure SignedBy (K : CryptoPP Id Pair Ecdh) (pair : Pair) (m : Message Id) : Prop where
  source : m.source = some (K.publicKey pair)
  signature : m.signature = K.sign pair (m.signedBytes K)
  body : m.body.length ≤ uint16Max

theorem sign_eq (K : CryptoPP Id Pair Ecdh) (o : ByteOrder) (m : Message Id) (pair : Pair)
    (h : m.body.length ≤ uint16Max) :
    ∃ s, m.sign K o pair = .ok s ∧ SignedBy K pair s ∧ s.type = m.type ∧
      s.sequence = m.sequence ∧ s.destination = m.destination ∧ s.body = m.body := by
  let u : Message Id := { m with source := some (K.publicKey pair), signature := [] }
  have hu : u.toBinary K o = .ok (u.signedBytes K) := by
    simpa [u] using toBinary_eq K o u h
  refine ⟨{ u with signature := K.sign pair (u.signedBytes K) }, ?_,
    ⟨rfl, rfl, h⟩, rfl, rfl, rfl, rfl⟩
  change (u.toBinary K o >>= fun bin =>
    Except.ok { u with signature := K.sign pair bin }) = _
  rw [hu]
  rfl

theorem sign_too_long (K : CryptoPP Id Pair Ecdh) (o : ByteOrder) (m : Message Id) (pair : Pair)
    (h : uint16Max < m.body.length) :
    m.sign K o pair = .error (.runtimeError "Message body is too long") := by
  let u : Message Id := { m with source := some (K.publicKey pair), signature := [] }
  change (u.toBinary K o >>= fun bin =>
    Except.ok { u with signature := K.sign pair bin }) = _
  rw [toBinary_too_long K o u h]
  rfl

theorem load_headerBytes (o : ByteOrder) (m : Message Id) (h : m.body.length ≤ uint16Max) :
    let header := Header.load o m.headerBytes
    header.type = m.type ∧ header.flags = m.flags ∧
      (ntohs o header.length).toNat = m.body.length ∧ ntohl o header.sequence = m.sequence := by
  have hlt : m.body.length < 2 ^ 16 := by simp only [uint16Max] at h; omega
  have hbody : (UInt16.ofNat m.body.length).toNat = m.body.length :=
    UInt16.toNat_ofNat_of_lt' hlt
  have hlen := ntohs_load o (.ofNat m.body.length)
  rw [hbody] at hlen
  have hl : ((m.headerBytes.drop 2).take 2) = (RadixBytes.bytes 2 m.body.length).reverse := by
    simp [Message.headerBytes]
  have hq : ((m.headerBytes.drop 4).take 4) = (RadixBytes.bytes 4 m.sequence.toNat).reverse := by
    simp [Message.headerBytes, List.take_of_length_le]
  refine ⟨rfl, rfl, ?_, ?_⟩
  · simp only [Header.load, hl, hlen, hbody]
  · simp only [Header.load, hq, ntohl_load]

theorem flags_source (m : Message Id) :
    (m.flags &&& Flags.HasSource != 0) = m.source.isSome := by
  unfold Message.flags
  cases m.source.isSome <;> cases m.destination.isSome <;> rfl

theorem flags_destination (m : Message Id) :
    (m.flags &&& Flags.HasDestination != 0) = m.destination.isSome := by
  unfold Message.flags
  cases m.source.isSome <;> cases m.destination.isSome <;> rfl

theorem readIdentifier_ahead {K : CryptoPP Id Pair Ecdh} (hK : EcdsaLaws K)
    {r : BinaryReader} {bin rest : Binary} (id : Option Id)
    (h : r.Ahead bin (optionalBytes K id ++ rest)) :
    ∃ r', readIdentifier K id.isSome r = .ok (id, r') ∧ r'.Ahead bin rest := by
  cases id with
  | none => exact ⟨r, rfl, h⟩
  | some id =>
    obtain ⟨r', hr, hr'⟩ := read_ahead h (hK.encode_length id)
    refine ⟨r', ?_, hr'⟩
    change r.read identifierSize = .ok (K.encodePoint id, r') at hr
    simp only [readIdentifier, Option.isSome_some, if_true, hr, bind, Except.bind,
      hK.ecdsaPublic_encode]
    rfl

def Message.checked (K : CryptoPP Id Pair Ecdh) (m : Message Id) : Except Error (Message Id) :=
  match m.source with
  | some id =>
    if K.verify id (m.signedBytes K) m.signature then .ok m
    else .error (.invalidArgument "Message signature is invalid")
  | none => .ok m

/-- Parsing a well-formed frame recovers its fields and verifies the signature over
exactly the bytes in front of it. -/
theorem parse_frame {K : CryptoPP Id Pair Ecdh} (hK : EcdsaLaws K) (o : ByteOrder)
    (m : Message Id) (h : m.body.length ≤ uint16Max) :
    Message.parse K o (m.signedBytes K ++ m.signature) = m.checked K := by
  set bin := m.signedBytes K ++ m.signature with hbin
  have h₀ : (BinaryReader.ofBinary bin).Ahead bin (m.headerBytes ++
      (optionalBytes K m.source ++ (optionalBytes K m.destination ++
        (m.body ++ m.signature)))) := by
    simpa [hbin, Message.signedBytes] using ahead_start bin
  obtain ⟨r₁, read₁, h₁⟩ := read_ahead h₀ (length_headerBytes m)
  obtain ⟨r₂, read₂, h₂⟩ := readIdentifier_ahead hK m.source h₁
  obtain ⟨r₃, read₃, h₃⟩ := readIdentifier_ahead hK m.destination h₂
  obtain ⟨r₄, read₄, h₄⟩ := read_ahead h₃ rfl
  have htake : bin.take (bin.length - m.signature.length) = m.signedBytes K := by
    simp [hbin]
  obtain ⟨htype, hflags, hlength, hsequence⟩ := load_headerBytes o m h
  simp only [Message.parse, bind, Except.bind, read₁, hflags, flags_source, read₂,
    flags_destination, read₃, hlength, read₄, left_ahead h₄, hsequence, htype, htake]
  rfl

theorem parse_signed {K : CryptoPP Id Pair Ecdh} (hK : EcdsaLaws K) (o : ByteOrder)
    {pair : Pair} {m : Message Id} (h : SignedBy K pair m) :
    Message.parse K o (m.signedBytes K ++ m.signature) = .ok m := by
  rw [parse_frame hK o m h.body, Message.checked, h.source, h.signature]
  simp [hK.verify_sign]

theorem create_signed (K : CryptoPP Id Pair Ecdh) (o : ByteOrder) (type : UInt8)
    (sequence : UInt32) (body : Binary) (pair : Pair) (destination : Option Id)
    (h : body.length ≤ uint16Max) :
    ∃ m, Message.create K o type sequence body (some pair) destination = .ok m ∧
      SignedBy K pair m ∧ m.type = type ∧ m.sequence = sequence ∧
      m.destination = destination ∧ m.body = body :=
  sign_eq K o ⟨type, sequence, none, destination, body, []⟩ pair h

theorem create_unsigned (K : CryptoPP Id Pair Ecdh) (o : ByteOrder) (type : UInt8)
    (sequence : UInt32) (body : Binary) (destination : Option Id) :
    Message.create K o type sequence body none destination =
      .ok ⟨type, sequence, none, destination, body, []⟩ := rfl

/-- Creating, writing and parsing, for every choice of optional fields. Writer and reader
may run on hosts of different byte order. -/
theorem message_round_trip {K : CryptoPP Id Pair Ecdh} (hK : EcdsaLaws K)
    (writer reader : ByteOrder) (type : UInt8) (sequence : UInt32) (body : Binary)
    (pair : Option Pair) (destination : Option Id) :
    (body.length ≤ uint16Max → ∃ m data,
      Message.create K writer type sequence body pair destination = .ok m ∧
      m.toBinary K writer = .ok data ∧ Message.parse K reader data = .ok m ∧
      m.type = type ∧ m.sequence = sequence ∧ m.source = pair.map K.publicKey ∧
      m.destination = destination ∧ m.body = body ∧
      (∀ p ∈ pair, m.signature =
        K.sign p (data.take (data.length - m.signature.length)))) ∧
    (uint16Max < body.length →
      (Message.create K writer type sequence body pair destination >>=
        fun m => m.toBinary K writer) =
          .error (.runtimeError "Message body is too long")) := by
  constructor
  · intro h
    cases pair with
    | none =>
      let m : Message Id := ⟨type, sequence, none, destination, body, []⟩
      refine ⟨m, _, create_unsigned K writer type sequence body destination,
        toBinary_eq K writer m h, parse_frame hK reader m h, rfl, rfl, rfl, rfl, rfl, ?_⟩
      simp
    | some p =>
      obtain ⟨m, hm, hs, ht, hq, hd, hb⟩ :=
        create_signed K writer type sequence body p destination h
      refine ⟨m, _, hm, toBinary_eq K writer m hs.body, parse_signed hK reader hs,
        ht, hq, hs.source, hd, hb, ?_⟩
      intro p' hp'
      obtain rfl : p = p' := by simpa using hp'
      rw [hs.signature]
      simp
  · intro h
    cases pair with
    | none =>
      exact toBinary_too_long K writer ⟨type, sequence, none, destination, body, []⟩ h
    | some p =>
      have hs := sign_too_long K writer
        (⟨type, sequence, none, destination, body, []⟩ : Message Id) p h
      change (Message.sign K writer _ p >>= _) = _
      rw [hs]
      rfl

/-- A signed message to node 2, written on a little-endian and read on a big-endian host. -/
theorem message_round_trip_sample : ∃ m data,
    Message.create Sample.crypto .little MessageType.User 7 [1, 2, 3] (some 1) (some 2) =
      .ok m ∧
    m.toBinary Sample.crypto .little = .ok data ∧
    Message.parse Sample.crypto .big data = .ok m := by
  obtain ⟨m, data, hm, hd, hp, _⟩ :=
    (message_round_trip Sample.ecdsaLaws .little .big MessageType.User 7 [1, 2, 3]
      (some 1) (some 2)).1 (by decide)
  exact ⟨m, data, hm, hd, hp⟩

end LegioMessage

namespace SequenceOrder

open LegioMessage

def Ahead (s1 s2 : UInt32) : Prop := ∃ k : ℕ, 1 ≤ k ∧ k ≤ 2 ^ 31 - 1 ∧ s1 = s2 + UInt32.ofNat k

structure Ordered (s1 s2 : UInt32) : Prop where
  antisymmetric : compareSequence s1 s2 = -compareSequence s2 s1
  ahead : compareSequence s1 s2 = 1 ↔ Ahead s1 s2

theorem ordered_iff {s1 s2 : UInt32} : Ordered s1 s2 ↔
    compareSequence s1 s2 = -compareSequence s2 s1 ∧ (compareSequence s1 s2 = 1 ↔ Ahead s1 s2) :=
  ⟨fun h => ⟨h.antisymmetric, h.ahead⟩, fun h => ⟨h.1, h.2⟩⟩

variable (s1 s2 : UInt32)

theorem compareSequence_distance :
    compareSequence s1 s2 =
      if (s1 - s2).toNat = 0 then 0 else if (s1 - s2).toNat < 2 ^ 31 - 1 then 1 else -1 := by
  have heq : s1 = s2 ↔ (s1 - s2).toNat = 0 := by
    rw [← UInt32.toNat_zero, UInt32.toNat_inj, UInt32.sub_eq_iff_eq_add, UInt32.zero_add]
  have hlt : s1 - s2 < 0xFFFFFFFF / 2 ↔ (s1 - s2).toNat < 2 ^ 31 - 1 := UInt32.lt_iff_toNat_lt
  simp only [compareSequence, heq, hlt]

theorem distance_back : (s1 - s2).toNat = 0 ∧ (s2 - s1).toNat = 0 ∨
    0 < (s1 - s2).toNat ∧ 0 < (s2 - s1).toNat ∧
      (s1 - s2).toNat + (s2 - s1).toNat = 2 ^ 32 := by
  have hbound := (s1 - s2).toNat_lt
  have hneg : (s2 - s1).toNat = (2 ^ 32 - (s1 - s2).toNat) % 2 ^ 32 := by
    rw [← UInt32.neg_sub, UInt32.toNat_neg]
    rfl
  rw [hneg]
  generalize (s1 - s2).toNat = d at hbound
  omega

theorem ahead_distance : Ahead s1 s2 ↔ 1 ≤ (s1 - s2).toNat ∧ (s1 - s2).toNat ≤ 2 ^ 31 - 1 := by
  constructor
  · rintro ⟨k, hone, hk, rfl⟩
    have hdistance : (s2 + UInt32.ofNat k - s2).toNat = k := by
      rw [UInt32.add_comm, UInt32.add_sub_cancel, UInt32.toNat_ofNat']
      exact Nat.mod_eq_of_lt (by omega)
    rw [hdistance]
    exact ⟨hone, hk⟩
  · rintro ⟨hone, hk⟩
    refine ⟨(s1 - s2).toNat, hone, hk, ?_⟩
    rw [UInt32.ofNat_toNat, UInt32.add_comm, UInt32.sub_add_cancel]

/-- Away from the half of the range, the comparison fails at the distance just below it,
in either direction, and nowhere else. -/
theorem compareSequence_ordered_iff (hhalf : s1 - s2 ≠ 0x80000000) :
    Ordered s1 s2 ↔ s1 - s2 ≠ 0x7FFFFFFF ∧ s2 - s1 ≠ 0x7FFFFFFF := by
  have hforth : s1 - s2 ≠ 0x7FFFFFFF ↔ (s1 - s2).toNat ≠ 2 ^ 31 - 1 :=
    not_congr UInt32.toNat_inj.symm
  have hback : s2 - s1 ≠ 0x7FFFFFFF ↔ (s2 - s1).toNat ≠ 2 ^ 31 - 1 :=
    not_congr UInt32.toNat_inj.symm
  have hhalf' : (s1 - s2).toNat ≠ 2 ^ 31 := fun h => hhalf (UInt32.toNat_inj.mp h)
  have hdistance := distance_back s1 s2
  rw [ordered_iff, hforth, hback, ahead_distance, compareSequence_distance,
    compareSequence_distance s2]
  generalize (s1 - s2).toNat = d at *
  generalize (s2 - s1).toNat = e at *
  constructor
  · rintro ⟨hsymm, -⟩
    split_ifs at hsymm <;> omega
  · rintro ⟨hne, hne'⟩
    rcases hdistance with ⟨rfl, rfl⟩ | ⟨hd, he, hsum⟩
    · decide
    · rw [if_neg hd.ne', if_neg he.ne']
      rcases Nat.lt_or_gt_of_ne hne with hlt | hgt
      · rw [if_pos hlt, if_neg (by omega)]
        exact ⟨rfl, fun _ => ⟨hd, by omega⟩, fun _ => rfl⟩
      · rw [if_neg (by omega), if_pos (by omega)]
        exact ⟨rfl, fun h => absurd h (by decide), fun h => absurd h.2 (by omega)⟩

theorem compareSequence_ordered_sample : Ordered 0 0xFFFFFFFF :=
  (compareSequence_ordered_iff 0 0xFFFFFFFF (by decide)).mpr (by decide)

/-- Each of two numbers is older than the other. -/
theorem mutually_older : ¬ ∀ s1 s2 : UInt32, s1 - s2 ≠ 0x80000000 → Ordered s1 s2 := by
  intro h
  have hsymm := (h 0x7FFFFFFF 0 (by decide)).antisymmetric
  exact absurd hsymm (by decide)

end SequenceOrder
