import Legio.MessageFormat

set_option linter.style.header false

/-! What the parser accepts, byte for byte, and which accepted frames come out unchanged
when they are serialised again. -/
namespace AcceptedFrames

open LegioBinary LegioCrypto LegioMessage

variable {Id Pair Ecdh : Type} {K : CryptoPP Id Pair Ecdh}

/-- The part of a frame before its signature, with a flags byte of any value. -/
def frameWith (K : CryptoPP Id Pair Ecdh) (flags : UInt8) (m : Message Id) : Binary :=
  ([m.type, flags] ++ ((RadixBytes.bytes 2 m.body.length).reverse ++
    (RadixBytes.bytes 4 m.sequence.toNat).reverse)) ++
      (optionalBytes K m.source ++ (optionalBytes K m.destination ++ m.body))

theorem frameWith_flags (m : Message Id) : frameWith K m.flags m = m.signedBytes K := rfl

/-- How an accepted byte string is made up. -/
structure Accepted (K : CryptoPP Id Pair Ecdh) (bin : Binary) (flags : UInt8) (m : Message Id) :
    Prop where
  frame : bin = frameWith K flags m ++ m.signature
  source : m.source.isSome = (flags &&& Flags.HasSource != 0)
  destination : m.destination.isSome = (flags &&& Flags.HasDestination != 0)
  body : m.body.length ≤ uint16Max
  verified : ∀ id, m.source = some id → K.verify id (frameWith K flags m) m.signature = true

theorem readIdentifier_split (hP : PointLaws K) {present : Bool} {r r' : BinaryReader}
    {bin rest : Binary} {id : Option Id} (h : r.Ahead bin rest)
    (hr : readIdentifier K present r = .ok (id, r')) :
    id.isSome = present ∧ ∃ rest', rest = optionalBytes K id ++ rest' ∧ r'.Ahead bin rest' := by
  cases present with
  | false =>
    cases hr
    exact ⟨rfl, rest, rfl, h⟩
  | true =>
    obtain ⟨⟨d, r₁⟩, hread, hrest⟩ := bind_eq_ok hr
    obtain ⟨point, hpoint, hlast⟩ := bind_eq_ok hrest
    cases hlast
    obtain ⟨rest', hsplit, hlength, hahead⟩ := read_split h hread
    rw [CryptoPP.ecdsaPublic] at hpoint
    cases hdecode : K.decodePoint d with
    | none =>
      rw [hdecode] at hpoint
      cases hpoint
    | some point' =>
      rw [hdecode] at hpoint
      cases hpoint
      refine ⟨rfl, rest', ?_, hahead⟩
      rw [hsplit, optionalBytes, hP.encode_decode d point hlength hdecode]

theorem bytes_ntohs (o : ByteOrder) {raw : Binary} (h : raw.length = 2) :
    (RadixBytes.bytes 2 (ntohs o (.ofNat (o.load raw))).toNat).reverse = raw := by
  have hlt := RadixBytes.value_lt raw.reverse
  rw [List.length_reverse, h] at hlt
  have hvalue : (UInt16.ofNat (RadixBytes.value raw.reverse)).toNat =
      RadixBytes.value raw.reverse := UInt16.toNat_ofNat_of_lt' hlt
  have hraw : (RadixBytes.bytes 2 (UInt16.ofNat (RadixBytes.value raw.reverse)).toNat).reverse =
      raw := by
    rw [hvalue, RadixBytes.bytes_value (by rw [List.length_reverse, h]), List.reverse_reverse]
  have hload := ntohs_load o (UInt16.ofNat (RadixBytes.value raw.reverse))
  rw [hraw] at hload
  rw [hload, hraw]

theorem bytes_ntohl (o : ByteOrder) {raw : Binary} (h : raw.length = 4) :
    (RadixBytes.bytes 4 (ntohl o (.ofNat (o.load raw))).toNat).reverse = raw := by
  have hlt := RadixBytes.value_lt raw.reverse
  rw [List.length_reverse, h] at hlt
  have hvalue : (UInt32.ofNat (RadixBytes.value raw.reverse)).toNat =
      RadixBytes.value raw.reverse := UInt32.toNat_ofNat_of_lt' hlt
  have hraw : (RadixBytes.bytes 4 (UInt32.ofNat (RadixBytes.value raw.reverse)).toNat).reverse =
      raw := by
    rw [hvalue, RadixBytes.bytes_value (by rw [List.length_reverse, h]), List.reverse_reverse]
  have hload := ntohl_load o (UInt32.ofNat (RadixBytes.value raw.reverse))
  rw [hraw] at hload
  rw [hload, hraw]

theorem header_bytes (o : ByteOrder) {raw : Binary} (h : raw.length = headerSize) :
    raw = [(Header.load o raw).type, (Header.load o raw).flags] ++
      ((RadixBytes.bytes 2 (ntohs o (Header.load o raw).length).toNat).reverse ++
        (RadixBytes.bytes 4 (ntohl o (Header.load o raw).sequence).toNat).reverse) := by
  have hlength : ((raw.drop 2).take 2).length = 2 := by
    rw [List.length_take, List.length_drop, h]
    rfl
  have hsequence : ((raw.drop 4).take 4).length = 4 := by
    rw [List.length_take, List.length_drop, h]
    rfl
  rw [Header.load, bytes_ntohs o hlength, bytes_ntohl o hsequence]
  rcases raw with _ | ⟨type, _ | ⟨flags, rest⟩⟩
  · cases h
  · cases h
  · have hrest : rest.length = 6 := Nat.add_right_cancel (m := 2) h
    have hlast : (rest.drop 2).take 4 = rest.drop 2 :=
      List.take_of_length_le (by rw [List.length_drop, hrest])
    change type :: flags :: rest = [type, flags] ++ (rest.take 2 ++ (rest.drop 2).take 4)
    rw [hlast, List.take_append_drop]
    rfl

theorem parse_accepted (hP : PointLaws K) {o : ByteOrder} {bin : Binary} {m : Message Id}
    (h : Message.parse K o bin = .ok m) : Accepted K bin (bin.getD 1 0) m := by
  obtain ⟨⟨raw, r₁⟩, hraw, h⟩ := bind_eq_ok h
  obtain ⟨⟨source, r₂⟩, hsource, h⟩ := bind_eq_ok h
  obtain ⟨⟨destination, r₃⟩, hdestination, h⟩ := bind_eq_ok h
  obtain ⟨⟨body, r₄⟩, hbody, h⟩ := bind_eq_ok h
  obtain ⟨rest₁, hsplit₁, hlength₁, hahead₁⟩ := read_split (ahead_start bin) hraw
  obtain ⟨hsome₂, rest₂, hsplit₂, hahead₂⟩ := readIdentifier_split hP hahead₁ hsource
  obtain ⟨hsome₃, rest₃, hsplit₃, hahead₃⟩ := readIdentifier_split hP hahead₂ hdestination
  obtain ⟨rest₄, hsplit₄, hlength₄, hahead₄⟩ := read_split hahead₃ hbody
  have hflags : (Header.load o raw).flags = bin.getD 1 0 := by
    have hshort : 1 < raw.length := by
      rw [hlength₁, headerSize]
      omega
    rw [hsplit₁, List.getD_eq_getElem?_getD, List.getElem?_append_left hshort,
      ← List.getD_eq_getElem?_getD]
    rfl
  have hm : m = ⟨(Header.load o raw).type, ntohl o (Header.load o raw).sequence, source,
      destination, body, r₄.left⟩ ∧ ∀ id, source = some id →
        K.verify id (bin.take (bin.length - r₄.left.length)) r₄.left = true := by
    cases source with
    | none =>
      cases h
      exact ⟨rfl, fun id hid => by cases hid⟩
    | some id =>
      dsimp only at h
      split_ifs at h with hverify
      cases h
      refine ⟨rfl, fun id' hid => ?_⟩
      cases hid
      exact hverify
  obtain ⟨rfl, hverify⟩ := hm
  rw [left_ahead hahead₄] at hverify ⊢
  have hframe : bin = frameWith K (bin.getD 1 0) ⟨(Header.load o raw).type,
      ntohl o (Header.load o raw).sequence, source, destination, body, rest₄⟩ ++ rest₄ := by
    conv_lhs => rw [hsplit₁, hsplit₂, hsplit₃, hsplit₄, header_bytes o hlength₁]
    simp only [frameWith, hflags, hlength₄, List.append_assoc]
  constructor
  · exact hframe
  · rw [hsome₂, hflags]
  · rw [hsome₃, hflags]
  · have hlt := (ntohs o (Header.load o raw).length).toNat_lt
    rw [hlength₄, uint16Max]
    omega
  · intro id hid
    have hcovered := hverify id hid
    rw [hframe, List.length_append, Nat.add_sub_cancel, List.take_left] at hcovered
    rw [hframe]
    exact hcovered

def knownFlags : UInt8 := Flags.HasSource ||| Flags.HasDestination

theorem flags_known (flags : UInt8) : flags &&& knownFlags =
    (if flags &&& Flags.HasSource != 0 then Flags.HasSource else 0) |||
      (if flags &&& Flags.HasDestination != 0 then Flags.HasDestination else 0) := by
  have hall : ∀ b : BitVec 8, UInt8.ofBitVec b &&& knownFlags =
      (if UInt8.ofBitVec b &&& Flags.HasSource != 0 then Flags.HasSource else 0) |||
        (if UInt8.ofBitVec b &&& Flags.HasDestination != 0 then Flags.HasDestination else 0) := by
    decide +kernel
  exact hall flags.toBitVec

/-- A message keeps the known bits of the flags it came with. -/
theorem accepted_flags {bin : Binary} {flags : UInt8} {m : Message Id}
    (h : Accepted K bin flags m) : m.flags = flags &&& knownFlags := by
  rw [flags_known, ← h.source, ← h.destination, Message.flags]
  cases m.source.isSome <;> cases m.destination.isSome <;> rfl

theorem toBinary_accepted {o : ByteOrder} {bin : Binary} {flags : UInt8} {m : Message Id}
    (h : Accepted K bin flags m) :
    m.toBinary K o = .ok (bin.set 1 (flags &&& knownFlags)) := by
  rw [toBinary_eq K o m h.body, h.frame, ← accepted_flags h, ← frameWith_flags]
  rfl

/-- An accepted byte string comes out as it came in, except that a flag bit without a
meaning is cleared; so it comes out unchanged exactly when there is none. -/
theorem reserialised_iff (hP : PointLaws K) {o o' : ByteOrder} {bin : Binary} {m : Message Id}
    (h : Message.parse K o bin = .ok m) :
    m.toBinary K o' = .ok (bin.set 1 (bin.getD 1 0 &&& knownFlags)) ∧
      (m.toBinary K o' = .ok bin ↔ bin.getD 1 0 &&& ~~~knownFlags = 0) := by
  have haccepted := parse_accepted hP h
  have hdata : m.toBinary K o' = .ok (bin.set 1 (bin.getD 1 0 &&& knownFlags)) :=
    toBinary_accepted haccepted
  refine ⟨hdata, ?_⟩
  have hmask : bin.getD 1 0 &&& knownFlags = bin.getD 1 0 ↔ bin.getD 1 0 &&& ~~~knownFlags = 0 := by
    have hall : ∀ b : BitVec 8, UInt8.ofBitVec b &&& knownFlags = UInt8.ofBitVec b ↔
        UInt8.ofBitVec b &&& ~~~knownFlags = 0 := by decide +kernel
    exact hall (bin.getD 1 0).toBitVec
  have hlength : 1 < bin.length := by
    rw [haccepted.frame, frameWith]
    simp
  rw [hdata, ← hmask, Except.ok.injEq]
  constructor
  · intro heq
    have hbyte := congrArg (fun bytes => bytes.getD 1 0) heq
    simpa [List.getD_eq_getElem?_getD, hlength] using hbyte
  · intro heq
    rw [heq, List.getD_eq_getElem?_getD, List.getElem?_eq_getElem hlength, Option.getD_some]
    exact List.set_getElem_self hlength

-- A signed broadcast of node 1 with a third flag bit set.
namespace Sample

abbrev crypto := LegioCrypto.Sample.crypto

def frame (flags : UInt8) : Binary :=
  [MessageType.User, flags, 0, 1, 0, 0, 0, 7] ++ (crypto.encodePoint 1 ++ [42])

def signed (flags : UInt8) : Binary := frame flags ++ crypto.sign 1 (frame flags)

def message : Message (Fin 4) :=
  ⟨MessageType.User, 7, some 1, none, [42], crypto.sign 1 (frame 5)⟩

/-- The frame is accepted, and the next hop refuses what a relay makes of it. -/
theorem extra_flag_lost : ∃ data, Message.parse crypto .little (signed 5) = .ok message ∧
    message.toBinary crypto .little = .ok data ∧ data ≠ signed 5 ∧
    Message.parse crypto .little data =
      .error (.invalidArgument "Message signature is invalid") := by
  refine ⟨(signed 5).set 1 1, ?_, ?_, ?_, ?_⟩ <;> decide +kernel

theorem known_flags_kept :
    ({ message with signature := crypto.sign 1 (frame 1) } : Message (Fin 4)).toBinary
      crypto .big = .ok (signed 1) := by
  have hparse : Message.parse crypto .little (signed 1) =
      .ok { message with signature := crypto.sign 1 (frame 1) } := by decide +kernel
  exact (reserialised_iff LegioCrypto.Sample.pointLaws hparse).2.mpr (by decide +kernel)

end Sample

end AcceptedFrames
