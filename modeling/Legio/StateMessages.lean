import Legio.GraphUpdates

set_option linter.style.header false

/-! A State read back from the message that carries it. -/
namespace StateMessages

open LegioBinary LegioCrypto LegioMessage LegioNode Containers GraphUpdates

variable {Id Pair Ecdh Chan : Type} [LinearOrder Id] {K : CryptoPP Id Pair Ecdh}

def points (K : CryptoPP Id Pair Ecdh) (ids : List Id) : Binary :=
  (ids.map K.encodePoint).flatten

omit [LinearOrder Id] in
theorem length_points (hK : EcdsaLaws K) (ids : List Id) :
    (points K ids).length = identifierSize * ids.length := by
  induction ids with
  | nil => rfl
  | cons id ids ih =>
    have hcons : points K (id :: ids) = K.encodePoint id ++ points K ids := rfl
    rw [hcons, List.length_append, hK.encode_length, ih, List.length_cons]
    unfold identifierSize
    omega

theorem body_eq (s : State Id) :
    s.body K = s.ecdhPublic ++ points K (iterate s.neighbors) := by
  have hfold : ∀ (ids : List Id) (w : BinaryWriter),
      (ids.foldl (fun w id => w.write (K.encodePoint id)) w).data = w.data ++ points K ids := by
    intro ids
    induction ids with
    | nil => exact fun w => (List.append_nil w.data).symm
    | cons id ids ih =>
      intro w
      rw [List.foldl_cons, ih, data_write, List.append_assoc]
      rfl
  rw [State.body, hfold]
  rfl

theorem readNeighbors_points (hK : EcdsaLaws K) (ids : List Id) :
    ∀ (fuel : ℕ) (reader : BinaryReader) (bin : Binary) (neighbors : Finset Id),
      ids.length ≤ fuel → reader.Ahead bin (points K ids) →
      readNeighbors K fuel reader neighbors =
        .ok (ids.foldl (fun neighbors id => insert id neighbors) neighbors) := by
  induction ids with
  | nil =>
    intro fuel reader bin neighbors _ hahead
    cases fuel with
    | zero => rfl
    | succ fuel =>
      have hsize : ¬ identifierSize ≤ reader.size := by
        rw [size_ahead hahead, length_points hK]
        unfold identifierSize
        simp
      rw [readNeighbors, if_neg hsize]
      rfl
  | cons id ids ih =>
    intro fuel reader bin neighbors hfuel hahead
    cases fuel with
    | zero =>
      rw [List.length_cons] at hfuel
      omega
    | succ fuel =>
      have hcons : points K (id :: ids) = K.encodePoint id ++ points K ids := rfl
      have hsize : identifierSize ≤ reader.size := by
        rw [size_ahead hahead, hcons, List.length_append, hK.encode_length]
        omega
      rw [hcons] at hahead
      obtain ⟨reader', hread, hahead'⟩ := read_ahead hahead (hK.encode_length id)
      have hrest := ih fuel reader' bin (insert id neighbors)
        (by rw [List.length_cons] at hfuel; omega) hahead'
      rw [readNeighbors, if_pos hsize]
      simp only [bind, Except.bind, hread, hK.ecdsaPublic_encode]
      exact hrest

omit [LinearOrder Id] in
theorem foldl_insert [DecidableEq Id] (ids : List Id) : ∀ neighbors : Finset Id,
    ids.foldl (fun neighbors id => insert id neighbors) neighbors =
      neighbors ∪ ids.toFinset := by
  induction ids with
  | nil => simp
  | cons id ids ih =>
    intro neighbors
    rw [List.foldl_cons, ih, List.toFinset_cons, Finset.insert_union, Finset.union_insert]

/-- Whatever message has the body of a State under its author's name gives the State back. -/
theorem fromMessage_body (hK : EcdsaLaws K) {s : State Id} {m : Message Id}
    (hkey : s.ecdhPublic.length = ecdhKeySize) (hsource : m.source = some s.id)
    (htype : m.type = MessageType.State) (hsequence : m.sequence = s.sequence)
    (hbody : m.body = s.body K) : State.fromMessage K m = .ok s := by
  have hstart : (BinaryReader.ofBinary m.body).Ahead m.body
      (s.ecdhPublic ++ points K (iterate s.neighbors)) := by
    have h := ahead_start m.body
    rw [hbody] at h ⊢
    rw [body_eq] at h ⊢
    exact h
  have hsize : ¬ (BinaryReader.ofBinary m.body).size < ecdhKeySize := by
    rw [size_ahead hstart, List.length_append, hkey]
    omega
  obtain ⟨reader, hread, hahead⟩ := read_ahead hstart hkey
  have hloop : readNeighbors K reader.size reader ∅ = .ok s.neighbors := by
    rw [readNeighbors_points hK (iterate s.neighbors) reader.size reader m.body ∅ ?_ hahead,
      foldl_insert, Finset.empty_union]
    · congr 1
      ext id
      simp
    · rw [size_ahead hahead, length_points hK]
      unfold identifierSize
      omega
  simp only [State.fromMessage, hsource, htype, ne_eq, not_true_eq_false, if_false, if_neg hsize,
    bind, Except.bind, hread, hloop, hsequence]
  rfl

theorem fromMessage_type {s : State Id} {m : Message Id} (h : State.fromMessage K m = .ok s) :
    m.type = MessageType.State := (fromMessage_ok h).2.1

theorem localState_roundTrip (hK : EcdsaLaws K) (hE : EcdhLaws K) (o : ByteOrder)
    {n : Node Id Pair Ecdh Chan} (hcard : n.routing.neighbors.card ≤ neighborLimit)
    {m : Message Id} (hm : (n.localState K).toMessage K o n.ecdsaPair = .ok m) :
    SignedBy K n.ecdsaPair m ∧ m.type = MessageType.State ∧ m.destination = none ∧
      State.fromMessage K m = .ok (n.localState K) := by
  obtain ⟨m', hm', hsigned, htype, hsequence, hto, hbody⟩ := localState_message hK hE o hcard
  rw [hm] at hm'
  cases hm'
  exact ⟨hsigned, htype, hto, fromMessage_body hK (s := n.localState K) (hE.public_length _)
    hsigned.source htype hsequence hbody⟩

def pieceAt (rest : Binary) (i : ℕ) : Binary := (rest.drop (identifierSize * i)).take identifierSize

theorem pieceAt_zero {d rest : Binary} (h : d.length = identifierSize) :
    pieceAt (d ++ rest) 0 = d := by
  rw [pieceAt, Nat.mul_zero, List.drop_zero, List.take_left' h]

theorem pieceAt_succ {d rest : Binary} (h : d.length = identifierSize) (i : ℕ) :
    pieceAt (d ++ rest) (i + 1) = pieceAt rest i := by
  have hdrop : identifierSize * (i + 1) = d.length + identifierSize * i := by
    rw [h, Nat.mul_succ, Nat.add_comm]
  rw [pieceAt, pieceAt, hdrop, List.drop_length_add_append]

/-- The loop reads as many identifiers as fit; a shorter remainder is left alone. -/
theorem readNeighbors_pieces (k r : ℕ) (hr : r < identifierSize) :
    ∀ (fuel : ℕ) (reader : BinaryReader) (bin rest : Binary) (neighbors result : Finset Id),
      k ≤ fuel → reader.Ahead bin rest → rest.length = identifierSize * k + r →
      readNeighbors K fuel reader neighbors = .ok result →
      (∀ i < k, ∃ id, K.ecdsaPublic (pieceAt rest i) = .ok id) ∧
        ∀ id, id ∈ result ↔
          id ∈ neighbors ∨ ∃ i < k, K.ecdsaPublic (pieceAt rest i) = .ok id := by
  induction k with
  | zero =>
    intro fuel reader bin rest neighbors result _ hahead hlength hread
    have hsize : ¬ identifierSize ≤ reader.size := by
      rw [size_ahead hahead, hlength]
      omega
    have hresult : result = neighbors := by
      cases fuel with
      | zero =>
        cases hread
        rfl
      | succ fuel =>
        rw [readNeighbors, if_neg hsize] at hread
        cases hread
        rfl
    subst hresult
    exact ⟨fun i hi => absurd hi (Nat.not_lt_zero i), fun id => by simp⟩
  | succ k ih =>
    intro fuel reader bin rest neighbors result hfuel hahead hlength hread
    cases fuel with
    | zero => omega
    | succ fuel =>
      have hsize : identifierSize ≤ reader.size := by
        rw [size_ahead hahead, hlength, Nat.mul_succ]
        omega
      rw [readNeighbors, if_pos hsize] at hread
      obtain ⟨⟨d, reader'⟩, htake, hread⟩ := bind_eq_ok hread
      obtain ⟨id₀, hid₀, hread⟩ := bind_eq_ok hread
      obtain ⟨rest', rfl, hd, hahead'⟩ := read_split hahead htake
      have hlength' : rest'.length = identifierSize * k + r := by
        rw [List.length_append, hd, Nat.mul_succ] at hlength
        omega
      obtain ⟨hall, hmem⟩ := ih fuel reader' bin rest' (insert id₀ neighbors) result
        (Nat.le_of_succ_le_succ hfuel) hahead' hlength' hread
      constructor
      · intro i hi
        cases i with
        | zero => exact ⟨id₀, by rw [pieceAt_zero hd, hid₀]⟩
        | succ i =>
          rw [pieceAt_succ hd]
          exact hall i (Nat.lt_of_succ_lt_succ hi)
      · intro id
        rw [hmem, Finset.mem_insert]
        constructor
        · rintro ((rfl | hold) | ⟨i, hi, hid⟩)
          · exact Or.inr ⟨0, Nat.succ_pos k, by rw [pieceAt_zero hd, hid₀]⟩
          · exact Or.inl hold
          · exact Or.inr ⟨i + 1, Nat.succ_lt_succ hi, by rw [pieceAt_succ hd, hid]⟩
        · rintro (hold | ⟨i, hi, hid⟩)
          · exact Or.inl (Or.inr hold)
          · cases i with
            | zero =>
              rw [pieceAt_zero hd, hid₀, Except.ok.injEq] at hid
              exact Or.inl (Or.inl hid.symm)
            | succ i =>
              rw [pieceAt_succ hd] at hid
              exact Or.inr ⟨i, Nat.lt_of_succ_lt_succ hi, hid⟩

theorem fromMessage_pieces {m : Message Id} {s : State Id} {k r : ℕ}
    (h : State.fromMessage K m = .ok s)
    (hlength : m.body.length = ecdhKeySize + identifierSize * k + r) (hr : r < identifierSize) :
    (∀ i < k, ∃ id, K.ecdsaPublic (pieceAt (m.body.drop ecdhKeySize) i) = .ok id) ∧
      ∀ id, id ∈ s.neighbors ↔
        ∃ i < k, K.ecdsaPublic (pieceAt (m.body.drop ecdhKeySize) i) = .ok id := by
  obtain ⟨_, _, _, reader, hkey, hloop⟩ := fromMessage_ok h
  obtain ⟨rest, hsplit, hkeylength, hahead⟩ := read_split (ahead_start m.body) hkey
  have hrest : m.body.drop ecdhKeySize = rest := by
    rw [hsplit, List.drop_left' hkeylength]
  have hrestlength : rest.length = identifierSize * k + r := by
    rw [hsplit, List.length_append, hkeylength] at hlength
    omega
  have hfuel : k ≤ reader.size := by
    rw [size_ahead hahead, hrestlength, identifierSize]
    omega
  obtain ⟨hall, hmem⟩ := readNeighbors_pieces k r hr reader.size reader m.body rest ∅
    s.neighbors hfuel hahead hrestlength hloop
  rw [hrest]
  refine ⟨hall, fun id => ?_⟩
  rw [hmem]
  simp only [Finset.notMem_empty, false_or]

/-- A State of at most 1983 neighbours survives the wire, one of more is refused by its
writer, and an accepted body of any length gives the identifiers in it. -/
theorem state_survives_wire (hK : EcdsaLaws K) :
    (∀ (s : State Id) (pair : Pair) (writer reader : ByteOrder), s.id = K.publicKey pair →
      s.ecdhPublic.length = ecdhKeySize → s.neighbors.card ≤ neighborLimit →
      ∃ m data, s.toMessage K writer pair = .ok m ∧ m.toBinary K writer = .ok data ∧
        Message.parse K reader data = .ok m ∧ State.fromMessage K m = .ok s) ∧
    (∀ (s : State Id) (pair : Pair) (writer : ByteOrder), s.ecdhPublic.length = ecdhKeySize →
      neighborLimit < s.neighbors.card →
      s.toMessage K writer pair = .error (.runtimeError "Message body is too long")) ∧
    ∀ (m : Message Id) (s : State Id) (k r : ℕ), State.fromMessage K m = .ok s →
      m.body.length = ecdhKeySize + identifierSize * k + r → r < identifierSize →
      (∀ i < k, ∃ id, K.ecdsaPublic (pieceAt (m.body.drop ecdhKeySize) i) = .ok id) ∧
        ∀ id, id ∈ s.neighbors ↔
          ∃ i < k, K.ecdsaPublic (pieceAt (m.body.drop ecdhKeySize) i) = .ok id := by
  refine ⟨?_, ?_, ?_⟩
  · intro s pair writer reader hid hkey hcard
    obtain ⟨m, hm, hsigned, htype, hsequence, _, hbody⟩ := create_signed K writer
      MessageType.State s.sequence (s.body K) pair none ((length_body_le_iff hK hkey).mpr hcard)
    have hsource : m.source = some s.id := by rw [hsigned.source, hid]
    exact ⟨m, _, hm, toBinary_eq K writer m hsigned.body, parse_signed hK reader hsigned,
      fromMessage_body hK hkey hsource htype hsequence hbody⟩
  · intro s pair writer hkey hcard
    have hlong : uint16Max < (s.body K).length :=
      Nat.lt_of_not_le fun hle => Nat.not_lt.mpr ((length_body_le_iff hK hkey).mp hle) hcard
    exact sign_too_long K writer
      ⟨MessageType.State, s.sequence, none, none, s.body K, []⟩ pair hlong
  · exact fun m s k r h hlength hr => fromMessage_pieces h hlength hr

/-- A State of node 1, whose body is that of its message. -/
theorem state_survives_wire_sample : ∃ m data,
    (⟨1, 7, 0 :: List.replicate 64 0, {0, 2}⟩ : State (Fin 4)).toMessage
      LegioCrypto.Sample.crypto .little 1 = .ok m ∧
    m.toBinary LegioCrypto.Sample.crypto .little = .ok data ∧
    Message.parse LegioCrypto.Sample.crypto .big data = .ok m ∧
    State.fromMessage LegioCrypto.Sample.crypto m =
      .ok ⟨1, 7, 0 :: List.replicate 64 0, {0, 2}⟩ :=
  (state_survives_wire LegioCrypto.Sample.ecdsaLaws).1
    ⟨1, 7, 0 :: List.replicate 64 0, {0, 2}⟩ 1 .little .big rfl (by simp [ecdhKeySize])
      (by decide)

end StateMessages
