import Legio.BinaryCodec

set_option linter.style.header false

/-! What the code uses of Crypto++. The library itself is not part of the repository,
so its functions are the fields of a structure and its documented behaviour is stated
in separate law structures. `Id` is a public ECDSA point, `Pair` an ECDSA key pair and
`Ecdh` an ECDH key pair. A key pair signs a given byte string once, so `sign` is a
function although the library draws a nonce. -/
namespace LegioCrypto

open LegioBinary

/-- A keyed authenticated cipher object: the bytes it produces from an input, and the
tag it has computed when the input ends. -/
structure CipherObject where
  process : Binary → Binary
  tag : Binary → Binary

/-- `setKeyWithIV` is the text of the exception, if there is one. A filter is what it passes
on of an input that has ended, and a sink what is in a buffer of the given size after it. -/
structure CryptoPP (Id Pair Ecdh : Type) where
  publicKey : Pair → Id
  encodePoint : Id → Binary
  decodePoint : Binary → Option Id
  sign : Pair → Binary → Binary
  verify : Id → Binary → Binary → Bool
  ecdhPublicKey : Ecdh → Binary
  ecdhAgree : Ecdh → Binary → Option Binary
  sha256 : Binary → Binary
  setKeyWithIV : (key iv : Binary) → Option String
  gcmEncryption : (key iv : Binary) → CipherObject
  gcmDecryption : (key iv : Binary) → CipherObject
  authenticatedEncryptionFilter : CipherObject → Binary → Binary
  arraySink : (size : ℕ) → Binary → Binary

variable {Id Pair Ecdh : Type}

def identifierSize : ℕ := 33
def ecdhKeySize : ℕ := 65
def gcmTagSize : ℕ := 16
def aesBlockSize : ℕ := 16
def aesKeyLengths : List ℕ := [16, 24, 32]

structure EcdsaLaws (K : CryptoPP Id Pair Ecdh) : Prop where
  encode_length : ∀ id, (K.encodePoint id).length = identifierSize
  decode_encode : ∀ id, K.decodePoint (K.encodePoint id) = some id
  verify_sign : ∀ pair bin, K.verify (K.publicKey pair) bin (K.sign pair bin) = true

/-- A string that decodes to a point is the compressed form of that point. -/
structure PointLaws (K : CryptoPP Id Pair Ecdh) : Prop where
  encode_decode : ∀ bin id, bin.length = identifierSize → K.decodePoint bin = some id →
    K.encodePoint id = bin

structure EcdhLaws (K : CryptoPP Id Pair Ecdh) : Prop where
  public_length : ∀ e, (K.ecdhPublicKey e).length = ecdhKeySize
  agree_symmetric : ∀ a b,
    K.ecdhAgree a (K.ecdhPublicKey b) = K.ecdhAgree b (K.ecdhPublicKey a)
  agree_exists : ∀ a b, (K.ecdhAgree a (K.ecdhPublicKey b)).isSome

/-- AES refuses every key of another length. The encryption filter passes on the output of the
cipher object and then its tag, and verifies nothing; the sink drops what does not fit. -/
structure FilterLaws (K : CryptoPP Id Pair Ecdh) : Prop where
  key_lengths : ∀ key iv, iv.length = aesBlockSize →
    (K.setKeyWithIV key iv = none ↔ key.length ∈ aesKeyLengths)
  encryption_filter : ∀ cipher data,
    K.authenticatedEncryptionFilter cipher data = cipher.process data ++ cipher.tag data
  array_sink : ∀ size data, K.arraySink size data = data.take size

/-- GCM works on a key stream: it keeps lengths, and its two directions are inverse
under one key and IV. -/
structure GcmLaws (K : CryptoPP Id Pair Ecdh) : Prop extends FilterLaws K where
  digest_length : ∀ bin, (K.sha256 bin).length = 32
  encryption_length : ∀ key iv bin, ((K.gcmEncryption key iv).process bin).length = bin.length
  decryption_length : ∀ key iv bin, ((K.gcmDecryption key iv).process bin).length = bin.length
  decryption_inverse : ∀ key iv bin,
    (K.gcmDecryption key iv).process ((K.gcmEncryption key iv).process bin) = bin
  encryption_tag : ∀ key iv bin, ((K.gcmEncryption key iv).tag bin).length = gcmTagSize
  decryption_tag : ∀ key iv bin, ((K.gcmDecryption key iv).tag bin).length = gcmTagSize

/-- The key stream does not depend on the input: what follows some bytes does not change what
they are decrypted to. -/
structure StreamLaws (K : CryptoPP Id Pair Ecdh) : Prop where
  decryption_prefix : ∀ key iv bin rest,
    ((K.gcmDecryption key iv).process (bin ++ rest)).take bin.length =
      (K.gcmDecryption key iv).process bin

/-- `EcdsaPublic(key)`: a string that is no point of the curve is refused. -/
def CryptoPP.ecdsaPublic (K : CryptoPP Id Pair Ecdh) (key : Binary) : Except Error Id :=
  match K.decodePoint key with
  | some id => .ok id
  | none => .error (.runtimeError "Failed to validate external ECDSA public key")

def CryptoPP.agree (K : CryptoPP Id Pair Ecdh) (e : Ecdh) (remotePublicKey : Binary) :
    Except Error Binary :=
  if remotePublicKey.length ≠ ecdhKeySize then
    .error (.invalidArgument "Invalid remote ECDH public key size")
  else
    match K.ecdhAgree e remotePublicKey with
    | some secret => .ok secret
    | none => .error (.runtimeError "Failed to reach ECDH shared secret")

def CryptoPP.setKey (K : CryptoPP Id Pair Ecdh) (key iv : Binary) : Except Error Unit :=
  match K.setKeyWithIV key iv with
  | none => .ok ()
  | some what => .error (.cryptoError what)

theorem FilterLaws.setKey_ok {K : CryptoPP Id Pair Ecdh} (h : FilterLaws K) {key iv : Binary}
    (hkey : key.length ∈ aesKeyLengths) (hiv : iv.length = aesBlockSize) :
    K.setKey key iv = .ok () := by
  rw [CryptoPP.setKey, (h.key_lengths key iv hiv).mpr hkey]

theorem FilterLaws.setKey_error {K : CryptoPP Id Pair Ecdh} (h : FilterLaws K) {key iv : Binary}
    (hkey : key.length ∉ aesKeyLengths) (hiv : iv.length = aesBlockSize) :
    ∃ what, K.setKey key iv = .error (.cryptoError what) := by
  rw [CryptoPP.setKey]
  cases hset : K.setKeyWithIV key iv with
  | none => exact absurd ((h.key_lengths key iv hiv).mp hset) hkey
  | some what => exact ⟨what, rfl⟩

theorem GcmLaws.digest_key {K : CryptoPP Id Pair Ecdh} (h : GcmLaws K) (bin : Binary) :
    (K.sha256 bin).length ∈ aesKeyLengths := by
  rw [h.digest_length]
  decide

theorem EcdsaLaws.ecdsaPublic_encode {K : CryptoPP Id Pair Ecdh} (h : EcdsaLaws K) (id : Id) :
    K.ecdsaPublic (K.encodePoint id) = .ok id := by
  rw [CryptoPP.ecdsaPublic, h.decode_encode]

-- A toy instance on four identities. It shows that the laws hold together, and concrete runs of
-- the model are evaluated over it.
namespace Sample

-- Numerals of the toy types, which name nodes and channels.

instance neZero_three : NeZero 3 := ⟨Nat.succ_ne_zero 2⟩
instance neZero_four : NeZero 4 := ⟨Nat.succ_ne_zero 3⟩
instance neZero_six : NeZero 6 := ⟨Nat.succ_ne_zero 5⟩

def byteOf (i : Fin 4) : UInt8 := .ofNat i.val
def checksum (bin : Binary) : UInt8 := bin.foldl (· + ·) 0
def encodePoint (i : Fin 4) : Binary := byteOf i :: List.replicate 32 0
def sign (i : Fin 4) (bin : Binary) : Binary := [byteOf i, checksum bin]
def keyStream (key : Binary) (bin : Binary) : Binary := bin.map (· ^^^ key.headD 0)

def refused (key : Binary) : Option String :=
  if key.length ∈ aesKeyLengths then none
  else some ("AES: " ++ toString key.length ++ " is not a valid key length")

def encryptionFilter (cipher : CipherObject) (data : Binary) : Binary :=
  cipher.process data ++ cipher.tag data

def crypto : CryptoPP (Fin 4) (Fin 4) (Fin 4) where
  publicKey := id
  encodePoint := encodePoint
  decodePoint bin := (List.finRange 4).find? fun i => encodePoint i == bin
  sign := sign
  verify i bin signature := signature == sign i bin
  ecdhPublicKey i := byteOf i :: List.replicate 64 0
  ecdhAgree i bin := some (List.replicate 32 (byteOf i + bin.headD 0))
  sha256 bin := (bin ++ List.replicate 32 0).take 32
  setKeyWithIV key _ := refused key
  gcmEncryption key _ :=
    ⟨keyStream key, fun bin => List.replicate gcmTagSize (checksum (keyStream key bin))⟩
  gcmDecryption key _ :=
    ⟨keyStream key, fun bin => List.replicate gcmTagSize (checksum bin)⟩
  authenticatedEncryptionFilter := encryptionFilter
  arraySink size data := data.take size

theorem ecdsaLaws : EcdsaLaws crypto where
  encode_length _ := by simp [crypto, encodePoint, identifierSize]
  decode_encode := by decide
  verify_sign _ _ := by simp [crypto]

theorem pointLaws : PointLaws crypto where
  encode_decode bin id _ h := by
    have hfound := List.find?_some h
    exact eq_of_beq hfound

theorem ecdhLaws : EcdhLaws crypto where
  public_length _ := by simp [crypto, ecdhKeySize]
  agree_symmetric a b := by simp [crypto, UInt8.add_comm]
  agree_exists _ _ := rfl

theorem filterLaws : FilterLaws crypto where
  key_lengths key _ _ := by
    by_cases hkey : key.length ∈ aesKeyLengths <;> simp [crypto, refused, hkey]
  encryption_filter _ _ := rfl
  array_sink _ _ := rfl

theorem gcmLaws : GcmLaws crypto where
  toFilterLaws := filterLaws
  digest_length _ := by simp [crypto]
  encryption_length _ _ _ := by simp [crypto, keyStream]
  decryption_length _ _ _ := by simp [crypto, keyStream]
  decryption_inverse key _ bin := by
    have htwice : ∀ b : UInt8, b ^^^ key.headD 0 ^^^ key.headD 0 = b := by
      intro b
      rw [UInt8.xor_assoc, UInt8.xor_self, UInt8.xor_zero]
    change keyStream key (keyStream key bin) = bin
    rw [keyStream, keyStream, List.map_map]
    exact (List.map_congr_left fun b _ => htwice b).trans (List.map_id bin)
  encryption_tag _ _ _ := by simp [crypto]
  decryption_tag _ _ _ := by simp [crypto]

theorem streamLaws : StreamLaws crypto where
  decryption_prefix _ _ _ _ := by simp [crypto, keyStream]

end Sample

end LegioCrypto
