import Legio.MessageFormat

set_option linter.style.header false

/-! The encrypted body of a direct message: two ECDH keys, the initialisation vector and
the output of AES-GCM. -/
namespace LegioMessage

open LegioBinary LegioCrypto

variable {Id Pair Ecdh : Type}

/-- The bytes a random pool fills into an initialisation vector. -/
def Iv : Type := {bin : Binary // bin.length = aesBlockSize}

structure AesGcmEncryption where
  mKey : Binary
  mIv : Binary

structure AesGcmDecryption where
  key : Binary
  iv : Binary

def AesGcmEncryption.ofKey (K : CryptoPP Id Pair Ecdh) (key : Binary) (random : Iv) :
    Except Error AesGcmEncryption :=
  if key.length < aesBlockSize then .error (.invalidArgument "AES key too short")
  else do
    K.setKey key random.val
    return ⟨key, random.val⟩

def AesGcmEncryption.encrypt (K : CryptoPP Id Pair Ecdh) (e : AesGcmEncryption)
    (data : Binary) : Binary :=
  K.authenticatedEncryptionFilter (K.gcmEncryption e.mKey e.mIv) data

def AesGcmDecryption.ofKey (K : CryptoPP Id Pair Ecdh) (key iv : Binary) :
    Except Error AesGcmDecryption :=
  if key.length < aesBlockSize then .error (.invalidArgument "AES key too short")
  else if iv.length < aesBlockSize then .error (.invalidArgument "AES IV too short")
  else do
    K.setKey key iv
    return ⟨key, iv⟩

/-- The decryption cipher object is run through the encryption filter, into a buffer as
long as the input. -/
def AesGcmDecryption.decrypt (K : CryptoPP Id Pair Ecdh) (d : AesGcmDecryption)
    (data : Binary) : Binary :=
  K.arraySink data.length (K.authenticatedEncryptionFilter (K.gcmDecryption d.key d.iv) data)

structure CipherBody where
  source : Binary
  destination : Binary
  iv : Binary
  ciphertext : Binary

def CipherBody.encrypt (K : CryptoPP Id Pair Ecdh) (cleartext : Binary) (ecdh : Ecdh)
    (destination : Binary) (random : Iv) : Except Error CipherBody := do
  let secret ← K.agree ecdh destination
  let encryption ← AesGcmEncryption.ofKey K (K.sha256 secret) random
  return ⟨K.ecdhPublicKey ecdh, destination, encryption.mIv, encryption.encrypt K cleartext⟩

/-- `CipherBody::CipherBody(const binary &)`. -/
def CipherBody.parse (body : Binary) : Except Error CipherBody := do
  let (source, reader) ← (BinaryReader.ofBinary body).read ecdhKeySize
  let (destination, reader) ← reader.read ecdhKeySize
  let (iv, reader) ← reader.read aesBlockSize
  return ⟨source, destination, iv, reader.left⟩

def CipherBody.decrypt (K : CryptoPP Id Pair Ecdh) (b : CipherBody) (ecdh : Ecdh) :
    Except Error Binary :=
  if K.ecdhPublicKey ecdh ≠ b.destination then
    .error (.runtimeError "Destination ECDH public key does not match")
  else do
    let secret ← K.agree ecdh b.source
    let decryption ← AesGcmDecryption.ofKey K (K.sha256 secret) b.iv
    return decryption.decrypt K b.ciphertext

/-- `CipherBody::operator binary`. -/
def CipherBody.toBinary (b : CipherBody) : Binary :=
  ((((BinaryWriter.empty.write b.source).write b.destination).write b.iv).write
    b.ciphertext).data

theorem parse_toBinary (b : CipherBody) (hs : b.source.length = ecdhKeySize)
    (hd : b.destination.length = ecdhKeySize) (hi : b.iv.length = aesBlockSize) :
    CipherBody.parse b.toBinary = .ok b := by
  have h₀ : (BinaryReader.ofBinary b.toBinary).Ahead b.toBinary
      (b.source ++ (b.destination ++ (b.iv ++ b.ciphertext))) := by
    simpa [CipherBody.toBinary] using ahead_start b.toBinary
  obtain ⟨r₁, read₁, h₁⟩ := read_ahead h₀ hs
  obtain ⟨r₂, read₂, h₂⟩ := read_ahead h₁ hd
  obtain ⟨r₃, read₃, h₃⟩ := read_ahead h₂ hi
  simp only [CipherBody.parse, bind, Except.bind, read₁, read₂, read₃, left_ahead h₃]
  rfl

theorem aesKeyLengths_long {k : ℕ} (h : k ∈ aesKeyLengths) : ¬ k < aesBlockSize := by
  have hall : ∀ k ∈ aesKeyLengths, ¬ k < aesBlockSize := by decide
  exact hall k h

section Keys
variable {K : CryptoPP Id Pair Ecdh} (hF : FilterLaws K) {key iv : Binary}
include hF

theorem encryption_ofKey (hkey : key.length ∈ aesKeyLengths) (random : Iv) :
    AesGcmEncryption.ofKey K key random = .ok ⟨key, random.val⟩ := by
  rw [AesGcmEncryption.ofKey, if_neg (aesKeyLengths_long hkey), hF.setKey_ok hkey random.property]
  rfl

theorem decryption_ofKey (hkey : key.length ∈ aesKeyLengths) (hiv : iv.length = aesBlockSize) :
    AesGcmDecryption.ofKey K key iv = .ok ⟨key, iv⟩ := by
  rw [AesGcmDecryption.ofKey, if_neg (aesKeyLengths_long hkey), if_neg (by omega),
    hF.setKey_ok hkey hiv]
  rfl

theorem decryption_refused (hkey : key.length ∉ aesKeyLengths) (hiv : iv.length = aesBlockSize) :
    ∃ e, AesGcmDecryption.ofKey K key iv = .error e := by
  rw [AesGcmDecryption.ofKey]
  split_ifs
  · exact ⟨_, rfl⟩
  · exact ⟨_, rfl⟩
  · obtain ⟨what, hset⟩ := hF.setKey_error hkey hiv
    rw [hset]
    exact ⟨_, rfl⟩

end Keys

section Laws
variable {K : CryptoPP Id Pair Ecdh} (hE : EcdhLaws K)
include hE

theorem agree_both (a b : Ecdh) : ∃ secret, K.agree a (K.ecdhPublicKey b) = .ok secret ∧
    K.agree b (K.ecdhPublicKey a) = .ok secret := by
  have hb : ¬ (K.ecdhPublicKey b).length ≠ ecdhKeySize := not_not.mpr (hE.public_length b)
  have ha : ¬ (K.ecdhPublicKey a).length ≠ ecdhKeySize := not_not.mpr (hE.public_length a)
  obtain ⟨secret, hsecret⟩ := Option.isSome_iff_exists.mp (hE.agree_exists a b)
  refine ⟨secret, ?_, ?_⟩
  · rw [CryptoPP.agree, if_neg hb, hsecret]
  · rw [CryptoPP.agree, if_neg ha, ← hE.agree_symmetric a b, hsecret]

theorem length_toBinary {body : CipherBody} {a b : Ecdh} (hs : body.source = K.ecdhPublicKey a)
    (hd : body.destination = K.ecdhPublicKey b) (hi : body.iv.length = aesBlockSize) :
    body.toBinary.length = 2 * ecdhKeySize + aesBlockSize + body.ciphertext.length := by
  simp [CipherBody.toBinary, hs, hd, hi, hE.public_length]
  omega

variable (hG : GcmLaws K)
include hG

theorem encrypt_spec (cleartext : Binary) (a b : Ecdh) (random : Iv) :
    ∃ body, CipherBody.encrypt K cleartext a (K.ecdhPublicKey b) random = .ok body ∧
      body.source = K.ecdhPublicKey a ∧ body.destination = K.ecdhPublicKey b ∧
      body.iv = random.val ∧ body.ciphertext.length = cleartext.length + gcmTagSize := by
  obtain ⟨secret, hsecret, _⟩ := agree_both hE a b
  have hkey := hG.digest_key secret
  refine ⟨⟨K.ecdhPublicKey a, K.ecdhPublicKey b, random.val,
    AesGcmEncryption.encrypt K ⟨K.sha256 secret, random.val⟩ cleartext⟩, ?_, rfl, rfl, rfl, ?_⟩
  · simp only [CipherBody.encrypt, bind, Except.bind, hsecret,
      encryption_ofKey hG.toFilterLaws hkey]
    rfl
  · simp [AesGcmEncryption.encrypt, hG.encryption_filter, hG.encryption_length,
      hG.encryption_tag]

/-- Decryption keeps the length of the ciphertext: nothing strips the tag. -/
theorem decrypt_length {body : CipherBody} {a b : Ecdh} (hs : body.source = K.ecdhPublicKey a)
    (hd : body.destination = K.ecdhPublicKey b) (hi : body.iv.length = aesBlockSize) :
    ∃ plain, body.decrypt K b = .ok plain ∧ plain.length = body.ciphertext.length := by
  obtain ⟨secret, _, hsecret⟩ := agree_both hE a b
  have hkey := hG.digest_key secret
  refine ⟨AesGcmDecryption.decrypt K ⟨K.sha256 secret, body.iv⟩ body.ciphertext, ?_, ?_⟩
  · rw [CipherBody.decrypt, if_neg (not_not.mpr hd.symm), hs]
    simp only [bind, Except.bind, hsecret, decryption_ofKey hG.toFilterLaws hkey hi]
    rfl
  · simp [AesGcmDecryption.decrypt, hG.array_sink, hG.encryption_filter,
      hG.decryption_length]

/-- What the key's owner decrypts begins with what was encrypted. Sixteen bytes follow: the
tag, decrypted as if it were text. -/
theorem decrypt_encrypt (hS : StreamLaws K) {cleartext : Binary} {a b : Ecdh} {random : Iv}
    {body : CipherBody}
    (h : CipherBody.encrypt K cleartext a (K.ecdhPublicKey b) random = .ok body) :
    ∃ tail, body.decrypt K b = .ok (cleartext ++ tail) ∧ tail.length = gcmTagSize := by
  obtain ⟨secret, hsecret, hsecret'⟩ := agree_both hE a b
  have hkey := hG.digest_key secret
  simp only [CipherBody.encrypt, bind, Except.bind, hsecret,
    encryption_ofKey hG.toFilterLaws hkey] at h
  cases h
  set sealed := AesGcmEncryption.encrypt K ⟨K.sha256 secret, random.val⟩ cleartext with hsealed
  set plain := (K.gcmDecryption (K.sha256 secret) random.val).process sealed with hplain
  have hlength : plain.length = cleartext.length + gcmTagSize := by
    rw [hplain, hG.decryption_length, hsealed, AesGcmEncryption.encrypt,
      hG.encryption_filter, List.length_append, hG.encryption_length, hG.encryption_tag]
  have htext : plain.take cleartext.length = cleartext := by
    rw [hplain, hsealed, AesGcmEncryption.encrypt, hG.encryption_filter]
    have hinitial := hS.decryption_prefix (K.sha256 secret) random.val
      ((K.gcmEncryption (K.sha256 secret) random.val).process cleartext)
      ((K.gcmEncryption (K.sha256 secret) random.val).tag cleartext)
    rw [hG.decryption_inverse, hG.encryption_length] at hinitial
    exact hinitial
  refine ⟨plain.drop cleartext.length, ?_, ?_⟩
  · have hdecrypt : AesGcmDecryption.decrypt K ⟨K.sha256 secret, random.val⟩ sealed = plain := by
      rw [AesGcmDecryption.decrypt, hG.array_sink, hG.encryption_filter,
        List.take_append_of_le_length (by rw [hG.decryption_length]), ← hplain,
        List.take_of_length_le (by rw [hplain, hG.decryption_length])]
    have hjoin : plain = cleartext ++ plain.drop cleartext.length := by
      conv_lhs => rw [← List.take_append_drop cleartext.length plain, htext]
    rw [CipherBody.decrypt, if_neg (not_not.mpr rfl)]
    simp only [bind, Except.bind, hsecret', decryption_ofKey hG.toFilterLaws hkey random.property]
    rw [← hjoin, ← hdecrypt]
    rfl
  · rw [List.length_drop, hlength, Nat.add_sub_cancel_left]

end Laws

def decryptWith (K : CryptoPP Id Pair Ecdh) (key iv c : Binary) : Except Error Binary := do
  let decryption ← AesGcmDecryption.ofKey K key iv
  return decryption.decrypt K c

/-- A ciphertext followed by its tag. -/
def Genuine (K : CryptoPP Id Pair Ecdh) (key iv c : Binary) : Prop :=
  ∃ data, c = (K.gcmEncryption key iv).process data ++ (K.gcmEncryption key iv).tag data

/-- Whatever is not genuine makes decryption throw. -/
def Rejects (K : CryptoPP Id Pair Ecdh) (key iv c : Binary) : Prop :=
  Genuine K key iv c ∨ ∃ e, decryptWith K key iv c = .error e

/-- The tag is never looked at: apart from genuine inputs, decryption rejects those for which
the key is refused, and no other. -/
theorem rejects_iff {K : CryptoPP Id Pair Ecdh} (hF : FilterLaws K) (key : Binary) {iv : Binary}
    (hiv : iv.length = aesBlockSize) (c : Binary) :
    Rejects K key iv c ↔ Genuine K key iv c ∨ key.length ∉ aesKeyLengths := by
  refine or_congr_right ?_
  by_cases hkey : key.length ∈ aesKeyLengths
  · constructor
    · rintro ⟨e, he⟩
      rw [decryptWith, decryption_ofKey hF hkey hiv] at he
      cases he
    · intro hrefused
      exact absurd hkey hrefused
  · obtain ⟨e, he⟩ := decryption_refused hF hkey hiv
    refine iff_of_true ⟨e, ?_⟩ hkey
    rw [decryptWith, he]
    rfl

theorem genuine_length {K : CryptoPP Id Pair Ecdh} (hG : GcmLaws K) {key iv c : Binary}
    (h : Genuine K key iv c) : gcmTagSize ≤ c.length := by
  obtain ⟨data, rfl⟩ := h
  rw [List.length_append, hG.encryption_tag]
  exact Nat.le_add_left ..

namespace Sample

theorem rejects_sample :
    Rejects LegioCrypto.Sample.crypto (List.replicate 17 0) (List.replicate 16 0) [1, 2, 3] :=
  (rejects_iff LegioCrypto.Sample.filterLaws (List.replicate 17 0) List.length_replicate
    [1, 2, 3]).mpr (Or.inr (by decide))

/-- Three bytes, which hold no tag, are decrypted. -/
theorem short_decrypted : ¬ ∀ key iv c : Binary, aesBlockSize ≤ key.length →
    iv.length = aesBlockSize → Rejects LegioCrypto.Sample.crypto key iv c := by
  intro h
  rcases h (List.replicate 16 0) (List.replicate 16 0) [1, 2, 3] (by decide) (by decide) with
    hgenuine | ⟨e, he⟩
  · exact absurd (genuine_length LegioCrypto.Sample.gcmLaws hgenuine) (by decide)
  · have hreturned : decryptWith LegioCrypto.Sample.crypto (List.replicate 16 0)
        (List.replicate 16 0) [1, 2, 3] = .ok [1, 2, 3] := by decide +kernel
    rw [hreturned] at he
    cases he

end Sample

end LegioMessage
