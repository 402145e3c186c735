import KFaceAuth.Lib.Bytes

/-!
# The format of a vault

A profile of face samples is encoded to bytes, encrypted under a key, and put
behind a header (`encodeVault`); `decodeVault` checks and undoes this. The
cipher, the hash and the check of a sample (which is on floating-point numbers)
are parameters (`Crypto`).
-/

namespace KFaceAuth

/-! ## Constants -/

def minimumProfileSamples : ℕ := 3
def maximumProfileSamples : ℕ := 8
def keyBytes : ℕ := 32
def nonceBytes : ℕ := 12
def tagBytes : ℕ := 16
def embeddingDimension : ℕ := 128
def normalizationVersion : ℕ := 1
def vaultSchema : ℕ := 1
def profileSchema : ℕ := 1
def outerHeaderBytes : ℕ := 8 + 2 + nonceBytes + 4 + tagBytes
def maximumVaultBytes : ℕ := 16 * 1024

def vaultMagic : List UInt8 := ascii "KFAVLT04"
def profileMagic : List UInt8 := ascii "KFAIDP01"
def detectorModelId : List UInt8 := ascii "yunet-2023mar-v1"
def embeddingModelId : List UInt8 := ascii "sface-2021dec-fp32-v1"
def embeddingFormatId : List UInt8 := ascii "sface-f32-le-128-l2-v1"
def sfaceModelSha256 : List UInt8 :=
  ascii "0ba9fbfa01b5270c96627c4ef784da859931e02f04419c829e83484087c34e79"

/-! ## Keys, profiles and errors -/

inductive CryptoError
  | invalidArgument
  | providerFailure
  | authenticationFailure
  | unknownStatus
  deriving DecidableEq, Repr

/-- The errors of the vault operations. -/
inductive VaultError
  | io
  | crypto (e : CryptoError)
  | keyProvider
  | unavailable
  | notFound
  | unsafeFilesystem
  | lockTimeout
  | oversized
  | corrupt
  | unknownSchema
  | wrongUid
  | modelMismatch
  | profileBounds
  | invalidEmbedding
  deriving DecidableEq, Repr

/-- `MasterKey`. -/
structure MasterKey where
  bytes : List UInt8
  len : bytes.length = keyBytes
  deriving DecidableEq

/-- `Profile`: samples as the little-endian bytes of their values. -/
structure Profile where
  samples : List (List UInt8)
  bounds : minimumProfileSamples ≤ samples.length ∧ samples.length ≤ maximumProfileSamples
  dimension : ∀ sample ∈ samples, sample.length = 4 * embeddingDimension

/-- What is computed outside: the cipher, the hash, and whether the values of a
    sample are finite, bounded and of norm one (`from_normalized`). -/
structure Crypto where
  encrypt : (key nonce aad plaintext : List UInt8) → Except CryptoError (List UInt8 × List UInt8)
  decrypt : (key nonce aad ciphertext tag : List UInt8) → Except CryptoError (List UInt8)
  sha256 : List UInt8 → Except CryptoError (List UInt8)
  isNormalized : List UInt8 → Bool

/-- The embedding whose component `i` is one, and whose others are zero. -/
def unitEmbedding (i : ℕ) : List UInt8 :=
  (List.range embeddingDimension).flatMap fun j =>
    if j = i then [0, 0, 0x80, 0x3f] else [0, 0, 0, 0]

theorem length_unitEmbedding (i : ℕ) : (unitEmbedding i).length = 4 * embeddingDimension := by
  have hfour : ∀ j, (if j = i then [0, 0, 0x80, 0x3f] else [0, 0, 0, 0] : List UInt8).length = 4 := by
    intro j
    split <;> rfl
  rw [unitEmbedding, List.length_flatMap]
  simp only [hfour, List.map_const', List.length_range]
  rw [List.sum_replicate_nat, Nat.mul_comm]

/-- A cipher that does nothing, for examples. -/
def plainCrypto : Crypto where
  encrypt _ _ _ plaintext := .ok (plaintext, List.replicate tagBytes 0)
  decrypt _ _ _ ciphertext _ := .ok ciphertext
  sha256 bytes := .ok (bytes.take 32)
  isNormalized _ := true

/-! ## Encoding -/

/-- `associated_data`. -/
def associatedData (uid : UInt32) : List UInt8 :=
  ascii "io.github.loofiboss_bit.KFaceAuth/user-session-vault" ++ be16 vaultSchema ++
    be32 uid.toNat ++ detectorModelId ++ [0] ++ embeddingModelId ++ [0] ++ sfaceModelSha256 ++
    [0] ++ embeddingFormatId ++ be16 embeddingDimension ++ be16 normalizationVersion

/-- `push_string`, of one of the fixed texts. -/
def pushString (value : List UInt8) : List UInt8 := value.length.toUInt8 :: value

/-- `encode_profile`. -/
def encodeProfile (profile : Profile) (uid : UInt32) : List UInt8 :=
  profileMagic ++ be16 profileSchema ++ be32 uid.toNat ++ pushString detectorModelId ++
    pushString embeddingModelId ++ pushString sfaceModelSha256 ++ pushString embeddingFormatId ++
    be16 embeddingDimension ++ be16 normalizationVersion ++ [profile.samples.length.toUInt8] ++
    profile.samples.flatten

/-- `encode_vault`, with the nonce it draws. -/
def encodeVault (crypto : Crypto) (profile : Profile) (key : MasterKey) (uid : UInt32)
    (nonce : List UInt8) : Except VaultError (List UInt8) :=
  match crypto.encrypt key.bytes nonce (associatedData uid) (encodeProfile profile uid) with
  | .error e => .error (.crypto e)
  | .ok (ciphertext, tag) =>
    if ciphertext.length ≥ 2 ^ 32 then .error .oversized
    else
      let output := vaultMagic ++ be16 vaultSchema ++ nonce ++ be32 ciphertext.length ++ tag ++
        ciphertext
      if output.length > maximumVaultBytes then .error .oversized else .ok output

/-! ## Decoding -/

/-- `Cursor`: the bytes that are left. -/
abbrev Cursor := StateT (List UInt8) (Except VaultError)

namespace Cursor

/-- `Cursor::take`. -/
def take (count : ℕ) : Cursor (List UInt8) := fun bytes =>
  if count ≤ bytes.length then .ok (bytes.take count, bytes.drop count) else .error .corrupt

/-- `Cursor::u8`, `u16` and `u32`, by their number of bytes. -/
def number (count : ℕ) : Cursor ℕ := return ofBe (← take count)

/-- `Cursor::string`. -/
def string : Cursor (List UInt8) := do
  let length ← number 1
  let text ← take length
  if (String.fromUTF8? ⟨text.toArray⟩).isSome then return text else throw .corrupt

/-- The check that a field of the model is as expected. -/
def expect {α : Type} [DecidableEq α] (field : Cursor α) (value : α) : Cursor Unit := do
  let found ← field
  if found = value then return () else throw .modelMismatch

/-- The samples of a profile. -/
def samples (crypto : Crypto) : ℕ → Cursor (List (List UInt8))
  | 0 => return []
  | n + 1 => do
    let sample ← take (4 * embeddingDimension)
    if crypto.isNormalized sample then return sample :: (← samples crypto n)
    else throw .invalidEmbedding

/-- `Cursor::remaining`. -/
def remaining : Cursor ℕ := return (← get).length

end Cursor

/-- `Profile::new`. The samples are arrays of the right dimension in the source. -/
def Profile.new (samples : List (List UInt8)) : Except VaultError Profile :=
  if bounds : minimumProfileSamples ≤ samples.length ∧ samples.length ≤ maximumProfileSamples then
    if dimension : ∀ sample ∈ samples, sample.length = 4 * embeddingDimension then
      .ok ⟨samples, bounds, dimension⟩
    else .error .corrupt
  else .error .profileBounds

/-- `decode_profile`, up to the samples. -/
def decodeHeader (expectedUid : UInt32) : Cursor ℕ := do
  if (← Cursor.take 8) ≠ profileMagic then throw .corrupt
  if (← Cursor.number 2) ≠ profileSchema then throw .unknownSchema
  if (← Cursor.number 4) ≠ expectedUid.toNat then throw .wrongUid
  Cursor.expect Cursor.string detectorModelId
  Cursor.expect Cursor.string embeddingModelId
  Cursor.expect Cursor.string sfaceModelSha256
  Cursor.expect Cursor.string embeddingFormatId
  Cursor.expect (Cursor.number 2) embeddingDimension
  Cursor.expect (Cursor.number 2) normalizationVersion
  Cursor.number 1

/-- `decode_profile`. -/
def decodeProfile (crypto : Crypto) (plaintext : List UInt8) (expectedUid : UInt32) :
    Except VaultError Profile := do
  let (sampleCount, rest) ← decodeHeader expectedUid plaintext
  if sampleCount < minimumProfileSamples ∨ maximumProfileSamples < sampleCount then
    throw .profileBounds
  else if rest.length ≠ sampleCount * embeddingDimension * 4 then throw .corrupt
  else do
    let (samples, _) ← Cursor.samples crypto sampleCount rest
    Profile.new samples

/-- `decode_vault`. -/
def decodeVault (crypto : Crypto) (bytes : List UInt8) (key : MasterKey) (uid : UInt32) :
    Except VaultError Profile :=
  let slice i n := (bytes.drop i).take n
  let ciphertext := bytes.drop outerHeaderBytes
  if bytes.length < outerHeaderBytes ∨ maximumVaultBytes < bytes.length then .error .corrupt
  else if slice 0 8 ≠ vaultMagic then .error .corrupt
  else if ofBe (slice 8 2) ≠ vaultSchema then .error .unknownSchema
  else if ofBe (slice (10 + nonceBytes) 4) = 0 ∨
      outerHeaderBytes + ofBe (slice (10 + nonceBytes) 4) ≠ bytes.length then .error .corrupt
  else
    match crypto.decrypt key.bytes (slice 10 nonceBytes) (associatedData uid) ciphertext
      (slice (10 + nonceBytes + 4) tagBytes) with
    | .error e => .error (.crypto e)
    | .ok plaintext => decodeProfile crypto plaintext uid

end KFaceAuth
