import KFaceAuth.Vault.Format
import Mathlib.Tactic.Ring

/-!
# What a vault holds, read back

The two formats of `KFaceAuth.Vault.Format` are undone by their decoders, and
their decoders accept nothing else.

* `decodeProfile_iff`: the plaintexts that decode to a profile;
* `decodeVault_iff`: the bytes that decode to a profile, over the cipher;
* `IdealAead`: a cipher that only opens what it has made, and that each key
  makes for itself.
-/

namespace KFaceAuth

/-! ## Reading with a cursor -/

namespace Cursor

variable {α β : Type} {bs rest : List UInt8}

theorem bind_ok {c : Cursor α} {f : α → Cursor β} {r : β × List UInt8} :
    (c >>= f) bs = .ok r ↔ ∃ a rest, c bs = .ok (a, rest) ∧ f a rest = .ok r := by
  constructor
  · intro h
    rcases hc : c bs with e | ⟨a, rest⟩
    · rw [show (c >>= f) bs = (c bs >>= fun x => f x.1 x.2) from rfl, hc] at h
      cases h
    · rw [show (c >>= f) bs = (c bs >>= fun x => f x.1 x.2) from rfl, hc] at h
      exact ⟨a, rest, rfl, h⟩
  · rintro ⟨a, rest, hc, hf⟩
    rw [show (c >>= f) bs = (c bs >>= fun x => f x.1 x.2) from rfl, hc]
    exact hf

theorem pure_ok {a : α} {r : α × List UInt8} :
    (pure a : Cursor α) bs = .ok r ↔ r = (a, bs) := by
  constructor
  · rintro ⟨⟩
    rfl
  · rintro rfl
    rfl

theorem throw_ok {e : VaultError} {r : α × List UInt8} :
    ¬ (throw e : Cursor α) bs = .ok r := by
  rintro ⟨⟩

theorem take_ok {n : ℕ} {a : List UInt8} :
    take n bs = .ok (a, rest) ↔ a.length = n ∧ bs = a ++ rest := by
  unfold take
  split
  · next h =>
    constructor
    · rintro ⟨⟩
      exact ⟨List.length_take_of_le h, (List.take_append_drop n bs).symm⟩
    · rintro ⟨rfl, rfl⟩
      rw [List.take_left, List.drop_left]
  · next h =>
    constructor
    · rintro ⟨⟩
    · rintro ⟨rfl, rfl⟩
      rw [List.length_append] at h
      omega

theorem number_ok {n v : ℕ} :
    number n bs = .ok (v, rest) ↔ v < 256 ^ n ∧ bs = toBe n v ++ rest := by
  unfold number
  simp only [bind_ok, take_ok, pure_ok, Prod.mk.injEq]
  constructor
  · rintro ⟨a, rest, ⟨rfl, rfl⟩, rfl, rfl⟩
    exact ⟨ofBe_lt a, by rw [toBe_ofBe]⟩
  · rintro ⟨hv, rfl⟩
    exact ⟨toBe n v, rest, ⟨length_toBe n v, rfl⟩, (ofBe_toBe hv).symm, rfl⟩

/-- A text that `string` returns. -/
def IsText (text : List UInt8) : Prop :=
  text.length < 256 ∧ (String.fromUTF8? ⟨text.toArray⟩).isSome

theorem string_ok {text : List UInt8} :
    string bs = .ok (text, rest) ↔ IsText text ∧ bs = pushString text ++ rest := by
  unfold string
  simp only [bind_ok, number_ok, take_ok]
  constructor
  · rintro ⟨n, _, ⟨hn, rfl⟩, a, rest', ⟨rfl, rfl⟩, h⟩
    split at h
    · next hu =>
      obtain ⟨rfl, rfl⟩ := Prod.mk.inj (pure_ok.mp h)
      exact ⟨⟨hn, hu⟩, rfl⟩
    · exact absurd h throw_ok
  · rintro ⟨⟨hn, hu⟩, rfl⟩
    refine ⟨text.length, text ++ rest, ⟨hn, rfl⟩, text, rest, ⟨rfl, rfl⟩, ?_⟩
    rw [if_pos hu]
    rfl

theorem expect_ok [DecidableEq α] {c : Cursor α} {value : α} {u : Unit} :
    expect c value bs = .ok (u, rest) ↔ c bs = .ok (value, rest) := by
  unfold expect
  simp only [bind_ok]
  constructor
  · rintro ⟨a, rest', hc, h⟩
    split at h
    · next ha =>
      obtain ⟨-, rfl⟩ := Prod.mk.inj (pure_ok.mp h)
      rwa [← ha]
    · exact absurd h throw_ok
  · intro hc
    refine ⟨value, rest, hc, ?_⟩
    rw [if_pos rfl]
    rfl

theorem samples_ok {crypto : Crypto} {n : ℕ} {l : List (List UInt8)} :
    samples crypto n bs = .ok (l, rest) ↔
      l.length = n ∧ (∀ s ∈ l, s.length = 4 * embeddingDimension ∧ crypto.isNormalized s) ∧
        bs = l.flatten ++ rest := by
  induction n generalizing bs l with
  | zero =>
    rw [samples, pure_ok, Prod.mk.injEq, List.length_eq_zero_iff]
    constructor
    · rintro ⟨rfl, rfl⟩
      exact ⟨rfl, by simp, rfl⟩
    · rintro ⟨rfl, -, rfl⟩
      exact ⟨rfl, rfl⟩
  | succ n ih =>
    simp only [samples, bind_ok, take_ok]
    constructor
    · rintro ⟨s, rest₁, ⟨hs, rfl⟩, h⟩
      split at h
      · next hnorm =>
        obtain ⟨l', rest₂, hl', hr⟩ := bind_ok.mp h
        obtain ⟨rfl, rfl⟩ := Prod.mk.inj (pure_ok.mp hr)
        obtain ⟨rfl, hall, rfl⟩ := ih.mp hl'
        refine ⟨rfl, ?_, by simp⟩
        rintro t (_ | ⟨_, ht⟩)
        · exact ⟨hs, hnorm⟩
        · exact hall t ht
      · exact absurd h throw_ok
    · rintro ⟨hlen, hall, rfl⟩
      obtain ⟨s, l, rfl⟩ := List.exists_cons_of_length_eq_add_one hlen
      obtain ⟨hs, hnorm⟩ := hall s List.mem_cons_self
      refine ⟨s, l.flatten ++ rest, ⟨hs, by simp⟩, ?_⟩
      rw [if_pos hnorm]
      refine bind_ok.mpr ⟨l, rest, ih.mpr ⟨by simpa using hlen, ?_, rfl⟩, rfl⟩
      exact fun t ht => hall t (List.mem_cons_of_mem _ ht)

end Cursor

/-! ## The profile -/

/-- What stands before the number of samples. -/
def profileHeader (uid : UInt32) : List UInt8 :=
  profileMagic ++ be16 profileSchema ++ be32 uid.toNat ++ pushString detectorModelId ++
    pushString embeddingModelId ++ pushString sfaceModelSha256 ++ pushString embeddingFormatId ++
    be16 embeddingDimension ++ be16 normalizationVersion

theorem encodeProfile_eq (profile : Profile) (uid : UInt32) :
    encodeProfile profile uid =
      profileHeader uid ++ (toBe 1 profile.samples.length ++ profile.samples.flatten) := by
  simp [encodeProfile, profileHeader, toBe]

theorem isText_detectorModelId : Cursor.IsText detectorModelId := ⟨by decide, by decide⟩
theorem isText_embeddingModelId : Cursor.IsText embeddingModelId := ⟨by decide, by decide⟩
theorem isText_sfaceModelSha256 : Cursor.IsText sfaceModelSha256 := ⟨by decide, by decide⟩
theorem isText_embeddingFormatId : Cursor.IsText embeddingFormatId := ⟨by decide, by decide⟩

/-- A check of the header: it stops the reading or lets it go on. -/
theorem Cursor.check_ok {α β : Type} {p : Prop} [Decidable p] {e : VaultError} {g : α → Cursor β}
    {f : Cursor β} {bs : List UInt8} {r : β × List UInt8} :
    (if p then throw e >>= g else f) bs = .ok r ↔ ¬ p ∧ f bs = .ok r := by
  split
  · next h =>
    refine iff_of_false (fun hr => ?_) (fun hr => hr.1 h)
    obtain ⟨a, rest, hthrow, -⟩ := bind_ok.mp hr
    exact throw_ok hthrow
  · next h => exact ⟨fun hr => ⟨h, hr⟩, And.right⟩

theorem decodeHeader_ok {uid : UInt32} {bs rest : List UInt8} {n : ℕ} :
    decodeHeader uid bs = .ok (n, rest) ↔
      n < 256 ∧ bs = profileHeader uid ++ (toBe 1 n ++ rest) := by
  have huid : uid.toNat < 256 ^ 4 := uid.toNat_lt
  unfold decodeHeader
  simp only [Cursor.bind_ok, Cursor.check_ok, Cursor.expect_ok, Cursor.string_ok,
    Cursor.number_ok, Cursor.take_ok, not_not]
  constructor
  · rintro ⟨_, _, ⟨-, rfl⟩, rfl, _, _, ⟨-, rfl⟩, rfl, _, _, ⟨-, rfl⟩, rfl, _, _, ⟨-, rfl⟩,
      _, _, ⟨-, rfl⟩, _, _, ⟨-, rfl⟩, _, _, ⟨-, rfl⟩, _, _, ⟨-, rfl⟩, _, _, ⟨-, rfl⟩, hn, rfl⟩
    refine ⟨hn, ?_⟩
    simp only [profileHeader, be16_eq, be32_eq, List.append_assoc]
  · rintro ⟨hn, rfl⟩
    simp only [profileHeader, be16_eq, be32_eq, List.append_assoc]
    exact ⟨_, _, ⟨rfl, rfl⟩, rfl, _, _, ⟨by decide, rfl⟩, rfl, _, _, ⟨huid, rfl⟩, rfl,
      (), _, ⟨isText_detectorModelId, rfl⟩, (), _, ⟨isText_embeddingModelId, rfl⟩,
      (), _, ⟨isText_sfaceModelSha256, rfl⟩, (), _, ⟨isText_embeddingFormatId, rfl⟩,
      (), _, ⟨by decide, rfl⟩, (), _, ⟨by decide, rfl⟩, hn, rfl⟩

theorem Profile.new_ok {samples : List (List UInt8)} {profile : Profile} :
    Profile.new samples = .ok profile ↔ samples = profile.samples := by
  unfold Profile.new
  constructor
  · intro h
    split at h
    · split at h
      · cases h
        rfl
      · cases h
    · cases h
  · rintro rfl
    rw [dif_pos profile.bounds, dif_pos profile.dimension]

/-- The checks of `decode_profile` on the number of samples, after its header. -/
theorem decodeProfile_ok {crypto : Crypto} {plaintext : List UInt8} {uid : UInt32}
    {profile : Profile} :
    decodeProfile crypto plaintext uid = .ok profile ↔
      ∃ n rest, decodeHeader uid plaintext = .ok (n, rest) ∧
        (minimumProfileSamples ≤ n ∧ n ≤ maximumProfileSamples) ∧
        rest.length = n * embeddingDimension * 4 ∧
        ∃ left, Cursor.samples crypto n rest = .ok (profile.samples, left) := by
  unfold decodeProfile
  simp only [bind_eq_ok, throw, throwThe, MonadExceptOf.throw, check_eq_ok, Profile.new_ok,
    Prod.exists, not_or, Nat.not_lt, not_not]
  constructor
  · rintro ⟨n, rest, hheader, hn, hlen, samples, left, hsamples, rfl⟩
    exact ⟨n, rest, hheader, hn, hlen, left, hsamples⟩
  · rintro ⟨n, rest, hheader, hn, hlen, left, hsamples⟩
    exact ⟨n, rest, hheader, hn, hlen, profile.samples, left, hsamples, rfl⟩

theorem Profile.length_flatten (profile : Profile) :
    profile.samples.flatten.length = profile.samples.length * embeddingDimension * 4 := by
  have hmap : profile.samples.map List.length =
      profile.samples.map fun _ => 4 * embeddingDimension :=
    List.map_congr_left profile.dimension
  rw [List.length_flatten, hmap, List.map_const', List.sum_replicate_nat]
  ring

/-- `decode_profile` undoes `encode_profile`, and accepts nothing else. -/
theorem decodeProfile_iff {crypto : Crypto} {plaintext : List UInt8} {uid : UInt32}
    {profile : Profile} :
    decodeProfile crypto plaintext uid = .ok profile ↔
      (∀ sample ∈ profile.samples, crypto.isNormalized sample) ∧
        plaintext = encodeProfile profile uid := by
  have hsmall : profile.samples.length < 256 :=
    Nat.lt_of_le_of_lt profile.bounds.2 (by decide)
  rw [encodeProfile_eq, decodeProfile_ok]
  constructor
  · rintro ⟨n, rest, hheader, -, hlen, left, hsamples⟩
    obtain ⟨-, rfl⟩ := decodeHeader_ok.mp hheader
    obtain ⟨rfl, hall, rfl⟩ := Cursor.samples_ok.mp hsamples
    refine ⟨fun s hs => (hall s hs).2, ?_⟩
    -- The exact length leaves nothing behind the samples.
    have hleft : left = [] := by
      rw [List.length_append, profile.length_flatten] at hlen
      exact List.length_eq_zero_iff.mp (by omega)
    rw [hleft, List.append_nil]
  · rintro ⟨hnorm, rfl⟩
    refine ⟨_, _, decodeHeader_ok.mpr ⟨hsmall, rfl⟩, profile.bounds, profile.length_flatten, [], ?_⟩
    refine Cursor.samples_ok.mpr ⟨rfl, fun s hs => ⟨profile.dimension s hs, hnorm s hs⟩, ?_⟩
    rw [List.append_nil]

/-! ## The vault -/

/-- A vault: its header and what is encrypted behind it. -/
def vaultFile (nonce tag ciphertext : List UInt8) : List UInt8 :=
  vaultMagic ++ be16 vaultSchema ++ nonce ++ be32 ciphertext.length ++ tag ++ ciphertext

theorem length_vaultFile {nonce tag ciphertext : List UInt8} (hnonce : nonce.length = nonceBytes)
    (htag : tag.length = tagBytes) :
    (vaultFile nonce tag ciphertext).length = outerHeaderBytes + ciphertext.length := by
  have hmagic : vaultMagic.length = 8 := by decide
  simp only [vaultFile, List.length_append, hmagic, length_be16, length_be32, hnonce, htag]
  rfl

/-- The fields of a vault, by their offsets. -/
theorem eq_fields (bytes : List UInt8) :
    bytes = (bytes.drop 0).take 8 ++ (bytes.drop 8).take 2 ++ (bytes.drop 10).take nonceBytes ++
      (bytes.drop (10 + nonceBytes)).take 4 ++ (bytes.drop (10 + nonceBytes + 4)).take tagBytes ++
        bytes.drop outerHeaderBytes := by
  simp only [List.append_assoc]
  exact drop_eq_field_append (i := 0) <| drop_eq_field_append (i := 8) <|
    drop_eq_field_append <| drop_eq_field_append <| drop_eq_field_append rfl

theorem vaultFile_fields {bytes nonce tag ciphertext : List UInt8}
    (h : bytes = vaultFile nonce tag ciphertext) (hnonce : nonce.length = nonceBytes)
    (htag : tag.length = tagBytes) :
    (bytes.drop 0).take 8 = vaultMagic ∧ (bytes.drop 8).take 2 = be16 vaultSchema ∧
      (bytes.drop 10).take nonceBytes = nonce ∧
      (bytes.drop (10 + nonceBytes)).take 4 = be32 ciphertext.length ∧
      (bytes.drop (10 + nonceBytes + 4)).take tagBytes = tag ∧
      bytes.drop outerHeaderBytes = ciphertext := by
  have hmagic : vaultMagic.length = 8 := by decide
  unfold vaultFile at h
  refine ⟨?_, ?_, ?_, ?_, ?_, ?_⟩
  · exact field_of_eq_append (a := []) (by simpa using h) rfl hmagic
  · refine field_of_eq_append (a := vaultMagic) (by simpa using h) hmagic rfl
  · refine field_of_eq_append (a := vaultMagic ++ be16 vaultSchema) (by simpa using h) ?_ hnonce
    simp [hmagic]
  · refine field_of_eq_append (a := vaultMagic ++ be16 vaultSchema ++ nonce) (by simpa using h)
      ?_ rfl
    simp only [List.length_append, hmagic, hnonce, length_be16]
  · refine field_of_eq_append
      (a := vaultMagic ++ be16 vaultSchema ++ nonce ++ be32 ciphertext.length)
      (by simpa using h) ?_ htag
    simp only [List.length_append, hmagic, hnonce, length_be16, length_be32]
  · have hlen : (vaultMagic ++ be16 vaultSchema ++ nonce ++ be32 ciphertext.length ++ tag).length =
        outerHeaderBytes := by
      simp only [List.length_append, hmagic, hnonce, htag, length_be16, length_be32]
      rfl
    rw [h, ← hlen, List.drop_left]

theorem decodeVault_iff {crypto : Crypto} {bytes : List UInt8} {key : MasterKey} {uid : UInt32}
    {profile : Profile} :
    decodeVault crypto bytes key uid = .ok profile ↔
      ∃ nonce tag ciphertext, nonce.length = nonceBytes ∧ tag.length = tagBytes ∧
        bytes = vaultFile nonce tag ciphertext ∧ ciphertext ≠ [] ∧
        outerHeaderBytes + ciphertext.length ≤ maximumVaultBytes ∧
        crypto.decrypt key.bytes nonce (associatedData uid) ciphertext tag =
          .ok (encodeProfile profile uid) ∧
        ∀ sample ∈ profile.samples, crypto.isNormalized sample := by
  unfold decodeVault
  simp only [check_eq_ok, not_or, Nat.not_lt, not_not]
  constructor
  · rintro ⟨⟨hmin, hmax⟩, hmagic, hschema, ⟨hpos, hlen⟩, h⟩
    have hwidth : ∀ i n, i + n ≤ outerHeaderBytes → ((bytes.drop i).take n).length = n := by
      intro i n hin
      rw [List.length_take, List.length_drop]
      omega
    have hcipher : (bytes.drop outerHeaderBytes).length =
        ofBe ((bytes.drop (10 + nonceBytes)).take 4) := by
      rw [List.length_drop]
      omega
    split at h
    · cases h
    next plaintext hdecrypt =>
    obtain ⟨hnorm, rfl⟩ := decodeProfile_iff.mp h
    refine ⟨(bytes.drop 10).take nonceBytes, (bytes.drop (10 + nonceBytes + 4)).take tagBytes,
      bytes.drop outerHeaderBytes, hwidth _ _ (by decide), hwidth _ _ (by decide), ?_, ?_, ?_,
      hdecrypt, hnorm⟩
    · have hbytes := eq_fields bytes
      rwa [hmagic, toBe_eq_of_ofBe (hwidth 8 2 (by decide)) hschema,
        toBe_eq_of_ofBe (hwidth _ _ (by decide)) hcipher.symm, ← be16_eq, ← be32_eq] at hbytes
    · rw [← List.length_pos_iff, hcipher]
      exact Nat.pos_of_ne_zero hpos
    · rw [hcipher, hlen]
      exact hmax
  · rintro ⟨nonce, tag, ciphertext, hnonce, htag, hbytes, hne, hmax, hdecrypt, hnorm⟩
    obtain ⟨h₁, h₂, h₃, h₄, h₅, h₆⟩ := vaultFile_fields hbytes hnonce htag
    have hlen : bytes.length = outerHeaderBytes + ciphertext.length := by
      rw [hbytes, length_vaultFile hnonce htag]
    have hpos : 0 < ciphertext.length := List.length_pos_iff.mpr hne
    have hsmall : ciphertext.length < 2 ^ 32 :=
      Nat.lt_of_le_of_lt (Nat.le_trans (Nat.le_add_left _ _) hmax) (by decide)
    rw [h₁, h₂, h₃, h₄, h₅, h₆, hlen, hdecrypt, ofBe_be32 hsmall]
    exact ⟨⟨Nat.le_add_right _ _, hmax⟩, rfl, by decide, ⟨hpos.ne', rfl⟩,
      decodeProfile_iff.mpr ⟨hnorm, rfl⟩⟩

/-! ## Encoding -/

theorem MasterKey.ext {k l : MasterKey} (h : k.bytes = l.bytes) : k = l := by
  cases k
  cases l
  cases h
  rfl

theorem encodeProfile_inj {p q : Profile} {uid : UInt32}
    (h : encodeProfile p uid = encodeProfile q uid) : p = q := by
  have hread : decodeProfile plainCrypto (encodeProfile q uid) uid = .ok p :=
    decodeProfile_iff.mpr ⟨fun _ _ => rfl, h.symm⟩
  rw [decodeProfile_iff.mpr ⟨fun _ _ => rfl, rfl⟩] at hread
  exact (Except.ok.inj hread).symm

/-- The associated data of an account is that of no other. -/
theorem associatedData_inj {u v : UInt32} (h : associatedData u = associatedData v) : u = v := by
  have hfield : ∀ w : UInt32, ((associatedData w).drop 54).take 4 = be32 w.toNat := fun w =>
    field_of_eq_append (a := ascii "io.github.loofiboss_bit.KFaceAuth/user-session-vault" ++
      be16 vaultSchema) (by simp only [associatedData, List.append_assoc]; rfl) (by decide) rfl
  have hbytes : be32 u.toNat = be32 v.toNat := by
    rw [← hfield, ← hfield, h]
  have hvalue := congrArg ofBe hbytes
  rw [ofBe_be32 u.toNat_lt, ofBe_be32 v.toNat_lt] at hvalue
  exact UInt32.toNat_inj.mp hvalue

theorem length_encodeProfile (profile : Profile) (uid : UInt32) :
    (encodeProfile profile uid).length = 146 + profile.samples.length * embeddingDimension * 4 := by
  have hheader : (profileHeader uid).length = 145 := by
    simp only [profileHeader, List.length_append, length_be32]
    decide
  rw [encodeProfile_eq, List.length_append, List.length_append, hheader, length_toBe,
    profile.length_flatten]
  omega

/-- A cipher that opens exactly what it was asked to seal. The encryptions that
    were made are `made key nonce aad plaintext`; what one of them gave is the
    result of no other key and no other associated data. -/
structure IdealAead (crypto : Crypto)
    (made : List UInt8 → List UInt8 → List UInt8 → List UInt8 → Prop) : Prop where
  encrypts : ∀ key nonce aad plaintext, key.length = keyBytes → nonce.length = nonceBytes →
    ∃ ciphertext tag, crypto.encrypt key nonce aad plaintext = .ok (ciphertext, tag) ∧
      ciphertext.length = plaintext.length ∧ tag.length = tagBytes
  decrypts : ∀ key nonce aad ciphertext tag plaintext,
    crypto.decrypt key nonce aad ciphertext tag = .ok plaintext ↔
      made key nonce aad plaintext ∧
        crypto.encrypt key nonce aad plaintext = .ok (ciphertext, tag)
  binds : ∀ nonce key aad plaintext key' aad' plaintext',
    made key nonce aad plaintext → made key' nonce aad' plaintext' →
    crypto.encrypt key nonce aad plaintext = crypto.encrypt key' nonce aad' plaintext' →
    key' = key ∧ aad' = aad

/-- `encode_vault` succeeds, within the size that `decode_vault` accepts. -/
theorem encodeVault_ok {crypto : Crypto} {profile : Profile} {key : MasterKey} {uid : UInt32}
    {nonce ciphertext tag : List UInt8} (hnonce : nonce.length = nonceBytes)
    (hencrypt : crypto.encrypt key.bytes nonce (associatedData uid) (encodeProfile profile uid) =
      .ok (ciphertext, tag))
    (hlen : ciphertext.length = (encodeProfile profile uid).length)
    (htag : tag.length = tagBytes) :
    ciphertext ≠ [] ∧ outerHeaderBytes + ciphertext.length ≤ maximumVaultBytes ∧
      encodeVault crypto profile key uid nonce = .ok (vaultFile nonce tag ciphertext) := by
  have hsamples : profile.samples.length ≤ 8 := profile.bounds.2
  rw [length_encodeProfile] at hlen
  have hdim : embeddingDimension = 128 := rfl
  rw [hdim] at hlen
  have hmax : outerHeaderBytes + ciphertext.length ≤ maximumVaultBytes := by
    unfold outerHeaderBytes nonceBytes tagBytes maximumVaultBytes
    omega
  have hsmall : ¬ ciphertext.length ≥ 2 ^ 32 := by omega
  refine ⟨List.length_pos_iff.mp (by omega), hmax, ?_⟩
  unfold encodeVault
  rw [hencrypt]
  simp only [if_neg hsmall]
  rw [← vaultFile, length_vaultFile hnonce htag, if_neg (Nat.not_lt.mpr hmax)]

/-- A vault is read back under its own key and account and under no other, and
    what is accepted is a vault of what is returned. -/
theorem vault_roundTrip {crypto : Crypto}
    {made : List UInt8 → List UInt8 → List UInt8 → List UInt8 → Prop}
    (ideal : IdealAead crypto made) :
    (∀ (profile : Profile) (key : MasterKey) (uid : UInt32) (nonce : List UInt8),
      (∀ sample ∈ profile.samples, crypto.isNormalized sample) → nonce.length = nonceBytes →
      made key.bytes nonce (associatedData uid) (encodeProfile profile uid) →
      ∃ bytes, encodeVault crypto profile key uid nonce = .ok bytes ∧
        bytes.length ≤ maximumVaultBytes ∧
        ∀ (key' : MasterKey) (uid' : UInt32) (profile' : Profile),
          decodeVault crypto bytes key' uid' = .ok profile' ↔
            key' = key ∧ uid' = uid ∧ profile' = profile) ∧
    ∀ (bytes : List UInt8) (key : MasterKey) (uid : UInt32) (profile : Profile),
      decodeVault crypto bytes key uid = .ok profile →
      ∃ nonce tag ciphertext, nonce.length = nonceBytes ∧ tag.length = tagBytes ∧
        bytes = vaultMagic ++ be16 vaultSchema ++ nonce ++ be32 ciphertext.length ++ tag ++
          ciphertext ∧
        made key.bytes nonce (associatedData uid) (encodeProfile profile uid) ∧
        crypto.encrypt key.bytes nonce (associatedData uid) (encodeProfile profile uid) =
          .ok (ciphertext, tag) := by
  constructor
  · intro profile key uid nonce hnorm hnonce hmade
    obtain ⟨ciphertext, tag, hencrypt, hlen, htag⟩ :=
      ideal.encrypts key.bytes nonce (associatedData uid) (encodeProfile profile uid) key.len hnonce
    obtain ⟨hne, hmax, hencode⟩ := encodeVault_ok hnonce hencrypt hlen htag
    refine ⟨_, hencode, ?_, fun key' uid' profile' => ?_⟩
    · rwa [length_vaultFile hnonce htag]
    rw [decodeVault_iff]
    constructor
    · rintro ⟨nonce', tag', ciphertext', hnonce', htag', hfile, -, -, hdecrypt, -⟩
      -- The header fixes the nonce, the tag and the ciphertext.
      obtain ⟨-, -, rfl, -, rfl, rfl⟩ := vaultFile_fields hfile hnonce' htag'
      obtain ⟨-, -, h₃, -, h₅, h₆⟩ := vaultFile_fields rfl hnonce htag
      rw [h₃, h₅, h₆] at hdecrypt
      obtain ⟨hmade', hencrypt'⟩ := (ideal.decrypts _ _ _ _ _ _).mp hdecrypt
      obtain ⟨hkey, haad⟩ := ideal.binds _ _ _ _ _ _ _ hmade hmade' (hencrypt.trans hencrypt'.symm)
      have huid := associatedData_inj haad
      subst huid
      refine ⟨MasterKey.ext hkey, rfl, ?_⟩
      have hopen := (ideal.decrypts _ _ _ _ _ _).mpr ⟨hmade, hencrypt⟩
      rw [← hkey, hdecrypt] at hopen
      exact encodeProfile_inj (Except.ok.inj hopen)
    · rintro ⟨rfl, rfl, rfl⟩
      exact ⟨nonce, tag, ciphertext, hnonce, htag, rfl, hne, hmax,
        (ideal.decrypts _ _ _ _ _ _).mpr ⟨hmade, hencrypt⟩, hnorm⟩
  · intro bytes key uid profile h
    obtain ⟨nonce, tag, ciphertext, hnonce, htag, hfile, -, -, hdecrypt, -⟩ :=
      decodeVault_iff.mp h
    obtain ⟨hmade, hencrypt⟩ := (ideal.decrypts _ _ _ _ _ _).mp hdecrypt
    exact ⟨nonce, tag, ciphertext, hnonce, htag, hfile, hmade, hencrypt⟩

/-- A cipher that has sealed one plaintext. -/
def sealedOnce (key nonce aad plaintext : List UInt8) : Crypto where
  encrypt _ _ _ plaintext := .ok (plaintext, List.replicate tagBytes 0)
  decrypt key' nonce' aad' ciphertext tag :=
    if key' = key ∧ nonce' = nonce ∧ aad' = aad ∧ ciphertext = plaintext ∧
      tag = List.replicate tagBytes 0 then .ok ciphertext
    else .error .authenticationFailure
  sha256 bytes := .ok (bytes.take 32)
  isNormalized _ := true

theorem idealAead_sealedOnce (key nonce aad plaintext : List UInt8) :
    IdealAead (sealedOnce key nonce aad plaintext) fun key' nonce' aad' plaintext' =>
      key' = key ∧ nonce' = nonce ∧ aad' = aad ∧ plaintext' = plaintext where
  encrypts _ _ _ plaintext' _ _ :=
    ⟨plaintext', _, rfl, rfl, List.length_replicate⟩
  decrypts key' nonce' aad' ciphertext tag plaintext' := by
    simp only [sealedOnce, Except.ok.injEq, Prod.mk.injEq]
    constructor
    · intro h
      split at h
      · next hsame =>
        obtain ⟨rfl, rfl, rfl, rfl, rfl⟩ := hsame
        cases h
        exact ⟨⟨rfl, rfl, rfl, rfl⟩, rfl, rfl⟩
      · cases h
    · rintro ⟨⟨rfl, rfl, rfl, rfl⟩, rfl, rfl⟩
      rw [if_pos ⟨rfl, rfl, rfl, rfl, rfl⟩]
  binds := by
    rintro _ _ _ _ _ _ _ ⟨rfl, -, rfl, -⟩ ⟨rfl, -, rfl, -⟩ -
    exact ⟨rfl, rfl⟩

/-- A profile of three samples of norm one. -/
def threeSamples : Profile where
  samples := (List.range 3).map unitEmbedding
  bounds := by decide
  dimension sample h := by
    obtain ⟨i, -, rfl⟩ := List.mem_map.mp h
    exact length_unitEmbedding i

def zeroKey : MasterKey := ⟨List.replicate keyBytes 0, List.length_replicate⟩

theorem vault_roundTrip_threeSamples :
    let nonce := List.replicate nonceBytes 0
    let crypto := sealedOnce zeroKey.bytes nonce (associatedData 1000)
      (encodeProfile threeSamples 1000)
    ∃ bytes, encodeVault crypto threeSamples zeroKey 1000 nonce = .ok bytes ∧
      decodeVault crypto bytes zeroKey 1000 = .ok threeSamples ∧
      decodeVault crypto bytes zeroKey 1001 ≠ .ok threeSamples := by
  intro nonce crypto
  obtain ⟨hencode, -⟩ := vault_roundTrip (idealAead_sealedOnce zeroKey.bytes nonce
    (associatedData 1000) (encodeProfile threeSamples 1000))
  obtain ⟨bytes, hbytes, -, hdecode⟩ := hencode threeSamples zeroKey 1000 nonce (fun _ _ => rfl)
    List.length_replicate ⟨rfl, rfl, rfl, rfl⟩
  refine ⟨bytes, hbytes, (hdecode _ _ _).mpr ⟨rfl, rfl, rfl⟩, fun h => ?_⟩
  have huid := ((hdecode _ _ _).mp h).2.1
  revert huid
  decide

end KFaceAuth
