import KFaceAuth.Lib.Stays
import KFaceAuth.System.SyncVault

/-!
# The files of one user

What belongs to a user is told by the text of names: the profile and the key of
the user, and the revoked copies of these, which are found by a prefix with the
decimal number of the user. No name belongs to two users (`owner_unique`,
`revokedPrefix_unique`).

The paths an operation for a user may change are told in the same way (`Aside`):
nothing of another user, and not the policy, which is replaced as a whole.
-/

namespace KFaceAuth

open Prog Fs

/-! ## Texts of names -/

theorem isAsciiDigit_of_mem_decimal {n : ℕ} {b : UInt8} (h : b ∈ decimal n) :
    PolicyParser.isAsciiDigit b := by
  obtain ⟨h₁, h₂⟩ := PolicyParser.mem_decimal h
  simp [PolicyParser.isAsciiDigit, h₁, h₂]

/-- The digits at the front of a text that starts with a number. -/
theorem takeWhile_decimal {n : ℕ} {c : UInt8} (rest : List UInt8)
    (hc : PolicyParser.isAsciiDigit c = false) :
    (decimal n ++ c :: rest).takeWhile PolicyParser.isAsciiDigit = decimal n := by
  rw [List.takeWhile_append_of_pos fun b hb => isAsciiDigit_of_mem_decimal hb,
    List.takeWhile_cons_of_neg (by simp [hc]), List.append_nil]

theorem decimal_injective {m n : ℕ} (h : decimal m = decimal n) : m = n := by
  rw [← PolicyParser.foldl_decimal m, ← PolicyParser.foldl_decimal n, h]

theorem uid_of_decimal {u v : UInt32} (h : decimal u.toNat = decimal v.toNat) : u = v :=
  UInt32.toNat_inj.1 (decimal_injective h)

/-- Two users with a number followed by the same byte, which is no digit. -/
theorem uid_of_append {u v : UInt32} {c : UInt8} {x y : List UInt8}
    (hc : PolicyParser.isAsciiDigit c = false)
    (h : decimal u.toNat ++ c :: x = decimal v.toNat ++ c :: y) : u = v := by
  have := congrArg (List.takeWhile PolicyParser.isAsciiDigit) h
  rw [takeWhile_decimal x hc, takeWhile_decimal y hc] at this
  exact uid_of_decimal this

theorem revokedPrefix_append (u : UInt32) (x : List UInt8) :
    revokedPrefix u ++ x = ascii ".revoked-" ++ (decimal u.toNat ++ 45 :: x) := by
  have : ascii "-" = [45] := by decide
  simp only [revokedPrefix, this, List.append_assoc, List.cons_append, List.nil_append]

/-- No text has the prefixes of two users. -/
theorem revokedPrefix_unique {u v : UInt32} {t : List UInt8} (hu : revokedPrefix u <+: t)
    (hv : revokedPrefix v <+: t) : u = v := by
  obtain ⟨x, rfl⟩ := hu
  obtain ⟨y, hy⟩ := hv
  rw [revokedPrefix_append, revokedPrefix_append] at hy
  exact (uid_of_append (c := 45) (by decide) (List.append_cancel_left hy)).symm

/-- A number does not start with a dot. -/
theorem decimal_append_ne {n : ℕ} {x y : List UInt8} : decimal n ++ x ≠ 46 :: y := by
  intro h
  cases hd : decimal n with
  | nil => exact PolicyParser.decimal_ne_nil n hd
  | cons b bs =>
    rw [hd, List.cons_append, List.cons.injEq] at h
    have hb : b ∈ decimal n := by simp [hd]
    rw [h.1] at hb
    exact absurd (PolicyParser.mem_decimal hb).1 (by decide)

theorem not_revoked_of_decimal {n : ℕ} {v : UInt32} {x : List UInt8} :
    ¬ revokedPrefix v <+: decimal n ++ x := by
  rintro ⟨y, hy⟩
  exact decimal_append_ne hy.symm

/-- Names that start with a dot and another letter are not those of revoked copies. -/
theorem not_revoked_of_cons {c : UInt8} {v : UInt32} {x : List UInt8} (hc : c ≠ 114) :
    ¬ revokedPrefix v <+: 46 :: c :: x := by
  rintro ⟨y, hy⟩
  rw [revokedPrefix_append] at hy
  have hascii : ascii ".revoked-" = 46 :: 114 :: ascii "evoked-" := by decide
  rw [hascii, List.cons_append, List.cons_append, List.cons.injEq, List.cons.injEq] at hy
  exact hc hy.2.1.symm

namespace SyncVault

/-! ## What belongs to a user -/

/-- The profile of a user, or a revoked copy of it. -/
def ProfileOf (v : UInt32) (n : Name) : Prop :=
  n.text = decimal v.toNat ∨ revokedPrefix v <+: n.text

/-- The key of a user, or a revoked copy of it. -/
def KeyOf (v : UInt32) (n : Name) : Prop :=
  n.text = decimal v.toNat ++ ascii ".key" ∨ revokedPrefix v <+: n.text

/-- The path is that of the profile or the key of a user or of a revoked copy,
    or below it. -/
def Belongs (v : UInt32) (p : Path) : Prop :=
  (∃ n, systemRoot ++ [n] <+: p ∧ ProfileOf v n) ∨ ∃ n, keysDir ++ [n] <+: p ∧ KeyOf v n

/-- The names in the system vault that an operation for a user makes. -/
def OwnProfile (uid : UInt32) (n : Name) : Prop :=
  n = .uid uid ∨ (∃ nonce, n = .previous uid nonce) ∨ (∃ pid nonce, n = .staging pid nonce) ∨
    revokedPrefix uid <+: n.text

/-- The names in the directory of keys that an operation for a user makes. -/
def OwnKey (uid : UInt32) (n : Name) : Prop :=
  n = .key uid ∨ (∃ suffix, n = .keyTmp suffix) ∨ isRevokedKey uid n

variable {uid v : UInt32} {n : Name} {q : Path}

/-- A hidden name belongs to nobody, unless it is that of a revoked copy. -/
theorem not_profileOf_of_cons {c : UInt8} (h : ∃ x, n.text = 46 :: c :: x) (hc : c ≠ 114) :
    ¬ ProfileOf v n := by
  obtain ⟨x, h⟩ := h
  rintro (hv | hv)
  · rw [h, ← List.append_nil (decimal _)] at hv
    exact decimal_append_ne hv.symm
  · rw [h] at hv
    exact not_revoked_of_cons hc hv

theorem not_keyOf_of_cons {c : UInt8} (h : ∃ x, n.text = 46 :: c :: x) (hc : c ≠ 114) :
    ¬ KeyOf v n := by
  obtain ⟨x, h⟩ := h
  rintro (hv | hv)
  · rw [h] at hv
    exact decimal_append_ne hv.symm
  · rw [h] at hv
    exact not_revoked_of_cons hc hv

/-- The names an operation makes belong to no other user. -/
theorem OwnProfile.unique (h : OwnProfile uid n) (hv : ProfileOf v n) : v = uid := by
  rcases h with rfl | ⟨nonce, rfl⟩ | ⟨pid, nonce, rfl⟩ | hrev
  · rcases hv with hv | hv
    · exact (uid_of_decimal hv).symm
    · rw [Name.text, ← List.append_nil (decimal _)] at hv
      exact absurd hv not_revoked_of_decimal
  · have htext : ascii ".kfaceauth-previous-" = 46 :: 107 :: ascii "faceauth-previous-" := by decide
    refine absurd hv (not_profileOf_of_cons (c := 107) ?_ (by decide))
    rw [Name.text, htext]
    exact ⟨_, rfl⟩
  · have htext : ascii ".kfaceauth-sync-" = 46 :: 107 :: ascii "faceauth-sync-" := by decide
    refine absurd hv (not_profileOf_of_cons (c := 107) ?_ (by decide))
    rw [Name.text, htext]
    exact ⟨_, rfl⟩
  · rcases hv with hv | hv
    · rw [hv, ← List.append_nil (decimal _)] at hrev
      exact absurd hrev not_revoked_of_decimal
    · exact revokedPrefix_unique hv hrev

theorem prefix_of_isRevokedKey (h : isRevokedKey uid n) : revokedPrefix uid <+: n.text := by
  rw [isRevokedKey, Bool.and_eq_true] at h
  exact List.isPrefixOf_iff_prefix.1 h.1

theorem OwnKey.unique (h : OwnKey uid n) (hv : KeyOf v n) : v = uid := by
  have hkey : ascii ".key" = 46 :: ascii "key" := by decide
  rcases h with rfl | ⟨suffix, rfl⟩ | hrev
  · rcases hv with hv | hv
    · rw [Name.text, hkey] at hv
      exact (uid_of_append (c := 46) (by decide) hv).symm
    · exact absurd hv not_revoked_of_decimal
  · have htext : ascii ".key_" = 46 :: 107 :: ascii "ey_" := by decide
    refine absurd hv (not_keyOf_of_cons (c := 107) ?_ (by decide))
    rw [Name.text, htext]
    exact ⟨_, rfl⟩
  · have hprefix := prefix_of_isRevokedKey hrev
    rcases hv with hv | hv
    · rw [hv] at hprefix
      exact absurd hprefix not_revoked_of_decimal
    · exact revokedPrefix_unique hv hprefix

theorem revokedPrefix_revoked (stem : String) (isKey : Bool) :
    revokedPrefix uid <+: (Name.revoked uid stem isKey).text := by
  rw [Name.text, ← revokedPrefix, List.append_assoc]
  exact List.prefix_append _ _

theorem ownProfile_revoked (stem : String) (isKey : Bool) :
    OwnProfile uid (.revoked uid stem isKey) :=
  .inr (.inr (.inr (revokedPrefix_revoked stem isKey)))

theorem extension_key {x : List UInt8} (hx : x ≠ []) :
    extension (x ++ ascii ".key") = some (ascii "key") := by
  have hlast : (x ++ ascii ".key").reverse.takeWhile (· ≠ 46) = (ascii "key").reverse := by
    have hkey : (ascii ".key").reverse = (ascii "key").reverse ++ [46] := by decide
    rw [List.reverse_append, hkey, List.append_assoc]
    rfl
  have hlength : (ascii "key").reverse.length + 1 < (x ++ ascii ".key").length := by
    have hpos := List.length_pos_iff.2 hx
    have hkey : (ascii ".key").length = (ascii "key").reverse.length + 1 := by decide
    rw [List.length_append, hkey]
    omega
  rw [extension, hlast, if_pos hlength, List.reverse_reverse]

/-- The name that a deletion gives to the key is that of a revoked key. -/
theorem isRevokedKey_revoked (stem : String) : isRevokedKey uid (.revoked uid stem true) := by
  have hne :
      ascii ".revoked-" ++ decimal uid.toNat ++ ascii "-" ++ stem.toUTF8.data.toList ≠ [] := by
    have hascii : ascii ".revoked-" ≠ [] := by decide
    simp [hascii]
  rw [isRevokedKey, Bool.and_eq_true, decide_eq_true_eq]
  refine ⟨List.isPrefixOf_iff_prefix.2 (revokedPrefix_revoked stem true), ?_⟩
  rw [Name.text, if_pos rfl, extension_key hne]

theorem ownKey_revoked (stem : String) : OwnKey uid (.revoked uid stem true) :=
  .inr (.inr (isRevokedKey_revoked stem))

/-! ## What an operation may change -/

/-- What an operation for a user may change, the policy apart: the directories, what is
    under its own names in them, and the other entries of the configuration directory. -/
inductive Aside (uid : UInt32) (q : Path) : Prop
  | root : q <+: systemRoot → Aside uid q
  | profile {n : Name} : OwnProfile uid n → systemRoot ++ [n] <+: q → Aside uid q
  | keys : q = keysDir → Aside uid q
  | key {n : Name} : OwnKey uid n → keysDir ++ [n] <+: q → Aside uid q
  | config {n : Name} : n ≠ .policyJson ∧ n ≠ .keys → configDir ++ [n] <+: q → Aside uid q

/-- One entry of a directory is above a path. -/
theorem child_unique {d : Path} {m n : Name} (hm : d ++ [m] <+: q) (hn : d ++ [n] <+: q) :
    m = n := by
  obtain ⟨x, rfl⟩ := hm
  rw [List.append_assoc, List.prefix_append_right_inj] at hn
  obtain ⟨y, hy⟩ := hn
  simp only [List.singleton_append, List.cons.injEq] at hy
  exact hy.1.symm

theorem not_systemRoot_of_keysDir {m n : Name} (hm : systemRoot ++ [m] <+: q)
    (hn : keysDir ++ [n] <+: q) : False := by
  obtain ⟨x, rfl⟩ := hm
  obtain ⟨y, hy⟩ := hn
  simp [systemRoot, keysDir] at hy

/-- What may be changed in the system vault is under a name of the user. -/
theorem Aside.ownProfile (h : Aside uid q) (hq : systemRoot ++ [n] <+: q) : OwnProfile uid n := by
  cases h with
  | root hroot => exact absurd (hq.trans hroot) (child_not_above _ _)
  | profile hown hm => exact child_unique hm hq ▸ hown
  | keys hkeys =>
    obtain ⟨x, hx⟩ := hq
    simp [hkeys, systemRoot, keysDir] at hx
  | key _ hm => exact (not_systemRoot_of_keysDir hq hm).elim
  | config _ hm =>
    obtain ⟨x, rfl⟩ := hq
    obtain ⟨y, hy⟩ := hm
    simp [systemRoot, configDir] at hy

/-- What may be changed among the keys is under a name of the user. -/
theorem Aside.ownKey (h : Aside uid q) (hq : keysDir ++ [n] <+: q) : OwnKey uid n := by
  cases h with
  | root hroot =>
    have hle := (hq.trans hroot).length_le
    simp [systemRoot, keysDir] at hle
  | profile _ hm => exact (not_systemRoot_of_keysDir hm hq).elim
  | keys hkeys => exact absurd (hkeys ▸ hq) (child_not_above _ _)
  | key hown hm => exact child_unique hm hq ▸ hown
  | config hn hm =>
    obtain ⟨x, rfl⟩ := hq
    obtain ⟨y, hy⟩ := hm
    simp [keysDir, configDir, hn.2] at hy

/-- The path is of no other user. -/
theorem Aside.owner (h : Aside uid q) (v : UInt32) (hv : Belongs v q) : v = uid := by
  rcases hv with ⟨n, hq, hv⟩ | ⟨n, hq, hv⟩
  · exact (h.ownProfile hq).unique hv
  · exact (h.ownKey hq).unique hv

/-- The directory of the policy is not aside. -/
theorem Aside.directory (h : Aside uid q) : q ≠ configDir := by
  rintro rfl
  cases h with
  | root hroot => exact absurd hroot (by decide)
  | profile _ hm | key _ hm =>
    obtain ⟨x, hx⟩ := hm
    simp [systemRoot, keysDir, configDir] at hx
  | keys hkeys => exact absurd hkeys (by decide)
  | config _ hm => exact absurd hm (child_not_above _ _)

/-- The policy is not aside. -/
theorem Aside.policy (h : Aside uid q) : q ≠ policyPath configDir := by
  rintro rfl
  cases h with
  | root hroot => exact absurd hroot (by decide)
  | profile _ hm | key _ hm =>
    obtain ⟨x, hx⟩ := hm
    simp [systemRoot, keysDir, policyPath, configDir] at hx
  | keys hkeys => exact absurd hkeys (by decide)
  | config hn hm => exact hn.1 (child_unique hm (List.prefix_rfl : configDir ++ [_] <+: _))

end SyncVault

end KFaceAuth
