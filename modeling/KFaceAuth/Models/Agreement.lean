import KFaceAuth.Models.Manifest

/-!
# Agreement of the two parsers

The tool that checks a release and the runtime read the same manifest, and a text
that one of them takes should be taken by the other, with the same entries. They
agree on the tokens, the digests, the order and the number of the entries. They do
not on lines, of which the tool knows more ends, on paths, where the runtime keeps
empty pieces and the tool the directory itself and the character zero, and on sizes,
where the runtime takes a sign and any number of zeros.

* `Loop.result`: what either loop takes, from what its body does (`runtime_loop`,
  `tool_loop`);
* `isManifest_iff_of_plain`, `plain_of_both`: where the differences are left out, the
  entries are the same, and only there;
* `parse_agrees_iff`: exactly when the programs agree on a text.
-/

namespace KFaceAuth

namespace Models

open Text

/-! ## Tokens and digests -/

theorem isTokenByte_toUInt8 {c : Char} (h : c.toNat ≤ 0x7f) :
    isTokenByte c.toNat.toUInt8 = isTokenChar c := by
  have hall : ∀ n : Fin 128, isTokenByte n.val.toUInt8 = isTokenChar (Char.ofNat n) := by
    decide +kernel
  have hc := hall ⟨c.toNat, by omega⟩
  rwa [Char.ofNat_toNat] at hc

theorem isDigestByte_toUInt8 {c : Char} (h : c.toNat ≤ 0x7f) :
    isDigestByte c.toNat.toUInt8 = isDigestChar c := by
  have hall : ∀ n : Fin 128, isDigestByte n.val.toUInt8 = isDigestChar (Char.ofNat n) := by
    decide +kernel
  have hc := hall ⟨c.toNat, by omega⟩
  rwa [Char.ofNat_toNat] at hc

theorem isTokenByte_high {byte : UInt8} (h : 0x80 ≤ byte) : isTokenByte byte = false := by
  have hall : ∀ n : Fin 256, 128 ≤ n.val → isTokenByte n.val.toUInt8 = false := by decide +kernel
  have hbyte := hall ⟨byte.toNat, byte.toNat_lt⟩ (UInt8.le_iff_toNat_le.mp h)
  rwa [show byte.toNat.toUInt8 = byte from UInt8.ofNat_toNat] at hbyte

theorem isDigestByte_high {byte : UInt8} (h : 0x80 ≤ byte) : isDigestByte byte = false := by
  have hall : ∀ n : Fin 256, 128 ≤ n.val → isDigestByte n.val.toUInt8 = false := by decide +kernel
  have hbyte := hall ⟨byte.toNat, byte.toNat_lt⟩ (UInt8.le_iff_toNat_le.mp h)
  rwa [show byte.toNat.toUInt8 = byte from UInt8.ofNat_toNat] at hbyte

theorem toNat_le_of_isTokenChar {c : Char} (h : isTokenChar c) : c.toNat ≤ 0x7f := by
  have hvalues : '.'.toNat = 46 ∧ '_'.toNat = 95 ∧ '+'.toNat = 43 ∧ ':'.toNat = 58 ∧
      '-'.toNat = 45 := by decide
  simp only [isTokenChar, Bool.or_eq_true, Bool.and_eq_true, decide_eq_true_eq] at h
  rcases h with ((((((⟨h₁, h₂⟩ | ⟨h₁, h₂⟩) | ⟨h₁, h₂⟩) | rfl) | rfl) | rfl) | rfl) | rfl
  all_goals omega

theorem toNat_le_of_isDigestChar {c : Char} (h : isDigestChar c) : c.toNat ≤ 0x7f := by
  simp only [isDigestChar, Bool.or_eq_true, Bool.and_eq_true, decide_eq_true_eq] at h
  omega

/-- A condition on the bytes of a text that is one on its characters, with their number. -/
theorem all_bytes_iff {p : UInt8 → Bool} {q : Char → Bool}
    (hhigh : ∀ byte, 0x80 ≤ byte → p byte = false)
    (hlow : ∀ c : Char, c.toNat ≤ 0x7f → p c.toNat.toUInt8 = q c)
    (hascii : ∀ c, q c = true → c.toNat ≤ 0x7f) (text : List Char) :
    (encodeUtf8 text).all p = text.all q ∧
      (text.all q = true → (encodeUtf8 text).length = text.length) := by
  constructor
  · rw [Bool.eq_iff_iff, all_encodeUtf8 hhigh, List.all_eq_true]
    refine forall₂_congr fun c _ => ⟨fun ⟨hc, h⟩ => hlow c hc ▸ h, fun h => ?_⟩
    exact ⟨hascii c h, (hlow c (hascii c h)).trans h⟩
  · intro h
    rw [encodeUtf8_of_ascii fun c hc => hascii c (List.all_eq_true.mp h c hc), List.length_map]

theorem validToken_eq (value : List Char) : validToken value = matchesToken value := by
  obtain ⟨hall, hlength⟩ := all_bytes_iff (fun _ => isTokenByte_high)
    (fun _ => isTokenByte_toUInt8) (fun _ => toNat_le_of_isTokenChar) value
  unfold validToken matchesToken
  rw [hall]
  rcases hvalue : value.all isTokenChar with _ | _
  · rw [Bool.and_false, Bool.and_false]
  · rw [hlength hvalue]
    rcases value <;> simp

theorem validSha256_eq (value : List Char) : validSha256 value = matchesDigest value := by
  obtain ⟨hall, hlength⟩ := all_bytes_iff (fun _ => isDigestByte_high)
    (fun _ => isDigestByte_toUInt8) (fun _ => toNat_le_of_isDigestChar) value
  unfold validSha256 matchesDigest
  rw [hall]
  rcases hvalue : value.all isDigestChar with _ | _
  · rw [Bool.and_false, Bool.and_false]
  · rw [hlength hvalue]

/-! ## Paths -/

/-- A path that both programs read alike: no character is zero, no piece between
    separators is empty or names the directory itself. -/
def PlainPath (path : List Char) : Prop :=
  Char.ofNat 0 ∉ path ∧ ∀ piece ∈ path.splitOn '/', piece ≠ [] ∧ piece ≠ ['.']

instance (path : List Char) : Decidable (PlainPath path) :=
  inferInstanceAs (Decidable (_ ∧ _))

theorem zero_mem_encodeUtf8 (text : List Char) : 0 ∈ encodeUtf8 text ↔ Char.ofNat 0 ∈ text := by
  rw [encodeUtf8_eq, List.mem_flatMap]
  constructor
  · rintro ⟨c, hc, hmem⟩
    rwa [← toNat_eq_zero_of_mem hmem, Char.ofNat_toNat]
  · intro h
    exact ⟨_, h, by decide⟩

theorem splitOn_head_of_slash (path : List Char) : ('/' :: path).splitOn '/' =
    [] :: path.splitOn '/' := by
  rw [List.splitOn_cons_eq_if_modifyHead]
  rfl

/-- A path that is not absolute has no root. -/
theorem ofText_of_relative {value : List Char} (h : value.head? ≠ some '/') :
    PurePosixPath.ofText value =
      ⟨[], (value.splitOn '/').filter fun piece => piece ≠ [] && piece ≠ ['.']⟩ := by
  rw [PurePosixPath.ofText, PurePosixPath.splitroot, if_pos h]

theorem isAbsolute_ofText (value : List Char) :
    (PurePosixPath.ofText value).isAbsolute = isAbsolute value := by
  unfold PurePosixPath.isAbsolute PurePosixPath.ofText PurePosixPath.splitroot isAbsolute
  split_ifs <;> simp_all

theorem splitOn_ne_of_slash {value : List Char} (h : ∀ piece ∈ value.splitOn '/', piece ≠ []) :
    value.head? ≠ some '/' := by
  intro hhead
  rcases value with _ | ⟨c, value⟩
  · cases hhead
  · cases hhead
    exact h [] (by rw [splitOn_head_of_slash]; exact List.mem_cons_self) rfl

theorem all_isNormal_filterMap (pieces : List (List Char)) :
    (pieces.filterMap component).all Component.isNormal = true ↔
      ∀ piece ∈ pieces, piece ≠ ['.', '.'] := by
  rw [List.all_eq_true]
  constructor
  · rintro h piece hpiece rfl
    have := h .parentDir (List.mem_filterMap.mpr ⟨_, hpiece, by decide⟩)
    cases this
  · intro h part hpart
    obtain ⟨piece, hpiece, heq⟩ := List.mem_filterMap.mp hpart
    unfold component at heq
    rw [if_neg (h piece hpiece)] at heq
    split at heq
    · cases heq
    · cases heq
      rfl

/-- The pieces of a path that is valid for the runtime. -/
theorem validRelativePath_iff (value : List Char) : validRelativePath value = true ↔
    value ≠ [] ∧ backslash ∉ value ∧ Char.ofNat 0 ∉ value ∧ value.head? ≠ some '/' ∧
      (value.splitOn '/').head? ≠ some ['.'] ∧ ∀ piece ∈ value.splitOn '/', piece ≠ ['.', '.'] := by
  have hfront : validRelativePath value = true ↔
      ¬ (value = [] ∨ backslash ∈ value ∨ 0 ∈ encodeUtf8 value) ∧ value.head? ≠ some '/' ∧
        (value.splitOn '/').head? ≠ some ['.'] ∧
        ((value.splitOn '/').filterMap component).all Component.isNormal = true := by
    unfold validRelativePath components isAbsolute toStringLossy
    by_cases hhead : value.head? = some '/' <;>
      by_cases hdot : (value.splitOn '/').head? = some ['.'] <;>
      simp [hhead, hdot, Component.isNormal]
  rw [hfront, all_isNormal_filterMap, not_or, not_or, zero_mem_encodeUtf8, and_assoc, and_assoc]

/-- The pieces of a path that is safe for the tool. -/
theorem safePath_iff (value : List Char) : safePath value = true ↔
    value ≠ [] ∧ backslash ∉ value ∧
      (value = ['.'] ∨ ∀ piece ∈ value.splitOn '/', piece ≠ [] ∧ piece ≠ ['.'] ∧
        piece ≠ ['.', '.']) := by
  unfold safePath
  simp only [Bool.and_eq_true, decide_eq_true_eq, Bool.not_eq_true', and_assoc]
  refine and_congr_right fun hne => and_congr_right fun _ => ?_
  constructor
  · rintro ⟨habsolute, hparts, hstr⟩
    rw [isAbsolute_ofText, isAbsolute, decide_eq_false_iff_not] at habsolute
    rw [ofText_of_relative habsolute] at hparts hstr
    rw [PurePosixPath.parts, if_pos rfl] at hparts
    rw [PurePosixPath.str] at hstr
    generalize htail : ((value.splitOn '/').filter fun piece => piece ≠ [] && piece ≠ ['.']) =
      tail at hparts hstr
    dsimp only at hparts hstr
    rw [List.nil_append] at hstr
    split at hstr
    · exact .inl hstr.symm
    next htext =>
      -- the path is its parts with one separator between them, so these are its pieces
      have hsplit : value.splitOn '/' = tail := by
        rw [← hstr, List.splitOn_intercalate]
        · intro piece hpiece
          rw [← htail] at hpiece
          exact not_mem_of_mem_splitOn (List.mem_filter.mp hpiece).1
        · rintro rfl
          exact htext rfl
      refine .inr fun piece hpiece => ?_
      rw [hsplit] at hpiece
      have := List.all_eq_true.mp hparts piece hpiece
      simpa using this
  · rintro (rfl | h)
    · decide
    · have hhead := splitOn_ne_of_slash fun piece hpiece => (h piece hpiece).1
      have htail : ((value.splitOn '/').filter fun piece => piece ≠ [] && piece ≠ ['.']) =
          value.splitOn '/' := by
        refine List.filter_eq_self.mpr fun piece hpiece => ?_
        simp [(h piece hpiece).1, (h piece hpiece).2.1]
      rw [isAbsolute_ofText, isAbsolute, decide_eq_false_iff_not, ofText_of_relative hhead, htail]
      refine ⟨hhead, ?_, ?_⟩
      · rw [PurePosixPath.parts, if_pos rfl]
        refine List.all_eq_true.mpr fun piece hpiece => ?_
        simpa using h piece hpiece
      · rw [PurePosixPath.str, List.nil_append, List.intercalate_splitOn]
        exact if_neg hne

theorem validRelativePath_eq {path : List Char} (h : PlainPath path) :
    validRelativePath path = safePath path := by
  rw [Bool.eq_iff_iff, validRelativePath_iff, safePath_iff]
  refine and_congr_right fun _ => and_congr_right fun _ => ?_
  have hhead := splitOn_ne_of_slash fun piece hpiece => (h.2 piece hpiece).1
  constructor
  · rintro ⟨-, -, -, hparent⟩
    exact .inr fun piece hpiece =>
      ⟨(h.2 piece hpiece).1, (h.2 piece hpiece).2, hparent piece hpiece⟩
  · rintro (rfl | hpieces)
    · exact absurd rfl (h.2 ['.'] (by decide)).2
    · refine ⟨h.1, hhead, fun hdot => ?_, fun piece hpiece => (hpieces piece hpiece).2.2⟩
      exact (h.2 _ (List.mem_of_mem_head? hdot)).2 rfl

theorem plainPath_of_both {path : List Char} (hruntime : validRelativePath path = true)
    (htool : safePath path = true) : PlainPath path := by
  rw [validRelativePath_iff] at hruntime
  rw [safePath_iff] at htool
  obtain ⟨-, -, hzero, -, hdot, -⟩ := hruntime
  refine ⟨hzero, ?_⟩
  rcases htool.2.2 with rfl | hpieces
  · exact absurd rfl hdot
  · exact fun piece hpiece => ⟨(hpieces piece hpiece).1, (hpieces piece hpiece).2.1⟩

/-! ## Sizes -/

/-- A size that both programs read alike: no sign stands in front, and there are no
    more digits than `int` reads. -/
def PlainSize (size : List Char) : Prop := size.head? ≠ some '+' ∧ size.length ≤ maxStrDigits

instance (size : List Char) : Decidable (PlainSize size) := inferInstanceAs (Decidable (_ ∧ _))

/-- The value of decimal digits. -/
def valueOf (value : ℕ) (text : List Char) : ℕ :=
  text.foldl (fun value c => 10 * value + (c.toNat - 48)) value

theorem le_valueOf (value : ℕ) (text : List Char) : value ≤ valueOf value text := by
  induction text generalizing value with
  | nil => exact Nat.le_refl value
  | cons c text ih =>
    refine Nat.le_trans ?_ (ih (10 * value + (c.toNat - 48)))
    omega

def isDigit (c : Char) : Bool := 48 ≤ c.toNat && c.toNat ≤ 57

theorem toDigit_eq (c : Char) : toDigit c = if isDigit c then some (c.toNat - 48) else none := by
  unfold toDigit isDigit
  simp only [Bool.and_eq_true, decide_eq_true_eq]

/-- The loop gives the value of the digits, where it fits. -/
theorem parseDigits_eq (value : ℕ) (text : List Char) (h : value < 2 ^ 64) :
    parseDigits value text =
      if text.all isDigit = true ∧ valueOf value text < 2 ^ 64 then some (valueOf value text)
      else none := by
  induction text generalizing value with
  | nil =>
    rw [parseDigits, if_pos]
    · rfl
    · exact ⟨rfl, h⟩
  | cons c text ih =>
    rw [parseDigits, toDigit_eq, List.all_cons]
    rcases hc : isDigit c with _ | _
    · simp
    · have hvalue : valueOf value (c :: text) = valueOf (10 * value + (c.toNat - 48)) text := rfl
      simp only [if_true, Bool.true_and, hvalue]
      split
      next hfits => exact ih _ hfits
      next hfits =>
        rw [if_neg]
        rintro ⟨-, hlt⟩
        exact hfits (Nat.lt_of_le_of_lt (le_valueOf _ _) hlt)

/-- The size that the runtime takes of a field. -/
def sizeOf? (text : List Char) : Option ℕ :=
  (parseU64 text).filter fun size => 0 < size && size ≤ maxArtifactBytes

/-- The size that the tool takes of a field. -/
def toolSizeOf? (text : List Char) : Option ℕ :=
  if isAsciiDecimal text then
    (int text).toOption.filter fun size => 0 < size && size ≤ maxArtifactBytes
  else none

theorem isAsciiDecimal_eq (text : List Char) :
    isAsciiDecimal text = (decide (text ≠ []) && text.all isDigit) := rfl

theorem parseU64_of_plain {text : List Char} (h : text.head? ≠ some '+') (hne : text ≠ []) :
    parseU64 text = parseDigits 0 text := by
  unfold parseU64
  split
  next hspecial =>
    rcases hspecial with rfl | rfl | rfl
    · exact absurd rfl hne
    · exact absurd rfl h
    · decide
  · rfl

theorem sizeOf?_eq {text : List Char} (h : PlainSize text) : sizeOf? text = toolSizeOf? text := by
  unfold sizeOf? toolSizeOf? int
  rw [isAsciiDecimal_eq, if_neg (Nat.not_lt.mpr h.2)]
  by_cases hne : text = []
  · subst hne
    rfl
  rw [parseU64_of_plain h.1 hne, parseDigits_eq 0 text (by decide)]
  have hvalue : text.foldl (fun value c => 10 * value + (c.toNat - 48)) 0 = valueOf 0 text := rfl
  rw [hvalue]
  rcases hdigits : text.all isDigit with _ | _
  · simp
  · simp only [true_and, decide_not, hne, decide_false, Bool.not_false, Bool.and_self, if_true,
      Except.toOption]
    split
    · rfl
    next hbig =>
      have hmax : maxArtifactBytes < 2 ^ 64 := by decide
      rw [Option.filter_none, Option.filter_some, if_neg]
      simp only [Bool.and_eq_true, decide_eq_true_eq, not_and]
      omega

theorem plainSize_of_tool {text : List Char} {size : ℕ} (h : toolSizeOf? text = some size) :
    PlainSize text := by
  unfold toolSizeOf? int at h
  split at h
  next hdecimal =>
    split at h
    · cases h
    next hlength =>
      refine ⟨fun hplus => ?_, Nat.not_lt.mp hlength⟩
      rw [isAsciiDecimal_eq, Bool.and_eq_true] at hdecimal
      have := List.all_eq_true.mp hdecimal.2 '+' (List.mem_of_mem_head? hplus)
      cases this
  · cases h

/-! ## Rows -/

/-- The entry on a line for a program with a notion of a path and of a size. -/
def rowOf (isPath : List Char → Bool) (size? : List Char → Option ℕ) (line : List Char) :
    Option ManifestEntry :=
  match line.splitOn '\t' with
  | [id, path, size, sha256, role, backend, license, provenance] =>
    if [id, role, backend, license, provenance].all matchesToken && isPath path &&
        matchesDigest sha256 then
      (size? size).map fun size => ⟨id, path, size, sha256, role, backend, license, provenance⟩
    else none
  | _ => none

def runtimeRow : List Char → Option ManifestEntry := rowOf validRelativePath sizeOf?

def toolRow : List Char → Option ManifestEntry := rowOf safePath toolSizeOf?

theorem readEntry_toOption (line : List Char) :
    (ModelManifest.readEntry line).toOption = runtimeRow line := by
  unfold ModelManifest.readEntry runtimeRow rowOf
  generalize line.splitOn '\t' = fields
  rcases fields with _ | ⟨id, _ | ⟨path, _ | ⟨size, _ | ⟨sha256, _ | ⟨role, _ | ⟨backend, _ |
    ⟨license, _ | ⟨provenance, _ | ⟨extra, rest⟩⟩⟩⟩⟩⟩⟩⟩⟩
  case cons.cons.cons.cons.cons.cons.cons.cons.nil =>
    have hchecks : (!validToken id || !validToken role || !validToken backend ||
        !validToken license || !validToken provenance || !validRelativePath path ||
        !validSha256 sha256) = !([id, role, backend, license, provenance].all matchesToken &&
          validRelativePath path && matchesDigest sha256) := by
      simp [validToken_eq, validSha256_eq, Bool.or_assoc]
    dsimp only
    rw [hchecks]
    generalize ([id, role, backend, license, provenance].all matchesToken &&
      validRelativePath path && matchesDigest sha256) = valid
    rcases valid with _ | _
    · rfl
    unfold sizeOf?
    rcases parseU64 size with _ | size
    · rfl
    · by_cases hsize : size = 0 ∨ size > maxArtifactBytes
      · have hnot : ¬ (decide (0 < size) && decide (size ≤ maxArtifactBytes)) = true := by
          simp only [Bool.and_eq_true, decide_eq_true_eq]
          omega
        simp [hsize, Option.filter_some, hnot, Except.toOption]
      · have hpos : (decide (0 < size) && decide (size ≤ maxArtifactBytes)) = true := by
          simp only [Bool.and_eq_true, decide_eq_true_eq]
          omega
        simp [hsize, Option.filter_some, hpos, Except.toOption]
  all_goals rfl

theorem toolReadEntry_toOption (line : List Char) :
    (Tool.readEntry line).toOption = toolRow line := by
  unfold Tool.readEntry toolRow rowOf
  generalize line.splitOn '\t' = fields
  rcases fields with _ | ⟨id, _ | ⟨path, _ | ⟨size, _ | ⟨digest, _ | ⟨role, _ | ⟨backend, _ |
    ⟨license, _ | ⟨provenance, _ | ⟨extra, rest⟩⟩⟩⟩⟩⟩⟩⟩⟩
  case cons.cons.cons.cons.cons.cons.cons.cons.nil =>
    dsimp only
    rcases [id, role, backend, license, provenance].all matchesToken with _ | _
    · rfl
    rcases safePath path with _ | _
    · rfl
    rcases matchesDigest digest with _ | _
    · rfl
    unfold toolSizeOf?
    rcases isAsciiDecimal size with _ | _
    · rfl
    rcases int size with _ | size
    · rfl
    · by_cases hsize : 0 < size ∧ size ≤ maxArtifactBytes
      · simp [hsize, Option.filter_some, Except.toOption]
      · simp [hsize, Option.filter_some, Except.toOption]
  all_goals rfl

/-- A row that both programs read alike. -/
def PlainRow (line : List Char) : Prop :=
  ∀ id path size rest, line.splitOn '\t' = id :: path :: size :: rest →
    PlainPath path ∧ PlainSize size

theorem runtimeRow_eq {line : List Char} (h : PlainRow line) : runtimeRow line = toolRow line := by
  unfold runtimeRow toolRow rowOf
  split
  next id path size sha256 role backend license provenance heq =>
    obtain ⟨hpath, hsize⟩ := h _ _ _ _ heq
    rw [validRelativePath_eq hpath, sizeOf?_eq hsize]
  · rfl

/-- What is on a line with an entry. -/
theorem rowOf_eq_some {isPath : List Char → Bool} {size? : List Char → Option ℕ} {line : List Char}
    {entry : ManifestEntry} (h : rowOf isPath size? line = some entry) :
    ∃ size, line.splitOn '\t' = [entry.id, entry.path, size, entry.sha256, entry.role,
        entry.backend, entry.license, entry.provenance] ∧
      [entry.id, entry.role, entry.backend, entry.license, entry.provenance].all matchesToken ∧
      matchesDigest entry.sha256 ∧ isPath entry.path ∧ size? size = some entry.size := by
  unfold rowOf at h
  split at h
  next id path size sha256 role backend license provenance heq =>
    split at h
    next hfields =>
      simp only [Bool.and_eq_true] at hfields
      obtain ⟨value, hsize, rfl⟩ := Option.map_eq_some_iff.mp h
      exact ⟨size, heq, hfields.1.1, hfields.2, hfields.1.2, hsize⟩
    · cases h
  · cases h

/-! ## The loops -/

/-- The entries of a manifest: their paths ascend, and their names differ. -/
structure Ordered (entries : List ManifestEntry) : Prop where
  ascending : (entries.map (·.path)).Pairwise (precedes Char.toNat · ·)
  distinct : (entries.map (·.id)).Nodup

/-- The variables of the loop after some entries. -/
def Seen.of (entries : List ManifestEntry) : Seen :=
  ⟨entries, (entries.map (·.id)).reverse, (entries.map (·.path)).reverse,
    entries.getLast?.map (·.path)⟩

theorem Seen.of_concat (entries : List ManifestEntry) (entry : ManifestEntry) :
    Seen.of (entries ++ [entry]) =
      ⟨entries ++ [entry], entry.id :: (Seen.of entries).ids, entry.path :: (Seen.of entries).paths,
        some entry.path⟩ := by
  simp [Seen.of]

/-- An entry may follow others when its path is after the last and its name is new. -/
theorem ordered_concat {entries : List ManifestEntry} {entry : ManifestEntry}
    (h : Ordered entries) : Ordered (entries ++ [entry]) ↔
      (Seen.of entries).previousPath.any (fun previous =>
        !precedes Char.toNat previous entry.path) = false ∧
      entry.id ∉ (Seen.of entries).ids ∧ entry.path ∉ (Seen.of entries).paths := by
  have hids : entry.id ∉ (Seen.of entries).ids ↔ entry.id ∉ entries.map (·.id) := by
    rw [Seen.of, List.mem_reverse]
  have hpaths : entry.path ∉ (Seen.of entries).paths ↔ entry.path ∉ entries.map (·.path) := by
    rw [Seen.of, List.mem_reverse]
  rw [hids, hpaths]
  constructor
  · intro hnext
    have hascending := hnext.ascending
    have hdistinct := hnext.distinct
    rw [List.map_append, List.pairwise_append] at hascending
    rw [List.map_append, List.nodup_append] at hdistinct
    have hbefore : ∀ path ∈ entries.map (·.path), precedes Char.toNat path entry.path :=
      fun path hpath => hascending.2.2 path hpath entry.path (List.mem_singleton.mpr rfl)
    have hself : ¬ precedes Char.toNat entry.path entry.path := by
      rw [precedes_irrefl]
      exact Bool.false_ne_true
    refine ⟨?_, fun hid => ?_, fun hpath => hself (hbefore _ hpath)⟩
    · rw [Option.any_eq_false]
      intro previous hprevious
      obtain ⟨last, hlast, rfl⟩ := Option.map_eq_some_iff.mp hprevious
      rw [Bool.not_eq_false']
      exact hbefore _ (List.mem_map_of_mem (List.mem_of_mem_getLast? hlast))
    · exact hdistinct.2.2 _ hid _ (List.mem_singleton.mpr rfl) rfl
  · rintro ⟨hlast, hid, -⟩
    constructor
    · rw [List.map_append, List.pairwise_append]
      refine ⟨h.ascending, List.pairwise_singleton _ _, ?_⟩
      intro path hpath other hother
      rw [List.map_singleton, List.mem_singleton] at hother
      rw [hother]
      -- the last path is before the new one, and the others are before the last
      rcases List.eq_nil_or_concat entries with rfl | ⟨front, last, rfl⟩
      · cases hpath
      · rw [List.concat_eq_append] at hlast hpath h
        have hnew : precedes Char.toNat last.path entry.path := by
          simpa [Seen.of] using hlast
        have hascending := h.ascending
        rw [List.map_append, List.pairwise_append] at hascending
        rcases List.mem_append.mp (List.map_append ▸ hpath) with hfront | hpath
        · exact precedes_trans (hascending.2.2 path hfront _ (List.mem_singleton.mpr rfl)) hnew
        · rw [List.map_singleton, List.mem_singleton] at hpath
          rw [hpath]
          exact hnew
    · rw [List.map_append, List.nodup_append]
      refine ⟨h.distinct, List.pairwise_singleton _ _, ?_⟩
      intro name hname other hother heq
      rw [List.map_singleton, List.mem_singleton] at hother
      exact hid (by rwa [heq, hother] at hname)

/-- A loop that takes an entry of each line and goes on where it may follow. -/
structure Loop {ε : Type} (row : List Char → Option ManifestEntry)
    (next : Seen → List Char → Except ε Seen) (limit : ℕ) : Prop where
  step : ∀ entries line seen, entries.length < limit → Ordered entries →
    (next (Seen.of entries) line = .ok seen ↔
      ∃ entry, row line = some entry ∧ Ordered (entries ++ [entry]) ∧
        seen = Seen.of (entries ++ [entry]))

/-- What a whole loop takes: an entry of each line. -/
theorem Loop.foldlM {ε : Type} {row : List Char → Option ManifestEntry}
    {next : Seen → List Char → Except ε Seen} {limit : ℕ} (hloop : Loop row next limit)
    (entries : List ManifestEntry) (rows : List (List Char)) (seen : Seen)
    (hlimit : entries.length + rows.length ≤ limit) (h : Ordered entries) :
    rows.foldlM next (Seen.of entries) = .ok seen ↔
      ∃ more, rows.map row = more.map some ∧ Ordered (entries ++ more) ∧
        seen = Seen.of (entries ++ more) := by
  induction rows generalizing entries with
  | nil =>
    constructor
    · intro hseen
      cases hseen
      exact ⟨[], rfl, by rwa [List.append_nil], by rw [List.append_nil]⟩
    · rintro ⟨more, hmore, -, rfl⟩
      cases List.map_eq_nil_iff.mp hmore.symm
      rw [List.append_nil]
      rfl
  | cons line rows ih =>
    rw [List.length_cons] at hlimit
    rw [List.foldlM_cons]
    constructor
    · intro hseen
      obtain ⟨seen', hnext, hrest⟩ := bind_eq_ok.mp hseen
      obtain ⟨entry, hrow, hordered, rfl⟩ :=
        (hloop.step entries line seen' (by omega) h).mp hnext
      rw [ih (entries ++ [entry]) (by rw [List.length_append, List.length_singleton]; omega)
        hordered] at hrest
      obtain ⟨more, hrows, hall, rfl⟩ := hrest
      rw [List.append_assoc] at hall ⊢
      exact ⟨entry :: more, by rw [List.map_cons, List.map_cons, hrow, hrows], hall, rfl⟩
    · rintro ⟨more, hrows, hall, rfl⟩
      rcases more with _ | ⟨entry, more⟩
      · cases hrows
      rw [List.map_cons, List.map_cons, List.cons.injEq] at hrows
      have hsplit : entries ++ entry :: more = (entries ++ [entry]) ++ more := by
        rw [List.append_assoc]
        rfl
      rw [hsplit] at hall
      have hordered : Ordered (entries ++ [entry]) := by
        refine ⟨?_, ?_⟩
        · have := hall.ascending
          rw [List.map_append, List.pairwise_append] at this
          exact this.1
        · have := hall.distinct
          rw [List.map_append, List.nodup_append] at this
          exact this.1
      rw [(hloop.step entries line _ (by omega) h).mpr ⟨entry, hrows.1, hordered, rfl⟩]
      exact (ih (entries ++ [entry]) (by rw [List.length_append, List.length_singleton]; omega)
        hordered).mpr ⟨more, hrows.2, hall, congrArg Seen.of hsplit⟩

theorem ordered_nil : Ordered [] := ⟨List.Pairwise.nil, List.Pairwise.nil⟩

theorem runtime_loop : Loop runtimeRow ModelManifest.next maxManifestEntries := by
  refine ⟨fun entries line seen hlimit h => ?_⟩
  have hlength : ∀ entry : ManifestEntry, ¬ (entries ++ [entry]).length > maxManifestEntries := by
    intro entry
    rw [List.length_append, List.length_singleton]
    omega
  unfold ModelManifest.next
  split
  next hempty =>
    subst hempty
    refine iff_of_false (fun h => nomatch h) ?_
    rintro ⟨entry, hrow, -⟩
    obtain ⟨size, hsplit, -⟩ := rowOf_eq_some hrow
    cases congrArg List.length hsplit
  · rw [← readEntry_toOption]
    rcases ModelManifest.readEntry line with e | entry
    · refine iff_of_false (fun h => nomatch h) ?_
      rintro ⟨entry, hrow, -⟩
      cases hrow
    · have hrow : ∀ other, (Except.toOption (.ok entry : Except ModelError ManifestEntry)) =
          some other ↔ entry = other := fun other => Option.some_inj
      simp only [hrow, exists_eq_left', ordered_concat h, Seen.of_concat, precedes_encodeUtf8]
      split
      next hrefused =>
        refine iff_of_false (fun h => nomatch h) ?_
        rintro ⟨⟨hprevious, hid, hpath⟩, -⟩
        rcases hrefused with hrefused | hrefused | hrefused
        · rw [hprevious] at hrefused
          cases hrefused
        · exact hid hrefused
        · exact hpath hrefused
      next haccepted =>
        rw [not_or, not_or, Bool.not_eq_true] at haccepted
        rw [if_neg (by exact hlength entry), Except.ok.injEq, eq_comm, and_iff_right haccepted]
        rfl

theorem tool_loop (limit : ℕ) : Loop toolRow Tool.next limit := by
  refine ⟨fun entries line seen _ h => ?_⟩
  unfold Tool.next
  rw [← toolReadEntry_toOption]
  rcases Tool.readEntry line with e | entry
  · refine iff_of_false (fun h => nomatch h) ?_
    rintro ⟨entry, hrow, -⟩
    cases hrow
  · have hrow : ∀ other, (Except.toOption (.ok entry : Except ManifestException ManifestEntry)) =
        some other ↔ entry = other := fun other => Option.some_inj
    simp only [hrow, exists_eq_left', ordered_concat h, Seen.of_concat]
    split
    next hrefused =>
      refine iff_of_false (fun h => nomatch h) ?_
      rintro ⟨⟨-, hid, hpath⟩, -⟩
      exact hrefused.elim hid hpath
    next hnew =>
      rw [not_or] at hnew
      split
      next hrefused =>
        refine iff_of_false (fun h => nomatch h) ?_
        rintro ⟨⟨hprevious, -⟩, -⟩
        rw [hprevious] at hrefused
        cases hrefused
      next hprevious =>
        rw [Bool.not_eq_true] at hprevious
        rw [Except.ok.injEq, eq_comm, and_iff_right ⟨hprevious, hnew⟩]
        rfl

/-- The result of a whole loop: the entries, when there are any. -/
theorem Loop.result {ε : Type} {row : List Char → Option ManifestEntry}
    {next : Seen → List Char → Except ε Seen} {limit : ℕ} (hloop : Loop row next limit)
    (rows : List (List Char)) (hlimit : rows.length ≤ limit) (empty : ε)
    (entries : List ManifestEntry) :
    (rows.foldlM next ⟨[], [], [], none⟩ >>= fun seen =>
        if seen.entries = [] then .error empty else .ok seen.entries) = .ok entries ↔
      entries ≠ [] ∧ rows.map row = entries.map some ∧ Ordered entries := by
  have hfold := hloop.foldlM [] rows
  simp only [List.length_nil, Nat.zero_add, List.nil_append] at hfold
  rw [bind_eq_ok]
  constructor
  · rintro ⟨seen, hseen, h⟩
    obtain ⟨more, hrows, hordered, rfl⟩ := (hfold seen hlimit ordered_nil).mp hseen
    split at h
    · cases h
    next hne =>
      cases h
      exact ⟨hne, hrows, hordered⟩
  · rintro ⟨hne, hrows, hordered⟩
    exact ⟨Seen.of entries,
      (hfold _ hlimit ordered_nil).mpr ⟨entries, hrows, hordered, rfl⟩, if_neg hne⟩

/-! ## Manifests -/

/-- The entries of a text for a program that finds some lines in it and takes an
    entry of each after the first two. -/
structure IsManifest (row : List Char → Option ManifestEntry)
    (splitting : List Char → List (List Char)) (text : List Char)
    (entries : List ManifestEntry) : Prop where
  noReturn : '\r' ∉ text
  ends : text.getLast? = some '\n'
  nonempty : entries ≠ []
  rows : ∃ rows, splitting text = manifestMagic :: manifestHeader :: rows ∧
    rows.map row = entries.map some
  ordered : Ordered entries

theorem parse_eq_ok_iff {text : List Char} (hcount : (lines text).length ≤ maxManifestEntries + 2)
    (entries : List ManifestEntry) :
    ModelManifest.parse text = .ok entries ↔ IsManifest runtimeRow lines text entries := by
  unfold ModelManifest.parse
  split
  next hends =>
    refine iff_of_false (fun h => nomatch h) fun h => ?_
    exact hends.elim h.noReturn (· h.ends)
  next hends =>
    rw [not_or, not_not] at hends
    split
    next magic header rows hlines =>
      rw [hlines, List.length_cons, List.length_cons] at hcount
      split
      next hschema =>
        refine iff_of_false (fun h => nomatch h) fun h => ?_
        obtain ⟨rows', hrows, -⟩ := h.rows
        rw [hlines, List.cons.injEq, List.cons.injEq] at hrows
        exact hschema.elim (· hrows.1) (· hrows.2.1)
      next hschema =>
        rw [not_or, not_not, not_not] at hschema
        refine Iff.trans (runtime_loop.result rows (by omega) .invalidManifest entries) ?_
        rw [hschema.1, hschema.2] at hlines
        constructor
        · rintro ⟨hne, hrows, hordered⟩
          exact ⟨hends.1, hends.2, hne, ⟨rows, hlines, hrows⟩, hordered⟩
        · rintro ⟨-, -, hne, ⟨rows', hlines', hrows⟩, hordered⟩
          rw [hlines, List.cons.injEq, List.cons.injEq] at hlines'
          rw [hlines'.2.2]
          exact ⟨hne, hrows, hordered⟩
    next hlines =>
      refine iff_of_false (fun h => nomatch h) fun h => ?_
      obtain ⟨rows', hrows, -⟩ := h.rows
      exact hlines _ _ _ hrows

theorem parseManifest_eq_ok_iff {text : List Char}
    (hsize : (encodeUtf8 text).length ≤ maxManifestBytes) (entries : List ManifestEntry) :
    Tool.parseManifest (encodeUtf8 text) = .ok entries ↔
      IsManifest toolRow splitlines text entries := by
  unfold Tool.parseManifest
  split
  next hdata =>
    refine iff_of_false (fun h => nomatch h) fun h => ?_
    rcases hdata with hdata | hdata
    · have htext := decodeUtf8_encodeUtf8 text
      rw [hdata] at htext
      cases htext
      cases h.ends
    · omega
  rw [decodeUtf8_encodeUtf8]
  dsimp only
  split
  next hends =>
    refine iff_of_false (fun h => nomatch h) fun h => ?_
    exact hends.elim h.noReturn (· h.ends)
  next hends =>
    rw [not_or, not_not] at hends
    split
    next magic header row rows hlines =>
      split
      next hschema =>
        refine iff_of_false (fun h => nomatch h) fun h => ?_
        obtain ⟨rows', hrows, -⟩ := h.rows
        rw [hlines, List.cons.injEq, List.cons.injEq] at hrows
        exact hschema.elim (· hrows.1) (· hrows.2.1)
      next hschema =>
        rw [not_or, not_not, not_not] at hschema
        refine Iff.trans ((tool_loop _).result (row :: rows) (Nat.le_refl _)
          (.verification "manifest-empty") entries) ?_
        rw [hschema.1, hschema.2] at hlines
        constructor
        · rintro ⟨hne, hrows, hordered⟩
          exact ⟨hends.1, hends.2, hne, ⟨row :: rows, hlines, hrows⟩, hordered⟩
        · rintro ⟨-, -, hne, ⟨rows', hlines', hrows⟩, hordered⟩
          rw [hlines, List.cons.injEq, List.cons.injEq] at hlines'
          rw [hlines'.2.2]
          exact ⟨hne, hrows, hordered⟩
    next hlines =>
      refine iff_of_false (fun h => nomatch h) fun h => ?_
      obtain ⟨rows', hrows, hentries⟩ := h.rows
      rcases rows' with _ | ⟨row, rows'⟩
      · exact h.nonempty (List.map_eq_nil_iff.mp hentries.symm)
      · exact hlines _ _ _ _ hrows

/-- A text that both programs read alike: its lines end in line feeds only, and its
    rows are plain. -/
def Plain (text : List Char) : Prop :=
  (∀ c ∈ text, isOtherBoundary c = false) ∧ ∀ line ∈ (lines text).drop 2, PlainRow line

/-- Plain texts have the same entries for both programs. -/
theorem isManifest_iff_of_plain {text : List Char} (h : Plain text)
    (entries : List ManifestEntry) :
    IsManifest runtimeRow lines text entries ↔ IsManifest toolRow splitlines text entries := by
  have hmap : ∀ rows, lines text = manifestMagic :: manifestHeader :: rows →
      rows.map runtimeRow = rows.map toolRow := by
    intro rows hlines
    refine List.map_congr_left fun line hline => runtimeRow_eq (h.2 line ?_)
    rwa [hlines]
  constructor
  · rintro ⟨hreturn, hends, hne, ⟨rows, hlines, hrows⟩, hordered⟩
    refine ⟨hreturn, hends, hne, ⟨rows, ?_, ?_⟩, hordered⟩
    · rw [splitlines_eq_lines hreturn h.1, hlines]
    · rw [← hmap rows hlines, hrows]
  · rintro ⟨hreturn, hends, hne, ⟨rows, hlines, hrows⟩, hordered⟩
    rw [splitlines_eq_lines hreturn h.1] at hlines
    exact ⟨hreturn, hends, hne, ⟨rows, hlines, by rw [hmap rows hlines, hrows]⟩, hordered⟩

theorem not_boundary_of_le {c : Char} (h : 32 ≤ c.toNat) (hle : c.toNat ≤ 0x7f) :
    isOtherBoundary c = false := by
  rw [Bool.eq_false_iff]
  simp only [isOtherBoundary, ne_eq, Bool.or_eq_true, decide_eq_true_eq]
  omega

theorem not_boundary_of_isTokenChar {c : Char} (h : isTokenChar c) : isOtherBoundary c = false := by
  have hle := toNat_le_of_isTokenChar h
  have hall : ∀ n : Fin 128, isTokenChar (Char.ofNat n) → 32 ≤ (Char.ofNat n).toNat := by
    decide +kernel
  have hge := hall ⟨c.toNat, by omega⟩
  rw [Char.ofNat_toNat] at hge
  exact not_boundary_of_le (hge h) hle

theorem not_boundary_of_isDigit {c : Char} (h : isDigit c) : isOtherBoundary c = false := by
  rw [isDigit, Bool.and_eq_true, decide_eq_true_eq, decide_eq_true_eq] at h
  exact not_boundary_of_le (by omega) (by omega)

theorem not_boundary_of_isDigestChar {c : Char} (h : isDigestChar c) :
    isOtherBoundary c = false := by
  simp only [isDigestChar, Bool.or_eq_true, Bool.and_eq_true, decide_eq_true_eq] at h
  exact not_boundary_of_le (by omega) (by omega)

theorem not_boundary_of_parseDigits {value size : ℕ} {text : List Char} (hvalue : value < 2 ^ 64)
    (h : parseDigits value text = some size) : ∀ c ∈ text, isOtherBoundary c = false := by
  rw [parseDigits_eq value text hvalue] at h
  split at h
  next hdigits =>
    exact fun c hc => not_boundary_of_isDigit (List.all_eq_true.mp hdigits.1 c hc)
  · cases h

theorem not_boundary_of_sizeOf? {text : List Char} {size : ℕ} (h : sizeOf? text = some size) :
    ∀ c ∈ text, isOtherBoundary c = false := by
  have hparse : parseU64 text = some size := (Option.filter_eq_some_iff.mp h).1
  unfold parseU64 at hparse
  split at hparse
  · cases hparse
  split at hparse
  next hplus =>
    rcases text with _ | ⟨c, text⟩
    · cases hplus
    · cases hplus
      intro d hd
      rcases List.mem_cons.mp hd with rfl | hd
      · decide
      · exact not_boundary_of_parseDigits (by decide) hparse d hd
  · exact not_boundary_of_parseDigits (by decide) hparse

/-- A character of a row that is a boundary is in its path. -/
theorem mem_path_of_boundary {line : List Char} {entry : ManifestEntry} {c : Char}
    (h : runtimeRow line = some entry) (hc : c ∈ line) (hboundary : isOtherBoundary c = true) :
    c ∈ entry.path := by
  obtain ⟨size, hsplit, htokens, hdigest, -, hsize⟩ := rowOf_eq_some h
  have hnot : ∀ {p : Prop}, isOtherBoundary c = false → p := fun hfalse => by
    rw [hfalse] at hboundary
    cases hboundary
  have htoken : ∀ value ∈ [entry.id, entry.role, entry.backend, entry.license, entry.provenance],
      c ∈ value → isOtherBoundary c = false := by
    intro value hvalue hmem
    have hvalid := List.all_eq_true.mp htokens value hvalue
    simp only [matchesToken, Bool.and_eq_true] at hvalid
    exact not_boundary_of_isTokenChar (List.all_eq_true.mp hvalid.2 c hmem)
  rcases mem_splitOn (d := '\t') hc with rfl | ⟨field, hfield, hmem⟩
  · exact hnot rfl
  · rw [hsplit] at hfield
    simp only [List.mem_cons, List.not_mem_nil, or_false] at hfield
    rcases hfield with rfl | rfl | rfl | rfl | rfl | rfl | rfl | rfl
    · exact hnot (htoken _ (by simp) hmem)
    · exact hmem
    · exact hnot (not_boundary_of_sizeOf? hsize c hmem)
    · rw [matchesDigest, Bool.and_eq_true] at hdigest
      exact hnot (not_boundary_of_isDigestChar (List.all_eq_true.mp hdigest.2 c hmem))
    · exact hnot (htoken _ (by simp) hmem)
    · exact hnot (htoken _ (by simp) hmem)
    · exact hnot (htoken _ (by simp) hmem)
    · exact hnot (htoken _ (by simp) hmem)

/-- The path of an entry that the tool reads has no boundary. -/
theorem not_boundary_of_path {text : List Char} {entries : List ManifestEntry}
    (h : IsManifest toolRow splitlines text entries) {entry : ManifestEntry}
    (hentry : entry ∈ entries) {c : Char} (hc : c ∈ entry.path) : isOtherBoundary c = false := by
  obtain ⟨rows, hlines, hrows⟩ := h.rows
  have hmem : some entry ∈ rows.map toolRow := by
    rw [hrows]
    exact List.mem_map_of_mem hentry
  obtain ⟨line, hline, hrow⟩ := List.mem_map.mp hmem
  obtain ⟨size, hsplit, -⟩ := rowOf_eq_some hrow
  have hline' : line ∈ splitlines text := by
    rw [hlines]
    exact List.mem_cons_of_mem _ (List.mem_cons_of_mem _ hline)
  have hfield : entry.path ∈ line.splitOn '\t' := by
    rw [hsplit]
    exact List.mem_cons_of_mem _ List.mem_cons_self
  exact not_boundary_of_mem_splitlines hline' (mem_of_mem_splitOn hfield hc)

/-- A text with the same entries for both programs is plain. -/
theorem plain_of_both {text : List Char} {entries : List ManifestEntry}
    (hruntime : IsManifest runtimeRow lines text entries)
    (htool : IsManifest toolRow splitlines text entries) : Plain text := by
  obtain ⟨rows, hlines, hrows⟩ := hruntime.rows
  have hentry : ∀ line ∈ rows, ∃ entry ∈ entries, runtimeRow line = some entry := by
    intro line hline
    have hmem : runtimeRow line ∈ entries.map some := by
      rw [← hrows]
      exact List.mem_map_of_mem hline
    obtain ⟨entry, hentry, heq⟩ := List.mem_map.mp hmem
    exact ⟨entry, hentry, heq.symm⟩
  have hother : ∀ c ∈ text, isOtherBoundary c = false := by
    intro c hc
    by_contra hboundary
    rw [Bool.not_eq_false] at hboundary
    -- in the first two lines there is none, and in a row only the path has room for one
    have hall : (manifestMagic ++ manifestHeader).all (!isOtherBoundary ·) := by decide +kernel
    have hfixed : ∀ d ∈ manifestMagic ++ manifestHeader, isOtherBoundary d = false :=
      fun d hd => by simpa using List.all_eq_true.mp hall d hd
    rcases mem_lines hruntime.noReturn hc with rfl | ⟨line, hline, hmem⟩
    · cases hboundary
    · rw [hlines] at hline
      rcases List.mem_cons.mp hline with rfl | hline
      · rw [hfixed c (List.mem_append_left _ hmem)] at hboundary
        cases hboundary
      rcases List.mem_cons.mp hline with rfl | hline
      · rw [hfixed c (List.mem_append_right _ hmem)] at hboundary
        cases hboundary
      obtain ⟨entry, hentries, hrow⟩ := hentry line hline
      rw [not_boundary_of_path htool hentries (mem_path_of_boundary hrow hmem hboundary)]
        at hboundary
      cases hboundary
  refine ⟨hother, fun line hline => ?_⟩
  rw [hlines] at hline
  obtain ⟨rows', hlines', hrows'⟩ := htool.rows
  rw [splitlines_eq_lines hruntime.noReturn hother, hlines, List.cons.injEq,
    List.cons.injEq] at hlines'
  rw [← hlines'.2.2] at hrows'
  obtain ⟨entry, -, hrow⟩ := hentry line hline
  have hmem : toolRow line ∈ entries.map some := by
    rw [← hrows']
    exact List.mem_map_of_mem hline
  obtain ⟨entry', -, hrow'⟩ := List.mem_map.mp hmem
  obtain ⟨size, hsplit, -, -, hpath, -⟩ := rowOf_eq_some hrow
  obtain ⟨size', hsplit', -, -, hpath', hsize'⟩ := rowOf_eq_some hrow'.symm
  intro id path size'' rest hfields
  rw [hsplit] at hfields hsplit'
  simp only [List.cons.injEq] at hfields hsplit'
  rw [← hfields.2.1, ← hfields.2.2.1]
  rw [← hsplit'.2.1] at hpath'
  rw [← hsplit'.2.2.1] at hsize'
  exact ⟨plainPath_of_both hpath hpath', plainSize_of_tool hsize'⟩

/-- The programs agree on a text exactly when it is plain or is a manifest for neither:
    no piece of the text that one of them reads as an entry is read otherwise by the
    other. -/
theorem parse_agrees_iff (text : List Char)
    (hsize : (encodeUtf8 text).length ≤ maxManifestBytes)
    (hcount : (lines text).length ≤ maxManifestEntries + 2) :
    (∀ entries, ModelManifest.parse text = .ok entries ↔
        Tool.parseManifest (encodeUtf8 text) = .ok entries) ↔
      ∀ entries, IsManifest runtimeRow lines text entries ∨
        IsManifest toolRow splitlines text entries → Plain text := by
  simp only [parse_eq_ok_iff hcount, parseManifest_eq_ok_iff hsize]
  constructor
  · rintro hagree entries (h | h)
    · exact plain_of_both h ((hagree entries).mp h)
    · exact plain_of_both ((hagree entries).mpr h) h
  · intro hplain entries
    constructor
    · intro h
      exact (isManifest_iff_of_plain (hplain entries (.inl h)) entries).mp h
    · intro h
      exact (isManifest_iff_of_plain (hplain entries (.inr h)) entries).mpr h

/-- A row with an id and a path. -/
def rowAt (row : String × String) : List Char :=
  row.1.toList ++ ['\t'] ++ row.2.toList ++ "\t5\t".toList ++ List.replicate 64 '0' ++
    "\tr\tb\tl\tp".toList

/-- A manifest with such rows. -/
def manifestAt (rows : List (String × String)) : List Char :=
  manifestMagic ++ ['\n'] ++ manifestHeader ++ ['\n'] ++ rows.flatMap fun row => rowAt row ++ ['\n']

/-- The programs disagree on a path with an empty piece. -/
theorem parse_disagrees :
    ¬ ∀ text, (encodeUtf8 text).length ≤ maxManifestBytes →
      (lines text).length ≤ maxManifestEntries + 2 → ∀ entries,
        (ModelManifest.parse text = .ok entries ↔
          Tool.parseManifest (encodeUtf8 text) = .ok entries) := by
  intro hagree
  have hruntime : ModelManifest.parse (manifestAt [("a", "files//a.onnx")]) =
      .ok [⟨"a".toList, "files//a.onnx".toList, 5, List.replicate 64 '0', "r".toList, "b".toList,
        "l".toList, "p".toList⟩] := by
    decide +kernel
  have htool : Tool.parseManifest (encodeUtf8 (manifestAt [("a", "files//a.onnx")])) =
      .error (.verification "manifest-path") := by
    rw [Tool.parseManifest, decodeUtf8_encodeUtf8]
    decide +kernel
  have hok := (hagree (manifestAt [("a", "files//a.onnx")]) (by decide +kernel) (by decide +kernel)
    _).mp hruntime
  rw [htool] at hok
  cases hok

/-- Two rows with paths that ascend. -/
def twoRows : List (String × String) := [("b", "files/a.onnx"), ("a", "files/b.onnx")]

/-- The programs agree on a plain manifest of two rows, which both accept. -/
theorem parse_agrees_at_files :
    (encodeUtf8 (manifestAt twoRows)).length ≤ maxManifestBytes ∧
      (lines (manifestAt twoRows)).length ≤ maxManifestEntries + 2 ∧
      (ModelManifest.parse (manifestAt twoRows)).toOption.map (·.map ManifestEntry.path) =
        some ["files/a.onnx".toList, "files/b.onnx".toList] ∧
      ∀ entries, ModelManifest.parse (manifestAt twoRows) = .ok entries ↔
        Tool.parseManifest (encodeUtf8 (manifestAt twoRows)) = .ok entries := by
  have hsize : (encodeUtf8 (manifestAt twoRows)).length ≤ maxManifestBytes := by decide +kernel
  have hcount : (lines (manifestAt twoRows)).length ≤ maxManifestEntries + 2 := by decide +kernel
  have hall : (manifestAt twoRows).all (!isOtherBoundary ·) := by decide +kernel
  refine ⟨hsize, hcount, by decide +kernel, (parse_agrees_iff _ hsize hcount).mpr fun entries _ =>
    ⟨fun c hc => by simpa using List.all_eq_true.mp hall c hc,
      fun line hline id path size rest hfields => ?_⟩⟩
  have hlines : (lines (manifestAt twoRows)).drop 2 = twoRows.map rowAt := by decide +kernel
  have hsplit : ∀ row ∈ twoRows, (rowAt row).splitOn '\t' = [row.1.toList, row.2.toList,
      "5".toList, List.replicate 64 '0', "r".toList, "b".toList, "l".toList, "p".toList] := by
    decide +kernel
  have hplain : ∀ row ∈ twoRows, PlainPath row.2.toList ∧ PlainSize "5".toList := by
    decide +kernel
  rw [hlines] at hline
  obtain ⟨row, hrow, rfl⟩ := List.mem_map.mp hline
  rw [hsplit row hrow, List.cons.injEq, List.cons.injEq, List.cons.injEq] at hfields
  rw [← hfields.2.1, ← hfields.2.2.1]
  exact hplain row hrow

end Models

end KFaceAuth
