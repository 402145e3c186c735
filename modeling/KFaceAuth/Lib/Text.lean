import KFaceAuth.Lib.Bytes

/-!
# Texts

Functions of the standard library on texts, as lists of characters, and the bytes of
texts in UTF-8.

* `decodeUtf8_encodeUtf8`: the bytes of a text are read back;
* `precedes_encodeUtf8`: texts are ordered as their bytes;
* `splitlines_eq_lines`: where the lines of `str.splitlines` are those of `str::lines`;
* `length_lossy`, `not_mem_lossy`: what is left of bytes that need not be UTF-8.
-/

namespace KFaceAuth

namespace Text

/-! ## Lines and blanks -/

/-- `char::is_whitespace`. -/
def isWhitespace (c : Char) : Bool :=
  let n := c.toNat
  (9 ≤ n && n ≤ 13) || n = 32 || n = 0x85 || n = 0xa0 || n = 0x1680 || (0x2000 ≤ n && n ≤ 0x200a) ||
    n = 0x2028 || n = 0x2029 || n = 0x202f || n = 0x205f || n = 0x3000

/-- A text without the characters at both ends that meet a condition. -/
def trimBy (p : Char → Bool) (text : List Char) : List Char :=
  ((text.dropWhile p).reverse.dropWhile p).reverse

/-- `str::trim`. -/
def trim (text : List Char) : List Char := trimBy isWhitespace text

/-- `split_inclusive('\n')`. -/
def splitInclusive : List Char → List (List Char)
  | [] => []
  | c :: text =>
    if c = '\n' then [c] :: splitInclusive text
    else
      match splitInclusive text with
      | [] => [[c]]
      | line :: lines => (c :: line) :: lines

/-- A line without its end. -/
def withoutEnd (line : List Char) : List Char :=
  if line.getLast? = some '\n' then
    let line := line.dropLast
    if line.getLast? = some '\r' then line.dropLast else line
  else line

/-- `str::lines`. -/
def lines (text : List Char) : List (List Char) := (splitInclusive text).map withoutEnd

/-- The line boundaries of `str.splitlines` that end no line of `str::lines`. -/
def isOtherBoundary (c : Char) : Bool :=
  let n := c.toNat
  n = 0x0b || n = 0x0c || n = 0x1c || n = 0x1d || n = 0x1e || n = 0x85 || n = 0x2028 || n = 0x2029

/-- `str.splitlines`. -/
def splitlines : List Char → List (List Char)
  | [] => []
  | '\r' :: '\n' :: text => [] :: splitlines text
  | c :: text =>
    if c = '\n' ∨ c = '\r' ∨ isOtherBoundary c then [] :: splitlines text
    else
      match splitlines text with
      | [] => [[c]]
      | line :: lines => (c :: line) :: lines

theorem splitInclusive_ne_nil {text line : List Char} (h : line ∈ splitInclusive text) :
    line ≠ [] := by
  induction text generalizing line with
  | nil => cases h
  | cons c text ih =>
    rw [splitInclusive] at h
    split at h
    · rcases List.mem_cons.mp h with rfl | h
      · exact List.cons_ne_nil _ _
      · exact ih h
    · split at h
      · rw [List.mem_singleton.mp h]
        exact List.cons_ne_nil _ _
      next line' lines heq =>
        rcases List.mem_cons.mp h with rfl | h
        · exact List.cons_ne_nil _ _
        · exact ih (heq ▸ List.mem_cons_of_mem _ h)

/-- A character goes to the front of a line. -/
theorem withoutEnd_cons {c : Char} {line : List Char} (hne : line ≠ []) (hc : c ≠ '\r') :
    withoutEnd (c :: line) = c :: withoutEnd line := by
  rcases List.eq_nil_or_concat line with rfl | ⟨front, last, rfl⟩
  · exact absurd rfl hne
  · rw [List.concat_eq_append, ← List.cons_append]
    unfold withoutEnd
    simp only [List.getLast?_append, List.getLast?_singleton, Option.some_or,
      List.dropLast_concat]
    split
    · rcases List.eq_nil_or_concat front with rfl | ⟨front, last', rfl⟩
      · simp [hc]
      · rw [List.concat_eq_append, ← List.cons_append]
        simp only [List.getLast?_append, List.getLast?_singleton, Option.some_or,
          List.dropLast_concat]
        split <;> rfl
    · rfl

/-- The lines of a text, by its first character. -/
theorem lines_cons {c : Char} (text : List Char) (hc : c ≠ '\r') :
    lines (c :: text) =
      if c = '\n' then [] :: lines text
      else
        match lines text with
        | [] => [[c]]
        | line :: lines => (c :: line) :: lines := by
  rw [lines, splitInclusive]
  split
  next h =>
    rw [h]
    rfl
  next h =>
    rw [lines]
    split
    next heq =>
      have hlast : ¬ [c].getLast? = some '\n' := by simpa using h
      rw [heq, List.map_singleton, withoutEnd, if_neg hlast]
      rfl
    next line rest heq =>
      have hne : line ≠ [] := by
        apply splitInclusive_ne_nil
        rw [heq]
        exact List.mem_cons_self
      rw [heq, List.map_cons, List.map_cons, withoutEnd_cons hne hc]

/-- Without other boundaries, both notions of a line agree. -/
theorem splitlines_eq_lines {text : List Char} (hreturn : '\r' ∉ text)
    (hother : ∀ c ∈ text, isOtherBoundary c = false) : splitlines text = lines text := by
  induction text with
  | nil => rfl
  | cons c text ih =>
    rw [List.mem_cons, not_or] at hreturn
    have hc := hother c List.mem_cons_self
    have hrest := ih hreturn.2 fun d hd => hother d (List.mem_cons_of_mem _ hd)
    rw [lines_cons text (Ne.symm hreturn.1), ← hrest, splitlines]
    · simp only [hc, Ne.symm hreturn.1, Bool.false_eq_true, or_false]
    · intro text' hpair _
      exact hreturn.1 hpair.symm

/-- A character of a text ends a line or is on one. -/
theorem mem_lines {c : Char} {text : List Char} (hreturn : '\r' ∉ text) (h : c ∈ text) :
    c = '\n' ∨ ∃ line ∈ lines text, c ∈ line := by
  induction text with
  | nil => cases h
  | cons d text ih =>
    rw [List.mem_cons, not_or] at hreturn
    have hd := Ne.symm hreturn.1
    rw [lines_cons text hd]
    rcases List.mem_cons.mp h with rfl | h
    · split
      · exact .inl ‹_›
      · refine .inr ?_
        split
        · exact ⟨[c], List.mem_cons_self, List.mem_cons_self⟩
        · exact ⟨_, List.mem_cons_self, List.mem_cons_self⟩
    · refine (ih hreturn.2 h).imp_right ?_
      rintro ⟨line, hline, hmem⟩
      split
      · exact ⟨line, List.mem_cons_of_mem _ hline, hmem⟩
      · split
        next heq =>
          rw [heq] at hline
          cases hline
        next first rest heq =>
          rw [heq] at hline
          rcases List.mem_cons.mp hline with rfl | hline
          · exact ⟨d :: line, List.mem_cons_self, List.mem_cons_of_mem _ hmem⟩
          · exact ⟨line, List.mem_cons_of_mem _ hline, hmem⟩

/-- No line of `str.splitlines` has a boundary. -/
theorem not_boundary_of_mem_splitlines {text line : List Char} {c : Char}
    (hline : line ∈ splitlines text) (hc : c ∈ line) : isOtherBoundary c = false := by
  fun_induction splitlines text generalizing line with
  | case1 => cases hline
  | case2 text ih =>
    rcases List.mem_cons.mp hline with rfl | hline
    · cases hc
    · exact ih hline hc
  | case3 d text _ h ih =>
    rcases List.mem_cons.mp hline with rfl | hline
    · cases hc
    · exact ih hline hc
  | case4 d text _ h heq ih =>
    rw [not_or, not_or] at h
    rw [List.mem_singleton.mp hline, List.mem_singleton] at hc
    rw [hc]
    exact Bool.eq_false_iff.mpr h.2.2
  | case5 d text _ h first rest heq ih =>
    rw [not_or, not_or] at h
    rcases List.mem_cons.mp hline with rfl | hline
    · rcases List.mem_cons.mp hc with rfl | hc
      · exact Bool.eq_false_iff.mpr h.2.2
      · exact ih (heq ▸ List.mem_cons_self) hc
    · exact ih (heq ▸ List.mem_cons_of_mem _ hline) hc

/-! ## Pieces between separators -/

theorem not_mem_of_mem_splitOn {α : Type*} [BEq α] [LawfulBEq α] {a : α} {text piece : List α}
    (h : piece ∈ text.splitOn a) : a ∉ piece := by
  induction text generalizing piece with
  | nil =>
    rw [List.splitOn_nil, List.mem_singleton] at h
    rw [h]
    exact List.not_mem_nil
  | cons b text ih =>
    rw [List.splitOn_cons_eq_if_modifyHead] at h
    split at h
    · rcases List.mem_cons.mp h with rfl | h
      · exact List.not_mem_nil
      · exact ih h
    next hne =>
      rcases hpieces : text.splitOn a with _ | ⟨first, pieces⟩
      · exact absurd hpieces (List.splitOn_ne_nil a text)
      rw [hpieces, List.modifyHead_cons] at h
      rw [hpieces] at ih
      rcases List.mem_cons.mp h with rfl | h
      · rw [List.mem_cons, not_or]
        refine ⟨?_, ih List.mem_cons_self⟩
        rintro rfl
        exact hne (beq_self_eq_true a)
      · exact ih (List.mem_cons_of_mem _ h)

theorem mem_intercalate {α : Type*} {a b : α} {pieces : List (List α)} :
    b ∈ [a].intercalate pieces → b = a ∨ ∃ piece ∈ pieces, b ∈ piece := by
  induction pieces with
  | nil => exact fun h => nomatch h
  | cons piece pieces ih =>
    intro h
    rcases pieces with _ | ⟨second, pieces⟩
    · rw [List.intercalate_singleton] at h
      exact .inr ⟨piece, List.mem_cons_self, h⟩
    · rw [List.intercalate_cons_cons, List.mem_append, List.mem_append] at h
      rcases h with (h | h) | h
      · exact .inr ⟨piece, List.mem_cons_self, h⟩
      · exact .inl (List.mem_singleton.mp h)
      · refine (ih h).imp_right ?_
        rintro ⟨other, hother, hb⟩
        exact ⟨other, List.mem_cons_of_mem _ hother, hb⟩

theorem mem_intercalate_of_mem {α : Type*} (a : α) {b : α} {piece : List α}
    {pieces : List (List α)} (hpiece : piece ∈ pieces) (h : b ∈ piece) :
    b ∈ [a].intercalate pieces := by
  induction pieces with
  | nil => cases hpiece
  | cons first pieces ih =>
    rcases pieces with _ | ⟨second, pieces⟩
    · rw [List.intercalate_singleton, ← List.mem_singleton.mp hpiece]
      exact h
    · rw [List.intercalate_cons_cons, List.mem_append, List.mem_append]
      rcases List.mem_cons.mp hpiece with rfl | hpiece
      · exact .inl (.inl h)
      · exact .inr (ih hpiece)

/-- A text is made of its pieces and the separator. -/
theorem mem_splitOn {c d : Char} {text : List Char} (h : c ∈ text) :
    c = d ∨ ∃ piece ∈ text.splitOn d, c ∈ piece := by
  have hjoin : [d].intercalate (text.splitOn d) = text := List.intercalate_splitOn d
  rw [← hjoin] at h
  exact mem_intercalate h

theorem mem_of_mem_splitOn {c d : Char} {text piece : List Char} (hpiece : piece ∈ text.splitOn d)
    (h : c ∈ piece) : c ∈ text := by
  have hjoin : [d].intercalate (text.splitOn d) = text := List.intercalate_splitOn d
  rw [← hjoin]
  exact mem_intercalate_of_mem d hpiece h

/-! ## UTF-8 -/

/-- `str::from_utf8`, as its characters. -/
def decodeUtf8 (bytes : List UInt8) : Option (List Char) :=
  (String.fromUTF8? ⟨bytes.toArray⟩).map String.toList

/-- `into_bytes`. -/
def encodeUtf8 (text : List Char) : List UInt8 := utf8 (String.ofList text)

theorem encodeUtf8_eq (text : List Char) :
    encodeUtf8 text = text.flatMap String.utf8EncodeChar := by
  rw [encodeUtf8, utf8, String.toByteArray_ofList, List.utf8Encode, List.data_toByteArray,
    List.toList_toArray]

theorem decodeUtf8_encodeUtf8 (text : List Char) : decodeUtf8 (encodeUtf8 text) = some text := by
  rw [decodeUtf8, encodeUtf8, fromUTF8_iff.mpr rfl, Option.map_some, String.toList_ofList]

/-- The bytes of a character, by its value. -/
theorem utf8EncodeChar_cases (c : Char) :
    (c.toNat ≤ 0x7f ∧ String.utf8EncodeChar c = [c.toNat.toUInt8]) ∨
    (0x7f < c.toNat ∧ c.toNat ≤ 0x7ff ∧ String.utf8EncodeChar c =
      [(c.toNat / 64 % 0x20 + 0xc0).toUInt8, (c.toNat % 0x40 + 0x80).toUInt8]) ∨
    (0x7ff < c.toNat ∧ c.toNat ≤ 0xffff ∧ String.utf8EncodeChar c =
      [(c.toNat / 4096 % 0x10 + 0xe0).toUInt8, (c.toNat / 64 % 0x40 + 0x80).toUInt8,
        (c.toNat % 0x40 + 0x80).toUInt8]) ∨
    (0xffff < c.toNat ∧ String.utf8EncodeChar c =
      [(c.toNat / 262144 % 0x08 + 0xf0).toUInt8, (c.toNat / 4096 % 0x40 + 0x80).toUInt8,
        (c.toNat / 64 % 0x40 + 0x80).toUInt8, (c.toNat % 0x40 + 0x80).toUInt8]) := by
  fun_cases String.utf8EncodeChar c with
  | case1 v h => exact .inl ⟨h, rfl⟩
  | case2 v h₁ h₂ => exact .inr (.inl ⟨Nat.lt_of_not_le h₁, h₂, rfl⟩)
  | case3 v h₁ h₂ h₃ => exact .inr (.inr (.inl ⟨Nat.lt_of_not_le h₂, h₃, rfl⟩))
  | case4 v h₁ h₂ h₃ => exact .inr (.inr (.inr ⟨Nat.lt_of_not_le h₃, rfl⟩))

/-- A byte with the value `n`. -/
theorem toUInt8_eq_iff {n : ℕ} {byte : UInt8} (h : n < 256) :
    n.toUInt8 = byte ↔ n = byte.toNat := by
  constructor
  · rintro rfl
    exact (Nat.mod_eq_of_lt h).symm
  · rintro rfl
    exact UInt8.ofNat_toNat

/-- A character with the byte zero is zero. -/
theorem toNat_eq_zero_of_mem {c : Char} (h : 0 ∈ String.utf8EncodeChar c) : c.toNat = 0 := by
  have hzero : (0 : UInt8).toNat = 0 := rfl
  rcases utf8EncodeChar_cases c with ⟨hc, heq⟩ | ⟨-, -, heq⟩ | ⟨-, -, heq⟩ | ⟨-, heq⟩
  all_goals
    rw [heq] at h
    simp only [List.mem_cons, List.not_mem_nil, or_false] at h
  · rw [eq_comm, toUInt8_eq_iff (by omega)] at h
    exact h
  · rcases h with h | h
    all_goals
      rw [eq_comm, toUInt8_eq_iff (by omega)] at h
      omega
  · rcases h with h | h | h
    all_goals
      rw [eq_comm, toUInt8_eq_iff (by omega)] at h
      omega
  · rcases h with h | h | h | h
    all_goals
      rw [eq_comm, toUInt8_eq_iff (by omega)] at h
      omega

/-- The byte order mark. -/
def mark : Char := Char.ofNat 0xfeff

/-- A text starts with the bytes of the mark when it starts with the mark. -/
theorem mark_of_prefix {c : Char} {text : List Char}
    (h : [0xef, 0xbb, 0xbf] <+: encodeUtf8 (c :: text)) : c = mark := by
  rw [encodeUtf8_eq, List.flatMap_cons] at h
  have hef : (0xef : UInt8).toNat = 0xef := rfl
  have hbb : (0xbb : UInt8).toNat = 0xbb := rfl
  have hbf : (0xbf : UInt8).toNat = 0xbf := rfl
  rcases utf8EncodeChar_cases c with ⟨hc, heq⟩ | ⟨-, hc, heq⟩ | ⟨hlow, hc, heq⟩ | ⟨-, heq⟩
  all_goals
    rw [heq] at h
    simp only [List.cons_append, List.nil_append, List.cons_prefix_cons] at h
    have h₀ := h.1
    rw [eq_comm, toUInt8_eq_iff (by omega)] at h₀
  · omega
  · omega
  · have h₁ := h.2.1
    have h₂ := h.2.2.1
    rw [eq_comm, toUInt8_eq_iff (by omega)] at h₁ h₂
    have hvalue : c.toNat = 0xfeff := by omega
    rw [← Char.ofNat_toNat c, hvalue]
    rfl
  · omega

/-! ## Bytes and order -/

theorem toNat_toUInt8 {n : ℕ} (h : n < 256) : n.toUInt8.toNat = n := Nat.mod_eq_of_lt h

theorem toUInt8_lt {m n : ℕ} (h : m < n) (hn : n < 256) : m.toUInt8 < n.toUInt8 := by
  rw [UInt8.lt_iff_toNat_lt, toNat_toUInt8 hn, toNat_toUInt8 (Nat.lt_trans h hn)]
  exact h

/-- The bytes of a smaller character are smaller, where they first differ. -/
theorem utf8EncodeChar_lt {c d : Char} (h : c < d) : ∃ front x y rest rest',
    String.utf8EncodeChar c = front ++ x :: rest ∧
    String.utf8EncodeChar d = front ++ y :: rest' ∧ x < y := by
  have hlt : c.toNat < d.toNat := h
  have hmax : ∀ e : Char, e.toNat < 0x110000 := fun e => by
    have := e.valid
    rcases this with h | h
    · exact Nat.lt_trans h (by decide)
    · exact h.2
  have hd := hmax d
  -- a shorter sequence has a smaller first byte; of the same length, the first bytes that differ
  rcases utf8EncodeChar_cases c with ⟨hc, heq⟩ | ⟨hlow, hc, heq⟩ | ⟨hlow, hc, heq⟩ | ⟨hlow, heq⟩ <;>
  rcases utf8EncodeChar_cases d with ⟨hc', heq'⟩ | ⟨hlow', hc', heq'⟩ | ⟨hlow', hc', heq'⟩ |
    ⟨hlow', heq'⟩
  all_goals rw [heq, heq']
  · exact ⟨[], _, _, _, _, rfl, rfl, toUInt8_lt (by omega) (by omega)⟩
  · exact ⟨[], _, _, _, _, rfl, rfl, toUInt8_lt (by omega) (by omega)⟩
  · exact ⟨[], _, _, _, _, rfl, rfl, toUInt8_lt (by omega) (by omega)⟩
  · exact ⟨[], _, _, _, _, rfl, rfl, toUInt8_lt (by omega) (by omega)⟩
  · omega
  · rcases Nat.lt_or_ge (c.toNat / 64) (d.toNat / 64) with h₁ | h₁
    · exact ⟨[], _, _, _, _, rfl, rfl, toUInt8_lt (by omega) (by omega)⟩
    · have h₂ : c.toNat / 64 = d.toNat / 64 := by omega
      rw [h₂]
      exact ⟨[_], _, _, _, _, rfl, rfl, toUInt8_lt (by omega) (by omega)⟩
  · exact ⟨[], _, _, _, _, rfl, rfl, toUInt8_lt (by omega) (by omega)⟩
  · exact ⟨[], _, _, _, _, rfl, rfl, toUInt8_lt (by omega) (by omega)⟩
  · omega
  · omega
  · rcases Nat.lt_or_ge (c.toNat / 4096) (d.toNat / 4096) with h₁ | h₁
    · exact ⟨[], _, _, _, _, rfl, rfl, toUInt8_lt (by omega) (by omega)⟩
    · have h₂ : c.toNat / 4096 = d.toNat / 4096 := by omega
      rw [h₂]
      rcases Nat.lt_or_ge (c.toNat / 64) (d.toNat / 64) with h₃ | h₃
      · exact ⟨[_], _, _, _, _, rfl, rfl, toUInt8_lt (by omega) (by omega)⟩
      · have h₄ : c.toNat / 64 = d.toNat / 64 := by omega
        rw [h₄]
        exact ⟨[_, _], _, _, _, _, rfl, rfl, toUInt8_lt (by omega) (by omega)⟩
  · exact ⟨[], _, _, _, _, rfl, rfl, toUInt8_lt (by omega) (by omega)⟩
  · omega
  · omega
  · omega
  · rcases Nat.lt_or_ge (c.toNat / 262144) (d.toNat / 262144) with h₁ | h₁
    · exact ⟨[], _, _, _, _, rfl, rfl, toUInt8_lt (by omega) (by omega)⟩
    · have h₂ : c.toNat / 262144 = d.toNat / 262144 := by omega
      rw [h₂]
      rcases Nat.lt_or_ge (c.toNat / 4096) (d.toNat / 4096) with h₃ | h₃
      · exact ⟨[_], _, _, _, _, rfl, rfl, toUInt8_lt (by omega) (by omega)⟩
      · have h₄ : c.toNat / 4096 = d.toNat / 4096 := by omega
        rw [h₄]
        rcases Nat.lt_or_ge (c.toNat / 64) (d.toNat / 64) with h₅ | h₅
        · exact ⟨[_, _], _, _, _, _, rfl, rfl, toUInt8_lt (by omega) (by omega)⟩
        · have h₆ : c.toNat / 64 = d.toNat / 64 := by omega
          rw [h₆]
          exact ⟨[_, _, _], _, _, _, _, rfl, rfl, toUInt8_lt (by omega) (by omega)⟩

/-- The order of texts as lists, by the numbers of their elements. -/
def precedes {α : Type} (number : α → ℕ) : List α → List α → Bool
  | _, [] => false
  | [], _ :: _ => true
  | x :: a, y :: b => number x < number y || (number x = number y && precedes number a b)

section precedes

variable {α : Type} {number : α → ℕ}

theorem precedes_irrefl (a : List α) : precedes number a a = false := by
  induction a with
  | nil => rfl
  | cons x a ih => simp [precedes, ih]

theorem precedes_trans {a b c : List α} (hab : precedes number a b) (hbc : precedes number b c) :
    precedes number a c := by
  induction c generalizing a b with
  | nil => simp [precedes] at hbc
  | cons z c ih =>
    rcases b with _ | ⟨y, b⟩
    · simp [precedes] at hab
    rcases a with _ | ⟨x, a⟩
    · rfl
    simp only [precedes, Bool.or_eq_true, Bool.and_eq_true, decide_eq_true_eq] at hab hbc ⊢
    rcases hab with hxy | ⟨hxy, hab⟩
    · rcases hbc with hyz | ⟨hyz, -⟩
      · exact .inl (Nat.lt_trans hxy hyz)
      · exact .inl (hyz ▸ hxy)
    · rcases hbc with hyz | ⟨hyz, hbc⟩
      · exact .inl (hxy ▸ hyz)
      · exact .inr ⟨hxy.trans hyz, ih hab hbc⟩

theorem precedes_append (front : List α) (a b : List α) :
    precedes number (front ++ a) (front ++ b) = precedes number a b := by
  induction front with
  | nil => rfl
  | cons x front ih => simp [precedes, ih]

theorem precedes_cons_of_lt {x y : α} (h : number x < number y) (a b : List α) :
    precedes number (x :: a) (y :: b) := by
  simp [precedes, h]

/-- One of two texts does not precede the other. -/
theorem precedes_asymm {a b : List α} (h : precedes number a b) : precedes number b a = false := by
  by_contra hba
  rw [Bool.not_eq_false] at hba
  have haa := precedes_trans h hba
  rw [precedes_irrefl] at haa
  cases haa

end precedes

theorem encodeUtf8_cons_precedes {c d : Char} (h : c < d) (a b : List Char) :
    precedes UInt8.toNat (encodeUtf8 (c :: a)) (encodeUtf8 (d :: b)) := by
  obtain ⟨front, x, y, rest, rest', hc, hd, hlt⟩ := utf8EncodeChar_lt h
  rw [encodeUtf8_eq, encodeUtf8_eq, List.flatMap_cons, List.flatMap_cons, hc, hd,
    List.append_assoc, List.append_assoc, precedes_append]
  exact precedes_cons_of_lt (UInt8.lt_iff_toNat_lt.mp hlt) _ _

/-- The order of texts by their bytes is the one by their characters. -/
theorem precedes_encodeUtf8 (a b : List Char) :
    precedes UInt8.toNat (encodeUtf8 a) (encodeUtf8 b) = precedes Char.toNat a b := by
  have hnil : encodeUtf8 [] = [] := by
    rw [encodeUtf8_eq]
    rfl
  induction a generalizing b with
  | nil =>
    rcases b with _ | ⟨d, b⟩
    · rw [hnil, precedes_irrefl, precedes_irrefl]
    · rw [hnil, encodeUtf8_eq, List.flatMap_cons]
      rcases hbytes : String.utf8EncodeChar d with _ | ⟨x, rest⟩
      · exact absurd hbytes String.utf8EncodeChar_ne_nil
      · rfl
  | cons c a ih =>
    rcases b with _ | ⟨d, b⟩
    · rw [hnil, precedes, precedes]
    · rcases Nat.lt_trichotomy c.toNat d.toNat with h | h | h
      · rw [encodeUtf8_cons_precedes h, precedes_cons_of_lt h]
      · rw [Char.toNat_inj.mp h, encodeUtf8_eq, encodeUtf8_eq, List.flatMap_cons, List.flatMap_cons,
          precedes_append, ← encodeUtf8_eq, ← encodeUtf8_eq, ih]
        simp [precedes]
      · rw [precedes_asymm (encodeUtf8_cons_precedes h b a),
          precedes_asymm (precedes_cons_of_lt h b a)]

/-- Other characters than those of ASCII have bytes of their own. -/
theorem ge_of_mem_utf8EncodeChar {c : Char} {byte : UInt8} (h : 0x7f < c.toNat)
    (hmem : byte ∈ String.utf8EncodeChar c) : 0x80 ≤ byte := by
  have h80 : (0x80 : UInt8).toNat = 0x80 := rfl
  rw [UInt8.le_iff_toNat_le, h80]
  rcases utf8EncodeChar_cases c with ⟨hc, -⟩ | ⟨-, -, heq⟩ | ⟨-, -, heq⟩ | ⟨-, heq⟩
  · omega
  all_goals
    rw [heq] at hmem
    simp only [List.mem_cons, List.not_mem_nil, or_false] at hmem
  · rcases hmem with rfl | rfl
    all_goals
      rw [toNat_toUInt8 (by omega)]
      omega
  · rcases hmem with rfl | rfl | rfl
    all_goals
      rw [toNat_toUInt8 (by omega)]
      omega
  · rcases hmem with rfl | rfl | rfl | rfl
    all_goals
      rw [toNat_toUInt8 (by omega)]
      omega

theorem encodeUtf8_of_ascii {text : List Char} (h : ∀ c ∈ text, c.toNat ≤ 0x7f) :
    encodeUtf8 text = text.map fun c => c.toNat.toUInt8 := by
  rw [encodeUtf8_eq]
  induction text with
  | nil => rfl
  | cons c text ih =>
    have hc := h c List.mem_cons_self
    rw [List.flatMap_cons, ih fun d hd => h d (List.mem_cons_of_mem _ hd), List.map_cons]
    rcases utf8EncodeChar_cases c with ⟨-, heq⟩ | ⟨hlow, -⟩ | ⟨hlow, -⟩ | ⟨hlow, -⟩
    · rw [heq]
      rfl
    all_goals omega

/-- A condition on bytes that only bytes of ASCII meet, over those of a text. -/
theorem all_encodeUtf8 {p : UInt8 → Bool} (hp : ∀ byte, 0x80 ≤ byte → p byte = false)
    (text : List Char) : (encodeUtf8 text).all p = true ↔
      ∀ c ∈ text, c.toNat ≤ 0x7f ∧ p c.toNat.toUInt8 = true := by
  constructor
  · intro h c hc
    have hascii : c.toNat ≤ 0x7f := by
      by_contra hlow
      rcases hbytes : String.utf8EncodeChar c with _ | ⟨byte, rest⟩
      · exact absurd hbytes String.utf8EncodeChar_ne_nil
      have hmem : byte ∈ String.utf8EncodeChar c := by
        rw [hbytes]
        exact List.mem_cons_self
      have htrue := List.all_eq_true.mp h byte (by
        rw [encodeUtf8_eq]
        exact List.mem_flatMap.mpr ⟨c, hc, hmem⟩)
      rw [hp byte (ge_of_mem_utf8EncodeChar (by omega) hmem)] at htrue
      cases htrue
    refine ⟨hascii, List.all_eq_true.mp h _ ?_⟩
    rw [encodeUtf8_eq]
    refine List.mem_flatMap.mpr ⟨c, hc, ?_⟩
    rcases utf8EncodeChar_cases c with ⟨-, heq⟩ | ⟨hlow, -⟩ | ⟨hlow, -⟩ | ⟨hlow, -⟩
    · rw [heq]
      exact List.mem_singleton.mpr rfl
    all_goals omega
  · intro h
    rw [encodeUtf8_of_ascii fun c hc => (h c hc).1, List.all_map]
    exact List.all_eq_true.mpr fun c hc => (h c hc).2

/-! ## Texts that need not be UTF-8 -/

/-- The range of the second byte of a sequence of UTF-8, and how many bytes follow
    the first. -/
def sequence (first : UInt8) : Option (UInt8 × UInt8 × ℕ) :=
  if 0xc2 ≤ first ∧ first ≤ 0xdf then some (0x80, 0xbf, 1)
  else if first = 0xe0 then some (0xa0, 0xbf, 2)
  else if first = 0xed then some (0x80, 0x9f, 2)
  else if 0xe1 ≤ first ∧ first ≤ 0xef then some (0x80, 0xbf, 2)
  else if first = 0xf0 then some (0x90, 0xbf, 3)
  else if 0xf1 ≤ first ∧ first ≤ 0xf3 then some (0x80, 0xbf, 3)
  else if first = 0xf4 then some (0x80, 0x8f, 3)
  else none

/-- The value of a byte that follows in a sequence. -/
def following (byte : UInt8) : ℕ := byte.toNat - 0x80

/-- The first character of a text that need not be UTF-8, with the number of bytes
    it takes after the first; a sequence that is broken off is replaced. -/
def nextLossy (first : UInt8) (text : List UInt8) : Char × ℕ :=
  let isFollowing (byte : UInt8) : Bool := 0x80 ≤ byte && byte ≤ 0xbf
  let replaced := Char.ofNat 0xfffd
  if first < 0x80 then (Char.ofNat first.toNat, 0)
  else
    match sequence first with
    | none => (replaced, 0)
    | some (low, high, n) =>
      match text with
      | [] => (replaced, 0)
      | b :: text =>
        if b < low ∨ high < b then (replaced, 0)
        else if n = 1 then (Char.ofNat ((first.toNat - 0xc0) * 64 + following b), 1)
        else
          match text with
          | [] => (replaced, 1)
          | c :: text =>
            if !isFollowing c then (replaced, 1)
            else if n = 2 then
              (Char.ofNat ((first.toNat - 0xe0) * 4096 + following b * 64 + following c), 2)
            else
              match text with
              | [] => (replaced, 2)
              | d :: _ =>
                if !isFollowing d then (replaced, 2)
                else (Char.ofNat ((first.toNat - 0xf0) * 262144 + following b * 4096 +
                  following c * 64 + following d), 3)

/-- The loop of `from_utf8_lossy`, over as many bytes of a character as are still to
    be left out. -/
def lossy : ℕ → List UInt8 → List Char
  | _, [] => []
  | skip + 1, _ :: text => lossy skip text
  | 0, first :: text =>
    let (c, skip) := nextLossy first text
    c :: lossy skip text

/-- The first bytes of sequences, by their length. -/
theorem sequence_cases {first low high : UInt8} {n : ℕ} (h : sequence first = some (low, high, n)) :
    (n = 1 ∧ 0xc2 ≤ first.toNat ∧ first.toNat ≤ 0xdf ∧ low.toNat = 0x80 ∧ high.toNat = 0xbf) ∨
    (n = 2 ∧ 0xe0 ≤ first.toNat ∧ first.toNat ≤ 0xef ∧ 0x80 ≤ low.toNat ∧ high.toNat ≤ 0xbf ∧
      (first.toNat = 0xe0 → 0xa0 ≤ low.toNat) ∧ (first.toNat = 0xed → high.toNat ≤ 0x9f)) ∨
    (n = 3 ∧ 0xf0 ≤ first.toNat ∧ first.toNat ≤ 0xf4 ∧ 0x80 ≤ low.toNat ∧ high.toNat ≤ 0xbf ∧
      (first.toNat = 0xf0 → 0x90 ≤ low.toNat) ∧ (first.toNat = 0xf4 → high.toNat ≤ 0x8f)) := by
  unfold sequence at h
  simp only [UInt8.le_iff_toNat_le, ← UInt8.toNat_inj, UInt8.reduceToNat] at h
  split_ifs at h
  all_goals
    simp only [Option.some.injEq, Prod.mk.injEq] at h
    obtain ⟨hlow, hhigh, rfl⟩ := h
    rw [← hlow, ← hhigh]
    simp only [UInt8.reduceToNat, true_and, and_true]
    omega

/-- The characters that `from_utf8_lossy` gives: a byte that is one, the replacement,
    or that of a sequence of several bytes. -/
theorem nextLossy_cases (first : UInt8) (text : List UInt8) :
    (first.toNat < 0x80 ∧ nextLossy first text = (Char.ofNat first.toNat, 0)) ∨
    (nextLossy first text).1 = Char.ofNat 0xfffd ∨
    ∃ n, (nextLossy first text).1 = Char.ofNat n ∧ 0 < n ∧ n.isValidChar ∧
      1 ≤ (nextLossy first text).2 := by
  unfold nextLossy
  dsimp only
  split
  next h => exact .inl ⟨h, rfl⟩
  split
  · exact .inr (.inl rfl)
  next low high n hsequence =>
  have hcases := sequence_cases hsequence
  split
  · exact .inr (.inl rfl)
  next b text =>
  split
  · exact .inr (.inl rfl)
  next hb =>
  rw [not_or, UInt8.not_lt, UInt8.not_lt, UInt8.le_iff_toNat_le, UInt8.le_iff_toNat_le] at hb
  split
  · generalize hvalue : (first.toNat - 0xc0) * 64 + following b = value
    unfold following at hvalue
    exact .inr (.inr ⟨value, rfl, by omega, .inl (by omega), Nat.le_refl 1⟩)
  split
  · exact .inr (.inl rfl)
  next c text =>
  split
  · exact .inr (.inl rfl)
  next hc =>
  simp only [Bool.not_eq_true, Bool.not_eq_false', Bool.and_eq_true, decide_eq_true_eq,
    UInt8.le_iff_toNat_le, UInt8.reduceToNat] at hc
  split
  · generalize hvalue : (first.toNat - 0xe0) * 4096 + following b * 64 + following c = value
    unfold following at hvalue
    refine .inr (.inr ⟨value, rfl, by omega, ?_, Nat.le_succ 1⟩)
    unfold Nat.isValidChar
    omega
  split
  · exact .inr (.inl rfl)
  next d text =>
  split
  · exact .inr (.inl rfl)
  next hd =>
  simp only [Bool.not_eq_true, Bool.not_eq_false', Bool.and_eq_true, decide_eq_true_eq,
    UInt8.le_iff_toNat_le, UInt8.reduceToNat] at hd
  generalize hvalue : (first.toNat - 0xf0) * 262144 + following b * 4096 + following c * 64 +
    following d = value
  unfold following at hvalue
  refine .inr (.inr ⟨value, rfl, by omega, ?_, Nat.le_add_left 1 2⟩)
  unfold Nat.isValidChar
  omega

theorem toNat_ofNat {n : ℕ} (h : n.isValidChar) : (Char.ofNat n).toNat = n := by
  rw [Char.ofNat, dif_pos h]
  rfl

/-- A character that need not be UTF-8 has at most three bytes for each that it
    takes. -/
theorem length_nextLossy (first : UInt8) (text : List UInt8) :
    (String.utf8EncodeChar (nextLossy first text).1).length ≤
      3 * ((nextLossy first text).2 + 1) := by
  rcases nextLossy_cases first text with ⟨hfirst, heq⟩ | heq | ⟨n, -, -, -, hmore⟩
  · rw [heq]
    rcases utf8EncodeChar_cases (Char.ofNat first.toNat) with ⟨-, hchar⟩ | ⟨hlow, -⟩ | ⟨hlow, -⟩ |
      ⟨hlow, -⟩
    · rw [hchar]
      exact Nat.le_add_left 1 2
    all_goals
      rw [toNat_ofNat (.inl (by omega))] at hlow
      omega
  · rw [heq]
    have hreplaced : (String.utf8EncodeChar (Char.ofNat 0xfffd)).length = 3 := rfl
    omega
  · have hfour := (nextLossy first text).1.utf8Size_le_four
    rw [String.length_utf8EncodeChar]
    omega

/-- A character that need not be UTF-8 has the byte zero only for that byte. -/
theorem not_mem_nextLossy {first : UInt8} (text : List UInt8) (h : first ≠ 0) :
    0 ∉ String.utf8EncodeChar (nextLossy first text).1 := by
  intro hmem
  have hzero := toNat_eq_zero_of_mem hmem
  rcases nextLossy_cases first text with ⟨hfirst, heq⟩ | heq | ⟨n, heq, hpos, hvalid, -⟩
  · rw [heq, toNat_ofNat (.inl (by omega))] at hzero
    exact h (UInt8.toNat_inj.mp hzero)
  · rw [heq, toNat_ofNat (.inr ⟨by decide, by decide⟩)] at hzero
    cases hzero
  · rw [heq, toNat_ofNat hvalid] at hzero
    omega

/-- A sequence ends within the text. -/
theorem nextLossy_le (first : UInt8) (text : List UInt8) :
    (nextLossy first text).2 ≤ text.length := by
  unfold nextLossy
  dsimp only
  split
  · exact Nat.zero_le _
  split
  · exact Nat.zero_le _
  split
  · exact Nat.zero_le _
  split
  · exact Nat.zero_le _
  split
  · exact Nat.le_add_left 1 _
  split
  · exact Nat.le_refl 1
  split
  · exact Nat.le_add_left 1 _
  split
  · exact Nat.le_add_left 2 _
  split
  · exact Nat.le_refl 2
  split
  · exact Nat.le_add_left 2 _
  · exact Nat.le_add_left 3 _

theorem length_lossy (skip : ℕ) (text : List UInt8) :
    (encodeUtf8 (lossy skip text)).length ≤ 3 * (text.length - skip) := by
  induction text generalizing skip with
  | nil => cases skip <;> exact Nat.zero_le _
  | cons first text ih =>
    rcases skip with _ | skip
    · have hnext := length_nextLossy first text
      have hrest := ih (nextLossy first text).2
      have hle := nextLossy_le first text
      rw [lossy, encodeUtf8_eq, List.flatMap_cons, ← encodeUtf8_eq, List.length_append,
        List.length_cons]
      omega
    · have hrest := ih skip
      rw [lossy, List.length_cons]
      omega

theorem not_mem_lossy (skip : ℕ) {text : List UInt8} (h : 0 ∉ text) :
    0 ∉ encodeUtf8 (lossy skip text) := by
  induction text generalizing skip with
  | nil =>
    rw [lossy, encodeUtf8_eq]
    exact List.not_mem_nil
  | cons first text ih =>
    rw [List.mem_cons, not_or] at h
    rcases skip with _ | skip
    · rw [lossy, encodeUtf8_eq, List.flatMap_cons, ← encodeUtf8_eq, List.mem_append, not_or]
      exact ⟨not_mem_nextLossy text (Ne.symm h.1), ih _ h.2⟩
    · exact ih skip h.2

end Text

end KFaceAuth
