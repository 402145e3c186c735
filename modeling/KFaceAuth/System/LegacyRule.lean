import KFaceAuth.Lib.Bytes
import Mathlib.Data.List.Basic

/-!
# The legacy rule in a PAM service

Older versions put a rule into the services of the login manager and of the screen
lock, between two marker lines. The setup script finds it with one scan of the lines
(`accepts`) and takes it out with another (`strip`).

* `accepts_iff`: the first scan accepts exactly a managed block, with nothing like its
  rule elsewhere;
* `strip_managed`: the second then leaves exactly the other lines.
-/

namespace KFaceAuth

namespace PamSetup

/-! ## Lines -/

abbrev Line := List UInt8

/-- The records of `awk`, and the lines of `grep`. -/
def records : List UInt8 → List Line
  | [] => []
  | byte :: bytes =>
    if byte = 10 then [] :: records bytes
    else
      match records bytes with
      | [] => [[byte]]
      | line :: lines => (byte :: line) :: lines

/-- What `print` writes for lines. -/
def printed (lines : List Line) : List UInt8 := lines.flatMap (· ++ [10])

theorem records_ne_nil {bytes : List UInt8} (h : bytes ≠ []) : records bytes ≠ [] := by
  cases bytes with
  | nil => exact absurd rfl h
  | cons byte bytes =>
    rw [records]
    split_ifs
    · exact List.cons_ne_nil _ _
    · split <;> exact List.cons_ne_nil _ _

/-- A file that ends in a newline is what its lines print. -/
theorem printed_records {bytes : List UInt8} (h : bytes.getLast? = some 10) :
    printed (records bytes) = bytes := by
  induction bytes with
  | nil => cases h
  | cons byte bytes ih =>
    rcases eq_or_ne bytes [] with rfl | hne
    · cases h
      rfl
    · rw [List.getLast?_cons_of_ne_nil hne] at h
      have hrest := ih h
      rw [records]
      split_ifs with hbyte
      · rw [printed, List.flatMap_cons, ← printed, hrest, hbyte]
        rfl
      · obtain ⟨line, lines, hlines⟩ := List.exists_cons_of_ne_nil (records_ne_nil hne)
        rw [hlines] at hrest ⊢
        rw [printed, List.flatMap_cons] at hrest ⊢
        rw [List.cons_append, List.cons_append, hrest]

/-- A text file: it ends in a newline and has no NUL. -/
structure IsText (bytes : List UInt8) : Prop where
  newline : bytes.getLast? = some 10
  no_nul : 0 ∉ bytes

/-! ## The scans -/

/-- `KFACEAUTH_LEGACY_BEGIN` -/
def legacyBegin : Line := ascii "# BEGIN kfaceauth experimental authentication"

/-- `KFACEAUTH_LEGACY_END` -/
def legacyEnd : Line := ascii "# END kfaceauth experimental authentication"

/-- The line between the markers. -/
def legacyRule : Line := ascii "auth        sufficient    pam_kfaceauth.so"

/-- What separates the fields of a line. -/
def isBlank (byte : UInt8) : Bool := byte = 32 || byte = 9

/-- `$1` -/
def firstField (line : Line) : Line := (line.dropWhile isBlank).takeWhile (!isBlank ·)

/-- `index(line, text)` is not zero. -/
def contains (text line : Line) : Bool := line.tails.any text.isPrefixOf

/-- `$1 == "auth" && index($0, "pam_kfaceauth.so")` -/
def isFaceRule (line : Line) : Bool :=
  firstField line = ascii "auth" && contains (ascii "pam_kfaceauth.so") line

/-- `grep -Fqx` -/
def hasLine (line : Line) (bytes : List UInt8) : Bool := line ∈ records bytes

/-- The variables of the scan that checks the lines. -/
structure Scan where
  inside : Bool := false
  seen : Bool := false
  ended : Bool := false
  rules : ℕ := 0
  invalid : Bool := false

/-- The rules of the scan, for a line. -/
def Scan.next (s : Scan) (line : Line) : Scan :=
  if line = legacyBegin then
    { s with invalid := s.invalid || s.inside || s.seen, inside := true, seen := true }
  else if line = legacyEnd then
    { s with invalid := s.invalid || !s.inside || s.rules ≠ 1, inside := false, ended := true }
  else if s.inside then
    { s with invalid := s.invalid || line ≠ legacyRule, rules := s.rules + 1 }
  else { s with invalid := s.invalid || isFaceRule line }

/-- The rule for the end. -/
def Scan.accepts (s : Scan) : Bool :=
  !(s.invalid || !s.seen || !s.ended || s.inside || s.rules ≠ 1)

/-- Whether the first scan accepts the lines. -/
def accepts (lines : List Line) : Bool := (lines.foldl Scan.next {}).accepts

/-- The second scan: the lines that it prints. -/
def strip : Bool → List Line → List Line
  | _, [] => []
  | inside, line :: lines =>
    if line = legacyBegin then strip true lines
    else if line = legacyEnd then strip false lines
    else if inside then strip inside lines
    else line :: strip inside lines

/-! ## Managed blocks -/

/-- A line that is no marker and no rule for the face. -/
structure IsOther (line : Line) : Prop where
  ne_begin : line ≠ legacyBegin
  ne_end : line ≠ legacyEnd
  no_rule : isFaceRule line = false

/-- The lines before and after a managed block. -/
structure IsManaged (before after lines : List Line) : Prop where
  eq : lines = before ++ [legacyBegin, legacyRule, legacyEnd] ++ after
  other : ∀ line ∈ before ++ after, IsOther line

theorem legacyEnd_ne_begin : legacyEnd ≠ legacyBegin := by decide

theorem legacyRule_ne_begin : legacyRule ≠ legacyBegin := by decide

theorem legacyRule_ne_end : legacyRule ≠ legacyEnd := by decide

/-- Nothing makes up for an invalid line, or for a second one in the block. -/
theorem rejects {s : Scan} (h : s.invalid = true ∨ 1 < s.rules) (lines : List Line) :
    (lines.foldl Scan.next s).accepts = false := by
  induction lines generalizing s with
  | nil =>
    rw [List.foldl_nil, Scan.accepts]
    rcases h with h | h
    · simp [h]
    · have hne : s.rules ≠ 1 := by omega
      simp [hne]
  | cons line lines ih =>
    rw [List.foldl_cons]
    refine ih ?_
    unfold Scan.next
    rcases h with h | h
    · left
      split_ifs <;> simp [h]
    · right
      split_ifs
      all_goals
        dsimp only
        omega

/-- After the block only other lines are accepted. -/
theorem accepts_after (lines : List Line) :
    (lines.foldl Scan.next ⟨false, true, true, 1, false⟩).accepts = true ↔
      ∀ line ∈ lines, IsOther line := by
  induction lines with
  | nil => exact iff_of_true rfl fun line hline => absurd hline List.not_mem_nil
  | cons line lines ih =>
    rw [List.foldl_cons, List.forall_mem_cons]
    by_cases hbegin : line = legacyBegin
    · have hnext : (Scan.mk false true true 1 false).next line = ⟨true, true, true, 1, true⟩ :=
        if_pos hbegin
      rw [hnext, rejects (.inl rfl)]
      exact iff_of_false Bool.false_ne_true fun h => h.1.ne_begin hbegin
    by_cases hend : line = legacyEnd
    · have hnext : (Scan.mk false true true 1 false).next line = ⟨false, true, true, 1, true⟩ := by
        rw [Scan.next, if_neg hbegin, if_pos hend]
        rfl
      rw [hnext, rejects (.inl rfl)]
      exact iff_of_false Bool.false_ne_true fun h => h.1.ne_end hend
    have hnext : (Scan.mk false true true 1 false).next line =
        ⟨false, true, true, 1, isFaceRule line⟩ := by
      rw [Scan.next, if_neg hbegin, if_neg hend]
      rfl
    rw [hnext]
    cases hrule : isFaceRule line with
    | true =>
      rw [rejects (.inl rfl)]
      exact iff_of_false Bool.false_ne_true fun h => by simp [h.1.no_rule] at hrule
    | false =>
      rw [ih]
      exact ⟨fun h => ⟨⟨hbegin, hend, hrule⟩, h⟩, fun h => h.2⟩

/-- After the rule the block must end. -/
theorem accepts_in_block (lines : List Line) :
    (lines.foldl Scan.next ⟨true, true, false, 1, false⟩).accepts = true ↔
      ∃ after, lines = legacyEnd :: after ∧ ∀ line ∈ after, IsOther line := by
  cases lines with
  | nil => exact iff_of_false Bool.false_ne_true fun ⟨_, h, _⟩ => by cases h
  | cons line lines =>
    rw [List.foldl_cons]
    by_cases hend : line = legacyEnd
    · have hnext : (Scan.mk true true false 1 false).next line = ⟨false, true, true, 1, false⟩ := by
        rw [Scan.next, if_neg (hend ▸ legacyEnd_ne_begin), if_pos hend]
        rfl
      rw [hnext, accepts_after, hend]
      refine ⟨fun h => ⟨lines, rfl, h⟩, fun ⟨after, heq, h⟩ => ?_⟩
      cases heq
      exact h
    · have hreject : (lines.foldl Scan.next
          ((Scan.mk true true false 1 false).next line)).accepts = false := by
        refine rejects ?_ lines
        by_cases hbegin : line = legacyBegin
        · rw [Scan.next, if_pos hbegin]
          exact .inl rfl
        · rw [Scan.next, if_neg hbegin, if_neg hend, if_pos rfl]
          exact .inr Nat.one_lt_two
      rw [hreject]
      refine iff_of_false Bool.false_ne_true fun ⟨after, heq, _⟩ => hend ?_
      cases heq
      rfl

/-- After the begin marker the rule must come. -/
theorem accepts_in_marker (lines : List Line) :
    (lines.foldl Scan.next ⟨true, true, false, 0, false⟩).accepts = true ↔
      ∃ after, lines = legacyRule :: legacyEnd :: after ∧ ∀ line ∈ after, IsOther line := by
  cases lines with
  | nil => exact iff_of_false Bool.false_ne_true fun ⟨_, h, _⟩ => by cases h
  | cons line lines =>
    rw [List.foldl_cons]
    by_cases hrule : line = legacyRule
    · have hnext : (Scan.mk true true false 0 false).next line = ⟨true, true, false, 1, false⟩ := by
        rw [Scan.next, if_neg (hrule ▸ legacyRule_ne_begin), if_neg (hrule ▸ legacyRule_ne_end),
          if_pos rfl, hrule]
        simp
      rw [hnext, accepts_in_block, hrule]
      refine exists_congr fun after => and_congr_left fun _ => ?_
      rw [List.cons.injEq, and_iff_right rfl]
    · have hreject : (lines.foldl Scan.next
          ((Scan.mk true true false 0 false).next line)).accepts = false := by
        refine rejects (.inl ?_) lines
        by_cases hbegin : line = legacyBegin
        · rw [Scan.next, if_pos hbegin]
          rfl
        by_cases hend : line = legacyEnd
        · rw [Scan.next, if_neg hbegin, if_pos hend]
          rfl
        · rw [Scan.next, if_neg hbegin, if_neg hend, if_pos rfl]
          exact decide_eq_true hrule
      rw [hreject]
      refine iff_of_false Bool.false_ne_true fun ⟨after, heq, _⟩ => hrule ?_
      cases heq
      rfl

/-- The scan accepts managed blocks, and nothing else. -/
theorem accepts_iff (lines : List Line) :
    accepts lines = true ↔ ∃ before after, IsManaged before after lines := by
  unfold accepts
  induction lines with
  | nil =>
    refine iff_of_false Bool.false_ne_true fun ⟨before, after, h⟩ => ?_
    have := congrArg List.length h.eq
    simp at this
  | cons line lines ih =>
    rw [List.foldl_cons]
    by_cases hbegin : line = legacyBegin
    · have hnext : (Scan.mk false false false 0 false).next line = ⟨true, true, false, 0, false⟩ :=
        if_pos hbegin
      rw [hnext, accepts_in_marker]
      constructor
      · rintro ⟨after, rfl, hafter⟩
        exact ⟨[], after, by rw [hbegin]; rfl, hafter⟩
      · rintro ⟨before, after, heq, hother⟩
        cases before with
        | nil =>
          cases heq
          exact ⟨after, rfl, hother⟩
        | cons first before =>
          have hfirst := hother first List.mem_cons_self
          rw [List.cons_append, List.cons_append, List.cons.injEq] at heq
          exact absurd (heq.1.symm.trans hbegin) hfirst.ne_begin
    -- a line before the block is the first of those before it
    have hcons : (∃ before after, IsManaged before after (line :: lines)) ↔
        IsOther line ∧ ∃ before after, IsManaged before after lines := by
      constructor
      · rintro ⟨before, after, heq, hother⟩
        cases before with
        | nil =>
          cases heq
          exact absurd rfl hbegin
        | cons first before =>
          rw [List.cons_append, List.cons_append, List.cons.injEq] at heq
          refine ⟨heq.1 ▸ hother first List.mem_cons_self, before, after, heq.2, ?_⟩
          exact fun other h => hother other (List.mem_cons_of_mem _ h)
      · rintro ⟨hline, before, after, rfl, hother⟩
        refine ⟨line :: before, after, rfl, ?_⟩
        rw [List.cons_append, List.forall_mem_cons]
        exact ⟨hline, hother⟩
    rw [hcons]
    by_cases hend : line = legacyEnd
    · have hnext : (Scan.mk false false false 0 false).next line = ⟨false, false, true, 0, true⟩ := by
        rw [Scan.next, if_neg hbegin, if_pos hend]
        rfl
      rw [hnext, rejects (.inl rfl)]
      exact iff_of_false Bool.false_ne_true fun h => h.1.ne_end hend
    have hnext : (Scan.mk false false false 0 false).next line =
        ⟨false, false, false, 0, isFaceRule line⟩ := by
      rw [Scan.next, if_neg hbegin, if_neg hend]
      rfl
    rw [hnext]
    cases hrule : isFaceRule line with
    | true =>
      rw [rejects (.inl rfl)]
      exact iff_of_false Bool.false_ne_true fun h => by simp [h.1.no_rule] at hrule
    | false =>
      rw [ih]
      exact ⟨fun h => ⟨⟨hbegin, hend, hrule⟩, h⟩, fun h => h.2⟩

theorem strip_other {lines : List Line} (h : ∀ line ∈ lines, IsOther line) (rest : List Line) :
    strip false (lines ++ rest) = lines ++ strip false rest := by
  induction lines with
  | nil => rfl
  | cons line lines ih =>
    rw [List.forall_mem_cons] at h
    rw [List.cons_append, strip, if_neg h.1.ne_begin, if_neg h.1.ne_end, if_neg Bool.false_ne_true,
      ih h.2, List.cons_append]

/-- Of a managed block, the other lines are left. -/
theorem strip_managed {before after lines : List Line} (h : IsManaged before after lines) :
    strip false lines = before ++ after := by
  have hbefore := fun line hline => h.other line (List.mem_append_left after hline)
  have hafter := fun line hline => h.other line (List.mem_append_right before hline)
  have hblock (rest : List Line) :
      strip false ([legacyBegin, legacyRule, legacyEnd] ++ rest) = strip false rest := by
    simp only [List.cons_append, List.nil_append, strip, if_true, legacyRule_ne_begin,
      legacyRule_ne_end, legacyEnd_ne_begin, if_false]
  have hlast := strip_other hafter []
  rw [List.append_nil] at hlast
  rw [h.eq, List.append_assoc, strip_other hbefore, hblock, hlast, strip, List.append_nil]

end PamSetup

end KFaceAuth
