import KFaceAuth.Lib.Text

/-!
# Texts as lists of lines

A text is the same as its lines with their ends (`splitInclusive`): all lines but
the last end with a newline (`Lined`), and lines of this form are those of the
text that they make up.

* `splitInclusive_flatten`: lines are those of the text that they make up;
* `Lined.filter`, `Lined.terminate_concat`: lines that are left out or added;
* `trim_withoutEnd`: the end of a line does not matter where it is trimmed.
-/

namespace KFaceAuth

namespace Text

/-! ## Lines with their ends -/

/-- A line: not empty, with a newline only at its end. -/
def Line (line : List Char) : Prop := line ≠ [] ∧ '\n' ∉ line.dropLast

/-- The line ends with a newline. -/
def Terminated (line : List Char) : Prop := line.getLast? = some '\n'

/-- Lines of a text: all but the last are terminated. -/
def Lined : List (List Char) → Prop
  | [] => True
  | line :: lines => Line line ∧ (lines ≠ [] → Terminated line) ∧ Lined lines

theorem line_singleton (c : Char) : Line [c] := ⟨List.cons_ne_nil _ _, List.not_mem_nil⟩

theorem Line.cons {c : Char} {line : List Char} (h : Line line) (hc : c ≠ '\n') :
    Line (c :: line) := by
  refine ⟨List.cons_ne_nil _ _, ?_⟩
  rw [List.dropLast_cons_of_ne_nil h.1, List.mem_cons, not_or]
  exact ⟨Ne.symm hc, h.2⟩

theorem terminated_cons {c : Char} {line : List Char} (h : line ≠ []) :
    Terminated (c :: line) ↔ Terminated line := by
  rw [Terminated, Terminated, List.getLast?_cons, List.getLast?_eq_some_getLast h]
  rfl

theorem lined_splitInclusive (text : List Char) : Lined (splitInclusive text) := by
  induction text with
  | nil => trivial
  | cons c text ih =>
    rw [splitInclusive]
    split_ifs with hc
    · exact ⟨line_singleton c, fun _ => by rw [hc]; rfl, ih⟩
    · split
      · exact ⟨line_singleton c, fun h => absurd rfl h, trivial⟩
      · next line lines heq =>
        rw [heq] at ih
        obtain ⟨hline, hend, hlines⟩ := ih
        exact ⟨hline.cons hc, fun h => (terminated_cons hline.1).2 (hend h), hlines⟩

/-- A line in front of a text, if it is terminated or nothing follows. -/
theorem splitInclusive_append {line text : List Char} (hline : Line line)
    (h : text ≠ [] → Terminated line) :
    splitInclusive (line ++ text) = line :: splitInclusive text := by
  induction line with
  | nil => exact absurd rfl hline.1
  | cons c line ih =>
    rcases eq_or_ne line [] with rfl | hne
    · rw [List.singleton_append, splitInclusive]
      split_ifs with hc
      · rfl
      · obtain rfl : text = [] := by
          by_contra htext
          exact hc (Option.some.inj (h htext))
        rfl
    · have hline' := hline.2
      rw [List.dropLast_cons_of_ne_nil hne, List.mem_cons, not_or] at hline'
      have := ih ⟨hne, hline'.2⟩ fun htext => (terminated_cons hne).1 (h htext)
      rw [List.cons_append, splitInclusive, if_neg (Ne.symm hline'.1), this]

/-- Lines are those of the text that they make up. -/
theorem splitInclusive_flatten {lines : List (List Char)} (h : Lined lines) :
    splitInclusive lines.flatten = lines := by
  induction lines with
  | nil => rfl
  | cons line lines ih =>
    obtain ⟨hline, hend, hlines⟩ := h
    rw [List.flatten_cons, splitInclusive_append hline, ih hlines]
    intro htext
    refine hend ?_
    rintro rfl
    exact htext rfl

theorem Lined.filter {lines : List (List Char)} (h : Lined lines) (p : List Char → Bool) :
    Lined (lines.filter p) := by
  induction lines with
  | nil => trivial
  | cons line lines ih =>
    obtain ⟨hline, hend, hlines⟩ := h
    rw [List.filter_cons]
    split_ifs
    · refine ⟨hline, fun hne => hend ?_, ih hlines⟩
      rintro rfl
      exact hne rfl
    · exact ih hlines

/-! ## The last newline -/

/-- A line with a newline at its end. -/
def terminateLine (line : List Char) : List Char :=
  if line.getLast? = some '\n' then line else line ++ ['\n']

/-- The lines with a newline at the end of the last, added where it is missing. -/
def terminate : List (List Char) → List (List Char)
  | [] => []
  | [line] => [terminateLine line]
  | line :: lines => line :: terminate lines

theorem terminated_terminateLine (line : List Char) : Terminated (terminateLine line) := by
  unfold terminateLine
  split_ifs with h
  · exact h
  · rw [Terminated, List.getLast?_append]
    rfl

theorem Line.terminateLine {line : List Char} (h : Line line) : Line (terminateLine line) := by
  unfold Text.terminateLine
  split_ifs with hend
  · exact h
  · refine ⟨by simp, ?_⟩
    rw [List.dropLast_concat]
    intro hmem
    rw [← List.dropLast_concat_getLast h.1] at hmem
    rcases List.mem_append.1 hmem with hmem | hmem
    · exact h.2 hmem
    · rw [List.mem_singleton] at hmem
      exact hend (by rw [List.getLast?_eq_some_getLast h.1, ← hmem])

/-- A terminated line behind lines of a text. -/
theorem Lined.terminate_concat {lines : List (List Char)} (h : Lined lines) {line : List Char}
    (hline : Line line) : Lined (terminate lines ++ [line]) := by
  induction lines with
  | nil => exact ⟨hline, fun hne => absurd rfl hne, trivial⟩
  | cons first lines ih =>
    obtain ⟨hfirst, hend, hlines⟩ := h
    cases lines with
    | nil =>
      exact ⟨hfirst.terminateLine, fun _ => terminated_terminateLine first, hline,
        fun hne => absurd rfl hne, trivial⟩
    | cons second lines =>
      exact ⟨hfirst, fun _ => hend (List.cons_ne_nil _ _), ih hlines⟩

/-- The newline is added to the text. -/
theorem flatten_terminate {lines : List (List Char)} (h : Lined lines) :
    (terminate lines).flatten =
      if lines.flatten ≠ [] ∧ lines.flatten.getLast? ≠ some '\n' then lines.flatten ++ ['\n']
      else lines.flatten := by
  induction lines with
  | nil => rfl
  | cons line lines ih =>
    obtain ⟨hline, hend, hlines⟩ := h
    cases lines with
    | nil =>
      simp only [terminate, List.flatten_cons, List.flatten_nil, List.append_nil, terminateLine]
      by_cases h : line.getLast? = some '\n' <;> simp [h, hline.1]
    | cons second lines =>
      have hne : (second :: lines).flatten ≠ [] := by
        rw [List.flatten_cons]
        exact List.append_ne_nil_of_left_ne_nil hlines.1.1 _
      have hlast : (line ++ (second :: lines).flatten).getLast? =
          (second :: lines).flatten.getLast? := by
        rw [List.getLast?_append, List.getLast?_eq_some_getLast hne]
        rfl
      have hflatten : (line :: second :: lines).flatten = line ++ (second :: lines).flatten :=
        List.flatten_cons
      rw [terminate, List.flatten_cons, ih hlines, hflatten, hlast]
      · by_cases h : (second :: lines).flatten.getLast? = some '\n'
        · rw [if_neg fun h' => h'.2 h, if_neg fun h' => h'.2 h]
        · rw [if_pos ⟨hne, h⟩, if_pos ⟨List.append_ne_nil_of_right_ne_nil _ hne, h⟩,
            List.append_assoc]
      · simp

theorem terminateLine_idem (line : List Char) :
    terminateLine (terminateLine line) = terminateLine line := by
  have hend : (terminateLine line).getLast? = some '\n' := terminated_terminateLine line
  rw [terminateLine, if_pos hend]

theorem terminate_idem (lines : List (List Char)) :
    terminate (terminate lines) = terminate lines := by
  fun_induction terminate lines with
  | case1 => rfl
  | case2 line => rw [terminate, terminateLine_idem]
  | case3 line lines hne ih =>
    rw [terminate, ih]
    intro h
    exact hne (by cases lines with
      | nil => rfl
      | cons line lines => cases lines <;> cases h)

theorem mem_terminate {line : List Char} {lines : List (List Char)} (h : line ∈ terminate lines) :
    ∃ line' ∈ lines, line = line' ∨ line = line' ++ ['\n'] := by
  fun_induction terminate lines with
  | case1 => cases h
  | case2 line' =>
    obtain rfl := List.mem_singleton.1 h
    refine ⟨line', List.mem_cons_self, ?_⟩
    unfold terminateLine
    split_ifs
    · exact .inl rfl
    · exact .inr rfl
  | case3 first lines hne ih =>
    rcases List.mem_cons.1 h with rfl | h
    · exact ⟨line, List.mem_cons_self, .inl rfl⟩
    · obtain ⟨line', hline', h⟩ := ih h
      exact ⟨line', List.mem_cons_of_mem _ hline', h⟩

/-! ## Blanks at the ends -/

/-- A text without the characters at its end that meet a condition. -/
def trimEndBy (p : Char → Bool) (text : List Char) : List Char :=
  (text.reverse.dropWhile p).reverse

variable {p : Char → Bool} {text : List Char}

theorem trimBy_eq (p : Char → Bool) (text : List Char) :
    trimBy p text = trimEndBy p (text.dropWhile p) := rfl

theorem trimEndBy_concat {c : Char} (hc : p c = true) (text : List Char) :
    trimEndBy p (text ++ [c]) = trimEndBy p text := by
  rw [trimEndBy, List.reverse_append, List.reverse_singleton, List.singleton_append,
    List.dropWhile_cons_of_pos hc, trimEndBy]

theorem trimBy_concat {c : Char} (hc : p c = true) (text : List Char) :
    trimBy p (text ++ [c]) = trimBy p text := by
  rw [trimBy_eq, trimBy_eq, List.dropWhile_append]
  split_ifs with h
  · rw [List.isEmpty_iff.1 h, List.dropWhile_cons_of_pos hc]
    rfl
  · exact trimEndBy_concat hc _

theorem trim_withoutEnd (line : List Char) : trim (withoutEnd line) = trim line := by
  have hend : ∀ {c : Char} {line : List Char}, isWhitespace c = true → line.getLast? = some c →
      trim line.dropLast = trim line := by
    intro c line hc hlast
    obtain ⟨front, rfl⟩ := List.getLast?_eq_some_iff.1 hlast
    rw [List.dropLast_concat]
    exact (trimBy_concat hc front).symm
  unfold withoutEnd
  split_ifs with hnewline
  · dsimp only
    split_ifs with hreturn
    · rw [hend (by decide) hreturn, hend (by decide) hnewline]
    · exact hend (by decide) hnewline
  · rfl

/-- What stands before a character that is not trimmed stays. -/
theorem trimEndBy_append_cons {d : Char} (hd : p d = false) (front : List Char) :
    trimEndBy p (front ++ d :: text) = front ++ d :: trimEndBy p text := by
  rw [trimEndBy, List.reverse_append, List.reverse_cons, List.append_assoc, List.dropWhile_append]
  split_ifs with h
  · rw [List.singleton_append, List.dropWhile_cons_of_neg (by simp [hd]), trimEndBy,
      List.isEmpty_iff.1 h]
    simp
  · rw [trimEndBy]
    simp

theorem trimBy_cons {c : Char} (hc : p c = false) (text : List Char) :
    trimBy p (c :: text) = c :: trimEndBy p text := by
  rw [trimBy_eq, List.dropWhile_cons_of_neg (by simp [hc])]
  exact trimEndBy_append_cons hc []

theorem trimBy_of_forall (h : ∀ c ∈ text, p c = false) : trimBy p text = text := by
  have hdrop : ∀ text : List Char, (∀ c ∈ text, p c = false) → text.dropWhile p = text := by
    intro text h
    cases text with
    | nil => rfl
    | cons c text => exact List.dropWhile_cons_of_neg (by simp [h c List.mem_cons_self])
  rw [trimBy_eq, hdrop text h, trimEndBy,
    hdrop _ fun c hc => h c (List.mem_reverse.1 hc), List.reverse_reverse]

theorem mem_of_mem_trimBy {c : Char} (h : c ∈ trimBy p text) : c ∈ text := by
  rw [trimBy, List.mem_reverse] at h
  exact (List.dropWhile_suffix p).mem (List.mem_reverse.1 ((List.dropWhile_suffix p).mem h))

theorem trimBy_trimEndBy (text : List Char) : trimBy p (trimEndBy p text) = trimBy p text := by
  induction text using List.reverseRecOn with
  | nil => rfl
  | append_singleton text c ih =>
    by_cases hc : p c = true
    · rw [trimEndBy_concat hc, trimBy_concat hc, ih]
    · rw [trimEndBy, List.reverse_append, List.reverse_singleton, List.singleton_append,
        List.dropWhile_cons_of_neg hc, ← List.singleton_append, List.reverse_append,
        List.reverse_reverse, List.reverse_singleton]

theorem dropWhile_eq_self_iff : text.dropWhile p = text ↔ ∀ c ∈ text.head?, p c = false := by
  cases text with
  | nil => simp
  | cons c text =>
    by_cases hc : p c = true
    · have hlen := (List.dropWhile_suffix (l := text) p).length_le
      rw [List.dropWhile_cons_of_pos hc]
      refine ⟨fun h => ?_, fun h => ?_⟩
      · rw [h, List.length_cons] at hlen
        omega
      · rw [h c rfl] at hc
        cases hc
    · rw [List.dropWhile_cons_of_neg hc]
      simpa using hc

/-- What is trimmed at the ends is nothing when the text stays as it is. -/
theorem dropWhile_of_trimBy (h : trimBy p text = text) :
    text.dropWhile p = text ∧ text.reverse.dropWhile p = text.reverse := by
  have hfront : text.dropWhile p = text := by
    refine (List.dropWhile_suffix p).eq_of_length (Nat.le_antisymm
      (List.dropWhile_suffix p).length_le ?_)
    have hlen := (List.dropWhile_suffix (l := (text.dropWhile p).reverse) p).length_le
    have heq := congrArg List.length h
    rw [trimBy, List.length_reverse] at heq
    rw [List.length_reverse] at hlen
    omega
  rw [trimBy, hfront] at h
  exact ⟨hfront, List.reverse_inj.1 (by rw [h, List.reverse_reverse])⟩

/-- Nothing is trimmed of a text without such characters at its ends. -/
theorem trimBy_eq_self_iff : trimBy p text = text ↔
    (∀ c ∈ text.head?, p c = false) ∧ ∀ c ∈ text.getLast?, p c = false := by
  rw [← dropWhile_eq_self_iff, ← List.head?_reverse, ← dropWhile_eq_self_iff]
  refine ⟨dropWhile_of_trimBy, fun ⟨hfront, hend⟩ => ?_⟩
  rw [trimBy, hfront, hend, List.reverse_reverse]

theorem trimEndBy_of_trimBy (h : trimBy p text = text) : trimEndBy p text = text := by
  rw [trimEndBy, (dropWhile_of_trimBy h).2, List.reverse_reverse]

end Text

end KFaceAuth
