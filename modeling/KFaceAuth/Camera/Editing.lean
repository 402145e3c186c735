import KFaceAuth.Camera.Config
import KFaceAuth.Lib.Lines

/-!
# Editing the configuration

What `setting` reads of a configuration that `replacement` has edited. The
characters that `--set` refuses in a path (`admitted`) do not include all that
the configuration treats in its own way: a backslash at the end of a path leaves
the line escaped, and other blanks than those of ASCII at its ends are trimmed.

* `editing_iff`: the laws of editing hold for a path that reads back (`ReadsBack`),
  behind one that leaves no line escaped (`Closed`), and for no other.
-/

namespace KFaceAuth

namespace Camera

open Text

/-- The check of the characters and the length of a path in `run`, for `--set`. -/
def admitted (path : List Char) : Bool :=
  (encodeUtf8 path).length ≤ 4096 && path.all fun c =>
    !(c = '\n' || c = '\r' || c = Char.ofNat 0 || c = '=' || c = doubleQuote || c = singleQuote ||
      c = ' ' || c = '\t')

/-- The lines of a configuration that do not set the camera. -/
def keptLines (bytes : List UInt8) : List (List Char) :=
  (splitInclusive ((decodeUtf8 bytes).getD [])).filter fun line => !isSetting line

/-- The laws of editing, for a configuration, what it is set to and what after that. -/
structure Laws (bytes : List UInt8) (selected : Option (List Char)) (path : List Char) : Prop where
  /-- The other lines stay, but for a newline that was missing at the end. -/
  keeps : ∃ result, replacement bytes selected = .ok result ∧
    (keptLines result = keptLines bytes ∨ keptLines result = terminate (keptLines bytes))
  /-- What is set is read back. -/
  reads : (replacement bytes (some path) >>= setting) = .ok (some path)
  /-- Nothing is read back when it is reset. -/
  resets : (replacement bytes none >>= setting) = .ok none
  /-- What was set before does not matter. -/
  replaces : (replacement bytes selected >>= fun result => replacement result (some path)) =
    replacement bytes (some path)

/-- How many backslashes a text ends with. -/
def backslashes (text : List Char) : ℕ := (text.reverse.takeWhile (· = backslash)).length

/-- The last character of the text is not escaped. -/
def Closed (text : List Char) : Prop := backslashes text % 2 = 0

instance (text : List Char) : Decidable (Closed text) := inferInstanceAs (Decidable (_ = _))

/-- A path that is read back: it is not empty, has no blanks at its ends, and its
    end is not escaped. -/
def ReadsBack (path : List Char) : Prop :=
  path ≠ [] ∧ (∀ c ∈ path.head?, isWhitespace c = false) ∧
    (∀ c ∈ path.getLast?, isWhitespace c = false) ∧ Closed path

/-! ## Lines -/

/-- The value of a line that sets the camera. -/
def value (line : List Char) : List Char :=
  match splitOnce (trim line) with
  | none => []
  | some (_, entry) => trimBy (· = singleQuote) (trimBy (· = doubleQuote) (trim entry))

theorem splitOnce_eq_some {text name entry : List Char} (h : splitOnce text = some (name, entry)) :
    text = name ++ '=' :: entry := by
  induction text generalizing name with
  | nil => cases h
  | cons c text ih =>
    rw [splitOnce] at h
    split_ifs at h with hc
    · cases h
      rw [hc]
      rfl
    · obtain ⟨⟨name', entry'⟩, hrest, h⟩ := Option.map_eq_some_iff.1 h
      cases h
      rw [ih hrest]
      rfl

theorem splitOnce_append {name : List Char} (h : '=' ∉ name) (entry : List Char) :
    splitOnce (name ++ '=' :: entry) = some (name, entry) := by
  induction name with
  | nil => rfl
  | cons c name ih =>
    rw [List.mem_cons, not_or] at h
    rw [List.cons_append, splitOnce, if_neg (Ne.symm h.1), ih h.2]
    rfl

/-- A line that sets the camera is no comment. -/
theorem not_isComment_of_isSetting {line : List Char} (h : isSetting line = true) :
    isComment (trim line) = false := by
  unfold isSetting at h
  split at h
  · cases h
  · next name entry hsplit =>
    have hname : trim name = key := by simpa using h
    have htext := splitOnce_eq_some hsplit
    -- the first character of the name is that of the key, behind blanks
    rw [htext]
    cases name with
    | nil => exact absurd hname (by decide)
    | cons c name =>
      have hfirst : ∀ d : Char, isWhitespace d = false → d ≠ 'K' → c ≠ d := by
        rintro d hd hne rfl
        rw [trim, trimBy_cons hd] at hname
        exact hne (List.cons.inj hname).1
      simp [isComment, hfirst '#' (by decide) (by decide), hfirst ';' (by decide) (by decide)]

/-- What `setting` makes of the values of the lines that set the camera. -/
def ofValues : List (List Char) → Option (List Char) → Except ConfigError (Option (List Char))
  | [], v => .ok v
  | [x], none => .ok (some x)
  | _, _ => .error .duplicateSetting

theorem settingLoop_eq (ls : List (List Char)) (v : Option (List Char)) :
    settingLoop ls v = ofValues ((ls.filter isSetting).map value) v := by
  induction ls generalizing v with
  | nil => rfl
  | cons line ls ih =>
    rw [settingLoop]
    by_cases hline : isSetting line = true
    · rw [if_neg (by simp [not_isComment_of_isSetting hline]), List.filter_cons_of_pos hline,
        List.map_cons]
      unfold isSetting at hline
      split at hline
      · cases hline
      · next name entry hsplit =>
        have hname : trim name = key := by simpa using hline
        have hvalue : value line =
            trimBy (· = singleQuote) (trimBy (· = doubleQuote) (trim entry)) := by
          rw [value, hsplit]
        dsimp only
        rw [if_pos hname, ← hvalue]
        cases v with
        | some v => cases (ls.filter isSetting).map value <;> rfl
        | none =>
          rw [if_neg (by decide), ih]
          rcases (ls.filter isSetting).map value with _ | ⟨x, _ | ⟨y, values⟩⟩ <;> rfl
    · rw [List.filter_cons_of_neg hline, ← ih]
      by_cases hcomment : isComment (trim line) = true
      · rw [if_pos hcomment]
      · rw [if_neg hcomment]
        unfold isSetting at hline
        split
        · rfl
        · next name entry hsplit =>
          rw [hsplit] at hline
          rw [if_neg (by simpa using hline)]

theorem isSetting_withoutEnd (line : List Char) : isSetting (withoutEnd line) = isSetting line := by
  rw [isSetting, trim_withoutEnd, isSetting]

theorem validLine_withoutEnd (line : List Char) : validLine (withoutEnd line) = validLine line := by
  rw [validLine, trim_withoutEnd, validLine]

theorem value_withoutEnd (line : List Char) : value (withoutEnd line) = value line := by
  rw [value, trim_withoutEnd, value]

/-- `setting`, by the lines of the text with their ends. -/
theorem setting_eq {bytes : List UInt8} {text : List Char} (h : decodeUtf8 bytes = some text) :
    setting bytes =
      if (splitInclusive text).all validLine then
        (ofValues (((splitInclusive text).filter isSetting).map value) none).map
          (Option.filter fun item => !item.isEmpty)
      else .error .unsupportedConfig := by
  have hvalid : (lines text).all validLine = (splitInclusive text).all validLine := by
    rw [lines, List.all_map]
    exact congrArg _ (funext fun line => validLine_withoutEnd line)
  have hvalues : ((lines text).filter isSetting).map value =
      ((splitInclusive text).filter isSetting).map value := by
    rw [lines, List.filter_map, List.map_map]
    have hsetting : isSetting ∘ withoutEnd = isSetting := funext isSetting_withoutEnd
    have hvalue : value ∘ withoutEnd = value := funext value_withoutEnd
    rw [hsetting, hvalue]
  rw [setting, h]
  dsimp only
  rw [validateLines, hvalid, settingLoop_eq, hvalues]
  split_ifs
  · cases ofValues (((splitInclusive text).filter isSetting).map value) none <;> rfl
  · rfl

/-! ## The line that is added -/

/-- The line that `replacement` adds. -/
def settingLine (path : List Char) : List Char := key ++ '=' :: (path ++ ['\n'])

theorem trim_settingLine (path : List Char) :
    trim (settingLine path) = key ++ '=' :: trimEndBy isWhitespace path := by
  have hline : settingLine path = (key ++ '=' :: path) ++ ['\n'] := by simp [settingLine]
  rw [hline, trim, trimBy_concat (by decide), trimBy_eq]
  exact trimEndBy_append_cons (by decide) key

theorem splitOnce_settingLine (path : List Char) :
    splitOnce (trim (settingLine path)) = some (key, trimEndBy isWhitespace path) := by
  rw [trim_settingLine]
  exact splitOnce_append (by decide) _

theorem isSetting_settingLine (path : List Char) : isSetting (settingLine path) = true := by
  have hkey : trim key = key := by decide
  rw [isSetting, splitOnce_settingLine]
  exact decide_eq_true hkey

variable {path : List Char}

theorem not_mem_of_admitted (h : admitted path = true) :
    '\n' ∉ path ∧ doubleQuote ∉ path ∧ singleQuote ∉ path := by
  rw [admitted, Bool.and_eq_true, List.all_eq_true] at h
  refine ⟨fun hmem => ?_, fun hmem => ?_, fun hmem => ?_⟩
  · exact absurd (h.2 _ hmem) (by decide)
  · exact absurd (h.2 _ hmem) (by decide)
  · exact absurd (h.2 _ hmem) (by decide)

theorem value_settingLine (h : admitted path = true) : value (settingLine path) = trim path := by
  obtain ⟨-, hdouble, hsingle⟩ := not_mem_of_admitted h
  have hno : ∀ {d : Char} {text : List Char}, d ∉ text → ∀ c ∈ text, decide (c = d) = false := by
    rintro d text hd c hc
    exact decide_eq_false fun heq => hd (heq ▸ hc)
  rw [value, splitOnce_settingLine]
  dsimp only
  rw [trim, trimBy_trimEndBy,
    trimBy_of_forall (hno fun hmem => hdouble (mem_of_mem_trimBy hmem)),
    trimBy_of_forall (hno fun hmem => hsingle (mem_of_mem_trimBy hmem)), trim]

theorem line_settingLine (h : admitted path = true) : Line (settingLine path) := by
  have hline : settingLine path = (key ++ '=' :: path) ++ ['\n'] := by simp [settingLine]
  refine ⟨by simp [hline], ?_⟩
  rw [hline, List.dropLast_concat, List.mem_append, List.mem_cons, not_or, not_or]
  exact ⟨by decide, by decide, (not_mem_of_admitted h).1⟩

/-! ## Escapes -/

theorem scanValue_append (v v' : List Char) (quote : Option Char) (escaped : Bool) :
    scanValue (v ++ v') quote escaped =
      scanValue v' (scanValue v quote escaped).1 (scanValue v quote escaped).2 := by
  induction v generalizing quote escaped with
  | nil => rfl
  | cons c v ih =>
    rw [List.cons_append, scanValue, scanValue]
    split_ifs <;> exact ih _ _

theorem backslashes_concat (text : List Char) (c : Char) :
    backslashes (text ++ [c]) = if c = backslash then backslashes text + 1 else 0 := by
  rw [backslashes, List.reverse_append, List.reverse_singleton, List.singleton_append,
    List.takeWhile_cons]
  split_ifs with hc hc' hc'
  · rfl
  · simp at hc
    exact absurd hc hc'
  · simp at hc
    exact absurd hc' hc
  · rfl

/-- Without quotes, the end is escaped by an odd number of backslashes. -/
theorem scanValue_eq {text : List Char} (h : doubleQuote ∉ text ∧ singleQuote ∉ text) :
    scanValue text none false = (none, decide (backslashes text % 2 = 1)) := by
  induction text using List.reverseRecOn with
  | nil => rfl
  | append_singleton text c ih =>
    simp only [List.mem_append, List.mem_singleton, not_or] at h
    obtain ⟨⟨hdouble, hc⟩, hsingle, hc'⟩ := h
    have hquote : ¬ (c = singleQuote ∨ c = doubleQuote) :=
      not_or.2 ⟨Ne.symm hc', Ne.symm hc⟩
    rw [scanValue_append, ih ⟨hdouble, hsingle⟩, backslashes_concat]
    dsimp only
    rw [scanValue]
    by_cases hodd : backslashes text % 2 = 1
    · have heven : ¬ (if c = backslash then backslashes text + 1 else 0) % 2 = 1 := by
        by_cases hback : c = backslash
        · rw [if_pos hback]
          omega
        · rw [if_neg hback]
          decide
      rw [if_pos (decide_eq_true hodd), scanValue, decide_eq_false heven]
    · rw [if_neg (by simpa using hodd)]
      by_cases hback : c = backslash
      · have hodd' : (backslashes text + 1) % 2 = 1 := by omega
        rw [if_pos ⟨hback, by decide⟩, if_pos hback, scanValue, decide_eq_true hodd']
      · rw [if_neg fun h => hback h.1, if_neg hquote, if_neg hback, scanValue]
        rfl

theorem closed_iff {text : List Char} (h : doubleQuote ∉ text ∧ singleQuote ∉ text) :
    scanValue text none false = (none, false) ↔ Closed text := by
  rw [scanValue_eq h, Closed, Prod.mk.injEq, decide_eq_false_iff_not, eq_self_iff_true, true_and]
  omega

theorem validLine_settingLine (h : admitted path = true) :
    validLine (settingLine path) = true ↔ Closed (trimEndBy isWhitespace path) := by
  obtain ⟨-, hdouble, hsingle⟩ := not_mem_of_admitted h
  have hsub : ∀ {c : Char}, c ∈ trimEndBy isWhitespace path → c ∈ path := fun hmem =>
    List.mem_reverse.1 ((List.dropWhile_suffix _).mem (List.mem_reverse.1 hmem))
  rw [validLine, if_neg (by simp [not_isComment_of_isSetting (isSetting_settingLine path)]),
    splitOnce_settingLine, decide_eq_true_eq,
    closed_iff ⟨fun hmem => hdouble (hsub hmem), fun hmem => hsingle (hsub hmem)⟩]

/-! ## Replacements -/

variable {bytes : List UInt8} {text : List Char} {selected : Option (List Char)}

/-- The lines of the replacement. -/
def replacementLines (text : List Char) (selected : Option (List Char)) : List (List Char) :=
  let kept := (splitInclusive text).filter fun line => !isSetting line
  match selected with
  | none => kept
  | some path => terminate kept ++ [settingLine path]

theorem lined_replacementLines (h : ∀ path ∈ selected, admitted path = true) :
    Lined (replacementLines text selected) := by
  have hkept := (lined_splitInclusive text).filter fun line => !isSetting line
  cases selected with
  | none => exact hkept
  | some path => exact hkept.terminate_concat (line_settingLine (h path rfl))

theorem replacement_eq (hdecode : decodeUtf8 bytes = some text) {v : Option (List Char)}
    (hsetting : setting bytes = .ok v) :
    replacement bytes selected = .ok (encodeUtf8 (replacementLines text selected).flatten) := by
  rw [replacement, hsetting]
  change (match decodeUtf8 bytes with
    | none => _
    | some text => _) = _
  rw [hdecode]
  cases selected with
  | none => rfl
  | some path =>
    have hkept := (lined_splitInclusive text).filter fun line => !isSetting line
    dsimp only
    rw [replacementLines, List.flatten_append, flatten_terminate hkept]
    simp only [List.append_assoc, settingLine, List.flatten_singleton, List.cons_append,
      List.nil_append]
    rfl

/-! ### Lines that stay -/

theorem isSetting_concat (line : List Char) : isSetting (line ++ ['\n']) = isSetting line := by
  rw [isSetting, trim, trimBy_concat (by decide), ← trim, isSetting]

theorem validLine_concat (line : List Char) : validLine (line ++ ['\n']) = validLine line := by
  rw [validLine, trim, trimBy_concat (by decide), ← trim, validLine]

/-- A newline at the end changes no line that stays. -/
theorem mem_terminate_kept {line : List Char} {lines : List (List Char)}
    (h : line ∈ terminate lines) : ∃ line' ∈ lines, isSetting line = isSetting line' ∧
      validLine line = validLine line' := by
  obtain ⟨line', hmem, rfl | rfl⟩ := mem_terminate h
  · exact ⟨line, hmem, rfl, rfl⟩
  · exact ⟨line', hmem, isSetting_concat line', validLine_concat line'⟩

/-- The lines that stay, with a newline at the end, set no camera. -/
theorem isSetting_of_mem_terminate {line : List Char} {lines : List (List Char)}
    (h : line ∈ terminate (lines.filter fun line => !isSetting line)) : isSetting line = false := by
  obtain ⟨line', hmem, hsetting, -⟩ := mem_terminate_kept h
  rw [hsetting]
  simpa using (List.mem_filter.1 hmem).2

theorem filter_replacementLines (text : List Char) (selected : Option (List Char)) :
    (replacementLines text selected).filter isSetting = (selected.map settingLine).toList ∧
    (replacementLines text selected).filter (fun line => !isSetting line) =
      let kept := (splitInclusive text).filter fun line => !isSetting line
      match selected with
      | none => kept
      | some _ => terminate kept := by
  cases selected with
  | none =>
    refine ⟨?_, ?_⟩
    · rw [replacementLines, List.filter_filter, List.filter_eq_nil_iff.2]
      · rfl
      · intro line _
        simp
    · rw [replacementLines, List.filter_filter]
      simp
  | some path =>
    have hkept : ∀ line ∈ terminate ((splitInclusive text).filter fun line => !isSetting line),
        isSetting line = false := fun _ => isSetting_of_mem_terminate
    refine ⟨?_, ?_⟩
    · rw [replacementLines, List.filter_append, List.filter_eq_nil_iff.2,
        List.filter_cons_of_pos (isSetting_settingLine path)]
      · rfl
      · intro line hline
        simp [hkept line hline]
    · rw [replacementLines, List.filter_append, List.filter_eq_self.2,
        List.filter_cons_of_neg (by simp [isSetting_settingLine])]
      · simp
      · intro line hline
        simp [hkept line hline]

theorem all_validLine_replacementLines (hvalid : (splitInclusive text).all validLine = true) :
    (replacementLines text selected).all validLine =
      selected.all fun path => validLine (settingLine path) := by
  rw [List.all_eq_true] at hvalid
  cases selected with
  | none => exact List.all_eq_true.2 fun line hline => hvalid line (List.mem_filter.1 hline).1
  | some path =>
    have hkept : (terminate ((splitInclusive text).filter fun line => !isSetting line)).all
        validLine = true := by
      refine List.all_eq_true.2 fun line hline => ?_
      obtain ⟨line', hmem, -, hline'⟩ := mem_terminate_kept hline
      rw [hline']
      exact hvalid line' (List.mem_filter.1 hmem).1
    rw [replacementLines, List.all_append, hkept, Bool.true_and, List.all_cons, List.all_nil,
      Bool.and_true]
    rfl

/-- What is read of a replacement, by the lines of it. -/
theorem setting_replacement (h : ∀ path ∈ selected, admitted path = true) :
    setting (encodeUtf8 (replacementLines text selected).flatten) =
      if (replacementLines text selected).all validLine then
        (ofValues (((selected.map settingLine).toList).map value) none).map
          (Option.filter fun item => !item.isEmpty)
      else .error .unsupportedConfig := by
  rw [setting_eq (decodeUtf8_encodeUtf8 _), splitInclusive_flatten (lined_replacementLines h),
    (filter_replacementLines text selected).1]

/-- Nothing is read when the camera is reset. -/
theorem setting_reset (hvalid : (splitInclusive text).all validLine = true) :
    setting (encodeUtf8 (replacementLines text none).flatten) = .ok none := by
  rw [setting_replacement (by simp), all_validLine_replacementLines hvalid]
  rfl

/-- What is read when a path is set. -/
theorem setting_set (hvalid : (splitInclusive text).all validLine = true)
    (h : admitted path = true) :
    setting (encodeUtf8 (replacementLines text (some path)).flatten) =
      if validLine (settingLine path) then .ok (if trim path = [] then none else some (trim path))
      else .error .unsupportedConfig := by
  rw [setting_replacement (by simpa using h), all_validLine_replacementLines hvalid]
  dsimp only [Option.all_some, Option.map_some, Option.toList_some]
  rw [List.map_singleton, value_settingLine h]
  split_ifs with hline hempty
  · rw [hempty]
    rfl
  · simp [ofValues, Except.map, Option.filter, hempty]
  · rfl

/-- A path is read back as it was set. -/
theorem setting_set_iff (hvalid : (splitInclusive text).all validLine = true)
    (h : admitted path = true) :
    setting (encodeUtf8 (replacementLines text (some path)).flatten) = .ok (some path) ↔
      ReadsBack path := by
  rw [setting_set hvalid h]
  constructor
  · intro hread
    split_ifs at hread with hline hempty
    · cases hread
    have htrim : trim path = path := Option.some.inj (Except.ok.inj hread)
    obtain ⟨hfront, hend⟩ := trimBy_eq_self_iff.1 htrim
    have hclosed := (validLine_settingLine h).1 hline
    rw [trimEndBy_of_trimBy htrim] at hclosed
    exact ⟨fun hpath => hempty (by rw [htrim, hpath]), hfront, hend, hclosed⟩
  · rintro ⟨hne, hfront, hend, hclosed⟩
    have htrim : trim path = path := trimBy_eq_self_iff.2 ⟨hfront, hend⟩
    rw [if_pos, htrim, if_neg hne]
    rwa [validLine_settingLine h, trimEndBy_of_trimBy htrim]

/-- The lines of a replacement of a replacement. -/
theorem replacementLines_replacementLines (h : ∀ path ∈ selected, admitted path = true)
    (path : List Char) :
    replacementLines (replacementLines text selected).flatten (some path) =
      replacementLines text (some path) := by
  rw [replacementLines, splitInclusive_flatten (lined_replacementLines h),
    (filter_replacementLines text selected).2]
  cases selected with
  | none => rfl
  | some path' =>
    dsimp only
    rw [terminate_idem]
    rfl

/-- A second replacement is as if it were the first, unless it is refused. -/
theorem replacement_replacement_iff (hvalid : (splitInclusive text).all validLine = true)
    (h : ∀ path ∈ selected, admitted path = true) (path : List Char) :
    replacement (encodeUtf8 (replacementLines text selected).flatten) (some path) =
        .ok (encodeUtf8 (replacementLines text (some path)).flatten) ↔
      ∀ path ∈ selected, Closed (trimEndBy isWhitespace path) := by
  have hreplace : ∀ {v}, setting (encodeUtf8 (replacementLines text selected).flatten) = .ok v →
      replacement (encodeUtf8 (replacementLines text selected).flatten) (some path) =
        .ok (encodeUtf8 (replacementLines text (some path)).flatten) := by
    intro v hv
    rw [replacement_eq (decodeUtf8_encodeUtf8 _) hv, replacementLines_replacementLines h]
  cases selected with
  | none =>
    refine ⟨fun _ path' hmem => ?_, fun _ => hreplace (setting_reset hvalid)⟩
    cases hmem
  | some path' =>
    have hset := setting_set hvalid (h path' rfl)
    by_cases hline : validLine (settingLine path') = true
    · rw [if_pos hline] at hset
      refine ⟨?_, fun _ => hreplace hset⟩
      rintro - _ ⟨⟩
      exact (validLine_settingLine (h path' rfl)).1 hline
    · rw [if_neg hline] at hset
      refine ⟨fun hok => ?_, fun hclosed => ?_⟩
      · rw [replacement, hset] at hok
        cases hok
      · exact absurd ((validLine_settingLine (h path' rfl)).2 (hclosed path' rfl)) hline

/-- What is known of a configuration that is read. -/
theorem valid_of_setting {v : Option (List Char)} (h : setting bytes = .ok v) :
    ∃ text, decodeUtf8 bytes = some text ∧ (splitInclusive text).all validLine = true := by
  cases hdecode : decodeUtf8 bytes with
  | none =>
    rw [setting, hdecode] at h
    cases h
  | some text =>
    rw [setting_eq hdecode] at h
    split_ifs at h with hvalid
    exact ⟨text, rfl, hvalid⟩

/-- The laws of editing hold for a path that reads back, behind one whose line is
    not escaped at its end, and for no other. -/
theorem editing_iff {v : Option (List Char)} (hsetting : setting bytes = .ok v)
    (hselected : ∀ path ∈ selected, admitted path = true) (hpath : admitted path = true) :
    Laws bytes selected path ↔
      ReadsBack path ∧ ∀ path ∈ selected, Closed (trimEndBy isWhitespace path) := by
  obtain ⟨text, hdecode, hvalid⟩ := valid_of_setting hsetting
  have hreplacement : ∀ selected, replacement bytes selected =
      .ok (encodeUtf8 (replacementLines text selected).flatten) :=
    fun selected => replacement_eq hdecode hsetting
  constructor
  · rintro ⟨-, hreads, -, hreplaces⟩
    rw [hreplacement] at hreads hreplaces
    rw [hreplacement] at hreplaces
    exact ⟨(setting_set_iff hvalid hpath).1 hreads,
      (replacement_replacement_iff hvalid hselected path).1 hreplaces⟩
  · rintro ⟨hreads, hclosed⟩
    refine ⟨⟨_, hreplacement selected, ?_⟩, ?_, ?_, ?_⟩
    · rw [keptLines, keptLines, hdecode, decodeUtf8_encodeUtf8, Option.getD_some,
        splitInclusive_flatten (lined_replacementLines hselected),
        (filter_replacementLines text selected).2]
      cases selected with
      | none => exact .inl rfl
      | some path' => exact .inr rfl
    · rw [hreplacement]
      exact (setting_set_iff hvalid hpath).2 hreads
    · rw [hreplacement]
      exact setting_reset hvalid
    · rw [hreplacement, hreplacement]
      exact (replacement_replacement_iff hvalid hselected path).2 hclosed

/-- A path that is set and reset, with a line of its own before it. -/
theorem editing_iff_video :
    Laws (ascii "OTHER=1") (some "/dev/video0".toList) "/dev/video1".toList := by
  have hset : ∀ path ∈ some "/dev/video0".toList, admitted path = true ∧
      Closed (trimEndBy isWhitespace path) := by
    rintro _ ⟨⟩
    decide +kernel
  have hascii : ("OTHER=1".toList.all fun c => c.toNat ≤ 0x7f) = true := by decide
  have hbytes : ascii "OTHER=1" = encodeUtf8 "OTHER=1".toList := by
    rw [encodeUtf8_of_ascii fun c hc => of_decide_eq_true (List.all_eq_true.mp hascii c hc)]
    rfl
  have hsetting : setting (ascii "OTHER=1") = .ok none := by
    rw [setting_eq (by rw [hbytes, decodeUtf8_encodeUtf8])]
    decide +kernel
  have hreads : ReadsBack "/dev/video1".toList := by
    refine ⟨by decide, ?_, ?_, by decide +kernel⟩
    · rintro _ ⟨⟩
      decide
    · rintro _ ⟨⟩
      decide
  exact (editing_iff hsetting (fun path h => (hset path h).1)
    (by decide +kernel)).2 ⟨hreads, fun path h => (hset path h).2⟩

/-- A backslash at the end of a path is admitted, and leaves its line escaped. -/
theorem editing_backslash : setting [] = .ok none ∧
    admitted ("/dev/v4l/by-path/usb".toList ++ [backslash]) = true ∧
    ¬ Laws [] none ("/dev/v4l/by-path/usb".toList ++ [backslash]) := by
  refine ⟨by decide +kernel, by decide +kernel, fun h => ?_⟩
  have hreads : (replacement [] (some ("/dev/v4l/by-path/usb".toList ++ [backslash])) >>= setting) =
      .error .unsupportedConfig := by decide +kernel
  rw [h.reads] at hreads
  cases hreads

end Camera

end KFaceAuth
