import KFaceAuth.Lib.Bytes
import KFaceAuth.Lib.Machine
import KFaceAuth.Preview.Session
import Mathlib.Data.List.Nodup
import Mathlib.Data.Nat.Digits.Defs
import Mathlib.Data.String.Basic

/-!
# The cameras that are found

`CameraProvider::discover` lists the cameras under random tokens, with labels made
of their descriptions, and the worker sends them to the session in a `devices`
record. A description is a `QString`, and its label is cut in UTF-16, while the
limit is on its UTF-8 bytes.

* `sanitize_eq`: what a label keeps of a description;
* `discover_spec`: a discovery returns, with distinct tokens, and a camera keeps the
  token that it has;
* `devices_accepted_iff`: the session accepts the record, and the cameras of the last
  discovery keep their tokens, exactly if no character of a label straddles the limit
  and none of these cameras was seen gone in between.
-/

namespace KFaceAuth

namespace Preview

/-! ## Texts -/

/-- A `QString`, in UTF-16. -/
abbrev QString := List UInt16

/-- The code units of a text in the Basic Multilingual Plane. -/
def qstring (s : String) : QString := s.toList.map fun c => c.val.toUInt16

def isHighSurrogate (u : UInt16) : Bool := 0xd800 ≤ u && u ≤ 0xdbff
def isLowSurrogate (u : UInt16) : Bool := 0xdc00 ≤ u && u ≤ 0xdfff

/-- The character of a code unit, and `replacement` for a lone surrogate. -/
def ofUnit (replacement : Char) (u : UInt16) : Char :=
  if isHighSurrogate u || isLowSurrogate u then replacement else Char.ofNat u.toNat

/-- The character of a surrogate pair. -/
def ofPair (u v : UInt16) : Char :=
  Char.ofNat (0x10000 + (u.toNat - 0xd800) * 0x400 + (v.toNat - 0xdc00))

/-- `QString::toUtf8`, as the text that it encodes. -/
def toUtf8 (replacement : Char) : QString → List Char
  | [] => []
  | [u] => [ofUnit replacement u]
  | u :: v :: s =>
    if isHighSurrogate u && isLowSurrogate v then ofPair u v :: toUtf8 replacement s
    else ofUnit replacement u :: toUtf8 replacement (v :: s)

/-- The size of `QString::toUtf8`. -/
def utf8Size (replacement : Char) (s : QString) : ℕ :=
  ((toUtf8 replacement s).map Char.utf8Size).sum

/-- `QChar::category` is `Other_Control`. -/
def isControl (u : UInt16) : Bool := u ≤ 0x1f || (0x7f ≤ u && u ≤ 0x9f)

/-- `QChar::isSpace`. -/
def isSpace (u : UInt16) : Bool :=
  u = 0x20 || (0x09 ≤ u && u ≤ 0x0d) || u = 0x85 || u = 0xa0 || u = 0x1680 ||
    (0x2000 ≤ u && u ≤ 0x200a) || u = 0x2028 || u = 0x2029 || u = 0x202f || u = 0x205f || u = 0x3000

/-- `QString::trimmed`. -/
def trimmed (s : QString) : QString :=
  ((s.dropWhile isSpace).reverse.dropWhile isSpace).reverse

/-! ## Labels -/

/-- The translations of the program. -/
inductive Language
  | english
  | swedish
  deriving DecidableEq, Repr

/-- `userText`, of the text `Camera`. -/
def Language.camera : Language → String
  | english => "Camera"
  | swedish => "Kamera"

/-- What the provider depends on: its language, and what `QString::toUtf8` writes for
    a lone surrogate. -/
structure Locale where
  language : Language
  replacement : Char

/-- The loop of `sanitizedLabel`. -/
def sanitize (locale : Locale) (sanitized : QString) : QString → QString
  | [] => sanitized
  | character :: label =>
    let sanitized := if isControl character then sanitized else sanitized ++ [character]
    if maxLabelBytes ≤ utf8Size locale.replacement sanitized then sanitized
    else sanitize locale sanitized label

/-- `sanitizedLabel`. -/
def sanitizedLabel (locale : Locale) (label : QString) : QString :=
  let sanitized := trimmed (sanitize locale [] label)
  if sanitized = [] then qstring locale.language.camera else sanitized

/-! ## Discovery -/

/-- A camera, as the library has it. -/
structure Input where
  id : List UInt8
  description : QString
  /-- `selectFormat` finds a format. -/
  usable : Bool
  spectrum : Spectrum
  deriving DecidableEq, Repr

/-- `CameraDescriptor`. -/
structure Descriptor where
  token : String
  label : QString
  spectrum : Spectrum
  id : List UInt8
  deriving DecidableEq, Repr

/-- `QString::number`, in base 16. -/
def hex (n : UInt64) : String := String.ofList (Nat.toDigits 16 n.toNat)

/-- The loop that draws a token that is not in use; `none`, if the draws do not
    suffice. -/
def freshToken (used : List String) : List UInt64 → Option (String × List UInt64)
  | [] => none
  | draw :: draws => if hex draw ∈ used then freshToken used draws else some (hex draw, draws)

/-- The loop of `tokensForDevices`. -/
def assignTokens (previous : List (List UInt8 × String)) (used : List String)
    (result : List (List UInt8 × String)) :
    List (List UInt8) → List UInt64 → Option (List (List UInt8 × String))
  | [], _ => some result
  | id :: ids, draws =>
    if (result.lookup id).isSome then assignTokens previous used result ids draws
    else
      let token := (previous.lookup id).getD ""
      if token ≠ "" then assignTokens previous used (result ++ [(id, token)]) ids draws
      else
        match freshToken used draws with
        | none => none
        | some (token, draws) =>
          assignTokens previous (token :: used) (result ++ [(id, token)]) ids draws

/-- `tokensForDevices`. -/
def tokensForDevices (ids : List (List UInt8)) (previous : List (List UInt8 × String))
    (draws : List UInt64) : Option (List (List UInt8 × String)) :=
  assignTokens previous (previous.map Prod.snd) [] ids draws

/-- The tokens of the devices so far, the last one first. -/
def previousTokens (devices : List Descriptor) : List (List UInt8 × String) :=
  devices.reverse.map fun d => (d.id, d.token)

/-- The sort of `discover`, which is stable: the infrared cameras come first. -/
def infraredFirst (devices : List Descriptor) : List Descriptor :=
  devices.filter (·.spectrum = .ir) ++ devices.filter (·.spectrum ≠ .ir)

/-- `discover`, from the devices of the discovery before. -/
def discover (locale : Locale) (devices : List Descriptor) (inputs : List Input)
    (draws : List UInt64) : Option (List Descriptor) :=
  let inputs := inputs.take maxDevices
  (tokensForDevices (inputs.map Input.id) (previousTokens devices) draws).map fun tokens =>
    infraredFirst ((inputs.filter Input.usable).map fun input =>
      { token := (tokens.lookup input.id).getD ""
        label := sanitizedLabel locale input.description
        spectrum := input.spectrum
        id := input.id })

/-- The handler of `videoInputsChanged`: cameras that are gone are forgotten. -/
def videoInputsChanged (devices : List Descriptor) (inputs : List Input) : List Descriptor :=
  devices.filter fun d => d.id ∈ inputs.map Input.id

/-- The `devices` record, as it is received. -/
def record (locale : Locale) (devices : List Descriptor) : List Device :=
  devices.map fun d =>
    ⟨d.token, String.ofList (toUtf8 locale.replacement d.label), d.spectrum⟩

/-- The devices of the provider, with those that the last discovery has found and the
    inputs of the changes since. -/
structure Provider where
  devices : List Descriptor := []
  found : List Descriptor := []
  changes : List (List Input) := []
  deriving DecidableEq, Repr

/-- What happens to the provider. -/
inductive ProviderEvent
  | discover (inputs : List Input) (draws : List UInt64)
  | videoInputsChanged (inputs : List Input)

/-- The provider, through discoveries whose inputs have distinct identifiers. -/
def provider (locale : Locale) : Machine Provider ProviderEvent where
  init := {}
  step p
    | .discover inputs draws =>
      if (inputs.map Input.id).Nodup then
        (discover locale p.devices inputs draws).map fun devices => ⟨devices, devices, []⟩
      else none
    | .videoInputsChanged inputs =>
      some { p with
        devices := videoInputsChanged p.devices inputs, changes := inputs :: p.changes }

/-- A camera was in the inputs of every change since the last discovery. -/
def Provider.Stayed (p : Provider) (id : List UInt8) : Prop :=
  ∀ inputs ∈ p.changes, id ∈ inputs.map Input.id

instance (p : Provider) (id : List UInt8) : Decidable (p.Stayed id) :=
  inferInstanceAs (Decidable (∀ inputs ∈ p.changes, _))

/-! ## What a label keeps -/

/-- The first `k` of the characters that are kept make the label: no fewer of them
    reach the limit, and these do, or are all. -/
def Cuts (locale : Locale) (kept : QString) (k : ℕ) : Prop :=
  (∀ j < k, utf8Size locale.replacement (kept.take j) < maxLabelBytes) ∧
    (k = kept.length ∨ maxLabelBytes ≤ utf8Size locale.replacement (kept.take k))

/-- The characters of a description that are not control characters. -/
def visible (description : QString) : QString := description.filter fun u => !isControl u

/-- The label of a description does not end in a character that straddles the limit. -/
def Fits (locale : Locale) (description : QString) : Prop :=
  ∀ k ≤ (visible description).length, Cuts locale (visible description) k →
    utf8Size locale.replacement (trimmed ((visible description).take k)) ≤ maxLabelBytes

instance (locale : Locale) (kept : QString) (k : ℕ) : Decidable (Cuts locale kept k) :=
  inferInstanceAs (Decidable (_ ∧ _))

instance (locale : Locale) (description : QString) : Decidable (Fits locale description) :=
  inferInstanceAs (Decidable (∀ k ≤ _, _ → _))

theorem Cuts.unique {locale : Locale} {kept : QString} {k k' : ℕ} (hk : k ≤ kept.length)
    (hk' : k' ≤ kept.length) (h : Cuts locale kept k) (h' : Cuts locale kept k') : k = k' := by
  rcases Nat.lt_trichotomy k k' with hlt | heq | hlt
  · have hless := h'.1 k hlt
    rcases h.2 with hall | hreach
    · omega
    · exact absurd hless (Nat.not_lt.2 hreach)
  · exact heq
  · have hless := h.1 k' hlt
    rcases h'.2 with hall | hreach
    · omega
    · exact absurd hless (Nat.not_lt.2 hreach)

/-- The loop keeps characters up to the limit. -/
theorem sanitize_eq {locale : Locale} {sanitized : QString} (label : QString)
    (h : ∀ j ≤ sanitized.length,
      utf8Size locale.replacement (sanitized.take j) < maxLabelBytes) :
    ∃ k ≤ (sanitized ++ visible label).length, Cuts locale (sanitized ++ visible label) k ∧
      sanitize locale sanitized label = (sanitized ++ visible label).take k := by
  induction label generalizing sanitized with
  | nil =>
    rw [visible, List.filter_nil, List.append_nil]
    exact ⟨_, Nat.le_refl _, ⟨fun j hj => h j (Nat.le_of_lt hj), .inl rfl⟩,
      (List.take_length).symm⟩
  | cons character label ih =>
    rw [sanitize]
    by_cases hcontrol : isControl character
    · have hsmall := h sanitized.length (Nat.le_refl _)
      rw [List.take_length] at hsmall
      have hvisible : visible (character :: label) = visible label := by
        rw [visible, List.filter_cons_of_neg (by simp [hcontrol]), visible]
      simp only [hcontrol, if_true]
      rw [if_neg (Nat.not_le.2 hsmall), hvisible]
      exact ih h
    · have hvisible : sanitized ++ visible (character :: label) =
          sanitized ++ [character] ++ visible label := by
        rw [visible, List.filter_cons_of_pos (by simp [hcontrol]), List.append_assoc, visible]
        rfl
      -- the prefixes of the text so far stay the same when a character is appended
      have hbefore : ∀ j ≤ sanitized.length, utf8Size locale.replacement
          ((sanitized ++ [character]).take j) < maxLabelBytes := by
        intro j hj
        rw [List.take_append_of_le_length hj]
        exact h j hj
      simp only [hcontrol]
      rw [hvisible]
      by_cases hreach : maxLabelBytes ≤ utf8Size locale.replacement (sanitized ++ [character])
      · refine ⟨(sanitized ++ [character]).length, ?_, ⟨?_, .inr ?_⟩, ?_⟩
        · exact (List.prefix_append _ _).length_le
        · intro j hj
          rw [List.length_append, List.length_singleton] at hj
          rw [List.take_append_of_le_length (by rw [List.length_append]; omega)]
          exact hbefore j (by omega)
        · rw [List.take_left]
          exact hreach
        · rw [List.take_left]
          exact if_pos hreach
      · have hall : ∀ j ≤ (sanitized ++ [character]).length, utf8Size locale.replacement
            ((sanitized ++ [character]).take j) < maxLabelBytes := by
          intro j hj
          rcases Nat.lt_or_ge sanitized.length j with hlt | hle
          · rw [List.take_of_length_le (by rw [List.length_append, List.length_singleton]; omega)]
            exact Nat.lt_of_not_le hreach
          · exact hbefore j hle
        obtain ⟨k, hk, hcuts, heq⟩ := ih hall
        exact ⟨k, hk, hcuts, (if_neg hreach).trans heq⟩

theorem utf8Size_camera (locale : Locale) :
    utf8Size locale.replacement (qstring locale.language.camera) ≤ maxLabelBytes := by
  have hsize : utf8Size locale.replacement (qstring locale.language.camera) = 6 := by
    rcases locale with ⟨_ | _, replacement⟩
    · rw [Language.camera, show qstring "Camera" = [0x43, 0x61, 0x6d, 0x65, 0x72, 0x61] by decide]
      rfl
    · rw [Language.camera, show qstring "Kamera" = [0x4b, 0x61, 0x6d, 0x65, 0x72, 0x61] by decide]
      rfl
  rw [hsize]
  decide

/-- The label has at most 128 bytes exactly if it does not straddle the limit. -/
theorem sanitizedLabel_le_iff {locale : Locale} {description : QString} :
    utf8Size locale.replacement (sanitizedLabel locale description) ≤ maxLabelBytes ↔
      Fits locale description := by
  have hstart : ∀ j ≤ ([] : QString).length,
      utf8Size locale.replacement (([] : QString).take j) < maxLabelBytes := by
    intro j _
    rw [List.take_nil]
    exact Nat.succ_pos _
  obtain ⟨k, hk, hcuts, heq⟩ := sanitize_eq description hstart
  rw [List.nil_append] at hk hcuts heq
  have hfits : Fits locale description ↔
      utf8Size locale.replacement (trimmed ((visible description).take k)) ≤ maxLabelBytes := by
    constructor
    · exact fun h => h k hk hcuts
    · intro h k' hk' hcuts'
      rwa [hcuts'.unique hk' hk hcuts]
  rw [hfits, sanitizedLabel, heq]
  by_cases hempty : trimmed ((visible description).take k) = []
  · rw [hempty]
    exact iff_of_true (utf8Size_camera locale) (Nat.zero_le _)
  · simp only [hempty, if_false]

/-! ## Tokens -/

/-- A token that the session takes. -/
def ValidToken (token : String) : Prop := token ≠ "" ∧ qsize token ≤ 64

theorem qsize_le (s : String) : qsize s ≤ 2 * s.toList.length := by
  unfold qsize
  induction s.toList with
  | nil => exact Nat.zero_le _
  | cons c cs ih =>
    rw [List.map_cons, List.sum_cons, List.length_cons]
    split <;> omega

theorem validToken_hex (n : UInt64) : ValidToken (hex n) := by
  have hlength : (Nat.toDigits 16 n.toNat).length ≤ 16 :=
    Nat.toDigits_length 16 n.toNat 16 (by decide) n.toNat_lt
  constructor
  · intro h
    have := congrArg String.toList h
    rw [hex, String.toList_ofList] at this
    exact Nat.toDigits_ne_nil this
  · have hsize := qsize_le (hex n)
    rw [hex, String.toList_ofList] at hsize
    exact Nat.le_trans hsize (by omega)

theorem freshToken_spec {used : List String} {draws rest : List UInt64} {token : String}
    (h : freshToken used draws = some (token, rest)) : token ∉ used ∧ ValidToken token := by
  induction draws with
  | nil => cases h
  | cons draw draws ih =>
    rw [freshToken] at h
    split at h
    · exact ih h
    · rename_i hunused
      obtain ⟨rfl, rfl⟩ := Prod.mk.inj (Option.some.inj h)
      exact ⟨hunused, validToken_hex draw⟩

theorem mem_of_lookup {l : List (List UInt8 × String)} {id : List UInt8} {token : String}
    (h : l.lookup id = some token) : (id, token) ∈ l := by
  obtain ⟨a, b, rfl, -⟩ := List.lookup_eq_some_iff.1 h
  exact List.mem_append_right _ (List.mem_cons_self ..)

theorem not_mem_of_lookup {l : List (List UInt8 × String)} {id : List UInt8}
    (h : ¬ (l.lookup id).isSome) {e : List UInt8 × String} (he : e ∈ l) : e.1 ≠ id := by
  rintro rfl
  rw [Option.not_isSome_iff_eq_none, List.lookup_eq_none_iff] at h
  simpa using h e he

/-- The tokens of the cameras before: each is of one camera, and can be sent. -/
structure Previous (previous : List (List UInt8 × String)) : Prop where
  tokens : (previous.map Prod.snd).Nodup
  valid : ∀ e ∈ previous, ValidToken e.2

/-- A token is of one camera. -/
theorem Previous.id_eq {previous : List (List UInt8 × String)} (h : Previous previous)
    {id id' : List UInt8} {token : String} (hid : previous.lookup id = some token)
    (hid' : previous.lookup id' = some token) : id = id' :=
  congrArg Prod.fst (List.inj_on_of_nodup_map h.tokens (mem_of_lookup hid) (mem_of_lookup hid') rfl)

/-- What holds of the tokens that have been assigned. -/
structure Assigned (previous : List (List UInt8 × String)) (used : List String)
    (result : List (List UInt8 × String)) : Prop where
  tokens : (result.map Prod.snd).Nodup
  valid : ∀ e ∈ result, ValidToken e.2
  mem_used : ∀ e ∈ result, e.2 ∈ used
  /-- A camera keeps its token. -/
  kept : ∀ e ∈ result, ∀ token, previous.lookup e.1 = some token → e.2 = token
  /-- A token from before stays with its camera. -/
  own : ∀ e ∈ result, e.2 ∈ previous.map Prod.snd → previous.lookup e.1 = some e.2

section

variable {previous : List (List UInt8 × String)} {used : List String}
  {result : List (List UInt8 × String)}

/-- One more camera. -/
theorem Assigned.concat (h : Assigned previous used result) {used' : List String}
    (hused : ∀ token ∈ used, token ∈ used') {id : List UInt8} {token : String}
    (hnew : ∀ e ∈ result, e.2 ≠ token) (hvalid : ValidToken token) (hmem : token ∈ used')
    (hkept : ∀ t, previous.lookup id = some t → token = t)
    (hown : token ∈ previous.map Prod.snd → previous.lookup id = some token) :
    Assigned previous used' (result ++ [(id, token)]) where
  tokens := by
    rw [List.map_append, List.map_singleton]
    refine List.Nodup.append h.tokens (List.nodup_singleton _) ?_
    rw [List.disjoint_singleton]
    intro hin
    obtain ⟨e, he, heq⟩ := List.mem_map.1 hin
    exact hnew e he heq
  valid e he := by
    rcases List.mem_append.1 he with he | he
    · exact h.valid e he
    · obtain rfl := List.mem_singleton.1 he
      exact hvalid
  mem_used e he := by
    rcases List.mem_append.1 he with he | he
    · exact hused _ (h.mem_used e he)
    · obtain rfl := List.mem_singleton.1 he
      exact hmem
  kept e he := by
    rcases List.mem_append.1 he with he | he
    · exact h.kept e he
    · obtain rfl := List.mem_singleton.1 he
      exact hkept
  own e he := by
    rcases List.mem_append.1 he with he | he
    · exact h.own e he
    · obtain rfl := List.mem_singleton.1 he
      exact hown

/-- A camera that has a token. -/
theorem Assigned.concat_kept (hprevious : Previous previous) (h : Assigned previous used result)
    (hused : ∀ token ∈ previous.map Prod.snd, token ∈ used) {id : List UInt8} {token : String}
    (hlookup : previous.lookup id = some token) (hnew : ¬ (result.lookup id).isSome) :
    Assigned previous used (result ++ [(id, token)]) := by
  have hmem : token ∈ previous.map Prod.snd := List.mem_map.2 ⟨_, mem_of_lookup hlookup, rfl⟩
  refine h.concat (fun _ ht => ht) ?_ (hprevious.valid _ (mem_of_lookup hlookup)) (hused _ hmem)
    (fun t ht => Option.some.inj (hlookup.symm.trans ht)) fun _ => hlookup
  -- a camera with the same token is the same camera, and would have been found
  rintro e he rfl
  exact not_mem_of_lookup hnew he (hprevious.id_eq (h.own e he hmem) hlookup)

/-- A camera that gets a new token. -/
theorem Assigned.concat_fresh (h : Assigned previous used result)
    (hused : ∀ token ∈ previous.map Prod.snd, token ∈ used) {id : List UInt8} {token : String}
    (hlookup : previous.lookup id = none) (hfresh : token ∉ used) (hvalid : ValidToken token) :
    Assigned previous (token :: used) (result ++ [(id, token)]) := by
  refine h.concat (fun _ ht => List.mem_cons_of_mem _ ht) ?_ hvalid (List.mem_cons_self ..) ?_ ?_
  · rintro e he rfl
    exact hfresh (h.mem_used e he)
  · intro t ht
    rw [hlookup] at ht
    cases ht
  · exact fun hmem => absurd (hused _ hmem) hfresh

/-- A camera has a token from before, or none. -/
theorem Previous.lookup_cases (hprevious : Previous previous) (id : List UInt8) :
    ((previous.lookup id).getD "" ≠ "" ∧
        previous.lookup id = some ((previous.lookup id).getD "")) ∨
      ((previous.lookup id).getD "" = "" ∧ previous.lookup id = none) := by
  rcases hlookup : previous.lookup id with _ | token
  · exact .inr ⟨rfl, rfl⟩
  · exact .inl ⟨(hprevious.valid _ (mem_of_lookup hlookup)).1, rfl⟩

/-- The tokens that are assigned in the end. -/
theorem assignTokens_spec (hprevious : Previous previous) {ids : List (List UInt8)}
    {draws : List UInt64} (hused : ∀ token ∈ previous.map Prod.snd, token ∈ used)
    (h : Assigned previous used result) {result' : List (List UInt8 × String)}
    (hresult : assignTokens previous used result ids draws = some result') :
    (∃ used', Assigned previous used' result') ∧ (∀ e ∈ result, e.1 ∈ result'.map Prod.fst) ∧
      ∀ id ∈ ids, id ∈ result'.map Prod.fst := by
  induction ids generalizing used result draws with
  | nil =>
    obtain rfl := Option.some.inj hresult
    exact ⟨⟨used, h⟩, fun e he => List.mem_map_of_mem he, by simp⟩
  | cons id ids ih =>
    rw [assignTokens] at hresult
    split at hresult
    next hknown =>
      obtain ⟨hassigned, hkeep, hids⟩ := ih hused h hresult
      refine ⟨hassigned, hkeep, List.forall_mem_cons.2 ⟨?_, hids⟩⟩
      obtain ⟨token, htoken⟩ := Option.isSome_iff_exists.1 hknown
      exact hkeep _ (mem_of_lookup htoken)
    next hnew =>
      have hlast : ∀ token, (id, token) ∈ result ++ [(id, token)] := fun token =>
        List.mem_append_right _ (List.mem_singleton.2 rfl)
      rcases hprevious.lookup_cases id with ⟨hne, hlookup⟩ | ⟨hempty, hlookup⟩
      · -- A camera that was there before keeps its token.
        dsimp only at hresult
        rw [if_pos hne] at hresult
        obtain ⟨hassigned, hkeep, hids⟩ :=
          ih hused (h.concat_kept hprevious hused hlookup hnew) hresult
        exact ⟨hassigned, fun e he => hkeep e (List.mem_append_left _ he),
          List.forall_mem_cons.2 ⟨hkeep _ (hlast _), hids⟩⟩
      · -- A new camera gets a token that none before it has, nor ever had.
        dsimp only at hresult
        rw [if_neg (by rw [hempty]; exact fun hne => hne rfl)] at hresult
        split at hresult
        · cases hresult
        · rename_i token draws' hfresh
          obtain ⟨hunused, hvalid⟩ := freshToken_spec hfresh
          obtain ⟨hassigned, hkeep, hids⟩ :=
            ih (fun t ht => List.mem_cons_of_mem _ (hused t ht))
              (h.concat_fresh hused hlookup hunused hvalid) hresult
          exact ⟨hassigned, fun e he => hkeep e (List.mem_append_left _ he),
            List.forall_mem_cons.2 ⟨hkeep _ (hlast _), hids⟩⟩

theorem freshToken_mem {used : List String} {draws rest : List UInt64} {token : String}
    (h : freshToken used draws = some (token, rest)) :
    (∃ draw ∈ draws, token = hex draw) ∧ rest ⊆ draws := by
  induction draws with
  | nil => cases h
  | cons draw draws ih =>
    rw [freshToken] at h
    split at h
    · obtain ⟨⟨d, hd, heq⟩, hrest⟩ := ih h
      exact ⟨⟨d, List.mem_cons_of_mem _ hd, heq⟩, fun _ ht => List.mem_cons_of_mem _ (hrest ht)⟩
    · obtain ⟨rfl, rfl⟩ := Prod.mk.inj (Option.some.inj h)
      exact ⟨⟨draw, List.mem_cons_self .., rfl⟩, List.subset_cons_self _ _⟩

/-- A token that is assigned is from before, or was drawn. -/
theorem assignTokens_source (hprevious : Previous previous) {ids : List (List UInt8)}
    {draws : List UInt64} {result' : List (List UInt8 × String)}
    (hresult : assignTokens previous used result ids draws = some result') :
    ∀ e ∈ result', e ∈ result ∨ previous.lookup e.1 = some e.2 ∨ ∃ draw ∈ draws, e.2 = hex draw := by
  induction ids generalizing used result draws with
  | nil =>
    obtain rfl := Option.some.inj hresult
    exact fun e he => .inl he
  | cons id ids ih =>
    rw [assignTokens] at hresult
    split at hresult
    · exact ih hresult
    rcases hprevious.lookup_cases id with ⟨hne, hlookup⟩ | ⟨hempty, hlookup⟩
    · dsimp only at hresult
      rw [if_pos hne] at hresult
      intro e he
      rcases ih hresult e he with hin | hsource
      · rcases List.mem_append.1 hin with hin | hin
        · exact .inl hin
        · rw [List.mem_singleton.1 hin]
          exact .inr (.inl hlookup)
      · exact .inr hsource
    · dsimp only at hresult
      rw [if_neg (by rw [hempty]; exact fun hne => hne rfl)] at hresult
      split at hresult
      · cases hresult
      · rename_i token draws' hfresh
        obtain ⟨⟨draw, hdraw, hhex⟩, hrest⟩ := freshToken_mem hfresh
        intro e he
        rcases ih hresult e he with hin | hsource | ⟨d, hd, heq⟩
        · rcases List.mem_append.1 hin with hin | hin
          · exact .inl hin
          · rw [List.mem_singleton.1 hin]
            exact .inr (.inr ⟨draw, hdraw, hhex⟩)
        · exact .inr (.inl hsource)
        · exact .inr (.inr ⟨d, hrest hd, heq⟩)

/-- Enough draws that do not collide. -/
structure Distinct (used : List String) (draws : List UInt64) (n : ℕ) : Prop where
  nodup : (draws.map hex).Nodup
  unused : ∀ draw ∈ draws, hex draw ∉ used
  le_length : n ≤ draws.length

theorem freshToken_of_distinct {draws : List UInt64} {n : ℕ}
    (h : Distinct used draws (n + 1)) :
    ∃ draw rest, freshToken used draws = some (hex draw, rest) ∧
      Distinct (hex draw :: used) rest n := by
  rcases draws with _ | ⟨draw, rest⟩
  · exact absurd h.le_length (Nat.not_succ_le_zero n)
  · have hunused := h.unused draw (List.mem_cons_self ..)
    obtain ⟨hfirst, hnodup⟩ := List.nodup_cons.1 h.nodup
    refine ⟨draw, rest, if_neg hunused, hnodup, fun d hd => ?_, Nat.le_of_succ_le_succ h.le_length⟩
    rw [List.mem_cons, not_or]
    refine ⟨fun heq => hfirst ?_, h.unused d (List.mem_cons_of_mem _ hd)⟩
    exact heq ▸ List.mem_map_of_mem hd

theorem Distinct.mono {draws : List UInt64} {m n : ℕ} (h : Distinct used draws n) (hle : m ≤ n) :
    Distinct used draws m :=
  ⟨h.nodup, h.unused, Nat.le_trans hle h.le_length⟩

/-- With draws that do not collide, every camera gets a token. -/
theorem assignTokens_isSome {ids : List (List UInt8)} {draws : List UInt64}
    (hdraws : Distinct used draws ids.length) :
    ∃ result', assignTokens previous used result ids draws = some result' := by
  induction ids generalizing used result draws with
  | nil => exact ⟨result, rfl⟩
  | cons id ids ih =>
    have hless := hdraws.mono (Nat.le_succ _)
    rw [assignTokens]
    split
    · exact ih hless
    · dsimp only
      split
      · exact ih hless
      · obtain ⟨draw, rest, hfresh, hrest⟩ := freshToken_of_distinct hdraws
        rw [hfresh]
        exact ih hrest

end

/-! ## Discoveries -/

/-- The devices of the provider: at most 16, with distinct identifiers and tokens. -/
structure Named (devices : List Descriptor) : Prop where
  length_le : devices.length ≤ maxDevices
  ids : (devices.map Descriptor.id).Nodup
  tokens : (devices.map Descriptor.token).Nodup
  valid : ∀ d ∈ devices, ValidToken d.token

theorem Named.sublist {devices devices' : List Descriptor} (h : Named devices)
    (hsub : devices'.Sublist devices) : Named devices' where
  length_le := Nat.le_trans hsub.length_le h.length_le
  ids := h.ids.sublist (hsub.map _)
  tokens := h.tokens.sublist (hsub.map _)
  valid d hd := h.valid d (hsub.subset hd)

theorem Named.perm {devices devices' : List Descriptor} (h : Named devices)
    (hperm : devices'.Perm devices) : Named devices' where
  length_le := hperm.length_eq ▸ h.length_le
  ids := (hperm.map _).nodup_iff.2 h.ids
  tokens := (hperm.map _).nodup_iff.2 h.tokens
  valid d hd := h.valid d (hperm.mem_iff.1 hd)

theorem infraredFirst_perm (devices : List Descriptor) :
    (infraredFirst devices).Perm devices := by
  unfold infraredFirst
  simpa using List.filter_append_perm (fun d : Descriptor => decide (d.spectrum = .ir)) devices

theorem lookup_of_mem {l : List (List UInt8 × String)} (h : (l.map Prod.fst).Nodup)
    {id : List UInt8} {token : String} (hmem : (id, token) ∈ l) : l.lookup id = some token := by
  obtain ⟨a, b, rfl⟩ := List.append_of_mem hmem
  refine List.lookup_eq_some_iff.2 ⟨a, b, rfl, fun e he => ?_⟩
  rw [List.map_append, List.map_cons] at h
  have hdisjoint := List.disjoint_of_nodup_append h
  rw [bne_iff_ne]
  rintro rfl
  exact hdisjoint (List.mem_map_of_mem he) (List.mem_cons_self ..)

theorem Named.previous {devices : List Descriptor} (h : Named devices) :
    Previous (previousTokens devices) where
  tokens := by
    rw [previousTokens, List.map_map, List.map_reverse, List.nodup_reverse]
    exact h.tokens
  valid e he := by
    obtain ⟨d, hd, rfl⟩ := List.mem_map.1 he
    exact h.valid d (List.mem_reverse.1 hd)

/-- The token of a device is found again. -/
theorem Named.lookup {devices : List Descriptor} (h : Named devices) {d : Descriptor}
    (hd : d ∈ devices) : (previousTokens devices).lookup d.id = some d.token := by
  refine lookup_of_mem ?_ (List.mem_map.2 ⟨d, List.mem_reverse.2 hd, rfl⟩)
  rw [previousTokens, List.map_map, List.map_reverse, List.nodup_reverse]
  exact h.ids

/-- A discovery: its devices are named and are the usable inputs, those that had a token
    keep it and the others get one that is drawn, and their labels are those of the
    inputs. -/
theorem discover_spec {locale : Locale} {devices devices' : List Descriptor}
    {inputs : List Input} {draws : List UInt64} (hdevices : Named devices)
    (hids : (inputs.map Input.id).Nodup)
    (h : discover locale devices inputs draws = some devices') :
    Named devices' ∧
      (∀ d ∈ devices, ∀ d' ∈ devices', d.id = d'.id → d.token = d'.token) ∧
      (devices'.map Descriptor.label).Perm (((inputs.take maxDevices).filter Input.usable).map
        fun input => sanitizedLabel locale input.description) ∧
      (devices'.map Descriptor.id).Perm
        (((inputs.take maxDevices).filter Input.usable).map Input.id) ∧
      ∀ d' ∈ devices', d'.id ∉ devices.map Descriptor.id →
        ∃ draw ∈ draws, d'.token = hex draw := by
  obtain ⟨tokens, htokens, rfl⟩ := Option.map_eq_some_iff.1 h
  have hstart : Assigned (previousTokens devices) ((previousTokens devices).map Prod.snd) [] :=
    ⟨List.nodup_nil, by simp, by simp, by simp, by simp⟩
  obtain ⟨⟨used, hassigned⟩, -, hcovered⟩ :=
    assignTokens_spec hdevices.previous (fun _ ht => ht) hstart htokens
  have hsub : ((inputs.take maxDevices).filter Input.usable).Sublist (inputs.take maxDevices) :=
    List.filter_sublist
  have hnodup : (((inputs.take maxDevices).filter Input.usable).map Input.id).Nodup :=
    hids.sublist ((hsub.trans (List.take_sublist _ _)).map _)
  have hentry : ∀ input ∈ (inputs.take maxDevices).filter Input.usable,
      (input.id, (tokens.lookup input.id).getD "") ∈ tokens := by
    intro input hinput
    have hmem := hcovered _ (List.mem_map_of_mem (hsub.subset hinput))
    rcases hlookup : tokens.lookup input.id with _ | token
    · obtain ⟨e, he, heq⟩ := List.mem_map.1 hmem
      exact absurd heq (not_mem_of_lookup (by rw [hlookup]; decide) he)
    · exact mem_of_lookup hlookup
  have hperm := infraredFirst_perm
    (((inputs.take maxDevices).filter Input.usable).map fun input =>
      { token := (tokens.lookup input.id).getD ""
        label := sanitizedLabel locale input.description
        spectrum := input.spectrum
        id := input.id : Descriptor })
  refine ⟨Named.perm ⟨?_, ?_, ?_, ?_⟩ hperm, ?_, ?_, ?_, ?_⟩
  · rw [List.length_map]
    exact Nat.le_trans hsub.length_le (List.length_take_le _ _)
  · rw [List.map_map]
    exact hnodup
  · -- Two cameras with one token would be two entries with it.
    rw [List.map_map]
    refine List.Nodup.map_on ?_ (List.Nodup.of_map _ hnodup)
    intro a ha b hb heq
    have hpair := List.inj_on_of_nodup_map hassigned.tokens (hentry a ha) (hentry b hb) heq
    exact List.inj_on_of_nodup_map hnodup ha hb (congrArg Prod.fst hpair)
  · intro d hd
    obtain ⟨input, hinput, rfl⟩ := List.mem_map.1 hd
    exact hassigned.valid _ (hentry input hinput)
  · intro d hd d' hd' heq
    obtain ⟨input, hinput, rfl⟩ := List.mem_map.1 (hperm.mem_iff.1 hd')
    have hlookup := hdevices.lookup hd
    rw [heq] at hlookup
    exact (hassigned.kept _ (hentry input hinput) _ hlookup).symm
  · refine (hperm.map _).trans ?_
    rw [List.map_map]
    exact List.Perm.refl _
  · refine (hperm.map _).trans ?_
    rw [List.map_map]
    exact List.Perm.refl _
  · intro d' hd' hnew
    obtain ⟨input, hinput, rfl⟩ := List.mem_map.1 (hperm.mem_iff.1 hd')
    rcases assignTokens_source hdevices.previous htokens _ (hentry input hinput) with
      hin | hold | hdrawn
    · cases hin
    · obtain ⟨d, hd, heq⟩ := List.mem_map.1 (mem_of_lookup hold)
      refine absurd (List.mem_map.2 ⟨d, List.mem_reverse.1 hd, ?_⟩) hnew
      exact congrArg Prod.fst heq
    · exact hdrawn

/-- A discovery returns if the draws do not collide. -/
theorem discover_isSome (locale : Locale) {devices : List Descriptor} (inputs : List Input)
    {draws : List UInt64} (hdraws : Distinct (devices.map Descriptor.token) draws maxDevices) :
    ∃ devices', discover locale devices inputs draws = some devices' := by
  have hused : Distinct ((previousTokens devices).map Prod.snd) draws
      ((inputs.take maxDevices).map Input.id).length := by
    rw [List.length_map, List.length_take]
    refine Distinct.mono ⟨hdraws.nodup, fun draw hdraw hmem => ?_, hdraws.le_length⟩ (by omega)
    rw [previousTokens, List.map_map, List.map_reverse, List.mem_reverse] at hmem
    exact hdraws.unused draw hdraw hmem
  obtain ⟨tokens, htokens⟩ := assignTokens_isSome hused
  exact ⟨_, congrArg (Option.map _) htokens⟩

/-- What holds of the provider: the devices of the last discovery are named, and it has
    kept those that stayed. -/
structure Provider.Kept (p : Provider) : Prop where
  named : Named p.found
  devices : p.devices = p.found.filter fun d => p.Stayed d.id

theorem Provider.Kept.sublist {p : Provider} (h : p.Kept) : p.devices.Sublist p.found := by
  rw [h.devices]
  exact List.filter_sublist

theorem Provider.Kept.mem_devices {p : Provider} (h : p.Kept) {d : Descriptor} (hd : d ∈ p.found) :
    d.id ∈ p.devices.map Descriptor.id ↔ p.Stayed d.id := by
  rw [h.devices, List.mem_map]
  constructor
  · rintro ⟨d', hd', heq⟩
    rw [← heq]
    exact of_decide_eq_true (List.mem_filter.1 hd').2
  · exact fun hstayed => ⟨d, List.mem_filter.2 ⟨hd, decide_eq_true hstayed⟩, rfl⟩

theorem provider_kept {locale : Locale} {p : Provider} (h : (provider locale).Reachable p) :
    p.Kept := by
  refine h.inv ⟨⟨Nat.zero_le _, List.nodup_nil, List.nodup_nil, by simp [provider]⟩, rfl⟩ ?_
  intro p e p' hp hstep
  rcases e with ⟨inputs, draws⟩ | inputs
  · simp only [provider] at hstep
    split at hstep
    next hids =>
      obtain ⟨devices, hdiscover, rfl⟩ := Option.map_eq_some_iff.1 hstep
      refine ⟨(discover_spec (hp.named.sublist hp.sublist) hids hdiscover).1, ?_⟩
      simp [Provider.Stayed]
    · cases hstep
  · obtain rfl := Option.some.inj hstep
    refine ⟨hp.named, ?_⟩
    simp only [videoInputsChanged, hp.devices, List.filter_filter]
    refine List.filter_congr fun d _ => ?_
    rw [← Bool.decide_and, decide_eq_decide]
    exact (List.forall_mem_cons
      (p := fun changed : List Input => d.id ∈ changed.map Input.id)).symm

theorem utf8ByteSize_label (replacement : Char) (label : QString) :
    (String.ofList (toUtf8 replacement label)).utf8ByteSize = utf8Size replacement label := by
  unfold utf8Size
  rw [String.utf8ByteSize_ofList]
  induction toUtf8 replacement label with
  | nil => rfl
  | cons c cs ih => rw [String.utf8Len, List.map_cons, List.sum_cons, ih, Nat.add_comm]

theorem handleDevices_snd (s : Session) (devices : List Device) :
    (s.handleDevices devices).2 = Session.validDevices devices := by
  unfold Session.handleDevices
  by_cases hvalid : Session.validDevices devices
  · rw [hvalid, if_neg (by decide)]
    dsimp only
    split
    · rfl
    · split <;> rfl
  · rw [if_pos (by simpa using hvalid)]
    exact (Bool.eq_false_iff.2 hvalid).symm

/-- The session takes the record of named devices exactly if their labels are short
    enough. -/
theorem handleDevices_iff {locale : Locale} {devices : List Descriptor} (h : Named devices)
    (s : Session) :
    (s.handleDevices (record locale devices)).2 ↔
      ∀ d ∈ devices, utf8Size locale.replacement d.label ≤ maxLabelBytes := by
  have hlength : (record locale devices).length ≤ maxDevices := by
    rw [record, List.length_map]
    exact h.length_le
  have htokens : ((record locale devices).map Device.token).Nodup := by
    rw [record, List.map_map]
    exact h.tokens
  rw [handleDevices_snd, Session.validDevices, Bool.and_eq_true, Bool.and_eq_true,
    decide_eq_true_eq, decide_eq_true_eq, List.all_eq_true]
  simp only [hlength, htokens, true_and]
  constructor
  · intro hall d hd
    have := hall _ (List.mem_map_of_mem hd)
    simp only [Bool.and_eq_true, decide_eq_true_eq, utf8ByteSize_label] at this
    exact this.2
  · intro hle device hdevice
    obtain ⟨d, hd, rfl⟩ := List.mem_map.1 hdevice
    simp only [Bool.and_eq_true, decide_eq_true_eq, utf8ByteSize_label]
    exact ⟨h.valid d hd, hle d hd⟩

/-- The record of a discovery is accepted exactly if no label straddles the limit. -/
theorem handleDevices_discover_iff {locale : Locale} {devices devices' : List Descriptor}
    (h : Named devices) {inputs : List Input} (hids : (inputs.map Input.id).Nodup)
    {draws : List UInt64} (hdiscover : discover locale devices inputs draws = some devices')
    (s : Session) :
    (s.handleDevices (record locale devices')).2 ↔
      ∀ input ∈ inputs.take maxDevices, input.usable → Fits locale input.description := by
  obtain ⟨hnamed, -, hlabels, -⟩ := discover_spec h hids hdiscover
  rw [handleDevices_iff hnamed]
  constructor
  · intro hle input hinput husable
    have hmem : sanitizedLabel locale input.description ∈ devices'.map Descriptor.label :=
      hlabels.mem_iff.2 (List.mem_map.2 ⟨input, List.mem_filter.2 ⟨hinput, husable⟩, rfl⟩)
    obtain ⟨d, hd, heq⟩ := List.mem_map.1 hmem
    rw [← sanitizedLabel_le_iff, ← heq]
    exact hle d hd
  · intro hfits d hd
    obtain ⟨input, hinput, heq⟩ := List.mem_map.1 (hlabels.mem_iff.1 (List.mem_map_of_mem hd))
    obtain ⟨hin, husable⟩ := List.mem_filter.1 hinput
    rw [← heq, sanitizedLabel_le_iff]
    exact hfits input hin husable

theorem Distinct.subset {used used' : List String} {draws : List UInt64} {n : ℕ}
    (h : Distinct used draws n) (hsub : used' ⊆ used) : Distinct used' draws n :=
  ⟨h.nodup, fun draw hdraw hmem => h.unused draw hdraw (hsub hmem), h.le_length⟩

/-- The cameras of the last discovery keep their tokens exactly if those that are found
    again were never seen gone. -/
theorem tokens_kept_iff {locale : Locale} {p : Provider} (h : p.Kept) {inputs : List Input}
    (hids : (inputs.map Input.id).Nodup) {draws : List UInt64} {n : ℕ}
    (hdraws : Distinct (p.found.map Descriptor.token) draws n) {devices' : List Descriptor}
    (hdiscover : discover locale p.devices inputs draws = some devices') :
    (∀ d ∈ p.found, ∀ d' ∈ devices', d.id = d'.id → d.token = d'.token) ↔
      ∀ d ∈ p.found, ∀ input ∈ inputs.take maxDevices, input.usable → input.id = d.id →
        p.Stayed d.id := by
  obtain ⟨-, hkept, -, hfound, hdrawn⟩ := discover_spec (h.named.sublist h.sublist) hids hdiscover
  constructor
  · intro htokens d hd input hinput husable hid
    have hmem : input.id ∈ devices'.map Descriptor.id :=
      hfound.mem_iff.2 (List.mem_map_of_mem (List.mem_filter.2 ⟨hinput, husable⟩))
    obtain ⟨d', hd', hid'⟩ := List.mem_map.1 hmem
    have heq : d.id = d'.id := hid.symm.trans hid'.symm
    by_contra hgone
    -- a camera that was forgotten gets a token that is drawn
    rw [← h.mem_devices hd, heq] at hgone
    obtain ⟨draw, hdraw, htoken⟩ := hdrawn d' hd' hgone
    refine hdraws.unused draw hdraw (List.mem_map.2 ⟨d, hd, ?_⟩)
    exact (htokens d hd d' hd' heq).trans htoken
  · intro hstayed d hd d' hd' hid
    obtain ⟨input, hinput, heq⟩ := List.mem_map.1 (hfound.mem_iff.1 (List.mem_map_of_mem hd'))
    obtain ⟨hin, husable⟩ := List.mem_filter.1 hinput
    have hstay := hstayed d hd input hin husable (heq.trans hid.symm)
    refine hkept d ?_ d' hd' hid
    rw [h.devices]
    exact List.mem_filter.2 ⟨hd, decide_eq_true hstay⟩

/-- Whatever the cameras and the discoveries before, a discovery returns; and its record
    is accepted, with the tokens of the cameras that the last discovery has found kept,
    exactly if no label straddles the limit and no camera that is found again was seen
    gone since. -/
theorem devices_accepted_iff {locale : Locale} {p : Provider}
    (h : (provider locale).Reachable p) {inputs : List Input}
    (hids : (inputs.map Input.id).Nodup) {draws : List UInt64}
    (hdraws : Distinct (p.found.map Descriptor.token) draws maxDevices) (s : Session) :
    ∃ devices', discover locale p.devices inputs draws = some devices' ∧
      ((s.handleDevices (record locale devices')).2 ∧
          (∀ d ∈ p.found, ∀ d' ∈ devices', d.id = d'.id → d.token = d'.token) ↔
        (∀ input ∈ inputs.take maxDevices, input.usable → Fits locale input.description) ∧
          ∀ d ∈ p.found, ∀ input ∈ inputs.take maxDevices, input.usable → input.id = d.id →
            p.Stayed d.id) := by
  have hp := provider_kept h
  obtain ⟨devices', hdiscover⟩ :=
    discover_isSome locale inputs (hdraws.subset (hp.sublist.map _).subset)
  refine ⟨devices', hdiscover, ?_⟩
  rw [handleDevices_discover_iff (hp.named.sublist hp.sublist) hids hdiscover,
    tokens_kept_iff hp hids hdraws hdiscover]

def plainLocale : Locale := ⟨.english, '?'⟩

/-- As many draws as there can be cameras, from a number on. -/
def plainDraws (first : ℕ) : List UInt64 :=
  (List.range maxDevices).map fun i => UInt64.ofNat (first + i)

def webcam : Input := ⟨[1], qstring "Webcam", true, .rgb⟩
def irCamera : Input := ⟨[2], qstring "IR camera", true, .ir⟩

/-- A camera is plugged in after a discovery, and both are found. -/
theorem devices_accepted_iff_webcam :
    ∃ p devices, (provider plainLocale).run {} [.discover [webcam] (plainDraws 0),
        .videoInputsChanged [webcam, irCamera]] = some p ∧
      discover plainLocale p.devices [webcam, irCamera] (plainDraws 16) = some devices ∧
      (({} : Session).handleDevices (record plainLocale devices)).2 ∧
      ∀ d ∈ p.found, ∀ d' ∈ devices, d.id = d'.id → d.token = d'.token := by
  obtain ⟨p, hp⟩ : ∃ p, (provider plainLocale).run {} [.discover [webcam] (plainDraws 0),
      .videoInputsChanged [webcam, irCamera]] = some p := ⟨_, rfl⟩
  have hstate : p.found.map Descriptor.token = ["0"] ∧ p.changes = [[webcam, irCamera]] ∧
      p.found.map Descriptor.id = [[1]] := by
    cases hp
    decide +kernel
  obtain ⟨htokens, hchanges, hfound⟩ := hstate
  have hdraws : Distinct (p.found.map Descriptor.token) (plainDraws 16) maxDevices := by
    rw [htokens]
    have hunused : ∀ token ∈ (plainDraws 16).map hex, token ∉ ["0"] := by decide +kernel
    exact ⟨by decide +kernel, fun _ hdraw => hunused _ (List.mem_map_of_mem hdraw), by decide⟩
  have hids : ([webcam, irCamera].map Input.id).Nodup := by decide
  obtain ⟨devices, hdiscover, hiff⟩ :=
    devices_accepted_iff (Machine.Reachable.init.run (m := provider plainLocale) hp) hids hdraws {}
  obtain ⟨haccepted, hkept⟩ := hiff.2 ⟨by decide +kernel, fun d hd _ _ _ _ => by
    have hid : d.id ∈ p.found.map Descriptor.id := List.mem_map_of_mem hd
    rw [hfound, List.mem_singleton] at hid
    rw [Provider.Stayed, hchanges, hid]
    decide⟩
  exact ⟨p, devices, hp, hdiscover, haccepted, hkept⟩

/-- A camera whose 128th character has two bytes. -/
def accentedCamera : Input := ⟨[1], List.replicate 127 0x61 ++ [0xe9], true, .rgb⟩

/-- Its record is refused; and a camera that was gone between two discoveries has
    another token after it. -/
theorem devices_accepted_iff_fails :
    (∃ devices, discover plainLocale [] [accentedCamera] (plainDraws 0) = some devices ∧
      ¬ (({} : Session).handleDevices (record plainLocale devices)).2) ∧
    ∃ p devices, (provider plainLocale).run {} [.discover [webcam] (plainDraws 0),
        .videoInputsChanged []] = some p ∧
      discover plainLocale p.devices [webcam] (plainDraws 16) = some devices ∧
      ¬ ∀ d ∈ p.found, ∀ d' ∈ devices, d.id = d'.id → d.token = d'.token := by
  constructor
  · have hdraws : Distinct (([] : List Descriptor).map Descriptor.token) (plainDraws 0)
        maxDevices := ⟨by decide +kernel, fun _ _ => List.not_mem_nil, by decide⟩
    obtain ⟨devices, hdiscover⟩ := discover_isSome plainLocale [accentedCamera] hdraws
    refine ⟨devices, hdiscover, ?_⟩
    have hstart : (provider plainLocale).Reachable {} := .init
    rw [handleDevices_discover_iff (provider_kept hstart).named (by decide) hdiscover]
    intro h
    have hle := sanitizedLabel_le_iff.2 (h accentedCamera (by decide) rfl)
    exact absurd hle (by decide +kernel)
  · refine ⟨_, _, rfl, rfl, ?_⟩
    decide +kernel

end Preview

end KFaceAuth
