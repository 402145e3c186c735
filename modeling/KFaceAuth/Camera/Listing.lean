import KFaceAuth.Camera.Config

/-!
# The list of cameras

`kfaceauth-camera-config --list` prints the camera that is set and the cameras that
there are (`listing`), and the application reads that (`parseList`). Paths and
labels are printed as they are, in hexadecimal digits. The application accepts
them only in some form: paths of devices, and labels without a slash or the end of
a line.

* `parseList_listing`: which listings the application accepts, and that it then
  stores what was printed.
-/

namespace KFaceAuth

namespace Camera

open Text

/-! ## Hexadecimal digits -/

/-- A digit of `{:02x}`. -/
def hexDigit (n : ℕ) : UInt8 := if n < 10 then (48 + n).toUInt8 else (87 + n).toUInt8

/-- `hex`. -/
def hex (bytes : List UInt8) : List UInt8 :=
  bytes.flatMap fun byte => [hexDigit (byte.toNat / 16), hexDigit (byte.toNat % 16)]

def isHexDigit (byte : UInt8) : Bool := (48 ≤ byte && byte ≤ 57) || (97 ≤ byte && byte ≤ 102)

def hexValue (byte : UInt8) : ℕ := if byte ≤ 57 then byte.toNat - 48 else byte.toNat - 87

/-- `QByteArray::fromHex`, of an even number of digits. -/
def fromHex : List UInt8 → List UInt8
  | a :: b :: text => (16 * hexValue a + hexValue b).toUInt8 :: fromHex text
  | _ => []

/-- `decode`. A text that is refused gives nothing. -/
def decode (text : List UInt8) : List UInt8 :=
  if text = [] ∨ text.length % 2 ≠ 0 ∨ text.length > 8192 then []
  else if text.all isHexDigit then fromHex text
  else []

/-! ## What is printed -/

/-- The name of an entry of a directory. -/
structure EntryName where
  bytes : List UInt8
  ne : bytes ≠ []
  noNul : 0 ∉ bytes
  noSlash : 47 ∉ bytes
  noDot : bytes ≠ [46]
  noDots : bytes ≠ [46, 46]
  deriving DecidableEq

/-- What the program finds. A directory that cannot be read has no entries here, and
    an entry that cannot be read is none. -/
structure Host where
  /-- `read_dir("/dev")`. -/
  dev : List (Option EntryName)
  /-- `read_dir("/dev/v4l/by-path")`. -/
  byPath : List (Option EntryName)
  /-- The name of the card of a compatible camera at a path. -/
  card : List UInt8 → Option (List UInt8)
  /-- `fs::canonicalize`. -/
  canonicalize : List UInt8 → Option (List UInt8)
  /-- `safe_directory` and `read_config`. -/
  config : Except Unit (Option (List UInt8))
  /-- The names in a directory are different. -/
  devNodup : (dev.reduceOption).Nodup

/-- `camera_metadata`, from the name of the card. -/
def cameraMetadata (card : List UInt8) : Option (List UInt8) :=
  let name := (card.take 32).takeWhile (· ≠ 0)
  if name = [] then none else some (encodeUtf8 (lossy 0 name))

def devPrefix : List UInt8 := ascii "/dev/"
def byPathPrefix : List UInt8 := ascii "/dev/v4l/by-path/"
def byIdPrefix : List UInt8 := ascii "/dev/v4l/by-id/"

def isDigit (byte : UInt8) : Bool := 48 ≤ byte && byte ≤ 57

/-- `video` and digits. A name of this form is text. -/
def isVideo (name : EntryName) : Bool :=
  (ascii "video").isPrefixOf name.bytes && name.bytes.drop 5 ≠ [] && (name.bytes.drop 5).all isDigit

/-- The order of paths in one directory. -/
def sortPaths (paths : List (List UInt8)) : List (List UInt8) :=
  paths.mergeSort fun a b => decide (a ≤ b)

/-- A camera that is printed. -/
structure Device where
  path : List UInt8
  label : List UInt8
  deriving DecidableEq, Repr

/-- The line of a device. -/
def Device.line (device : Device) : List UInt8 :=
  ascii "device " ++ hex device.path ++ [32] ++ hex device.label

namespace Host

variable (host : Host)

/-- The nodes of `cameras`. -/
def nodes : List (List UInt8) :=
  (sortPaths ((((host.dev.take 4096).reduceOption).filter isVideo).map
    fun name => devPrefix ++ name.bytes)).take 128

/-- The path of a node that stays the same: the first name for it, or the node. -/
def stable (node : List UInt8) : List UInt8 :=
  let names := ((host.byPath.take 4096).reduceOption).map fun name => byPathPrefix ++ name.bytes
  (sortPaths (names.filter fun path => host.canonicalize path = some node)).head?.getD node

/-- `cameras`. -/
def cameras : List Device :=
  host.nodes.filterMap fun node =>
    ((host.card node).bind cameraMetadata).map fun label => ⟨host.stable node, label⟩

/-- The cameras that are printed: those whose path is text. -/
def printed : List Device := host.cameras.filter fun device => (decodeUtf8 device.path).isSome

/-- `selected` of `run`. -/
def selected : Except Unit (Option (List UInt8)) := do
  let bytes ← host.config
  match setting (bytes.getD []) with
  | .ok path => return path.map encodeUtf8
  | .error _ => throw ()

/-- The path that is shown for the one that is set: that of the camera it leads to. -/
def display (path : List UInt8) : List UInt8 :=
  let canonical := host.canonicalize path
  let listed := host.cameras.find? fun device =>
    canonical.isSome && host.canonicalize device.path = canonical
  match listed with
  | some device => if (decodeUtf8 device.path).isSome then device.path else path
  | none => path

/-- The path of the selection, as it is printed. -/
def shown : Except Unit (Option (List UInt8)) := do
  return (← host.selected).map host.display

/-- The line of the selection. -/
def selectionLine : List UInt8 :=
  match host.shown with
  | .ok (some path) => ascii "selected " ++ hex path
  | .ok none => ascii "automatic"
  | .error _ => ascii "unknown"

/-- The lines of `run` for `--list`. -/
def listingLines : List (List UInt8) :=
  ascii "KFCAMERA1" :: host.selectionLine :: host.printed.map Device.line

/-- What `run` prints for `--list`. -/
def listing : List UInt8 := host.listingLines.flatMap fun line => line ++ [10]

end Host

/-! ## What is read -/

/-- `validDevicePath`. -/
def validDevicePath (path : List UInt8) : Bool :=
  if 0 ∈ path ∨ 10 ∈ path ∨ 13 ∈ path then false
  else if byPathPrefix.isPrefixOf path || byIdPrefix.isPrefixOf path then
    let name := path.drop (if byIdPrefix.isPrefixOf path then 15 else 17)
    name ≠ [] && 47 ∉ name && name ≠ [46] && name ≠ [46, 46]
  else if !(ascii "/dev/video").isPrefixOf path then false
  else path.drop 10 ≠ [] && (path.drop 10).all isDigit

/-- `State`. -/
inductive State
  | unknown
  | automatic
  | selected
  deriving DecidableEq, Repr

/-- What `parseList` stores. A token is the number of its device here; the program
    draws a new one for each. -/
structure Stored where
  state : State
  selectedToken : Option ℕ
  paths : List (ℕ × List UInt8)
  devices : List (ℕ × List Char)
  deriving DecidableEq, Repr

/-- The end of `parseList`: a selection that is not listed is not known. -/
def Stored.settle (stored : Stored) : Stored :=
  if stored.state = .selected ∧ stored.selectedToken = none then { stored with state := .unknown }
  else stored

section

-- What `QString::fromUtf8` makes of bytes that are not UTF-8.
variable (invalid : List UInt8 → List Char)

/-- `QString::fromUtf8`, as characters. A byte order mark at the start is left out. -/
def fromUtf8 (bytes : List UInt8) : List Char :=
  let bytes := if [0xef, 0xbb, 0xbf].isPrefixOf bytes then bytes.drop 3 else bytes
  (decodeUtf8 bytes).getD (invalid bytes)

/-- The check of a device in `parseList`. -/
def acceptsDevice (seen : List (List UInt8)) (path label : List UInt8) : Bool :=
  validDevicePath path && label ≠ [] && label.length ≤ 128 && 0 ∉ label && 10 ∉ label &&
    13 ∉ label && 47 ∉ label && path ∉ seen

/-- The loop of `parseList` over the devices. -/
def parseDevices (selected : List UInt8) : List (List UInt8) → Stored → Option Stored
  | [], stored => some stored
  | line :: lines, stored =>
    match line.splitOn 32 with
    | [word, path, label] =>
      let path := decode path
      let label := decode label
      let token := stored.devices.length
      if word ≠ ascii "device" ∨ !acceptsDevice (stored.paths.map Prod.snd) path label then none
      else parseDevices selected lines { stored with
        paths := stored.paths ++ [(token, path)]
        devices := stored.devices ++ [(token, fromUtf8 invalid label)]
        selectedToken := if path = selected then some token else stored.selectedToken }
    | _ => none

/-- The selection in `parseList`: the state and the path. -/
def parseSelection (selection : List UInt8) : Option (State × List UInt8) :=
  if selection = ascii "automatic" then some (.automatic, [])
  else if selection = ascii "unknown" then some (.unknown, [])
  else if (ascii "selected ").isPrefixOf selection then
    let selected := decode (selection.drop 9)
    if validDevicePath selected then some (.selected, selected) else none
  else none

/-- `parseList`. -/
def parseList (output : List UInt8) : Option Stored :=
  match output.splitOn 10 with
  | first :: selection :: rest =>
    if rest = [] ∨ first ≠ ascii "KFCAMERA1" ∨ rest.getLast? ≠ some [] ∨ rest.length + 2 > 131 then
      none
    else do
      let (state, selected) ← parseSelection selection
      let stored ← parseDevices invalid selected rest.dropLast ⟨state, none, [], []⟩
      return stored.settle
  | _ => none

end

/-! ## Hexadecimal digits are read back -/

theorem isHexDigit_hexDigit : ∀ n < 16, isHexDigit (hexDigit n) = true := by decide

theorem hexValue_hexDigit : ∀ n < 16, hexValue (hexDigit n) = n := by decide

theorem length_hex (bytes : List UInt8) : (hex bytes).length = 2 * bytes.length := by
  induction bytes with
  | nil => rfl
  | cons byte bytes ih =>
    rw [hex, List.flatMap_cons, List.length_append, ← hex, ih, List.length_cons]
    simp only [List.length_cons, List.length_nil]
    omega

theorem all_hex (bytes : List UInt8) : (hex bytes).all isHexDigit = true := by
  induction bytes with
  | nil => rfl
  | cons byte bytes ih =>
    have hbyte : byte.toNat < 256 := byte.toNat_lt
    rw [hex, List.flatMap_cons, List.all_append, ← hex, ih, Bool.and_true]
    simp only [List.all_cons, List.all_nil, Bool.and_true, Bool.and_eq_true]
    exact ⟨isHexDigit_hexDigit _ (by omega), isHexDigit_hexDigit _ (by omega)⟩

theorem fromHex_hex (bytes : List UInt8) : fromHex (hex bytes) = bytes := by
  induction bytes with
  | nil => rfl
  | cons byte bytes ih =>
    have hbyte : byte.toNat < 256 := byte.toNat_lt
    have hvalue : 16 * (byte.toNat / 16) + byte.toNat % 16 = byte.toNat := Nat.div_add_mod _ _
    rw [hex, List.flatMap_cons, ← hex, List.cons_append, List.cons_append, List.nil_append, fromHex,
      hexValue_hexDigit _ (by omega), hexValue_hexDigit _ (by omega), ih, hvalue]
    exact congrArg (· :: bytes) (UInt8.ofNat_toNat)

/-- The digits of bytes are decoded to them, unless they are too many. -/
theorem decode_hex (bytes : List UInt8) :
    decode (hex bytes) = if bytes.length ≤ 4096 then bytes else [] := by
  rw [decode, length_hex]
  by_cases hnil : bytes = []
  · subst hnil
    rfl
  have hpos : 0 < bytes.length := List.length_pos_iff.mpr hnil
  by_cases hlen : bytes.length ≤ 4096
  · rw [if_neg, if_pos (all_hex bytes), fromHex_hex, if_pos hlen]
    rintro (hempty | hodd | hlong)
    · have := length_hex bytes
      rw [hempty, List.length_nil] at this
      omega
    · omega
    · omega
  · rw [if_pos (.inr (.inr (by omega))), if_neg hlen]

/-- The digits are neither a blank nor the end of a line. -/
theorem not_mem_hex {bytes : List UInt8} {byte : UInt8} (h : isHexDigit byte = false) :
    byte ∉ hex bytes := by
  intro hmem
  have := List.all_eq_true.mp (all_hex bytes) byte hmem
  rw [h] at this
  cases this

/-! ## Lines are split again -/

theorem lines_eq_intercalate (lines : List (List UInt8)) :
    (lines.flatMap fun line => line ++ [10]) = [10].intercalate (lines ++ [[]]) := by
  induction lines with
  | nil => rfl
  | cons line lines ih =>
    rw [List.flatMap_cons, ih, List.cons_append, List.intercalate_cons_of_ne_nil]
    exact List.append_ne_nil_of_right_ne_nil _ (List.cons_ne_nil _ _)

/-- What is printed is split into its lines. -/
theorem splitOn_lines {lines : List (List UInt8)} (h : ∀ line ∈ lines, 10 ∉ line) :
    (lines.flatMap fun line => line ++ [10]).splitOn 10 = lines ++ [[]] := by
  rw [lines_eq_intercalate, List.splitOn_intercalate]
  · intro line hline
    rcases List.mem_append.mp hline with hline | hline
    · exact h line hline
    · rw [List.mem_singleton.mp hline]
      exact List.not_mem_nil
  · exact List.append_ne_nil_of_right_ne_nil _ (List.cons_ne_nil _ _)

theorem splitOn_line (device : Device) :
    device.line.splitOn 32 = [ascii "device", hex device.path, hex device.label] := by
  have hline : device.line =
      [32].intercalate [ascii "device", hex device.path, hex device.label] := by
    simp only [Device.line, List.intercalate_cons_cons, List.intercalate_singleton,
      ← List.append_assoc]
    rfl
  rw [hline, List.splitOn_intercalate]
  · intro field hfield
    simp only [List.mem_cons, List.not_mem_nil, or_false] at hfield
    rcases hfield with rfl | rfl | rfl
    · decide
    · exact not_mem_hex rfl
    · exact not_mem_hex rfl
  · exact List.cons_ne_nil _ _

theorem not_mem_line (device : Device) : 10 ∉ device.line := by
  have hpath : 10 ∉ hex device.path := not_mem_hex rfl
  have hlabel : 10 ∉ hex device.label := not_mem_hex rfl
  simp only [Device.line, List.mem_append, not_or, List.mem_singleton]
  exact ⟨⟨⟨by decide, hpath⟩, by decide⟩, hlabel⟩

/-- A text without the mark at its start. -/
def withoutMark (text : List Char) : List Char := if text.head? = some mark then text.tail else text

/-- `QString::fromUtf8` reads a text but for the mark. -/
theorem fromUtf8_encodeUtf8 (invalid : List UInt8 → List Char) (text : List Char) :
    fromUtf8 invalid (encodeUtf8 text) = withoutMark text := by
  rw [fromUtf8]
  by_cases hprefix : [0xef, 0xbb, 0xbf] <+: encodeUtf8 text
  · rw [if_pos (List.isPrefixOf_iff_prefix.mpr hprefix)]
    rcases text with _ | ⟨c, text⟩
    · exact absurd hprefix.length_le (by decide)
    · obtain rfl := mark_of_prefix hprefix
      have hdrop : (encodeUtf8 (mark :: text)).drop 3 = encodeUtf8 text := by
        rw [encodeUtf8_eq, List.flatMap_cons, ← encodeUtf8_eq]
        rfl
      rw [hdrop, decodeUtf8_encodeUtf8]
      rfl
  · rw [if_neg (fun h => hprefix (List.isPrefixOf_iff_prefix.mp h))]
    rw [decodeUtf8_encodeUtf8, withoutMark, if_neg, Option.getD_some]
    rcases text with _ | ⟨c, text⟩
    · exact nofun
    · intro hc
      obtain rfl := Option.some.inj hc
      refine hprefix ?_
      rw [encodeUtf8_eq, List.flatMap_cons]
      exact List.prefix_append [0xef, 0xbb, 0xbf] _

/-! ## What is printed of a camera -/

/-- What a label that is printed is: text, not empty, and not longer than the
    application accepts. -/
theorem cameraMetadata_some {card label : List UInt8} (h : cameraMetadata card = some label) :
    label ≠ [] ∧ label.length ≤ 128 ∧ 0 ∉ label ∧ ∃ text, label = encodeUtf8 text := by
  unfold cameraMetadata at h
  dsimp only at h
  split at h
  · cases h
  next hne =>
  obtain rfl := Option.some.inj h
  generalize hname : (card.take 32).takeWhile (· ≠ 0) = name at hne
  have hlen : name.length ≤ 32 := by
    rw [← hname]
    exact Nat.le_trans (List.takeWhile_sublist _).length_le (List.length_take_le _ _)
  have hnul : 0 ∉ name := by
    intro hmem
    rw [← hname] at hmem
    have := List.all_eq_true.mp List.all_takeWhile 0 hmem
    simp at this
  refine ⟨?_, ?_, not_mem_lossy 0 hnul, _, rfl⟩
  · rcases name with _ | ⟨first, name⟩
    · exact absurd rfl hne
    · rw [lossy, encodeUtf8_eq, List.flatMap_cons]
      exact List.append_ne_nil_of_left_ne_nil String.utf8EncodeChar_ne_nil _
  · have := length_lossy 0 name
    omega

/-- The paths that are printed: of a node, or of a name for it. -/
inductive Printable : List UInt8 → Prop
  | node (digits : List UInt8) (ne : digits ≠ []) (all : digits.all isDigit = true) :
    Printable (ascii "/dev/video" ++ digits)
  | byPath (name : EntryName) : Printable (byPathPrefix ++ name.bytes)

theorem not_mem_of_isDigit {bytes : List UInt8} {byte : UInt8} (h : bytes.all isDigit = true)
    (hbyte : isDigit byte = false) : byte ∉ bytes := by
  intro hmem
  have := List.all_eq_true.mp h byte hmem
  rw [hbyte] at this
  cases this

/-- The application accepts a path that is printed, unless it has the end of a
    line. -/
theorem Printable.valid {path : List UInt8} (h : Printable path) :
    validDevicePath path = true ↔ 10 ∉ path ∧ 13 ∉ path := by
  cases h with
  | node digits ne all =>
    have hnot : ∀ byte, isDigit byte = false → byte ∉ ascii "/dev/video" →
        byte ∉ ascii "/dev/video" ++ digits := fun byte hbyte hdev =>
      List.not_mem_append hdev (not_mem_of_isDigit all hbyte)
    have h₁₀ := hnot 10 rfl (by decide)
    have h₁₃ := hnot 13 rfl (by decide)
    refine iff_of_true ?_ ⟨h₁₀, h₁₃⟩
    have hdrop : (ascii "/dev/video" ++ digits).drop 10 = digits := rfl
    have hprefix : (ascii "/dev/video").isPrefixOf (ascii "/dev/video" ++ digits) = true :=
      List.isPrefixOf_iff_prefix.mpr (List.prefix_append _ _)
    have hname : (byPathPrefix.isPrefixOf (ascii "/dev/video" ++ digits) ||
        byIdPrefix.isPrefixOf (ascii "/dev/video" ++ digits)) = false := rfl
    rw [validDevicePath, if_neg (by simp only [h₁₀, h₁₃, hnot 0 rfl (by decide)]; simp), hname,
      hprefix, hdrop, all]
    simpa using ne
  | byPath name =>
    have hzero : 0 ∉ byPathPrefix ++ name.bytes := List.not_mem_append (by decide) name.noNul
    have hprefix : (byPathPrefix.isPrefixOf (byPathPrefix ++ name.bytes) ||
        byIdPrefix.isPrefixOf (byPathPrefix ++ name.bytes)) = true := by
      rw [List.isPrefixOf_iff_prefix.mpr (List.prefix_append _ _)]
      rfl
    have hid : byIdPrefix.isPrefixOf (byPathPrefix ++ name.bytes) = false := rfl
    have hdrop : (byPathPrefix ++ name.bytes).drop 17 = name.bytes := rfl
    rw [validDevicePath, hprefix, hid]
    by_cases hend : 10 ∈ byPathPrefix ++ name.bytes ∨ 13 ∈ byPathPrefix ++ name.bytes
    · rw [if_pos (.inr hend)]
      exact iff_of_false nofun (by tauto)
    · rw [if_neg (by tauto)]
      refine iff_of_true ?_ (by tauto)
      simp [hdrop, name.ne, name.noSlash, name.noDot, name.noDots]

namespace Host

variable {host : Host}

theorem mem_sortPaths {path : List UInt8} {paths : List (List UInt8)} :
    path ∈ sortPaths paths ↔ path ∈ paths :=
  List.mem_mergeSort

theorem node_of_mem {node : List UInt8} (h : node ∈ host.nodes) :
    ∃ digits, digits ≠ [] ∧ digits.all isDigit = true ∧ node = ascii "/dev/video" ++ digits := by
  have hmem := mem_sortPaths.mp (List.mem_of_mem_take h)
  obtain ⟨name, hname, rfl⟩ := List.mem_map.mp hmem
  have hvideo := (List.mem_filter.mp hname).2
  simp only [isVideo, Bool.and_eq_true, decide_eq_true_eq, List.isPrefixOf_iff_prefix] at hvideo
  obtain ⟨⟨⟨digits, hdigits⟩, hne⟩, hall⟩ := hvideo
  rw [← hdigits] at hne hall ⊢
  exact ⟨digits, hne, hall, rfl⟩

/-- The path of a node is a name that leads to it, or the node. -/
theorem stable_cases (host : Host) (node : List UInt8) :
    (∃ name : EntryName, host.stable node = byPathPrefix ++ name.bytes ∧
      host.canonicalize (byPathPrefix ++ name.bytes) = some node) ∨ host.stable node = node := by
  rw [stable]
  generalize hpaths : sortPaths _ = paths
  rcases paths with _ | ⟨path, paths⟩
  · exact .inr rfl
  · left
    have hmem : path ∈ path :: paths := List.mem_cons_self
    rw [← hpaths, mem_sortPaths, List.mem_filter, List.mem_map] at hmem
    obtain ⟨⟨name, -, rfl⟩, hcanonical⟩ := hmem
    exact ⟨name, rfl, of_decide_eq_true hcanonical⟩

theorem printable_stable {node : List UInt8} (h : node ∈ host.nodes) :
    Printable (host.stable node) := by
  rcases host.stable_cases node with ⟨name, heq, -⟩ | heq
  · rw [heq]
    exact .byPath name
  · obtain ⟨digits, hne, hall, rfl⟩ := node_of_mem h
    rw [heq]
    exact .node digits hne hall

theorem nodup_nodes (host : Host) : host.nodes.Nodup := by
  refine List.Nodup.sublist (List.take_sublist _ _) ((List.mergeSort_perm _ _).nodup_iff.mpr ?_)
  refine List.Nodup.map (fun name name' h => ?_) (List.Nodup.filter _ ?_)
  · obtain ⟨bytes, _, _, _, _, _⟩ := name
    obtain ⟨bytes', _, _, _, _, _⟩ := name'
    obtain rfl := List.append_cancel_left h
    rfl
  · exact host.devNodup.sublist (List.Sublist.filterMap _ (List.take_sublist _ _))

/-- Different nodes have different paths. -/
theorem stable_inj {node node' : List UInt8} (h : node ∈ host.nodes) (h' : node' ∈ host.nodes)
    (heq : host.stable node = host.stable node') : node = node' := by
  have hdiffer : ∀ (name : EntryName) {node : List UInt8}, node ∈ host.nodes →
      byPathPrefix ++ name.bytes ≠ node := by
    intro name node hnode hsame
    obtain ⟨digits, -, -, rfl⟩ := node_of_mem hnode
    have htake : (byPathPrefix ++ name.bytes).take 7 = ascii "/dev/v4" := rfl
    have htake' : (ascii "/dev/video" ++ digits).take 7 = ascii "/dev/vi" := rfl
    rw [hsame, htake'] at htake
    exact absurd htake (by decide)
  rcases host.stable_cases node with ⟨name, hname, hcanonical⟩ | hname
  · rcases host.stable_cases node' with ⟨name', hname', hcanonical'⟩ | hname'
    · rw [hname, hname'] at heq
      rw [heq, hcanonical'] at hcanonical
      exact (Option.some.inj hcanonical).symm
    · exact absurd (hname.symm.trans (heq.trans hname')) (hdiffer name h')
  · rcases host.stable_cases node' with ⟨name', hname', -⟩ | hname'
    · exact absurd (hname'.symm.trans (heq.symm.trans hname)) (hdiffer name' h)
    · rw [← hname, heq, hname']

theorem paths_cameras_sublist (host : Host) (nodes : List (List UInt8)) :
    ((nodes.filterMap fun node => ((host.card node).bind cameraMetadata).map fun label =>
      (⟨host.stable node, label⟩ : Device)).map Device.path).Sublist (nodes.map host.stable) := by
  induction nodes with
  | nil => exact List.Sublist.refl _
  | cons node nodes ih =>
    rw [List.filterMap_cons, List.map_cons]
    rcases (host.card node).bind cameraMetadata with _ | label
    · exact ih.cons _
    · exact ih.cons_cons _

theorem nodup_printed (host : Host) : (host.printed.map Device.path).Nodup := by
  have hcameras : (host.cameras.map Device.path).Nodup := by
    refine List.Nodup.sublist (host.paths_cameras_sublist host.nodes) ?_
    exact List.Nodup.map_on (fun node h node' h' => stable_inj h h') host.nodup_nodes
  exact hcameras.sublist (List.filter_sublist.map _)

theorem length_printed (host : Host) : host.printed.length ≤ 128 :=
  calc host.printed.length ≤ host.cameras.length := List.length_filter_le _ _
    _ ≤ host.nodes.length := List.length_filterMap_le _ _
    _ ≤ 128 := List.length_take_le _ _

/-- What is printed of a device. -/
theorem device_of_mem {device : Device} (h : device ∈ host.printed) :
    Printable device.path ∧ device.label ≠ [] ∧ device.label.length ≤ 128 ∧ 0 ∉ device.label ∧
      ∃ text, device.label = encodeUtf8 text := by
  obtain ⟨node, hnode, hdevice⟩ := List.mem_filterMap.mp (List.mem_filter.mp h).1
  obtain ⟨label, hlabel, rfl⟩ := Option.map_eq_some_iff.mp hdevice
  obtain ⟨card, -, hmetadata⟩ := Option.bind_eq_some_iff.mp hlabel
  exact ⟨printable_stable hnode, cameraMetadata_some hmetadata⟩

end Host

/-! ## What is printed is stored -/

/-- What is stored of devices, with the state and the path that is selected. -/
def storedOf (invalid : List UInt8 → List Char) (state : State) (selected : List UInt8)
    (devices : List Device) : Stored where
  state := state
  selectedToken := devices.findIdx? fun device => device.path = selected
  paths := devices.mapIdx fun token device => (token, device.path)
  devices := devices.mapIdx fun token device => (token, fromUtf8 invalid device.label)

/-- The application can read what is printed of a device. -/
def Device.Readable (device : Device) : Prop :=
  device.path.length ≤ 4096 ∧ 10 ∉ device.path ∧ 13 ∉ device.path ∧
    10 ∉ device.label ∧ 13 ∉ device.label ∧ 47 ∉ device.label

instance (device : Device) : Decidable device.Readable :=
  inferInstanceAs (Decidable (_ ∧ _ ∧ _ ∧ _ ∧ _ ∧ _))

variable {invalid : List UInt8 → List Char}

/-- The check of a device that is printed. -/
theorem acceptsDevice_iff {host : Host} {device : Device} {seen : List (List UInt8)}
    (h : device ∈ host.printed) (hseen : device.path ∉ seen) :
    acceptsDevice seen (decode (hex device.path)) (decode (hex device.label)) = true ↔
      device.Readable := by
  obtain ⟨hprintable, hne, hlen, hnul, -⟩ := Host.device_of_mem h
  have hlabel : decode (hex device.label) = device.label := by
    rw [decode_hex, if_pos (by omega)]
  rw [hlabel, decode_hex]
  by_cases hlong : device.path.length ≤ 4096
  · rw [if_pos hlong]
    simp only [acceptsDevice, Bool.and_eq_true, hprintable.valid, decide_eq_true_eq, ne_eq,
      Device.Readable]
    tauto
  · rw [if_neg hlong]
    refine iff_of_false ?_ fun hreadable => hlong hreadable.1
    exact nofun

/-- A device that is stored after others. -/
theorem storedOf_append {state : State} {selected : List UInt8} {done : List Device}
    {device : Device} (hnew : device.path ∉ done.map Device.path) :
    storedOf invalid state selected (done ++ [device]) =
      { storedOf invalid state selected done with
        paths := (storedOf invalid state selected done).paths ++ [(done.length, device.path)]
        devices := (storedOf invalid state selected done).devices ++
          [(done.length, fromUtf8 invalid device.label)]
        selectedToken := if device.path = selected then some done.length
          else (storedOf invalid state selected done).selectedToken } := by
  have htoken : ((done ++ [device]).findIdx? fun device => decide (device.path = selected)) =
      if device.path = selected then some done.length
      else done.findIdx? fun device => decide (device.path = selected) := by
    rw [List.findIdx?_append, List.findIdx?_singleton]
    by_cases hselected : device.path = selected
    · have hnone : (done.findIdx? fun device => decide (device.path = selected)) = none := by
        rw [List.findIdx?_eq_none_iff]
        intro other hother
        refine decide_eq_false fun heq => hnew ?_
        rw [hselected, ← heq]
        exact List.mem_map_of_mem hother
      rw [hnone, if_pos hselected, if_pos (decide_eq_true hselected)]
      simp
    · rw [if_neg hselected, if_neg (by simpa using hselected)]
      simp
  simp only [storedOf, htoken, List.mapIdx_concat]

/-- The devices that are printed are stored in their order, or one of them is
    refused. -/
theorem parseDevices_printed {host : Host} {state : State} {selected : List UInt8}
    {done devices : List Device} (hsplit : host.printed = done ++ devices) :
    parseDevices invalid selected (devices.map Device.line) (storedOf invalid state selected done) =
      if ∀ device ∈ devices, device.Readable then
        some (storedOf invalid state selected host.printed)
      else none := by
  induction devices generalizing done with
  | nil =>
    rw [hsplit, List.append_nil, if_pos nofun]
    rfl
  | cons device devices ih =>
    have hmem : device ∈ host.printed := by
      rw [hsplit]
      exact List.mem_append_right _ List.mem_cons_self
    have hnew : device.path ∉ done.map Device.path := by
      have hnodup := host.nodup_printed
      rw [hsplit, List.map_append, List.map_cons] at hnodup
      exact fun hseen => (List.nodup_append.mp hnodup).2.2 _ hseen _ List.mem_cons_self rfl
    have hseen : (storedOf invalid state selected done).paths.map Prod.snd =
        done.map Device.path := by
      refine List.ext_getElem (by simp [storedOf]) fun i h h' => ?_
      simp [storedOf]
    have htoken : (storedOf invalid state selected done).devices.length = done.length :=
      List.length_mapIdx
    have hiff := acceptsDevice_iff hmem hnew
    rw [List.map_cons, parseDevices, splitOn_line]
    simp only [hseen, htoken, ne_eq, not_true_eq_false, false_or]
    by_cases hreadable : device.Readable
    · obtain ⟨hpath, -⟩ := id hreadable
      obtain ⟨-, -, hlabel, -, -⟩ := Host.device_of_mem hmem
      have hlabel : decode (hex device.label) = device.label := by
        rw [decode_hex, if_pos (by omega)]
      have hrest := @ih (done ++ [device]) (by rw [hsplit, List.append_assoc]; rfl)
      rw [storedOf_append hnew] at hrest
      rw [hiff.mpr hreadable, hlabel, decode_hex, if_pos hpath, if_neg (by decide)]
      refine hrest.trans ?_
      simp only [List.forall_mem_cons, hreadable, true_and]
    · have hfalse : acceptsDevice (done.map Device.path) (decode (hex device.path))
          (decode (hex device.label)) = false :=
        Bool.eq_false_iff.mpr fun h => hreadable (hiff.mp h)
      rw [hfalse, if_pos Bool.not_false, if_neg fun h => hreadable (h device List.mem_cons_self)]

theorem not_mem_listingLines (host : Host) : ∀ line ∈ host.listingLines, 10 ∉ line := by
  intro line hline
  rcases List.mem_cons.mp hline with rfl | hline
  · decide
  rcases List.mem_cons.mp hline with rfl | hline
  · rw [Host.selectionLine]
    split
    · exact List.not_mem_append (by decide) (not_mem_hex rfl)
    · decide
    · decide
  · obtain ⟨device, -, rfl⟩ := List.mem_map.mp hline
    exact not_mem_line device

/-- A listing is read line by line. -/
theorem parseList_eq (host : Host) :
    parseList invalid host.listing =
      (parseSelection host.selectionLine).bind fun (state, selected) =>
        if ∀ device ∈ host.printed, device.Readable then
          some (storedOf invalid state selected host.printed).settle
        else none := by
  have hlen := host.length_printed
  rw [parseList, Host.listing, splitOn_lines (not_mem_listingLines host), Host.listingLines]
  simp only [List.cons_append]
  rw [if_neg]
  · rw [List.dropLast_concat]
    rcases parseSelection host.selectionLine with _ | ⟨state, selected⟩
    · rfl
    have hdevices : parseDevices invalid selected (host.printed.map Device.line)
        ⟨state, none, [], []⟩ = _ :=
      parseDevices_printed (List.nil_append host.printed).symm
    simp only [Option.bind_eq_bind, Option.bind_some, hdevices]
    split
    · rfl
    · rfl
  · simp only [List.append_eq_nil_iff, List.cons_ne_self, and_false, ne_eq, not_true_eq_false,
      List.getLast?_concat, List.length_append, List.length_map, List.length_singleton, false_or]
    omega

/-- The selection is read, unless its path is not that of a device. -/
theorem parseSelection_selectionLine (host : Host) :
    parseSelection host.selectionLine =
      match host.shown with
      | .ok (some path) =>
        if path.length ≤ 4096 ∧ validDevicePath path = true then some (.selected, path) else none
      | .ok none => some (.automatic, [])
      | .error _ => some (.unknown, []) := by
  rw [Host.selectionLine]
  rcases host.shown with _ | _ | path
  · rfl
  · rfl
  · have hprefix : (ascii "selected ").isPrefixOf (ascii "selected " ++ hex path) = true :=
      List.isPrefixOf_iff_prefix.mpr (List.prefix_append _ _)
    have hdrop : (ascii "selected " ++ hex path).drop 9 = hex path := rfl
    have hhead : (ascii "selected " ++ hex path).head? = some 115 := rfl
    have hautomatic : ascii "selected " ++ hex path ≠ ascii "automatic" := fun h =>
      absurd (h ▸ hhead) (by decide)
    have hunknown : ascii "selected " ++ hex path ≠ ascii "unknown" := fun h =>
      absurd (h ▸ hhead) (by decide)
    simp only [parseSelection]
    rw [if_neg hautomatic, if_neg hunknown, hprefix, if_pos rfl, hdrop, decode_hex]
    by_cases hlong : path.length ≤ 4096
    · simp only [hlong, if_true, true_and]
    · rw [if_neg hlong, if_neg nofun, if_neg fun h => hlong h.1]

/-- The path that is shown can be read: it is that of a device. -/
def Host.Readable (host : Host) : Prop :=
  (∀ path, host.shown = .ok (some path) → path.length ≤ 4096 ∧ validDevicePath path = true) ∧
    ∀ device ∈ host.printed, device.Readable

/-- What the application is to store. -/
structure Same (host : Host) (stored : Stored) : Prop where
  /-- The paths, in their order, by their tokens. -/
  paths : stored.paths = host.printed.mapIdx fun token device => (token, device.path)
  /-- The labels, in the same order, without a byte order mark. -/
  labels : ∀ (token : ℕ) (device : Device), host.printed[token]? = some device →
    ∃ text, device.label = encodeUtf8 text ∧
      stored.devices[token]? = some (token, withoutMark text)
  length : stored.devices.length = host.printed.length
  /-- The selection, which is recognised when its path is among the printed ones. -/
  state : match host.shown with
    | .ok (some path) =>
      if path ∈ host.printed.map Device.path then
        stored.state = .selected ∧ ∃ token, stored.selectedToken = some token ∧
          (token, path) ∈ stored.paths
      else stored.state = .unknown ∧ stored.selectedToken = none
    | .ok none => stored.state = .automatic ∧ stored.selectedToken = none
    | .error _ => stored.state = .unknown ∧ stored.selectedToken = none

theorem findIdx?_of_not_mem {devices : List Device} {path : List UInt8}
    (h : path ∉ devices.map Device.path) :
    (devices.findIdx? fun device => decide (device.path = path)) = none := by
  rw [List.findIdx?_eq_none_iff]
  exact fun device hdevice => decide_eq_false fun heq => h (heq ▸ List.mem_map_of_mem hdevice)

theorem findIdx?_of_mem {devices : List Device} {path : List UInt8}
    (h : path ∈ devices.map Device.path) :
    ∃ token, (devices.findIdx? fun device => decide (device.path = path)) = some token ∧
      (token, path) ∈ devices.mapIdx fun token device => (token, device.path) := by
  rcases htoken : devices.findIdx? fun device => decide (device.path = path) with _ | token
  · rw [List.findIdx?_eq_none_iff] at htoken
    obtain ⟨device, hdevice, rfl⟩ := List.mem_map.mp h
    exact absurd rfl (of_decide_eq_false (htoken device hdevice))
  · obtain ⟨hlt, hpath, -⟩ := List.findIdx?_eq_some_iff_getElem.mp htoken
    refine ⟨token, htoken, List.mem_mapIdx.mpr ⟨token, hlt, ?_⟩⟩
    rw [of_decide_eq_true hpath]

theorem Printable.ne_nil {path : List UInt8} (h : Printable path) : path ≠ [] := by
  cases h with
  | node digits _ _ => exact List.cons_ne_nil _ _
  | byPath name => exact List.cons_ne_nil _ _

theorem settle_paths (stored : Stored) : stored.settle.paths = stored.paths := by
  rw [Stored.settle]
  split
  · rfl
  · rfl

theorem settle_devices (stored : Stored) : stored.settle.devices = stored.devices := by
  rw [Stored.settle]
  split
  · rfl
  · rfl

/-- What is stored is what was printed. -/
theorem same_storedOf {host : Host} {state : State} {selected : List UInt8}
    (h : match host.shown with
      | .ok (some path) => state = .selected ∧ selected = path
      | .ok none => state = .automatic ∧ selected = []
      | .error _ => state = .unknown ∧ selected = []) :
    Same host (storedOf invalid state selected host.printed).settle := by
  -- No device has the empty path that stands for no selection.
  have hnil : [] ∉ host.printed.map Device.path := by
    intro hmem
    obtain ⟨device, hdevice, hpath⟩ := List.mem_map.mp hmem
    exact (Host.device_of_mem hdevice).1.ne_nil hpath
  refine ⟨settle_paths _, fun token device hdevice => ?_, ?_, ?_⟩
  · obtain ⟨-, -, -, -, text, htext⟩ := Host.device_of_mem (List.mem_of_getElem? hdevice)
    refine ⟨text, htext, ?_⟩
    rw [settle_devices]
    simp only [storedOf, List.getElem?_mapIdx, hdevice, Option.map_some, htext,
      fromUtf8_encodeUtf8]
  · rw [settle_devices]
    exact List.length_mapIdx
  · rw [settle_paths]
    rcases hshown : host.shown with _ | _ | path
    all_goals
      rw [hshown] at h
      obtain ⟨rfl, rfl⟩ := h
    · have htoken := findIdx?_of_not_mem hnil
      simp [Stored.settle, storedOf, htoken]
    · have htoken := findIdx?_of_not_mem hnil
      simp [Stored.settle, storedOf, htoken]
    · by_cases hmem : selected ∈ host.printed.map Device.path
      · obtain ⟨token, htoken, hpaths⟩ := findIdx?_of_mem hmem
        simp only [if_pos hmem, Stored.settle, storedOf, htoken, reduceCtorEq, and_false, if_false]
        exact ⟨trivial, token, rfl, hpaths⟩
      · have htoken := findIdx?_of_not_mem hmem
        simp only [if_neg hmem, Stored.settle, storedOf, htoken, and_self, if_true]

/-- The application accepts a listing exactly when the path that it shows as selected
    is that of a device, and the paths and labels of its devices have no end of a
    line and the labels no slash. It then stores what was printed. -/
theorem parseList_listing (invalid : List UInt8 → List Char) (host : Host) :
    ((parseList invalid host.listing).isSome ↔ host.Readable) ∧
      ∀ stored, parseList invalid host.listing = some stored → Same host stored := by
  rw [parseList_eq, parseSelection_selectionLine, Host.Readable]
  by_cases hdevices : ∀ device ∈ host.printed, device.Readable
  · have hsame : ∀ state selected, (match host.shown with
        | .ok (some path) => state = .selected ∧ selected = path
        | .ok none => state = .automatic ∧ selected = []
        | .error _ => state = .unknown ∧ selected = []) →
        ∀ stored, some (storedOf invalid state selected host.printed).settle = some stored →
          Same host stored := by
      intro state selected h stored hstored
      obtain rfl := Option.some.inj hstored
      exact same_storedOf h
    rcases hshown : host.shown with _ | _ | path
    all_goals
      rw [hshown] at hsame
      simp only [Option.bind_some, if_pos hdevices]
    · exact ⟨iff_of_true rfl ⟨nofun, hdevices⟩, hsame _ _ ⟨rfl, rfl⟩⟩
    · exact ⟨iff_of_true rfl ⟨nofun, hdevices⟩, hsame _ _ ⟨rfl, rfl⟩⟩
    · by_cases hpath : path.length ≤ 4096 ∧ validDevicePath path = true
      · rw [if_pos hpath]
        refine ⟨iff_of_true rfl ⟨fun path' h => ?_, hdevices⟩, hsame _ _ ⟨rfl, rfl⟩⟩
        cases h
        exact hpath
      · rw [if_neg hpath]
        exact ⟨iff_of_false nofun fun h => hpath (h.1 path rfl), nofun⟩
  · simp only [if_neg hdevices, Option.bind_fun_none]
    exact ⟨iff_of_false nofun fun h => hdevices h.2, nofun⟩

/-- One camera, whose name has a slash, and no setting. -/
def slashCamera : Host where
  dev := [some ⟨ascii "video0", by decide, by decide, by decide, by decide, by decide⟩]
  byPath := []
  card _ := some (ascii "USB2.0 HD/IR UVC WebCam")
  canonicalize path := some path
  config := .ok none
  devNodup := List.nodup_singleton _

/-- The application refuses the list of a camera that has a slash in its name. -/
theorem parseList_refuses_slash :
    ¬ ∀ (invalid : List UInt8 → List Char) (host : Host),
      (parseList invalid host.listing).isSome := by
  intro h
  have hsome := h (fun _ => []) slashCamera
  have hnone : parseList (fun _ => []) slashCamera.listing = none := by decide +kernel
  rw [hnone] at hsome
  cases hsome

end Camera

end KFaceAuth
