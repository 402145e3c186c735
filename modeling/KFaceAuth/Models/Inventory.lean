import KFaceAuth.Lib.DirTree
import KFaceAuth.Models.Agreement
import KFaceAuth.Models.Sha256
import Mathlib.Data.Finset.Insert
import Mathlib.Data.Finset.Image
import Mathlib.Data.List.Nodup

/-!
# The closed inventory of the models

The runtime verifies the root of the models before it uses them
(`load_and_verify_model_inventory`): every file below the root must be listed in the
manifest, every entry of the manifest must be a file, and each file is read and
compared with the size and the digest of its entry. The tree does not change
meanwhile.

The parser compares the paths of the manifest as texts, while the inventory compares
them by their components, and two texts may have the same components.

* `inventory_iff`: the entries of a verified manifest and the files below the root
  correspond one to one exactly when no two paths of the manifest have the same
  components. The rest of the correspondence holds without it.
-/

namespace KFaceAuth

namespace Models

open Text DirTree

/-! ## Verification -/

/-- `MANIFEST_FILE` -/
def manifestFile : FileName := ascii "manifest.kfaceauth"

def maxInventoryEntries : ℕ := maxManifestEntries * 2 + 1

/-- `ModelError`, with that of `ModelManifest::parse`. -/
inductive VerifyError
  | io (error : Errno)
  | manifest (error : ModelError)
  | unsafeFilesystemEntry
  | inventoryMismatch
  | artifactSizeMismatch
  | artifactDigestMismatch
  deriving DecidableEq, Repr

structure VerifiedArtifact where
  entry : ManifestEntry
  bytes : List UInt8
  deriving DecidableEq, Repr

/-- `Component::as_os_str` -/
def Component.asOsStr : Component → FileName
  | .rootDir => [47]
  | .curDir => [46]
  | .parentDir => [46, 46]
  | .normal segment => encodeUtf8 segment

/-- What `PathBuf`s are compared by. -/
def ManifestEntry.key (entry : ManifestEntry) : List FileName :=
  (components entry.path).map Component.asOsStr

/-- The pieces that the system finds in the path of an entry. -/
def ManifestEntry.pieces (entry : ManifestEntry) : List FileName :=
  (encodeUtf8 entry.path).splitOn 47

/-- `fs::symlink_metadata`, of a path below the root. -/
def symlinkMetadata (root : Item) (path : List FileName) : Except VerifyError Item :=
  match locate root [] path with
  | .error e => .error (.io e)
  | .ok (_, node) => .ok node

def requireDirectory (root : Item) (path : List FileName) : Except VerifyError Unit := do
  match ← symlinkMetadata root path with
  | .directory _ => .ok ()
  | _ => .error .unsafeFilesystemEntry

/-- The names that `fs::read_dir` lists. -/
def readDir (root : Item) (directory : List FileName) : Except VerifyError (List FileName) := do
  match ← symlinkMetadata root directory with
  | .directory entries => .ok (entries.map Prod.fst)
  | _ => .error (.io .enotdir)

def loadManifest (root : Item) : Except VerifyError (List ManifestEntry) := do
  requireDirectory root []
  match ← symlinkMetadata root [manifestFile] with
  | .file contents =>
    if contents.length = 0 ∨ contents.length > maxManifestBytes then
      .error (.manifest .invalidManifest)
    else
      let bytes := contents.take (maxManifestBytes + 1)
      if bytes.length ≠ contents.length then .error (.manifest .invalidManifest)
      else
        match decodeUtf8 bytes with
        | none => .error (.manifest .invalidManifest)
        | some text =>
          match ModelManifest.parse text with
          | .error e => .error (.manifest e)
          | .ok entries => .ok entries
  | _ => .error .unsafeFilesystemEntry

/-- The variables of the loops of `regular_files`, the last directory first. -/
structure Walk where
  directories : List (List FileName)
  files : Finset (List FileName)
  entryCount : ℕ

/-- The body of the loop over the entries of a directory. The count does not overflow:
    it is small. -/
def visit (root : Item) (directory : List FileName) (walk : Walk) (name : FileName) :
    Except VerifyError Walk :=
  if walk.entryCount + 1 > maxInventoryEntries then .error .inventoryMismatch
  else do
    let path := directory ++ [name]
    match ← symlinkMetadata root path with
    | .symlink _ => .error .unsafeFilesystemEntry
    | .directory _ => .ok ⟨path :: walk.directories, walk.files, walk.entryCount + 1⟩
    | .file _ =>
      if path ∈ walk.files then .error .inventoryMismatch
      else .ok ⟨walk.directories, insert path walk.files, walk.entryCount + 1⟩
    | .special => .error .unsafeFilesystemEntry

/-- The loop of `regular_files` over the directories. It ends before the fuel
    (`walkDirectories_fuel`), as every directory but the root has been counted. -/
def walkDirectories (root : Item) : ℕ → Walk → Except VerifyError (Finset (List FileName))
  | 0, _ => .error .inventoryMismatch
  | fuel + 1, walk =>
    match walk.directories with
    | [] => .ok walk.files
    | directory :: directories => do
      let names ← readDir root directory
      let walk ← names.foldlM (visit root directory) { walk with directories }
      walkDirectories root fuel walk

/-- The passes of the loop at most: one for the root, one for each entry, and the last. -/
def walkFuel : ℕ := maxInventoryEntries + 2

def regularFiles (root : Item) : Except VerifyError (Finset (List FileName)) := do
  requireDirectory root []
  walkDirectories root walkFuel ⟨[[]], ∅, 0⟩

/-- `reject_symlink_components`, with the path so far. -/
def rejectSymlinkComponents (root : Item) : List FileName → List Component → Except VerifyError Unit
  | _, [] => .ok ()
  | current, .normal segment :: rest => do
    let current := current ++ [encodeUtf8 segment]
    match ← symlinkMetadata root current with
    | .symlink _ => .error .unsafeFilesystemEntry
    | _ => rejectSymlinkComponents root current rest
  | _, _ => .error (.manifest .invalidManifest)

/-- `HEX` -/
def hexDigits : List Char := "0123456789abcdef".toList

section

-- `kfaceauth_crypto_openssl_sys::sha256`, which may fail
variable (sha256 : List UInt8 → Option (List UInt8))

def digest (input : List UInt8) : List UInt8 := (sha256 input).getD (digestSoftware input)

def digestHex (input : List UInt8) : List Char :=
  (digest sha256 input).flatMap fun (byte : UInt8) =>
    [hexDigits.getD (byte >>> 4).toNat '0', hexDigits.getD (byte &&& 0x0f).toNat '0']

def loadVerifiedEntry (root : Item) (entry : ManifestEntry) :
    Except VerifyError VerifiedArtifact := do
  rejectSymlinkComponents root [] (components entry.path)
  match ← symlinkMetadata root entry.pieces with
  | .file contents =>
    if contents.length ≠ entry.size then .error .artifactSizeMismatch
    else
      let bytes := contents.take (entry.size + 1)
      if bytes.length ≠ entry.size then .error .artifactSizeMismatch
      else if digestHex sha256 bytes ≠ entry.sha256 then .error .artifactDigestMismatch
      else .ok ⟨entry, bytes⟩
  | _ => .error .unsafeFilesystemEntry

def loadAndVerifyModelInventory (root : Item) :
    Except VerifyError (List ManifestEntry × List VerifiedArtifact) := do
  let manifest ← loadManifest root
  let listed := (manifest.map ManifestEntry.key).toFinset
  let present ← regularFiles root
  let present := present.erase [manifestFile]
  if present ≠ listed then .error .inventoryMismatch
  else do
    let artifacts ← manifest.mapM (loadVerifiedEntry sha256 root)
    .ok (manifest, artifacts)

/-! ## The correspondence -/

/-- A regular file below the root, other than the manifest. -/
def IsArtifact (root : Item) (place : List FileName) (bytes : List UInt8) : Prop :=
  root.get place = some (.file bytes) ∧ place ≠ [manifestFile]

/-- Whether the system finds the file at a place for the path of an entry. -/
def Names (root : Item) (entry : ManifestEntry) (place : List FileName) : Prop :=
  ∃ bytes, locate root [] entry.pieces = .ok (place, .file bytes)

/-- A regular file or a directory. -/
def IsPlain : Item → Prop
  | .file _ => True
  | .directory _ => True
  | _ => False

/-- The entries of a manifest and the files below the root correspond. -/
structure ClosedInventory (root : Item) (manifest : List ManifestEntry) : Prop where
  /-- Distinct entries name distinct files. -/
  distinct : manifest.Pairwise fun entry other =>
    ∀ place, Names root entry place → ¬ Names root other place
  /-- Every entry names a file. -/
  named : ∀ entry ∈ manifest, ∃ place bytes, IsArtifact root place bytes ∧ Names root entry place
  /-- Every file is named by exactly one entry, and has its size and digest. -/
  complete : ∀ place bytes, IsArtifact root place bytes →
    ∃ entry ∈ manifest, Names root entry place ∧ bytes.length = entry.size ∧
      digestHex sha256 bytes = entry.sha256 ∧
      ∀ other ∈ manifest, Names root other place → other = entry
  /-- Nothing else is in the tree. -/
  plain : ∀ place node, root.get place = some node → IsPlain node

/-! ## Paths -/

theorem encodeUtf8_injective {text text' : List Char} (h : encodeUtf8 text = encodeUtf8 text') :
    text = text' := by
  have hdecode := decodeUtf8_encodeUtf8 text
  rw [h, decodeUtf8_encodeUtf8, Option.some.injEq] at hdecode
  exact hdecode.symm

/-- No character but the slash has the byte of the slash. -/
theorem eq_slash_of_mem {c : Char} (h : 47 ∈ String.utf8EncodeChar c) : c = '/' := by
  rcases Nat.lt_or_ge 0x7f c.toNat with hc | hc
  · exact absurd (ge_of_mem_utf8EncodeChar hc h) (by decide)
  · rcases utf8EncodeChar_cases c with ⟨-, heq⟩ | ⟨hlow, -⟩ | ⟨hlow, -⟩ | ⟨hlow, -⟩
    · rw [heq, List.mem_singleton, eq_comm, toUInt8_eq_iff (by omega)] at h
      rw [← Char.ofNat_toNat c, h]
      rfl
    all_goals omega

theorem splitOn_append_of_not_mem {front rest : List UInt8} (h : 47 ∉ front) :
    (front ++ rest).splitOn 47 = (rest.splitOn 47).modifyHead (front ++ ·) := by
  induction front with
  | nil =>
    rw [List.nil_append]
    cases rest.splitOn 47 <;> rfl
  | cons byte front ih =>
    have hbyte : (byte == 47) = false := by
      rw [beq_eq_false_iff_ne]
      exact fun heq => h (heq ▸ List.mem_cons_self)
    rw [List.cons_append, List.splitOn_cons_eq_if_modifyHead, hbyte,
      ih fun hmem => h (List.mem_cons_of_mem _ hmem), List.modifyHead_modifyHead]
    rfl

/-- The pieces of the bytes of a text are the bytes of its pieces. -/
theorem splitOn_encodeUtf8 (text : List Char) :
    (encodeUtf8 text).splitOn 47 = (text.splitOn '/').map encodeUtf8 := by
  induction text with
  | nil => rfl
  | cons c text ih =>
    have hcons : encodeUtf8 (c :: text) = String.utf8EncodeChar c ++ encodeUtf8 text := by
      rw [encodeUtf8_eq, encodeUtf8_eq, List.flatMap_cons]
    rw [hcons, List.splitOn_cons_eq_if_modifyHead]
    by_cases hc : c = '/'
    · subst hc
      have hslash : String.utf8EncodeChar '/' = [47] := by decide
      rw [hslash, List.singleton_append, List.splitOn_cons_eq_if_modifyHead, ih]
      rfl
    · rw [splitOn_append_of_not_mem (fun hmem => hc (eq_slash_of_mem hmem)), ih,
        if_neg (by simpa using hc)]
      cases text.splitOn '/' with
      | nil => rfl
      | cons piece pieces =>
        simp only [List.modifyHead_cons, List.map_cons]
        rw [encodeUtf8_eq (c :: piece), List.flatMap_cons, encodeUtf8_eq]

theorem isStep_encodeUtf8 (piece : List Char) :
    isStep (encodeUtf8 piece) = true ↔ piece ≠ [] ∧ piece ≠ ['.'] := by
  have hne (other : List Char) : encodeUtf8 piece ≠ encodeUtf8 other ↔ piece ≠ other :=
    ⟨fun h heq => h (by rw [heq]), fun h heq => h (encodeUtf8_injective heq)⟩
  rw [isStep, Bool.and_eq_true, decide_eq_true_eq, decide_eq_true_eq]
  exact and_congr (hne []) (hne ['.'])

theorem components_of_valid {path : List Char} (h : validRelativePath path) :
    components path = ((path.splitOn '/').filter fun piece => piece ≠ [] && piece ≠ ['.']).map
      Component.normal := by
  obtain ⟨-, -, -, hroot, hdot, hdots⟩ := (validRelativePath_iff path).mp h
  have habsolute : isAbsolute path = false := by simpa [isAbsolute] using hroot
  simp only [components, habsolute, if_neg hdot, Bool.false_eq_true, if_false, List.nil_append]
  generalize path.splitOn '/' = pieces at hdots
  induction pieces with
  | nil => rfl
  | cons piece pieces ih =>
    have hrest := ih fun other hother => hdots other (List.mem_cons_of_mem _ hother)
    have hparent := hdots piece List.mem_cons_self
    by_cases hskip : piece = [] ∨ piece = ['.']
    · have hnone : component piece = none := if_pos hskip
      rw [List.filterMap_cons_none hnone,
        List.filter_cons_of_neg (by rcases hskip with rfl | rfl <;> simp), hrest]
    · have hsome : component piece = some (.normal piece) := by
        rw [component, if_neg hskip, if_neg hparent]
      rw [List.filterMap_cons_some hsome, List.filter_cons_of_pos (by simpa using hskip), hrest,
        List.map_cons]

/-- The path of an entry leads to the place that its components make. -/
theorem filter_pieces {entry : ManifestEntry} (h : validRelativePath entry.path) :
    entry.pieces.filter isStep = entry.key := by
  have hstep : isStep ∘ encodeUtf8 = fun piece => piece ≠ [] && piece ≠ ['.'] := by
    funext piece
    rw [Bool.eq_iff_iff, Function.comp_apply, isStep_encodeUtf8]
    simp
  rw [ManifestEntry.pieces, ManifestEntry.key, splitOn_encodeUtf8, List.filter_map, hstep,
    components_of_valid h, List.map_map]
  rfl

theorem key_eq_iff {entry other : ManifestEntry} (h : validRelativePath entry.path)
    (hother : validRelativePath other.path) :
    entry.key = other.key ↔ components entry.path = components other.path := by
  refine ⟨fun heq => ?_, fun heq => by rw [ManifestEntry.key, heq]; rfl⟩
  rw [ManifestEntry.key, ManifestEntry.key, components_of_valid h, components_of_valid hother,
    List.map_map, List.map_map] at heq
  have hinjective : Function.Injective (Component.asOsStr ∘ Component.normal) :=
    fun _ _ hsegment => encodeUtf8_injective hsegment
  rw [components_of_valid h, components_of_valid hother, List.map_injective_iff.mpr hinjective heq]

/-! ## The walk over the directories -/

theorem symlinkMetadata_eq_ok {root node : Item} {path : List FileName} :
    symlinkMetadata root path = .ok node ↔ ∃ place, locate root [] path = .ok (place, node) := by
  unfold symlinkMetadata
  cases locate root [] path with
  | error e => simp
  | ok found => simp [Prod.ext_iff]

theorem requireDirectory_eq_ok {root : Item} (h : requireDirectory root [] = .ok ()) :
    ∃ entries, root = .directory entries := by
  cases root with
  | directory entries => exact ⟨entries, rfl⟩
  | file bytes => cases h
  | symlink target => cases h
  | special => cases h

/-- What a visit of an entry does. -/
theorem visit_eq_ok {root : Item} {directory : List FileName} {walk walk' : Walk} {name : FileName}
    (h : visit root directory walk name = .ok walk') :
    walk.entryCount < maxInventoryEntries ∧
    ∃ node, symlinkMetadata root (directory ++ [name]) = .ok node ∧
      ((∃ entries, node = .directory entries ∧
        walk' = ⟨(directory ++ [name]) :: walk.directories, walk.files, walk.entryCount + 1⟩) ∨
      ∃ bytes, node = .file bytes ∧
        walk' = ⟨walk.directories, insert (directory ++ [name]) walk.files,
          walk.entryCount + 1⟩) := by
  obtain ⟨hcount, h⟩ := check_eq_ok.mp h
  obtain ⟨node, hnode, h⟩ := bind_eq_ok.mp h
  refine ⟨by omega, node, hnode, ?_⟩
  cases node with
  | directory entries =>
    cases h
    exact .inl ⟨entries, rfl, rfl⟩
  | file bytes =>
    obtain ⟨-, h⟩ := check_eq_ok.mp h
    cases h
    exact .inr ⟨bytes, rfl, rfl⟩
  | symlink target => cases h
  | special => cases h

/-- What the walk has found is in the tree. -/
structure Found (root : Item) (walk : Walk) : Prop where
  directories : ∀ place ∈ walk.directories, ∃ entries, root.get place = some (.directory entries)
  files : ∀ place ∈ walk.files, ∃ bytes, root.get place = some (.file bytes)

/-- What is in the tree has been found, or is below a directory that is still to come. -/
def Covered (root : Item) (walk : Walk) : Prop :=
  ∀ place node, root.get place = some node →
    (∃ directory ∈ walk.directories, directory <+: place) ∨
      (∃ bytes, node = .file bytes ∧ place ∈ walk.files) ∨ ∃ entries, node = .directory entries

/-- What the walk has after some entries of a directory. -/
structure Visited (root : Item) (directory names : List FileName) (walk walk' : Walk) :
    Prop where
  found : Found root walk'
  directories : walk.directories ⊆ walk'.directories
  files : walk.files ⊆ walk'.files
  all : ∀ name ∈ names,
    directory ++ [name] ∈ walk'.directories ∨ directory ++ [name] ∈ walk'.files

variable {root : Item} {directory : List FileName} {walk walk' : Walk}

theorem visited_of_visit {name : FileName} (hnames : ∀ step ∈ directory ++ [name], IsName step)
    (hfound : Found root walk) (h : visit root directory walk name = .ok walk') :
    Visited root directory [name] walk walk' := by
  obtain ⟨-, node, hnode, hcases⟩ := visit_eq_ok h
  obtain ⟨place, hlocate⟩ := symlinkMetadata_eq_ok.mp hnode
  have hget := locate_names hnames hlocate
  rcases hcases with ⟨entries, rfl, rfl⟩ | ⟨bytes, rfl, rfl⟩
  · refine ⟨⟨fun other hother => ?_, hfound.files⟩, List.subset_cons_self _ _,
      Finset.Subset.refl _, fun other hother => ?_⟩
    · rcases List.mem_cons.mp hother with rfl | hother
      · exact ⟨entries, hget⟩
      · exact hfound.directories other hother
    · rw [List.mem_singleton.mp hother]
      exact .inl List.mem_cons_self
  · refine ⟨⟨hfound.directories, fun other hother => ?_⟩, List.Subset.refl _,
      Finset.subset_insert _ _, fun other hother => ?_⟩
    · rcases Finset.mem_insert.mp hother with rfl | hother
      · exact ⟨bytes, hget⟩
      · exact hfound.files other hother
    · rw [List.mem_singleton.mp hother]
      exact .inr (Finset.mem_insert_self _ _)

theorem visited_of_foldlM {names : List FileName}
    (hnames : ∀ name ∈ names, ∀ step ∈ directory ++ [name], IsName step)
    (hfound : Found root walk) (h : names.foldlM (visit root directory) walk = .ok walk') :
    Visited root directory names walk walk' := by
  induction names generalizing walk with
  | nil =>
    cases h
    exact ⟨hfound, List.Subset.refl _, Finset.Subset.refl _,
      fun name hname => absurd hname List.not_mem_nil⟩
  | cons name names ih =>
    rw [List.foldlM_cons] at h
    obtain ⟨next, hvisit, hrest⟩ := bind_eq_ok.mp h
    have hfirst := visited_of_visit (hnames name List.mem_cons_self) hfound hvisit
    have hlast := ih (fun other hother => hnames other (List.mem_cons_of_mem _ hother))
      hfirst.found hrest
    refine ⟨hlast.found, List.Subset.trans hfirst.directories hlast.directories,
      hfirst.files.trans hlast.files, fun other hother => ?_⟩
    rcases List.mem_cons.mp hother with rfl | hother
    · exact (hfirst.all other (List.mem_singleton.mpr rfl)).imp (@hlast.directories _)
        (@hlast.files _)
    · exact hlast.all other hother

/-- A pass over a directory keeps what is covered: an entry of the directory is found. -/
theorem covered_of_visited {entries : List (FileName × Item)} {directories : List (List FileName)}
    {files : Finset (List FileName)} {count : ℕ}
    (hdirectory : root.get directory = some (.directory entries))
    (hcovered : Covered root ⟨directory :: directories, files, count⟩)
    (h : Visited root directory (entries.map Prod.fst) ⟨directories, files, count⟩ walk') :
    Covered root walk' := by
  intro place node hnode
  rcases hcovered place node hnode with ⟨other, hother, hprefix⟩ | ⟨bytes, rfl, hmem⟩ | hplain
  · rcases List.mem_cons.mp hother with rfl | hother
    · obtain ⟨rest, rfl⟩ := hprefix
      rw [Item.get_append, hdirectory, Option.bind_some] at hnode
      cases rest with
      | nil =>
        cases hnode
        exact .inr (.inr ⟨entries, rfl⟩)
      | cons name rest =>
        obtain ⟨child, hchild, hrest⟩ := Option.bind_eq_some_iff.mp hnode
        have hname : name ∈ entries.map Prod.fst :=
          List.mem_map_of_mem (f := Prod.fst) (Item.mem_of_lookup hchild)
        have hplace : other ++ name :: rest = (other ++ [name]) ++ rest := by
          rw [List.append_assoc]
          rfl
        rw [hplace]
        rcases h.all name hname with hmem | hmem
        · exact .inl ⟨_, hmem, List.prefix_append _ _⟩
        · -- nothing is below a file
          obtain ⟨bytes, hbytes⟩ := h.found.files _ hmem
          rw [Item.get_append, hdirectory, Option.bind_some, Item.get, Option.bind_eq_some_iff]
            at hbytes
          obtain ⟨child', hchild', hfile⟩ := hbytes
          cases hchild.symm.trans hchild'
          cases hfile
          cases rest with
          | nil =>
            cases hrest
            exact .inr (.inl ⟨bytes, rfl, by rwa [List.append_nil]⟩)
          | cons next rest => cases hrest
    · exact .inl ⟨other, h.directories hother, hprefix⟩
  · exact .inr (.inl ⟨bytes, rfl, h.files hmem⟩)
  · exact .inr (.inr hplain)

/-- The loop ends with what is in the tree. -/
theorem walkDirectories_eq_ok (hproper : root.Proper) {fuel : ℕ} {files : Finset (List FileName)}
    (hfound : Found root walk) (hcovered : Covered root walk)
    (h : walkDirectories root fuel walk = .ok files) :
    ∃ last, last.directories = [] ∧ last.files = files ∧ Found root last ∧ Covered root last := by
  induction fuel generalizing walk with
  | zero => cases h
  | succ fuel ih =>
    obtain ⟨directories, found, count⟩ := walk
    cases directories with
    | nil =>
      cases h
      exact ⟨_, rfl, rfl, hfound, hcovered⟩
    | cons directory directories =>
      obtain ⟨names, hread, h⟩ := bind_eq_ok.mp h
      obtain ⟨next, hfold, hloop⟩ := bind_eq_ok.mp h
      obtain ⟨entries, hdirectory⟩ := hfound.directories directory List.mem_cons_self
      obtain ⟨hnode, hsteps⟩ := hproper.get hdirectory
      have hnames : names = entries.map Prod.fst := by
        obtain ⟨node, hnode, hread⟩ := bind_eq_ok.mp hread
        obtain ⟨place, hlocate⟩ := symlinkMetadata_eq_ok.mp hnode
        have hget := (locate_names hsteps hlocate).symm.trans hdirectory
        cases hget
        cases hread
        rfl
      subst hnames
      have hentries : ∀ name ∈ entries.map Prod.fst, ∀ step ∈ directory ++ [name], IsName step := by
        intro name hname step hstep
        obtain ⟨entry, hentry, rfl⟩ := List.mem_map.mp hname
        rcases List.mem_append.mp hstep with hstep | hstep
        · exact hsteps step hstep
        · cases hnode with
          | directory hnamed _ _ =>
            rw [List.mem_singleton.mp hstep]
            exact hnamed entry hentry
      have hrest : Found root ⟨directories, found, count⟩ :=
        ⟨fun other hother => hfound.directories other (List.mem_cons_of_mem _ hother),
          hfound.files⟩
      have hvisited := visited_of_foldlM hentries hrest hfold
      exact ih hvisited.found (covered_of_visited hdirectory hcovered hvisited) hloop

/-- The files that are found are those of the tree, and nothing but directories is
    beside them. -/
theorem regularFiles_eq_ok (hproper : root.Proper) {files : Finset (List FileName)}
    (h : regularFiles root = .ok files) :
    (∀ place, place ∈ files ↔ ∃ bytes, root.get place = some (.file bytes)) ∧
      ∀ place node, root.get place = some node → IsPlain node := by
  obtain ⟨⟨⟩, hrequire, h⟩ := bind_eq_ok.mp h
  obtain ⟨entries, rfl⟩ := requireDirectory_eq_ok hrequire
  have hfound : Found (.directory entries) ⟨[[]], ∅, 0⟩ :=
    ⟨fun place hplace => ⟨entries, by rw [List.mem_singleton.mp hplace]; rfl⟩,
      fun place hplace => absurd hplace (Finset.notMem_empty place)⟩
  have hcovered : Covered (.directory entries) ⟨[[]], ∅, 0⟩ :=
    fun place node _ => .inl ⟨[], List.mem_singleton.mpr rfl, List.nil_prefix⟩
  obtain ⟨last, hend, rfl, hlast, hall⟩ := walkDirectories_eq_ok hproper hfound hcovered h
  have hsettled : ∀ place node, Item.get (.directory entries) place = some node →
      (∃ bytes, node = .file bytes ∧ place ∈ last.files) ∨
        ∃ entries, node = .directory entries := by
    intro place node hnode
    rcases hall place node hnode with ⟨directory, hdirectory, -⟩ | hsettled
    · rw [hend] at hdirectory
      cases hdirectory
    · exact hsettled
  constructor
  · refine fun place => ⟨hlast.files place, fun ⟨bytes, hbytes⟩ => ?_⟩
    rcases hsettled place _ hbytes with ⟨_, -, hmem⟩ | ⟨entries, hentries⟩
    · exact hmem
    · cases hentries
  · intro place node hnode
    rcases hsettled place node hnode with ⟨bytes, rfl, -⟩ | ⟨entries, rfl⟩
    · exact trivial
    · exact trivial

/-- The passes that the loop may still make: a directory to come was counted when it
    was pushed. -/
def Walk.remaining (walk : Walk) : ℕ :=
  walk.directories.length + (maxInventoryEntries - walk.entryCount)

theorem remaining_foldlM {names : List FileName}
    (h : names.foldlM (visit root directory) walk = .ok walk') :
    walk'.remaining ≤ walk.remaining := by
  induction names generalizing walk with
  | nil =>
    cases h
    exact Nat.le_refl _
  | cons name names ih =>
    rw [List.foldlM_cons] at h
    obtain ⟨next, hvisit, hrest⟩ := bind_eq_ok.mp h
    have hnext : next.remaining ≤ walk.remaining := by
      obtain ⟨hcount, node, -, ⟨entries, -, rfl⟩ | ⟨bytes, -, rfl⟩⟩ := visit_eq_ok hvisit
      · simp only [Walk.remaining, List.length_cons]
        omega
      · simp only [Walk.remaining]
        omega
    exact (ih hrest).trans hnext

/-- The fuel does not matter once there is enough. -/
theorem walkDirectories_fuel {fuel more : ℕ} (h : walk.remaining < fuel) (hmore : fuel ≤ more) :
    walkDirectories root more walk = walkDirectories root fuel walk := by
  induction fuel generalizing walk more with
  | zero => omega
  | succ fuel ih =>
    obtain ⟨more, rfl⟩ : ∃ n, more = n + 1 := ⟨more - 1, by omega⟩
    obtain ⟨directories, files, count⟩ := walk
    cases directories with
    | nil => rfl
    | cons directory directories =>
      simp only [walkDirectories]
      congr 1
      funext names
      cases hfold : names.foldlM (visit root directory) ⟨directories, files, count⟩ with
      | error e => rfl
      | ok next =>
        have hnext := remaining_foldlM hfold
        simp only [Walk.remaining, List.length_cons] at h hnext
        exact ih (by rw [Walk.remaining]; omega) (by omega)

/-- The loop of `regular_files` has enough fuel. -/
theorem regularFiles_fuel (root : Item) {more : ℕ} (h : walkFuel ≤ more) :
    walkDirectories root more ⟨[[]], ∅, 0⟩ = walkDirectories root walkFuel ⟨[[]], ∅, 0⟩ :=
  walkDirectories_fuel (by decide) h

/-! ## Verified entries -/

theorem next_eq_ok {seen seen' : Seen} {line : List Char}
    (h : ModelManifest.next seen line = .ok seen') :
    ∃ entry, ModelManifest.readEntry line = .ok entry ∧
      seen'.entries = seen.entries ++ [entry] := by
  obtain ⟨-, h⟩ := check_eq_ok.mp h
  cases hentry : ModelManifest.readEntry line with
  | error e =>
    rw [hentry] at h
    cases h
  | ok entry =>
    rw [hentry] at h
    obtain ⟨-, h⟩ := check_eq_ok.mp h
    obtain ⟨-, h⟩ := check_eq_ok.mp h
    cases h
    exact ⟨entry, rfl, rfl⟩

theorem valid_of_readEntry {line : List Char} {entry : ManifestEntry}
    (h : ModelManifest.readEntry line = .ok entry) : validRelativePath entry.path := by
  have hrow : runtimeRow line = some entry := by
    rw [← readEntry_toOption, h]
    rfl
  obtain ⟨-, -, -, -, hpath, -⟩ := rowOf_eq_some hrow
  exact hpath

theorem valid_of_foldlM {rows : List (List Char)} {seen seen' : Seen}
    (hseen : ∀ entry ∈ seen.entries, validRelativePath entry.path)
    (h : rows.foldlM ModelManifest.next seen = .ok seen') :
    ∀ entry ∈ seen'.entries, validRelativePath entry.path := by
  induction rows generalizing seen with
  | nil =>
    cases h
    exact hseen
  | cons line rows ih =>
    rw [List.foldlM_cons] at h
    obtain ⟨next, hnext, hrest⟩ := bind_eq_ok.mp h
    obtain ⟨entry, hentry, hentries⟩ := next_eq_ok hnext
    refine ih (fun other hother => ?_) hrest
    rw [hentries] at hother
    rcases List.mem_append.mp hother with hother | hother
    · exact hseen other hother
    · rw [List.mem_singleton.mp hother]
      exact valid_of_readEntry hentry

theorem valid_of_parse {text : List Char} {entries : List ManifestEntry}
    (h : ModelManifest.parse text = .ok entries) :
    ∀ entry ∈ entries, validRelativePath entry.path := by
  obtain ⟨-, h⟩ := check_eq_ok.mp h
  split at h
  · obtain ⟨-, h⟩ := check_eq_ok.mp h
    obtain ⟨seen, hseen, h⟩ := bind_eq_ok.mp h
    obtain ⟨-, h⟩ := check_eq_ok.mp h
    cases h
    exact valid_of_foldlM (fun entry hentry => absurd hentry List.not_mem_nil) hseen
  · cases h

theorem valid_of_loadManifest {manifest : List ManifestEntry}
    (h : loadManifest root = .ok manifest) : ∀ entry ∈ manifest, validRelativePath entry.path := by
  obtain ⟨-, -, h⟩ := bind_eq_ok.mp h
  obtain ⟨node, -, h⟩ := bind_eq_ok.mp h
  cases node with
  | file contents =>
    obtain ⟨-, h⟩ := check_eq_ok.mp h
    obtain ⟨-, h⟩ := check_eq_ok.mp h
    cases hdecode : decodeUtf8 (contents.take (maxManifestBytes + 1)) with
    | none =>
      rw [hdecode] at h
      cases h
    | some text =>
      rw [hdecode] at h
      cases hparse : ModelManifest.parse text with
      | error e =>
        simp only [hparse] at h
        cases h
      | ok entries =>
        simp only [hparse] at h
        cases h
        exact valid_of_parse hparse
  | directory entries => cases h
  | symlink target => cases h
  | special => cases h

theorem mapM_eq_ok {ε α β : Type} {f : α → Except ε β} {l : List α} {values : List β}
    (h : l.mapM f = .ok values) : ∀ a ∈ l, ∃ b, f a = .ok b := by
  induction l generalizing values with
  | nil => exact fun a ha => absurd ha List.not_mem_nil
  | cons a l ih =>
    rw [List.mapM_cons] at h
    obtain ⟨b, hb, h⟩ := bind_eq_ok.mp h
    obtain ⟨rest, hrest, -⟩ := bind_eq_ok.mp h
    intro other hother
    rcases List.mem_cons.mp hother with rfl | hother
    · exact ⟨b, hb⟩
    · exact ih hrest other hother

variable {sha256}

/-- An entry that is verified names the file at its components. -/
theorem loadVerifiedEntry_eq_ok {entry : ManifestEntry} {artifact : VerifiedArtifact}
    (hvalid : validRelativePath entry.path)
    (h : loadVerifiedEntry sha256 root entry = .ok artifact) :
    ∃ bytes, locate root [] entry.pieces = .ok (entry.key, .file bytes) ∧
      bytes.length = entry.size ∧ digestHex sha256 bytes = entry.sha256 := by
  obtain ⟨-, -, h⟩ := bind_eq_ok.mp h
  obtain ⟨node, hnode, h⟩ := bind_eq_ok.mp h
  obtain ⟨place, hlocate⟩ := symlinkMetadata_eq_ok.mp hnode
  have hplace : place = entry.key := by
    rw [(locate_eq_ok hlocate).1, List.nil_append, filter_pieces hvalid]
  subst hplace
  cases node with
  | file contents =>
    obtain ⟨hlength, h⟩ := check_eq_ok.mp h
    obtain ⟨-, h⟩ := check_eq_ok.mp h
    obtain ⟨hdigest, -⟩ := check_eq_ok.mp h
    rw [not_not] at hlength hdigest
    refine ⟨contents, hlocate, hlength, ?_⟩
    rwa [List.take_of_length_le (by omega)] at hdigest
  | directory entries => cases h
  | symlink target => cases h
  | special => cases h

/-- What a verified inventory has been checked for. -/
theorem loadAndVerify_eq_ok {manifest : List ManifestEntry} {artifacts : List VerifiedArtifact}
    (h : loadAndVerifyModelInventory sha256 root = .ok (manifest, artifacts)) :
    (∀ entry ∈ manifest, validRelativePath entry.path) ∧
    (∃ files, regularFiles root = .ok files ∧
      files.erase [manifestFile] = (manifest.map ManifestEntry.key).toFinset) ∧
    ∀ entry ∈ manifest, ∃ bytes, locate root [] entry.pieces = .ok (entry.key, .file bytes) ∧
      bytes.length = entry.size ∧ digestHex sha256 bytes = entry.sha256 := by
  obtain ⟨entries, hload, h⟩ := bind_eq_ok.mp h
  obtain ⟨files, hfiles, h⟩ := bind_eq_ok.mp h
  obtain ⟨hsame, h⟩ := check_eq_ok.mp h
  obtain ⟨loaded, hloaded, h⟩ := bind_eq_ok.mp h
  cases h
  have hvalid := valid_of_loadManifest hload
  refine ⟨hvalid, ⟨files, hfiles, not_not.mp hsame⟩, fun entry hentry => ?_⟩
  obtain ⟨artifact, hartifact⟩ := mapM_eq_ok hloaded entry hentry
  exact loadVerifiedEntry_eq_ok (hvalid entry hentry) hartifact

/-! ## The closed inventory -/

/-- A file is named by the entry at its components only. -/
theorem Names.place_eq {entry : ManifestEntry} {place : List FileName}
    (hvalid : validRelativePath entry.path) (h : Names root entry place) : place = entry.key := by
  obtain ⟨bytes, hlocate⟩ := h
  rw [(locate_eq_ok hlocate).1, List.nil_append, filter_pieces hvalid]

/-- The entries and the files correspond one to one exactly when no two paths of the
    manifest have the same components. -/
theorem inventory_iff {root : Item} (hproper : root.Proper) {manifest : List ManifestEntry}
    {artifacts : List VerifiedArtifact}
    (h : loadAndVerifyModelInventory sha256 root = .ok (manifest, artifacts)) :
    ClosedInventory sha256 root manifest ↔
      (manifest.map fun entry => components entry.path).Nodup := by
  obtain ⟨hvalid, ⟨files, hfiles, hsame⟩, hverified⟩ := loadAndVerify_eq_ok h
  obtain ⟨hmem, hplain⟩ := regularFiles_eq_ok hproper hfiles
  have hkey : ∀ entry ∈ manifest, ∀ other ∈ manifest, entry.key = other.key →
      components entry.path = components other.path := fun entry hentry other hother =>
    (key_eq_iff (hvalid entry hentry) (hvalid other hother)).mp
  have hnames : ∀ entry ∈ manifest, Names root entry entry.key := fun entry hentry =>
    have ⟨bytes, hlocate, _⟩ := hverified entry hentry
    ⟨bytes, hlocate⟩
  constructor
  · intro hclosed
    rw [List.Nodup, List.pairwise_map]
    refine hclosed.distinct.imp_of_mem fun hentry hother hdistinct heq => ?_
    rw [← key_eq_iff (hvalid _ hentry) (hvalid _ hother)] at heq
    exact hdistinct _ (hnames _ hentry) (heq ▸ hnames _ hother)
  · intro hnodup
    have hpairwise := hnodup
    rw [List.Nodup, List.pairwise_map] at hpairwise
    refine ⟨?_, fun entry hentry => ?_, fun place bytes hartifact => ?_, hplain⟩
    · refine hpairwise.imp_of_mem fun hentry hother hne place hname hname' => hne ?_
      exact hkey _ hentry _ hother
        ((hname.place_eq (hvalid _ hentry)).symm.trans (hname'.place_eq (hvalid _ hother)))
    · have hlisted : entry.key ∈ files.erase [manifestFile] := by
        rw [hsame, List.mem_toFinset]
        exact List.mem_map_of_mem hentry
      obtain ⟨hne, hfile⟩ := Finset.mem_erase.mp hlisted
      obtain ⟨bytes, hbytes⟩ := (hmem _).mp hfile
      exact ⟨entry.key, bytes, ⟨hbytes, hne⟩, hnames entry hentry⟩
    · have hlisted : place ∈ files.erase [manifestFile] :=
        Finset.mem_erase.mpr ⟨hartifact.2, (hmem place).mpr ⟨bytes, hartifact.1⟩⟩
      rw [hsame, List.mem_toFinset] at hlisted
      obtain ⟨entry, hentry, rfl⟩ := List.mem_map.mp hlisted
      obtain ⟨contents, hlocate, hsize, hdigest⟩ := hverified entry hentry
      have hcontents : contents = bytes := by
        have hget := (locate_eq_ok hlocate).2
        rw [filter_pieces (hvalid entry hentry), hartifact.1] at hget
        cases hget
        rfl
      subst hcontents
      refine ⟨entry, hentry, ⟨contents, hlocate⟩, hsize, hdigest, fun other hother hother' => ?_⟩
      have heq := hkey _ hentry _ hother (hother'.place_eq (hvalid other hother))
      exact List.inj_on_of_nodup_map hnodup hother hentry heq.symm

/-- An entry for a file with the one byte of the letter `a`. -/
def letterEntry (id path : String) : ManifestEntry :=
  ⟨id.toList, path.toList, 1,
    "ca978112ca1bbdcafac231b39a23dc4da786eff8147c4e72b9807785afee48bb".toList,
    "r".toList, "b".toList, "l".toList, "p".toList⟩

/-- The line of such an entry. -/
def letterLine (entry : ManifestEntry) : List Char :=
  entry.id ++ "\t".toList ++ entry.path ++ "\t1\t".toList ++ entry.sha256 ++
    "\tr\tb\tl\tp\n".toList

/-- The digest of the file, by a library that has no other. -/
def letterDigest (input : List UInt8) : Option (List UInt8) :=
  if input = ascii "a" then
    some [0xca, 0x97, 0x81, 0x12, 0xca, 0x1b, 0xbd, 0xca, 0xfa, 0xc2, 0x31, 0xb3, 0x9a, 0x23,
      0xdc, 0x4d, 0xa7, 0x86, 0xef, 0xf8, 0x14, 0x7c, 0x4e, 0x72, 0xb9, 0x80, 0x77, 0x85, 0xaf,
      0xee, 0x48, 0xbb]
  else none

/-- A manifest of such entries. -/
def letterText (manifest : List ManifestEntry) : List Char :=
  manifestMagic ++ ['\n'] ++ manifestHeader ++ ['\n'] ++ manifest.flatMap letterLine

/-- A root with such files below it, and a manifest. -/
def letterRoot (names : List (List UInt8)) (manifest : List ManifestEntry) : Item :=
  .directory [
    (manifestFile, .file ((letterText manifest).map fun c => c.toNat.toUInt8)),
    (ascii "files", .directory (names.map fun name => (name, .file (ascii "a"))))]

theorem proper_letterRoot {names : List (List UInt8)} (hnames : ∀ name ∈ names, IsName name)
    (hnodup : names.Nodup) (manifest : List ManifestEntry) :
    (letterRoot names manifest).Proper := by
  have hname : ∀ name ∈ [manifestFile, ascii "files"], IsName name := by
    intro name hname
    simp only [List.mem_cons, List.not_mem_nil, or_false] at hname
    rcases hname with rfl | rfl
    all_goals exact ⟨by decide, by decide, by decide, by decide, by decide⟩
  have hdistinct : [manifestFile, ascii "files"].Nodup := by decide
  refine .directory ?_ hdistinct ?_
  · intro entry hentry
    simp only [List.mem_cons, List.not_mem_nil, or_false] at hentry
    rcases hentry with rfl | rfl <;> exact hname _ (by simp)
  · intro entry hentry
    simp only [List.mem_cons, List.not_mem_nil, or_false] at hentry
    rcases hentry with rfl | rfl
    · exact .file _
    · refine .directory (fun entry hentry => ?_) ?_ fun entry hentry => ?_
      · obtain ⟨name, hname, rfl⟩ := List.mem_map.mp hentry
        exact hnames name hname
      · rw [List.map_map]
        exact hnodup.map fun _ _ h => h
      · obtain ⟨name, -, rfl⟩ := List.mem_map.mp hentry
        exact .file _

theorem loadManifest_of_file {manifest : List ManifestEntry} {contents : List UInt8}
    {text : List Char} (hroot : requireDirectory root [] = .ok ())
    (hfile : symlinkMetadata root [manifestFile] = .ok (.file contents))
    (hne : contents.length ≠ 0) (hmax : contents.length ≤ maxManifestBytes)
    (hdecode : decodeUtf8 contents = some text)
    (hparse : ModelManifest.parse text = .ok manifest) : loadManifest root = .ok manifest := by
  have htake : contents.take (maxManifestBytes + 1) = contents :=
    List.take_of_length_le (by omega)
  rw [loadManifest, hroot, hfile]
  simp only [bind, Except.bind, htake, hdecode, hparse]
  rw [if_neg (by omega), if_neg (fun h => h rfl)]

theorem loadManifest_letterRoot {names : List (List UInt8)} {manifest : List ManifestEntry}
    (hascii : (letterText manifest).all fun c => c.toNat ≤ 0x7f)
    (hlength : (letterText manifest).length ≤ maxManifestBytes)
    (hparse : ModelManifest.parse (letterText manifest) = .ok manifest) :
    loadManifest (letterRoot names manifest) = .ok manifest := by
  have hdecode := decodeUtf8_encodeUtf8 (letterText manifest)
  rw [encodeUtf8_of_ascii fun c hc => of_decide_eq_true (List.all_eq_true.mp hascii c hc)] at hdecode
  have hfile : symlinkMetadata (letterRoot names manifest) [manifestFile] =
      .ok (.file ((letterText manifest).map fun c => c.toNat.toUInt8)) := by
    have hstep : isStep manifestFile = true := by decide
    simp [letterRoot, symlinkMetadata, locate, hstep]
  have hroot : requireDirectory (letterRoot names manifest) [] = .ok () := by
    simp [letterRoot, requireDirectory, symlinkMetadata, locate, bind, Except.bind]
  have hne : (letterText manifest).length ≠ 0 := by
    simp [letterText]
  rw [← List.length_map (f := fun c : Char => c.toNat.toUInt8)] at hne hlength
  exact loadManifest_of_file hroot hfile hne hlength hdecode hparse

theorem isName_letters : ∀ name ∈ [ascii "a", ascii "b"], IsName name := by
  intro name hname
  simp only [List.mem_cons, List.not_mem_nil, or_false] at hname
  rcases hname with rfl | rfl
  all_goals exact ⟨by decide, by decide, by decide, by decide, by decide⟩

/-- Two spellings of one path are two entries for one file. -/
theorem inventory_two_spellings :
    ¬ ∀ (sha256 : List UInt8 → Option (List UInt8)) (root : Item), root.Proper →
      ∀ manifest artifacts, loadAndVerifyModelInventory sha256 root = .ok (manifest, artifacts) →
        ClosedInventory sha256 root manifest := by
  intro hall
  let manifest := [letterEntry "x" "files//a", letterEntry "y" "files/a"]
  have hmanifest : loadManifest (letterRoot [ascii "a"] manifest) = .ok manifest :=
    loadManifest_letterRoot (by decide +kernel) (by decide +kernel) (by decide +kernel)
  have hload : loadAndVerifyModelInventory letterDigest (letterRoot [ascii "a"] manifest) =
      .ok (manifest,
        [⟨letterEntry "x" "files//a", ascii "a"⟩, ⟨letterEntry "y" "files/a", ascii "a"⟩]) := by
    rw [loadAndVerifyModelInventory, hmanifest]
    decide +kernel
  have hproper : (letterRoot [ascii "a"] manifest).Proper := by
    refine proper_letterRoot (fun name hname => ?_) (by decide) _
    rw [List.mem_singleton.mp hname]
    exact isName_letters _ List.mem_cons_self
  have hdistinct := (hall _ _ hproper _ _ hload).distinct
  refine List.rel_of_pairwise_cons hdistinct (List.mem_singleton.mpr rfl)
    [ascii "files", ascii "a"] ⟨ascii "a", ?_⟩ ⟨ascii "a", ?_⟩
  · rfl
  · rfl

/-- Two files, and an entry for each. -/
theorem inventory_two_files :
    let manifest := [letterEntry "x" "files/a", letterEntry "y" "files/b"]
    let root := letterRoot [ascii "a", ascii "b"] manifest
    root.Proper ∧
    loadAndVerifyModelInventory letterDigest root =
      .ok (manifest,
        [⟨letterEntry "x" "files/a", ascii "a"⟩, ⟨letterEntry "y" "files/b", ascii "a"⟩]) ∧
    (manifest.map fun entry => components entry.path).Nodup ∧
    ClosedInventory letterDigest root manifest := by
  intro manifest root
  have hproper : root.Proper := proper_letterRoot isName_letters (by decide) _
  have hload : loadAndVerifyModelInventory letterDigest root =
      .ok (manifest,
        [⟨letterEntry "x" "files/a", ascii "a"⟩, ⟨letterEntry "y" "files/b", ascii "a"⟩]) := by
    rw [loadAndVerifyModelInventory, loadManifest_letterRoot (by decide +kernel)
      (by decide +kernel) (by decide +kernel)]
    decide +kernel
  have hnodup : (manifest.map fun entry => components entry.path).Nodup := by decide +kernel
  exact ⟨hproper, hload, hnodup, (inventory_iff hproper hload).mpr hnodup⟩

end

end Models

end KFaceAuth
