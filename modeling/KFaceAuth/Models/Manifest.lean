import KFaceAuth.Lib.Text

/-!
# The manifest of the models

The manifest lists the files of the models with their sizes and digests, one on a
line, in eight fields with tabs between them. Two programs read it: the runtime
(`ModelManifest.parse`) and the tool that checks a release (`parseManifest`). Both
refuse what is not in the closed form, and each has its own notion of a line, of a
relative path, of a number and of the order of texts.
-/

namespace KFaceAuth

namespace Models

open Text

def manifestMagic : List Char := "KFACEAUTH_MODEL_MANIFEST\t1".toList
def manifestHeader : List Char :=
  "id\tpath\tsize\tsha256\trole\tbackend\tlicense\tprovenance".toList

def maxManifestBytes : ℕ := 64 * 1024
def maxArtifactBytes : ℕ := 64 * 1024 * 1024
def maxManifestEntries : ℕ := 64

def backslash : Char := Char.ofNat 92

/-- `ManifestEntry` of the runtime and `Entry` of the tool. -/
structure ManifestEntry where
  id : List Char
  path : List Char
  size : ℕ
  sha256 : List Char
  role : List Char
  backend : List Char
  license : List Char
  provenance : List Char
  deriving DecidableEq, Repr

/-- The variables of the loop over the lines, in both programs. -/
structure Seen where
  entries : List ManifestEntry
  ids : List (List Char)
  paths : List (List Char)
  previousPath : Option (List Char)

/-! ## The runtime -/

/-- The error of `ModelManifest::parse`. -/
inductive ModelError
  | invalidManifest
  deriving DecidableEq, Repr

/-- `std::path::Component`, on a system without drives. -/
inductive Component
  | rootDir
  | curDir
  | parentDir
  | normal (segment : List Char)
  deriving DecidableEq, Repr

/-- `Path::is_absolute`. -/
def isAbsolute (path : List Char) : Bool := path.head? = some '/'

/-- The component that a piece between separators is, if it is one. -/
def component (piece : List Char) : Option Component :=
  if piece = [] ∨ piece = ['.'] then none
  else if piece = ['.', '.'] then some .parentDir
  else some (.normal piece)

/-- `Path::components`: empty pieces and those that name the directory itself are
    left out, but for one in front. -/
def components (path : List Char) : List Component :=
  let pieces := path.splitOn '/'
  let front :=
    if isAbsolute path then [.rootDir]
    else if pieces.head? = some ['.'] then [.curDir]
    else []
  front ++ pieces.filterMap component

def Component.isNormal : Component → Bool
  | .normal _ => true
  | _ => false

/-- `Path::to_string_lossy`: a path made of a text is UTF-8, and nothing in it is
    replaced. -/
def toStringLossy (path : List Char) : List Char := path

/-- `valid_relative_path`. -/
def validRelativePath (value : List Char) : Bool :=
  if value = [] ∨ backslash ∈ value ∨ 0 ∈ encodeUtf8 value then false
  else
    !isAbsolute value && (components value).all Component.isNormal && toStringLossy value = value

/-- The bytes of tokens. -/
def isTokenByte (byte : UInt8) : Bool :=
  (48 ≤ byte && byte ≤ 57) || (65 ≤ byte && byte ≤ 90) || (97 ≤ byte && byte ≤ 122) ||
    byte = 46 || byte = 95 || byte = 45 || byte = 43 || byte = 58

/-- `valid_token`. -/
def validToken (value : List Char) : Bool :=
  value ≠ [] && (encodeUtf8 value).length ≤ 96 && (encodeUtf8 value).all isTokenByte

/-- The bytes of digests. -/
def isDigestByte (byte : UInt8) : Bool :=
  (48 ≤ byte && byte ≤ 57) || (97 ≤ byte && byte ≤ 102)

/-- `valid_sha256`. -/
def validSha256 (value : List Char) : Bool :=
  (encodeUtf8 value).length = 64 && (encodeUtf8 value).all isDigestByte

/-- `char::to_digit(10)`. -/
def toDigit (c : Char) : Option ℕ :=
  if 48 ≤ c.toNat ∧ c.toNat ≤ 57 then some (c.toNat - 48) else none

/-- The loop of `str::parse::<u64>`, which fails when the value does not fit. -/
def parseDigits : ℕ → List Char → Option ℕ
  | value, [] => some value
  | value, c :: text =>
    match toDigit c with
    | none => none
    | some digit =>
      if 10 * value + digit < 2 ^ 64 then parseDigits (10 * value + digit) text else none

/-- `str::parse::<u64>`: a plus may stand before the digits. -/
def parseU64 (text : List Char) : Option ℕ :=
  if text = [] ∨ text = ['+'] ∨ text = ['-'] then none
  else if text.head? = some '+' then parseDigits 0 text.tail
  else parseDigits 0 text

namespace ModelManifest

/-- The entry on a line, with the checks of its fields. -/
def readEntry (line : List Char) : Except ModelError ManifestEntry :=
  match line.splitOn '\t' with
  | [id, path, size, sha256, role, backend, license, provenance] =>
    if !validToken id || !validToken role || !validToken backend || !validToken license ||
        !validToken provenance || !validRelativePath path || !validSha256 sha256 then
      .error .invalidManifest
    else
      match parseU64 size with
      | none => .error .invalidManifest
      | some size =>
        if size = 0 ∨ size > maxArtifactBytes then .error .invalidManifest
        else .ok ⟨id, path, size, sha256, role, backend, license, provenance⟩
  | _ => .error .invalidManifest

/-- The body of the loop. Texts are compared by their bytes. -/
def next (seen : Seen) (line : List Char) : Except ModelError Seen :=
  if line = [] then .error .invalidManifest
  else
    match readEntry line with
    | .error e => .error e
    | .ok entry =>
      if seen.previousPath.any (fun previous =>
          !precedes UInt8.toNat (encodeUtf8 previous) (encodeUtf8 entry.path)) ∨
          entry.id ∈ seen.ids ∨ entry.path ∈ seen.paths then
        .error .invalidManifest
      else
        let entries := seen.entries ++ [entry]
        if entries.length > maxManifestEntries then .error .invalidManifest
        else .ok ⟨entries, entry.id :: seen.ids, entry.path :: seen.paths, some entry.path⟩

/-- `ModelManifest::parse`. -/
def parse (text : List Char) : Except ModelError (List ManifestEntry) :=
  if '\r' ∈ text ∨ text.getLast? ≠ some '\n' then .error .invalidManifest
  else
    match lines text with
    | magic :: header :: rows =>
      if magic ≠ manifestMagic ∨ header ≠ manifestHeader then .error .invalidManifest
      else do
        let seen ← rows.foldlM next ⟨[], [], [], none⟩
        if seen.entries = [] then .error .invalidManifest else .ok seen.entries
    | _ => .error .invalidManifest

end ModelManifest

/-! ## The tool -/

/-- What `parse_manifest` may raise. -/
inductive ManifestException
  /-- `VerificationError`, with its text. -/
  | verification (text : String)
  /-- The `ValueError` of `int`. -/
  | value
  deriving DecidableEq, Repr

/-- `PurePosixPath`. -/
structure PurePosixPath where
  root : List Char
  tail : List (List Char)

namespace PurePosixPath

/-- The root of a path and the rest: two slashes in front are kept, more are one. -/
def splitroot (value : List Char) : List Char × List Char :=
  if value.head? ≠ some '/' then ([], value)
  else if value.tail.head? ≠ some '/' ∨ value.tail.tail.head? = some '/' then (['/'], value.tail)
  else (['/', '/'], value.tail.tail)

def ofText (value : List Char) : PurePosixPath :=
  let (root, rest) := splitroot value
  ⟨root, (rest.splitOn '/').filter fun piece => piece ≠ [] && piece ≠ ['.']⟩

/-- `is_absolute`. -/
def isAbsolute (path : PurePosixPath) : Bool := path.root ≠ []

/-- `parts`. -/
def parts (path : PurePosixPath) : List (List Char) :=
  if path.root = [] then path.tail else path.root :: path.tail

/-- `str`: a path of no parts is the directory itself. -/
def str (path : PurePosixPath) : List Char :=
  let text := path.root ++ ['/'].intercalate path.tail
  if text = [] then ['.'] else text

end PurePosixPath

/-- `_safe_path`. -/
def safePath (value : List Char) : Bool :=
  let path := PurePosixPath.ofText value
  value ≠ [] && backslash ∉ value && !path.isAbsolute &&
    path.parts.all (fun component => component ∉ [[], ['.'], ['.', '.']]) && path.str = value

/-- The characters of `TOKEN`. -/
def isTokenChar (c : Char) : Bool :=
  let n := c.toNat
  (65 ≤ n && n ≤ 90) || (97 ≤ n && n ≤ 122) || (48 ≤ n && n ≤ 57) ||
    c = '.' || c = '_' || c = '+' || c = ':' || c = '-'

/-- `TOKEN.fullmatch`. -/
def matchesToken (value : List Char) : Bool :=
  1 ≤ value.length && value.length ≤ 96 && value.all isTokenChar

/-- The characters of `DIGEST`. -/
def isDigestChar (c : Char) : Bool :=
  let n := c.toNat
  (48 ≤ n && n ≤ 57) || (97 ≤ n && n ≤ 102)

/-- `DIGEST.fullmatch`. -/
def matchesDigest (value : List Char) : Bool := value.length = 64 && value.all isDigestChar

/-- `isascii` and `isdecimal`. -/
def isAsciiDecimal (text : List Char) : Bool :=
  text ≠ [] && text.all fun c => 48 ≤ c.toNat && c.toNat ≤ 57

/-- The digits that `int` reads of a text at most. -/
def maxStrDigits : ℕ := 4300

/-- `int`, of decimal digits. -/
def int (text : List Char) : Except ManifestException ℕ :=
  if text.length > maxStrDigits then .error .value
  else .ok (text.foldl (fun value c => 10 * value + (c.toNat - 48)) 0)

namespace Tool

/-- The entry on a line, with the checks of its fields. -/
def readEntry (line : List Char) : Except ManifestException ManifestEntry :=
  match line.splitOn '\t' with
  | [id, path, sizeText, digest, role, backend, license, provenance] =>
    if !([id, role, backend, license, provenance].all matchesToken) then
      .error (.verification "manifest-token")
    else if !safePath path then .error (.verification "manifest-path")
    else if !matchesDigest digest then .error (.verification "manifest-digest")
    else if !isAsciiDecimal sizeText then .error (.verification "manifest-size-field")
    else
      match int sizeText with
      | .error e => .error e
      | .ok size =>
        if ¬ (0 < size ∧ size ≤ maxArtifactBytes) then
          .error (.verification "manifest-size-field")
        else .ok ⟨id, path, size, digest, role, backend, license, provenance⟩
  | _ => .error (.verification "manifest-columns")

/-- The body of the loop. Texts are compared by their characters. -/
def next (seen : Seen) (line : List Char) : Except ManifestException Seen :=
  match readEntry line with
  | .error e => .error e
  | .ok entry =>
    if entry.id ∈ seen.ids ∨ entry.path ∈ seen.paths then
      .error (.verification "manifest-duplicate")
    else if seen.previousPath.any (fun previous => !precedes Char.toNat previous entry.path) then
      .error (.verification "manifest-order")
    else
      .ok ⟨seen.entries ++ [entry], entry.id :: seen.ids, entry.path :: seen.paths,
        some entry.path⟩

/-- `parse_manifest`. -/
def parseManifest (data : List UInt8) : Except ManifestException (List ManifestEntry) :=
  if data = [] ∨ data.length > maxManifestBytes then .error (.verification "manifest-size")
  else
    match decodeUtf8 data with
    | none => .error (.verification "manifest-encoding")
    | some text =>
      if '\r' ∈ text ∨ text.getLast? ≠ some '\n' then .error (.verification "manifest-newline")
      else
        match splitlines text with
        | magic :: header :: row :: rows =>
          if magic ≠ manifestMagic ∨ header ≠ manifestHeader then
            .error (.verification "manifest-schema")
          else do
            let seen ← (row :: rows).foldlM next ⟨[], [], [], none⟩
            if seen.entries = [] then .error (.verification "manifest-empty")
            else .ok seen.entries
        | _ => .error (.verification "manifest-schema")

end Tool

end Models

end KFaceAuth
