import KFaceAuth.Lib.FsProg
import KFaceAuth.Lib.Possible
import KFaceAuth.Lib.Text
import KFaceAuth.Vault.Files

/-!
# The configuration of the camera

The camera is a setting in the environment file of the service
(`setting`), which `kfaceauth-camera-config` replaces (`replacement`). It does so in
a transaction (`transaction`): it reads the file, writes a new one, restarts the
service, and reads back what it wrote. If one of these fails it writes the old
file again, brings the service back to what it was and reads that back.
-/

namespace KFaceAuth

namespace Camera

open Text

/-! ## The setting -/

/-- The errors of `kfaceauth-camera-config`. -/
inductive ConfigError
  | unsafeConfig
  | unreadableConfig
  | invalidConfig
  | unsupportedConfig
  | duplicateSetting
  | stagingFailed
  | installFailed
  | rollbackFailed
  | serviceFailed
  | serviceTimeout
  | unavailableSelection
  | readbackFailed
  deriving DecidableEq, Repr

/-- The text of an error. -/
def ConfigError.text : ConfigError → String
  | unsafeConfig => "unsafe-config"
  | unreadableConfig => "unreadable-config"
  | invalidConfig => "invalid-config"
  | unsupportedConfig => "unsupported-config"
  | duplicateSetting => "duplicate-setting"
  | stagingFailed => "staging-failed"
  | installFailed => "install-failed"
  | rollbackFailed => "rollback-failed"
  | serviceFailed => "service-failed"
  | serviceTimeout => "service-timeout"
  | unavailableSelection => "unavailable-selection"
  | readbackFailed => "readback-failed"

def singleQuote : Char := Char.ofNat 39
def doubleQuote : Char := Char.ofNat 34
def backslash : Char := Char.ofNat 92

/-- `KEY` -/
def key : List Char := "KFACEAUTH_CAMERA_DEVICE".toList

/-- `MAX_CONFIG` -/
def maxConfig : ℕ := 65536

/-- `split_once('=')`. -/
def splitOnce : List Char → Option (List Char × List Char)
  | [] => none
  | c :: text =>
    if c = '=' then some ([], text)
    else (splitOnce text).map fun (name, value) => (c :: name, value)

/-- A line that is empty or a comment. -/
def isComment (line : List Char) : Bool :=
  line.isEmpty || line.head? = some '#' || line.head? = some ';'

/-- The loop of `validate_lines` over a value: the quote that is open, and whether
    the end is escaped. -/
def scanValue : List Char → Option Char → Bool → Option Char × Bool
  | [], quote, escaped => (quote, escaped)
  | c :: value, quote, escaped =>
    if escaped then scanValue value quote false
    else if c = backslash ∧ quote ≠ some singleQuote then scanValue value quote true
    else if c = singleQuote ∨ c = doubleQuote then
      if quote = some c then scanValue value none false
      else if quote = none then scanValue value (some c) false
      else scanValue value quote false
    else scanValue value quote false

/-- The check of a line in `validate_lines`. -/
def validLine (line : List Char) : Bool :=
  let line := trim line
  if isComment line then true
  else
    match splitOnce line with
    | none => true
    | some (_, value) => scanValue value none false = (none, false)

/-- `validate_lines`. -/
def validateLines (text : List Char) : Except ConfigError Unit :=
  if (lines text).all validLine then .ok () else .error .unsupportedConfig

/-- The loop of `setting`. -/
def settingLoop : List (List Char) → Option (List Char) → Except ConfigError (Option (List Char))
  | [], value => .ok value
  | line :: rest, value =>
    let line := trim line
    if isComment line then settingLoop rest value
    else
      match splitOnce line with
      | none => settingLoop rest value
      | some (name, entry) =>
        if trim name = key then
          if value.isSome then .error .duplicateSetting
          else
            let entry := trimBy (· = doubleQuote) (trim entry)
            settingLoop rest (some (trimBy (· = singleQuote) entry))
        else settingLoop rest value

/-- `setting`. -/
def setting (bytes : List UInt8) : Except ConfigError (Option (List Char)) :=
  match decodeUtf8 bytes with
  | none => .error .invalidConfig
  | some text => do
    validateLines text
    let value ← settingLoop (lines text) none
    return value.filter fun item => !item.isEmpty

/-- The line sets the camera. -/
def isSetting (line : List Char) : Bool :=
  match splitOnce (trim line) with
  | none => false
  | some (name, _) => trim name = key

/-- `replacement`. -/
def replacement (bytes : List UInt8) (selected : Option (List Char)) :
    Except ConfigError (List UInt8) := do
  let _ ← setting bytes
  match decodeUtf8 bytes with
  | none => throw .invalidConfig
  | some text =>
    let result := ((splitInclusive text).filter fun line => !isSetting line).flatten
    match selected with
    | none => return encodeUtf8 result
    | some selected =>
      let result := if result ≠ [] ∧ result.getLast? ≠ some '\n' then result ++ ['\n'] else result
      return encodeUtf8 (result ++ key ++ ['='] ++ selected ++ ['\n'])

/-! ## The file and the service -/

/-- The files in the directory of the configuration. -/
inductive FileName
  /-- `kfaceauth.conf` -/
  | config
  /-- `.camera-config-<pid>.tmp` -/
  | temporary
  deriving DecidableEq, Repr

/-- The files, and whether the service is active. -/
structure World where
  fs : Fs FileName (List UInt8)
  active : Bool

/-- The configuration file: its bytes, if there is one. -/
def World.config (w : World) : Option (List UInt8) := (w.fs.get [.config]).map Node.data

/-- The commands of the service. -/
inductive Action
  | isActive
  | restart
  | stop
  deriving DecidableEq, Repr

/-- What the transaction calls. -/
inductive ConfigCall
  | fs (c : FsCall FileName (List UInt8))
  | service (action : Action)
  | validate

/-- The replies. -/
@[reducible] def ConfigCall.Reply : ConfigCall → Type
  | fs c => c.Reply
  | service _ => Except ConfigError Bool
  | validate => Bool

/-- A program of the transaction. -/
abbrev ConfigProg := Prog ConfigCall ConfigCall.Reply

/-- What may happen at a call. A call to the file system is carried out, or it
    fails before or after it takes effect, a write also after a part of it. The
    service answers truthfully whether it is active, and reports a restart or a
    stop only when it took effect. -/
inductive Happens (sys : Sys FileName) :
    (c : ConfigCall) → World → c.Reply → World → Prop
  | done (c : FsCall FileName (List UInt8)) (w : World) :
    Happens sys (.fs c) w (Fs.exec sys c w.fs).1 { w with fs := (Fs.exec sys c w.fs).2 }
  | failed {c : FsCall FileName (List UInt8)} {w : World} {r : c.Reply}
    (h : c.faultReply = some r) : Happens sys (.fs c) w r w
  | late {c : FsCall FileName (List UInt8)} {w : World} {r : c.Reply}
    (h : c.faultReply = some r) :
    Happens sys (.fs c) w r { w with fs := (Fs.exec sys c w.fs).2 }
  | half {p : List FileName} {d d' : List UInt8} {w : World} (h : d' <+: d) :
    Happens sys (.fs (.write p d)) w (.error .other)
      { w with fs := (Fs.exec sys (.write p d') w.fs).2 }
  | active (w : World) : Happens sys (.service .isActive) w (.ok w.active) w
  | unanswered (w : World) (e : ConfigError) : Happens sys (.service .isActive) w (.error e) w
  | restarted (w : World) : Happens sys (.service .restart) w (.ok true) { w with active := true }
  | notRestarted (w : World) {r : Except ConfigError Bool} (h : r ≠ .ok true) (active : Bool) :
    Happens sys (.service .restart) w r { w with active }
  | stopped (w : World) : Happens sys (.service .stop) w (.ok true) { w with active := false }
  | notStopped (w : World) {r : Except ConfigError Bool} (h : r ≠ .ok true) (active : Bool) :
    Happens sys (.service .stop) w r { w with active }
  | validated (w : World) (valid : Bool) : Happens sys .validate w valid w

/-! ## The transaction -/

/-- A call to the file system whose reply is looked at. -/
def ask (c : FsCall FileName (List UInt8)) : ConfigProg c.Reply := Prog.perform (ConfigCall.fs c)

/-- A call to the file system with the error for its failure. -/
def check (e : ConfigError) (c : FsCall FileName (List UInt8)) :
    ExceptT ConfigError ConfigProg c.Value :=
  ExceptT.mk do
    match ← ask c with
    | .ok v => return .ok v
    | .error _ => return .error e

/-- `service`. -/
def service (action : Action) : ExceptT ConfigError ConfigProg Bool :=
  ExceptT.mk (Prog.perform (ConfigCall.service action))

/-- `validate`. -/
def validate : ConfigProg Bool := Prog.perform ConfigCall.validate

/-- `read_config`, of a file that is there. -/
def readPresent (owner : ℕ) : ExceptT ConfigError ConfigProg (List UInt8) := do
  let p := [FileName.config]
  check .unsafeConfig (.openFile p)
  let before ← check .unsafeConfig (.fstat p)
  if before.kind ≠ .file ∨ before.uid ≠ owner ∨ before.nlink ≠ 1 ∨ before.mode &&& 0o022 ≠ 0 ∨
      before.len > maxConfig then
    throw .unsafeConfig
  else
    let data ← check .unreadableConfig (.read p)
    let bytes := data.take (maxConfig + 1)
    if bytes.length > maxConfig ∨ decodeUtf8 bytes = none then throw .invalidConfig
    else
      let after ← check .unsafeConfig (.fstat p)
      check .unsafeConfig (.openFile p)
      let current ← check .unsafeConfig (.fstat p)
      if before.ino ≠ current.ino ∨ before.len ≠ after.len then throw .unsafeConfig
      else return bytes

/-- `read_config`. -/
def readConfig (owner : ℕ) : ExceptT ConfigError ConfigProg (Option (List UInt8)) := do
  match ← (liftM (ask (.lstat [.config])) : ExceptT ConfigError ConfigProg _) with
  | .error .notFound => return none
  | _ => return some (← readPresent owner)

/-- The body of `atomic_write` with bytes. -/
def stageAndInstall (bytes : List UInt8) : ExceptT ConfigError ConfigProg Unit := do
  let temporary := [FileName.temporary]
  let previous ← (liftM (ask (.lstat [.config])) : ExceptT ConfigError ConfigProg _)
  check .stagingFailed (.createNew temporary 0o600)
  check .stagingFailed (.write temporary bytes)
  match previous with
  | .ok metadata =>
    check .stagingFailed (.chown temporary none metadata.gid)
    check .stagingFailed (.chmod temporary (metadata.mode &&& 0o777))
  | .error _ => check .stagingFailed (.chmod temporary 0o644)
  check .stagingFailed (.fsync temporary)
  check .installFailed (.rename temporary [.config])
  check .installFailed (.fsync [])

/-- `atomic_write`. -/
def atomicWrite : Option (List UInt8) → ExceptT ConfigError ConfigProg Unit
  | some bytes => ExceptT.mk do
    match ← (stageAndInstall bytes).run with
    | .ok () => return .ok ()
    | .error e =>
      let _ ← ask (.unlink [.temporary])
      return .error e
  | none => ExceptT.mk do
    match ← ask (.unlink [.config]) with
    | .ok () => (check .rollbackFailed (.fsync [])).run
    | .error .notFound => return .ok ()
    | .error _ => return .error .rollbackFailed

/-- What `transaction` applies. -/
def apply (owner : ℕ) (next : List UInt8) : ExceptT ConfigError ConfigProg Unit := do
  atomicWrite (some next)
  let restarted ← service .restart
  if !restarted then throw .serviceFailed
  else if !(← service .isActive) then throw .serviceFailed
  else if !(← validate) then throw .unavailableSelection
  else if (← readConfig owner) ≠ some next then throw .readbackFailed
  else return ()

/-- What `transaction` does when that failed: whether all is as it was. -/
def restore (owner : ℕ) (previous : Option (List UInt8)) (wasActive : Bool) : ConfigProg Bool := do
  match ← (atomicWrite previous).run with
  | .error _ => return false
  | .ok () =>
    match ← (service (if wasActive then .restart else .stop)).run with
    | .error _ | .ok false => return false
    | .ok true =>
      match ← (service .isActive).run with
      | .error _ => return false
      | .ok active =>
        if active ≠ wasActive then return false
        else
          match ← (readConfig owner).run with
          | .error _ => return false
          | .ok bytes => return decide (bytes = previous)

/-- `transaction`. -/
def transaction (owner : ℕ) (desired : Option (List Char)) :
    ExceptT ConfigError ConfigProg Unit := do
  let previous ← readConfig owner
  let next ← ExceptT.mk (return replacement (previous.getD []) desired)
  let wasActive ← service .isActive
  match ← (liftM (apply owner next).run : ExceptT ConfigError ConfigProg _) with
  | .ok () => return ()
  | .error e =>
    if ← restore owner previous wasActive then throw e else throw .rollbackFailed

end Camera

end KFaceAuth
