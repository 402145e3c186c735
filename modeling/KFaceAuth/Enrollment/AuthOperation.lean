import KFaceAuth.Enrollment.Session
import KFaceAuth.Lib.Text

/-!
# The authentication settings

`EnrollmentSession` changes the settings of face authentication by a helper that runs as
root (`runAuthTargetOperation`): the mode of a target, or a fresh copy of the profile. For
a copy it needs the key of the wallet first. When the helper has ended well the settings
are read again (`checkSystemAuthStatus`), and the change counts only if they are what was
asked for (`finishAuthReadback`); a timer bounds how long that may take. The revocation of
the system profile (`revokeSystemProfileThen`) starts a helper too, and they share the flag
`m_systemAuthBusy`.

What is shown of the settings is left out, and so is the rest of the session
(`Enrollment.Session`): it asks for a revocation or for the settings at any time, and of
what it does itself only the answers are seen here (`Around`). The generations are counted
without a bound: a query ends after half a second.
-/

namespace KFaceAuth

namespace AuthOperation

open Enrollment Text

/-! ## What is read -/

/-- `Readiness`. -/
inductive Readiness
  | unknown
  | missing
  | available
  | incompatible
  deriving DecidableEq, Repr

/-- `ProfileFreshness`. -/
inductive Freshness
  | unknown
  | current
  | stale
  deriving DecidableEq, Repr

/-- The mode of a target; every text that is none of the modes is `unknown`. -/
inductive Mode
  | unknown
  | off
  | manual
  | onActivity
  deriving DecidableEq, Repr

/-- The mode turns the authentication on. -/
def Mode.enabled (mode : Mode) : Bool := mode = .manual || mode = .onActivity

def Mode.text : Mode → String
  | .unknown => "unknown"
  | .off => "off"
  | .manual => "manual"
  | .onActivity => "on-activity"

/-- `parseAuthPolicyMode`. -/
def parseAuthPolicyMode (output : List UInt8) (successful : Bool) : Mode :=
  if !successful then .unknown
  else
    ([.off, .manual, .onActivity].find? fun mode =>
      output = encodeUtf8 ("mode=" ++ mode.text ++ "\n").toList).getD .unknown

inductive Target
  | sddm
  | plasmaLock
  deriving DecidableEq, Repr

/-- `m_sddmAuthMode` and `m_plasmaLockAuthMode`. -/
structure Modes where
  sddm : Mode := .unknown
  plasmaLock : Mode := .unknown
  deriving DecidableEq, Repr

namespace Modes

def get (modes : Modes) : Target → Mode
  | .sddm => modes.sddm
  | .plasmaLock => modes.plasmaLock

def set (modes : Modes) (target : Target) (mode : Mode) : Modes :=
  match target with
  | .sddm => { modes with sddm := mode }
  | .plasmaLock => { modes with plasmaLock := mode }

/-- Both modes are known. -/
def known (modes : Modes) : Bool := modes.sddm ≠ .unknown && modes.plasmaLock ≠ .unknown

end Modes

/-- `SystemAuthProtocol::Status`. -/
structure DaemonStatus where
  daemonReady : Bool
  systemProfileKnown : Bool
  systemProfileReady : Bool
  deriving DecidableEq, Repr

/-- `AuthStatusSnapshot`. -/
structure Snapshot where
  freshness : Freshness := .unknown
  components : Readiness := .unknown
  sddmApi : Readiness := .unknown
  sddmTheme : Readiness := .unknown
  plasmaApi : Readiness := .unknown
  daemon : Readiness := .unknown
  systemProfile : Readiness := .unknown
  modes : Modes := {}
  deriving DecidableEq, Repr

/-! ## What is asked for -/

/-- `setSddmAuthMode`, `setPlasmaLockAuthMode`, and `syncSystemProfile`. -/
inductive Request
  | mode (target : Target) (mode : Mode)
  | resync
  deriving DecidableEq, Repr

namespace Request

/-- The authentication is turned on, or the profile copied. -/
def requiresProfile : Request → Bool
  | mode _ m => m.enabled
  | resync => true

/-- The modes that have to be read back, when `shown` are read now. -/
def expected (shown : Modes) : Request → Modes
  | mode target m => shown.set target m
  | resync => shown

end Request

/-- `AuthOperationResult`. -/
inductive Result
  | none
  | success
  | cancelled
  | walletUnavailable
  | notReady
  | failed
  | readbackFailed
  deriving DecidableEq, Repr

/-- A helper that runs as root: of a change, or the process of a revocation. -/
inductive Helper
  | operation (generation : ℕ)
  | revocation (process : ℕ)
  deriving DecidableEq, Repr

/-- A process that reads the policy of a target. -/
structure Query where
  generation : ℕ
  target : Target
  deriving DecidableEq, Repr

/-- What has happened, for the record. -/
inductive Entry
  /-- A change starts, while the modes `shown` were read last. -/
  | requested (generation : ℕ) (request : Request) (shown : Modes)
  | launched (helper : Helper)
  /-- A helper has finished, or an error of it is reported (as exit code `-1`). -/
  | ended (helper : Helper) (exitCode : ℤ) (normalExit : Bool)
  /-- The settings are asked for. -/
  | asked (generation : ℕ)
  /-- What the query of the generation says. -/
  | status (generation : ℕ) (daemon systemProfile : Readiness) (freshness : Freshness)
  | read (generation : ℕ) (target : Target) (mode : Mode)
  /-- The result of a change becomes `Success`. -/
  | succeeded (generation : ℕ)
  deriving DecidableEq, Repr

/-- What the surroundings answer to a call. -/
structure Around where
  /-- `m_requestActive`, `busy`, `enrollmentActive` and `profileReady` of the session. -/
  requestActive : Bool := false
  busy : Bool := false
  enrollmentActive : Bool := false
  profileReady : Bool := false
  /-- The files that exist. -/
  helper : Bool := false
  policyReader : Bool := false
  policyStore : Bool := false
  pamModule64 : Bool := false
  pamModule : Bool := false
  /-- `systemProfileArtifactsExist`. -/
  artifacts : Bool := false
  sddmApi : Readiness := .unknown
  sddmTheme : Readiness := .unknown
  plasmaApi : Readiness := .unknown
  /-- The answers of the daemon. -/
  daemon : Option DaemonStatus := none
  freshness : Freshness := .unknown
  /-- A process of a query or of a revocation starts. -/
  starts : Bool := false
  /-- The helper of a change ends at once. -/
  ends : Option (ℤ × Bool) := none
  /-- The wallet answers at once. -/
  key : Option KeyResult := none
  /-- The probe answers at once. -/
  snapshot : Option Snapshot := none
  deriving DecidableEq, Repr

structure Settings where
  /-- There is an `m_authStatusProbe`. -/
  probed : Bool := false
  systemAuthBusy : Bool := false
  operationState : AuthState := .idle
  result : Result := .none
  expected : Modes := {}
  requiresProfile : Bool := false
  requiresFreshness : Bool := false
  operationGeneration : ℕ := 0
  queryGeneration : ℕ := 0
  queriesRemaining : ℕ := 0
  statusReady : Bool := false
  modes : Modes := {}
  /-- `daemon` and `systemProfile` of `m_authReadiness`. -/
  daemon : Readiness := .unknown
  systemProfile : Readiness := .unknown
  freshness : Freshness := .unknown
  componentsAvailable : Bool := false
  sddmIntegrationAvailable : Bool := false
  plasmaLockIntegrationAvailable : Bool := false
  systemProfileReady : Bool := false
  /-- `m_authReadbackTimer` runs. -/
  readbackTimer : Bool := false
  /-- `m_systemProfileMutationProcess`. -/
  mutationProcess : Option ℕ := none
  profileMutationEpoch : ℕ := 0
  /-- The generation of the change that waits for the wallet. -/
  walletRequest : Option ℕ := none
  /-- The helpers that have neither finished nor reported an error. -/
  helpers : List Helper := []
  queries : List Query := []
  /-- The generations that the probe was asked for. -/
  probes : List ℕ := []
  /-- The revocations that wait for the policy, with their epochs. -/
  waits : List ℕ := []
  /-- The number of processes of revocations so far. -/
  processes : ℕ := 0
  around : List Around := []
  history : List Entry := []
  deriving DecidableEq, Repr

namespace Settings

/-- The record goes on. -/
def note (s : Settings) (e : Entry) : Settings := { s with history := s.history ++ [e] }

/-- The answers to the next call. -/
def answer (s : Settings) : Around := s.around.headD {}

def answered (s : Settings) : Settings := { s with around := s.around.tail }

/-! ## Revocations -/

/-- The helper of a revocation starts, or not; then it has ended already. -/
def startRevocation (s : Settings) (starts : Bool) : Settings :=
  let process := s.processes
  let s := { s with processes := process + 1 }.note (.launched (.revocation process))
  if starts then
    { s with
      systemAuthBusy := true
      mutationProcess := some process
      helpers := s.helpers ++ [Helper.revocation process] }
  else { s.note (.ended (.revocation process) (-1) false) with mutationProcess := none }

/-- `revokeSystemProfileThen`. How the session goes on is not said. -/
def revokeSystemProfileThen (s : Settings) : Settings :=
  let a := s.answer
  let s := s.answered
  let integrationPossible := s.componentsAvailable || a.policyReader || a.policyStore
  let policyEnabled := s.modes.sddm.enabled || s.modes.plasmaLock.enabled
  if integrationPossible && 0 < s.queriesRemaining then
    { s with waits := s.waits ++ [s.profileMutationEpoch] }
  else if integrationPossible && (!s.statusReady || !s.modes.known) then s
  else if !policyEnabled && !(a.artifacts || s.systemProfileReady) then s
  else if !a.helper || s.systemAuthBusy then s
  else s.startRevocation a.starts

/-- A revocation stops waiting for the policy: it is read, or not in time. -/
def endWait (s : Settings) (epoch : ℕ) (ready : Bool) : Settings :=
  let s := { s with waits := s.waits.erase epoch }
  if !ready || epoch ≠ s.profileMutationEpoch then s else s.revokeSystemProfileThen

/-- `systemAuthChanged`, to the revocations that wait. -/
def systemAuthChanged (s : Settings) : Settings :=
  s.waits.foldl (fun s epoch => if s.queriesRemaining = 0 then s.endWait epoch true else s) s

/-! ## The settings are read -/

/-- What was read is what was asked for. -/
def verified (s : Settings) : Bool :=
  (!s.requiresFreshness || s.freshness = .current) && s.statusReady && s.modes = s.expected &&
    (!s.requiresProfile || (s.daemon = .available && s.systemProfile = .available))

/-- `finishAuthReadback`. -/
def finishAuthReadback (s : Settings) : Settings :=
  if s.operationState ≠ .checking ∨ s.queriesRemaining ≠ 0 then s
  else
    let result := if s.verified then Result.success else .readbackFailed
    let s := if s.verified then s.note (.succeeded s.operationGeneration) else s
    { s with
      result
      readbackTimer := false
      operationState := .idle
      systemAuthBusy := false }.systemAuthChanged

/-- A query ends; one that is not of the last generation changes nothing. -/
def finishQuery (s : Settings) (query : Query) (mode : Mode) : Settings :=
  if query.generation ≠ s.queryGeneration then s
  else
    let s : Settings := { s with
      modes := s.modes.set query.target mode
      queriesRemaining := s.queriesRemaining - 1 }.note
        (.read query.generation query.target mode)
    let s := if s.queriesRemaining = 0 then { s with statusReady := s.modes.known } else s
    s.finishAuthReadback.systemAuthChanged

/-- `startPolicyQuery`. A process that cannot be started has ended already. -/
def startPolicyQuery (s : Settings) (query : Query) : Settings :=
  let a := s.answer
  let s := s.answered
  if a.starts then { s with queries := s.queries ++ [query] } else s.finishQuery query .unknown

/-- `applyAuthStatusSnapshot`. -/
def applyAuthStatusSnapshot (s : Settings) (snapshot : Snapshot) : Settings :=
  let s : Settings := { s with
    componentsAvailable := snapshot.components = .available
    sddmIntegrationAvailable := snapshot.sddmApi = .available && snapshot.sddmTheme = .available
    plasmaLockIntegrationAvailable := snapshot.plasmaApi = .available
    daemon := snapshot.daemon
    systemProfile := snapshot.systemProfile
    systemProfileReady := snapshot.systemProfile = .available
    freshness := snapshot.freshness
    modes := snapshot.modes
    queriesRemaining := 0
    statusReady := snapshot.modes.known }
  ((s.note (.status s.queryGeneration s.daemon s.systemProfile s.freshness)).note
    (.read s.queryGeneration .sddm s.modes.sddm)).note
    (.read s.queryGeneration .plasmaLock s.modes.plasmaLock)

/-- The probe answers; an answer that is not of the last generation changes nothing. -/
def finishProbe (s : Settings) (generation : ℕ) (snapshot : Snapshot) : Settings :=
  if generation ≠ s.queryGeneration then s
  else (s.applyAuthStatusSnapshot snapshot).finishAuthReadback.systemAuthChanged

/-- `checkSystemAuthStatus`, by the probe. -/
def probe (s : Settings) : Settings :=
  let a := s.answer
  let s := s.answered
  let generation := s.queryGeneration + 1
  let s : Settings := { s with
    queryGeneration := generation
    queriesRemaining := 1
    statusReady := false
    probes := s.probes ++ [generation] }.note (.asked generation)
  match a.snapshot with
  | none => s
  | some snapshot => s.finishProbe generation snapshot

/-- `checkSystemAuthStatus`, the part that reads the files and asks the daemon. -/
def readSystem (s : Settings) (a : Around) : Settings :=
  let generation := s.queryGeneration + 1
  let systemProfileReady := a.daemon.any (·.systemProfileReady)
  let mode := if a.policyReader || a.policyStore then Mode.unknown else .off
  let s : Settings := { s with
    componentsAvailable := (a.helper && a.policyReader) && (a.pamModule64 || a.pamModule)
    sddmIntegrationAvailable := a.sddmApi = .available && a.sddmTheme = .available
    plasmaLockIntegrationAvailable := a.plasmaApi = .available
    daemon := if a.daemon.any (·.daemonReady) then .available else .unknown
    systemProfile :=
      if a.daemon.any (·.systemProfileKnown) then
        if systemProfileReady then .available else .missing
      else .unknown
    systemProfileReady
    freshness := if systemProfileReady then a.freshness else .unknown
    queryGeneration := generation
    queriesRemaining := 0
    statusReady := !a.policyReader && !a.policyStore
    modes := ⟨mode, mode⟩ }
  (s.note (.asked generation)).note (.status generation s.daemon s.systemProfile s.freshness)

/-- `checkSystemAuthStatus`, without a probe. Where there is no policy everything is off. -/
def readStatus (s : Settings) : Settings :=
  let a := s.answer
  let s := s.answered.readSystem a
  let generation := s.queryGeneration
  let s :=
    if a.policyReader then
      ({ s with statusReady := false, queriesRemaining := 2 }.startPolicyQuery
        ⟨generation, .sddm⟩).startPolicyQuery ⟨generation, .plasmaLock⟩
    else
      (s.note (.read generation .sddm s.modes.sddm)).note
        (.read generation .plasmaLock s.modes.plasmaLock)
  s.finishAuthReadback.systemAuthChanged

/-- `checkSystemAuthStatus`. -/
def checkSystemAuthStatus (s : Settings) : Settings :=
  if s.systemAuthBusy && s.operationState ≠ .checking then s
  else if s.probed then s.probe
  else s.readStatus

/-! ## Changes -/

/-- `finishAuthTargetOperation`. -/
def finishAuthTargetOperation (s : Settings) (exitCode : ℤ) (normalExit : Bool) : Settings :=
  if normalExit && exitCode = 0 then
    { s with operationState := .checking, readbackTimer := true }.checkSystemAuthStatus
  else
    { s with
      systemAuthBusy := false
      operationState := .idle
      result :=
        if normalExit && (exitCode = 126 || exitCode = 127) then .cancelled else .failed
    }.checkSystemAuthStatus.systemAuthChanged

/-- The completion of the helper of a change. -/
def completeOperation (s : Settings) (generation : ℕ) (exitCode : ℤ) (normalExit : Bool) :
    Settings :=
  if generation = s.operationGeneration ∧ s.operationState = .updating then
    s.finishAuthTargetOperation exitCode normalExit
  else s

/-- `launch`. -/
def launch (s : Settings) (generation : ℕ) : Settings :=
  if generation ≠ s.operationGeneration then s
  else
    let s := { s with operationState := .updating }.systemAuthChanged
    let a := s.answer
    let s := s.answered.note (.launched (.operation generation))
    match a.ends with
    | none => { s with helpers := s.helpers ++ [Helper.operation generation] }
    | some (exitCode, normalExit) =>
      (s.note (.ended (.operation generation) exitCode normalExit)).completeOperation generation
        exitCode normalExit

/-- The completion of `requestKey`. -/
def completeWallet (s : Settings) (generation : ℕ) (result : KeyResult) : Settings :=
  if generation ≠ s.operationGeneration then s
  else if result.state ≠ .available ∨ result.key.length ≠ keyBytes then
    { s with
      systemAuthBusy := false
      operationState := .idle
      result := .walletUnavailable }.checkSystemAuthStatus.systemAuthChanged
  else s.launch generation

/-- `requestKey`. The wallet refuses a second request, also one of somebody else. -/
def requestKey (s : Settings) (generation : ℕ) : Settings :=
  let a := s.answer
  let s := s.answered
  if s.walletRequest.isSome then s.completeWallet generation ⟨.unavailable, []⟩
  else
    match a.key with
    | none => { s with walletRequest := some generation }
    | some result => s.completeWallet generation result

/-- The request is one that there is, and changes something. -/
def accepts (s : Settings) : Request → Bool
  | .mode target mode => (mode = .off || mode.enabled) && mode ≠ s.modes.get target
  | .resync => true

/-- Everything that the change needs is there. -/
def ready (s : Settings) (profileReady : Bool) : Request → Bool
  | .mode target mode =>
    s.statusReady && (!mode.enabled || (profileReady && s.componentsAvailable &&
      match target with
      | .sddm => s.sddmIntegrationAvailable
      | .plasmaLock => s.plasmaLockIntegrationAvailable))
  | .resync => s.statusReady && profileReady && s.componentsAvailable

/-- `runAuthTargetOperation`. -/
def runAuthTargetOperation (s : Settings) (request : Request) : Settings :=
  let a := s.answer
  let s := s.answered
  if s.systemAuthBusy || a.requestActive || a.busy || a.enrollmentActive then s
  else if !s.accepts request then s
  else if !s.ready a.profileReady request then { s with result := .notReady }.systemAuthChanged
  else
    let generation := s.operationGeneration + 1
    let s := ({ s with
      expected := request.expected s.modes
      requiresProfile := request.requiresProfile
      requiresFreshness := request.requiresProfile
      systemAuthBusy := true
      result := .none
      operationState := if request.requiresProfile then .openingWallet else .updating
      operationGeneration := generation }.note
        (.requested generation request s.modes)).systemAuthChanged
    if request.requiresProfile then s.requestKey generation else s.launch generation

/-! ## Events -/

/-- The helper of a revocation has ended. -/
def completeRevocation (s : Settings) (process : ℕ) (success : Bool) : Settings :=
  if s.mutationProcess ≠ some process then s
  else
    let s := { s with mutationProcess := none, systemAuthBusy := false }
    if success then { s with freshness := .unknown }.checkSystemAuthStatus else s

/-- A helper has finished, or reports an error. -/
def helperEnded (s : Settings) (helper : Helper) (exitCode : ℤ) (normalExit : Bool) : Settings :=
  let s := { s with helpers := s.helpers.erase helper }.note (.ended helper exitCode normalExit)
  match helper with
  | .operation generation => s.completeOperation generation exitCode normalExit
  | .revocation process => s.completeRevocation process (normalExit && exitCode = 0)

/-- The timer of the readback. -/
def readbackTimeout (s : Settings) : Settings :=
  let s := { s with readbackTimer := false }
  if s.operationState ≠ .checking then s
  else
    { s with
      queryGeneration := s.queryGeneration + 1
      queriesRemaining := 0
      statusReady := false
      modes := ⟨.unknown, .unknown⟩
      operationState := .idle
      result := .readbackFailed
      systemAuthBusy := false }.systemAuthChanged

/-- The wallet ends the request that waits. -/
def walletFinished (s : Settings) (result : KeyResult) : Settings :=
  match s.walletRequest with
  | none => s
  | some generation => { s with walletRequest := none }.completeWallet generation result

/-- `cancel`. -/
def cancel (s : Settings) : Settings :=
  { s with profileMutationEpoch := s.profileMutationEpoch + 1 }.walletFinished ⟨.cancelled, []⟩

end Settings

/-- What happens to the settings. -/
inductive Event
  | request (request : Request)
  | checkSystemAuthStatus
  | revokeSystemProfile
  | cancel
  | profileChanged
  | walletFinished (result : KeyResult)
  | helperEnded (helper : Helper) (exitCode : ℤ) (normalExit : Bool)
  /-- A query ends with an output, or runs into its deadline or an error. -/
  | queryFinished (query : Query) (output : Option (List UInt8 × Bool))
  | probeFinished (generation : ℕ) (snapshot : Snapshot)
  | readbackTimeout
  | waitTimeout (epoch : ℕ)
  deriving DecidableEq, Repr

namespace Settings

/-- The event, if it may happen. -/
def handle (s : Settings) : Event → Option Settings
  | .request request => some (s.runAuthTargetOperation request)
  | .checkSystemAuthStatus => some s.checkSystemAuthStatus
  | .revokeSystemProfile => some s.revokeSystemProfileThen
  | .cancel => some s.cancel
  | .profileChanged => some s.systemAuthChanged
  | .walletFinished result =>
    if s.walletRequest.isNone then none else some (s.walletFinished result)
  | .helperEnded helper exitCode normalExit =>
    if helper ∉ s.helpers then none else some (s.helperEnded helper exitCode normalExit)
  | .queryFinished query output =>
    if query ∉ s.queries then none
    else
      some ({ s with queries := s.queries.erase query }.finishQuery query
        (output.elim .unknown fun o => parseAuthPolicyMode o.1 o.2))
  | .probeFinished generation snapshot =>
    if generation ∉ s.probes then none else some (s.finishProbe generation snapshot)
  | .readbackTimeout => if !s.readbackTimer then none else some s.readbackTimeout
  | .waitTimeout epoch => if epoch ∉ s.waits then none else some (s.endWait epoch false)

end Settings

/-- The settings, at the events and what the surroundings answer during them, with a probe
    or without one. -/
def machine (probed : Bool) : Machine Settings (Event × List Around) where
  init := { probed }
  step s e := { s with around := e.2 }.handle e.1

end AuthOperation

end KFaceAuth
