import KFaceAuth.Enrollment.Protocol
import KFaceAuth.Lib.Machine

/-!
# The two sessions

`EnrollmentSession` enrolls, deletes and resets the face profile, and
`LocalVerificationSession` tests one frame against it. They share the key provider,
the worker and the preview (`Application`), and everything that they do happens in
one thread, as the completion of something (`machine`).

A completion may run at once, within the call: what a function may complete is
defined before it.
-/

namespace KFaceAuth

namespace Enrollment

inductive State
  | idle
  | openingWallet
  | enrolling
  | capturing
  | readyToSave
  | saving
  | complete
  | failed
  | cancelled
  deriving DecidableEq, Repr

/-- `PendingOperation`. -/
inductive PendingOperation
  | none
  | status
  | capture
  | commit
  | delete
  | reset
  deriving DecidableEq, Repr

/-- `AuthOperationState`. -/
inductive AuthState
  | idle
  | openingWallet
  | updating
  | checking
  deriving DecidableEq, Repr

/-- `EnrollmentSession`. -/
structure Session where
  state : State := .idle
  sampleCount : ℕ := 0
  key : List UInt8 := []
  embeddings : List UInt8 := []
  keyNeedsStore : Bool := false
  keyStoredDuringEnrollment : Bool := false
  pendingOperation : PendingOperation := .none
  requestActive : Bool := false
  activeGeneration : UInt64 := 0
  generation : UInt64 := 0
  pageActive : Bool := false
  profileMutationEpoch : UInt64 := 0
  commitAfterSystemRevoke : Bool := false
  /-- The timer `m_sessionTimer` runs. -/
  sessionTimer : Bool := false
  systemAuthBusy : Bool := false
  authOperationState : AuthState := .idle
  authOperationGeneration : UInt64 := 0
  deriving DecidableEq, Repr

namespace Session

/-- `busy`. -/
def busy (e : Session) : Bool :=
  e.state = .openingWallet || e.state = .capturing || e.state = .saving

/-- `enrollmentActive`. -/
def enrollmentActive (e : Session) : Bool :=
  e.state = .openingWallet || e.state = .enrolling || e.state = .capturing ||
    e.state = .readyToSave || e.state = .saving

/-- `clearSensitive`. -/
def clearSensitive (e : Session) : Session :=
  { e with key := [], embeddings := [], sampleCount := 0, keyNeedsStore := false }

/-- The state for the samples that there are. -/
def sampled (e : Session) : State :=
  if minimumSamples ≤ e.sampleCount then .readyToSave else .enrolling

end Session

/-- `LocalVerificationSession::State`. -/
inductive VerificationState
  | idle
  | openingWallet
  | verifying
  | rateLimited
  | complete
  | failed
  | cancelled
  deriving DecidableEq, Repr

/-- `LocalVerificationSession`. -/
structure Verification where
  state : VerificationState := .idle
  requestActive : Bool := false
  activeGeneration : UInt64 := 0
  generation : UInt64 := 0
  pageActive : Bool := false
  deriving DecidableEq, Repr

/-- `LocalVerificationSession::busy`. -/
def Verification.busy (v : Verification) : Bool :=
  v.state = .openingWallet || v.state = .verifying

/-- Why a key operation ended: the wallet answered, or refused to open, or a session
    was cancelled. -/
inductive Cause
  | answered
  | refused
  | cancelled (session : Owner)
  deriving DecidableEq, Repr

/-- A key operation that has ended. -/
structure Completed where
  owner : Owner
  state : KeyState
  cause : Cause
  deriving DecidableEq, Repr

structure Application where
  enrollment : Session := {}
  verification : Verification := {}
  /-- The key operation that waits for the wallet. -/
  pending : Option (Completion × Action) := none
  worker : Option InFlight := none
  /-- The revocations that are under way. -/
  revocations : List Revocation := []
  /-- The preview is `Streaming`. -/
  streaming : Bool := false
  around : Around := {}
  /-- The key operations that have ended. -/
  completed : List Completed := []
  deriving DecidableEq, Repr

namespace Application

/-! ## Calls -/

/-- Something about the enrollment. -/
def enroll (s : Application) (f : Session → Session) : Application :=
  { s with enrollment := f s.enrollment }

/-- `setState`. -/
def setState (s : Application) (state : State) : Application :=
  s.enroll fun e => { e with state }

/-- A key operation ends. -/
def ended (s : Application) (c : Completion) (state : KeyState) (cause : Cause) : Application :=
  { s with completed := s.completed ++ [⟨c.owner, state, cause⟩] }

/-- `requestKey`, `storeKey` and `deleteKey`: the completion runs at once, unless the
    wallet has to be opened. -/
def callKey (s : Application) (c : Completion) (action : Action)
    (complete : Application → KeyResult → Application) : Application :=
  let failed (s : Application) := complete (s.ended c .unavailable .answered) ⟨.unavailable, []⟩
  if s.pending.isSome then failed s
  else
    match s.around.wallet with
    | [] => failed s
    | reply :: wallet =>
      let s := { s with around := { s.around with wallet } }
      -- While a completion runs no operation waits any more.
      match reply with
      | .failed => failed s
      | .pending => { s with pending := some (c, action) }
      | .entry key =>
        let result := performRead action key
        complete (s.ended c result.state .answered) result

/-- `IdentityWorkerClient::execute`; the completion runs at once if the worker is
    busy. -/
def execute (s : Application) (f : InFlight) (complete : Application → Application) :
    Application :=
  if s.worker.isSome then complete s else { s with worker := some f }

/-- `IdentityWorkerClient::cancel`. -/
def cancelWorker (s : Application) : Application :=
  { s with worker := s.worker.map fun f => { f with cancelling := true } }

/-! ## Failures -/

/-- `fail`: a key that this enrollment has stored is removed first. -/
def fail (s : Application) : Application :=
  let s := s.enroll fun e =>
    { e.clearSensitive with sessionTimer := false, pendingOperation := .none }
  if s.enrollment.keyStoredDuringEnrollment then
    -- The state stays what it is until the wallet has answered.
    (s.enroll fun e => { e with keyStoredDuringEnrollment := false }).callKey .rollback .delete
      fun s _ => s.setState .failed
  else s.setState .failed

/-- The key of a deleted profile is removed. -/
def deletedKey (s : Application) (result : KeyResult) : Application :=
  if result.state = .absent then s.setState .complete else s.fail

/-! ## Responses -/

/-- A new sample. -/
def accepted (s : Application) (payload : List UInt8) : Application :=
  s.enroll fun e =>
    let e := { e with embeddings := e.embeddings ++ payload, sampleCount := e.sampleCount + 1 }
    { e with state := e.sampled }

/-- The profile is saved. -/
def committed (s : Application) : Application :=
  s.enroll fun e =>
    { e.clearSensitive with
      sessionTimer := false
      keyStoredDuringEnrollment := false
      state := .complete }

/-- `handleResponse`, of a response that is no error, by the operation that waits. -/
def handleResult (s : Application) (response : Response) : Application :=
  match s.enrollment.pendingOperation with
  | .none => s
  | .status => if response = .status then s else s.fail
  -- The payload of a sample has its length already when it is parsed; it is checked again.
  | .capture =>
    match response with
    | .sample payload => if payload.length = embeddingBytes then s.accepted payload else s.fail
    | _ => s.fail
  | .commit => if response = .ack then s.committed else s.fail
  | .delete | .reset =>
    -- Unlike a commit, a deletion does not clear what the session holds.
    if response = .ack then s.callKey .deleteFinal .delete deletedKey else s.fail

/-- The errors that a sample may have. -/
def isSampleError (code : ℕ) : Bool := (7 ≤ code && code ≤ 11) || code = 23

/-- `handleResponse`. -/
def handleResponse (s : Application) (generation : UInt64) (response : Response) : Application :=
  if generation = 0 ∨ generation ≠ s.enrollment.activeGeneration then s
  else
    let s := s.enroll fun e => { e with requestActive := false, activeGeneration := 0 }
    match response with
    | .transport | .invalid => s.fail
    | .error code =>
      if s.enrollment.pendingOperation = .capture ∧ isSampleError code then
        -- `handleSampleError`: the enrollment goes on.
        s.enroll fun e => { e with pendingOperation := .none, state := e.sampled }
      else s.fail
    | .status | .sample _ | .ack | .verification =>
      (s.handleResult response).enroll fun e => { e with pendingOperation := .none }

/-- A request of the enrollment goes to the worker. -/
def submit (s : Application) (operation : Operation) (pending : PendingOperation)
    (state : State) : Application :=
  let generation := nextGeneration s.enrollment.generation
  let s := s.enroll fun e =>
    { e with
      pendingOperation := pending
      requestActive := true
      activeGeneration := generation
      generation
      state }
  s.execute { owner := .enrollment, generation, operation } (·.handleResponse generation .transport)

/-! ## The status of the profile -/

/-- `runStatus`, with the key or without one. -/
def runStatus (s : Application) (key : List UInt8) : Application :=
  if key ≠ [] ∧ key.length ≠ keyBytes then
    s.enroll fun e => { e with generation := nextGeneration e.generation }
  else s.submit .status .status s.enrollment.state

/-- The completion of `refreshProfileStatus`. -/
def completeStatus (s : Application) (result : KeyResult) : Application :=
  match result.state with
  | .available => s.runStatus result.key
  | .absent => s.runStatus []
  | _ => s

/-- `refreshProfileStatus`. -/
def refreshProfileStatus (s : Application) : Application :=
  if s.enrollment.requestActive || s.enrollment.busy then s
  else s.callKey .status .read completeStatus

/-! ## The samples -/

/-- The key of a new enrollment: the one of the wallet, or a new one. -/
def takeKey (s : Application) (result : KeyResult) : Application :=
  match result.state with
  | .available => s.enroll fun e => { e with key := result.key, keyNeedsStore := false }
  | .absent =>
    match s.around.random with
    | some key => s.enroll fun e => { e with key := key.toList, keyNeedsStore := true }
    | none => s
  | _ => s

/-- The completion of `startEnrollment`. -/
def completeStart (s : Application) (result : KeyResult) : Application :=
  let s := s.takeKey result
  -- Neither the page nor the preview need be what they were when the wallet was asked.
  if s.enrollment.key.length ≠ keyBytes then s.fail
  else if !s.enrollment.pageActive || !s.around.budget then s.fail
  else s.enroll fun e => { e with sessionTimer := true, state := .enrolling }

/-- `startEnrollment`. -/
def startEnrollment (s : Application) : Application :=
  -- Also an enrollment that is under way fails here, and not only the new one.
  if !s.enrollment.pageActive || s.enrollment.busy || s.worker.isSome || !s.streaming then s.fail
  else
    (s.enroll fun e => { e.clearSensitive with state := .openingWallet }).callKey .start .read
      completeStart

/-- `canCapture`. -/
def canCapture (s : Application) : Bool :=
  s.enrollment.pageActive && s.worker.isNone &&
    (s.enrollment.state = .enrolling || s.enrollment.state = .readyToSave) &&
    s.enrollment.sampleCount < maximumSamples && s.streaming && s.around.frame ≠ .missing

/-- `captureSample`. The request has the samples so far. -/
def captureSample (s : Application) : Application :=
  if !s.canCapture then s
  else if s.around.frame = .uncopied then s.fail
  -- The count goes into the request as one byte.
  else if maximumSamples ≤ s.enrollment.sampleCount % 256 ∨
      s.enrollment.embeddings.length ≠ s.enrollment.sampleCount % 256 * embeddingBytes ∨
      s.around.frame = .invalid then
    (s.enroll fun e => { e with generation := nextGeneration e.generation }).fail
  else s.submit .capture .capture .capturing

/-- `discardLastSample`. -/
def discardLastSample (s : Application) : Application :=
  if s.enrollment.busy || s.enrollment.sampleCount = 0 then s
  else
    s.enroll fun e =>
      let e := { e with
        embeddings := e.embeddings.take ((e.sampleCount - 1) * embeddingBytes)
        sampleCount := e.sampleCount - 1 }
      { e with state := e.sampled }

/-! ## The profile -/

/-- `commitEnrollment`, when the system profile is revoked already. -/
def commitRevoked (s : Application) : Application :=
  let busy := s.enrollment.systemAuthBusy
  let s := s.enroll fun e => { e with commitAfterSystemRevoke := false }
  let e := s.enrollment
  if busy then s.fail
  else if e.key.length ≠ keyBytes ∨ e.sampleCount % 256 < minimumSamples ∨
      maximumSamples < e.sampleCount % 256 ∨
      e.embeddings.length ≠ e.sampleCount % 256 * embeddingBytes then
    (s.enroll fun e => { e with generation := nextGeneration e.generation }).fail
  else s.submit .commit .commit e.state

/-- The completion of `deleteLocalProfile`, for a key of the wallet. -/
def completeDeleteRead (s : Application) (epoch : UInt64) (result : KeyResult) : Application :=
  if epoch ≠ s.enrollment.profileMutationEpoch then s
  else if result.state ≠ .available then s.fail
  else s.submit .delete .delete .saving

/-- `deleteLocalProfile`. -/
def deleteLocalProfile (s : Application) (epoch : UInt64) : Application :=
  (s.setState .openingWallet).callKey (.deleteRead epoch) .read (·.completeDeleteRead epoch)

/-- What follows the revocation of the system profile. -/
def resume (s : Application) (c : Continuation) (success : Bool) : Application :=
  if c.epoch ≠ s.enrollment.profileMutationEpoch then s
  else
    match c with
    | .commit _ =>
      if !s.enrollment.commitAfterSystemRevoke then s
      else if success then s.commitRevoked
      else (s.enroll fun e => { e with commitAfterSystemRevoke := false }).fail
    | .delete epoch => if success then s.deleteLocalProfile epoch else s.fail
    | .reset _ => if success then s.submit .reset .reset .saving else s.fail

/-- `revokeSystemProfileThen`. -/
def revokeSystemProfileThen (s : Application) (c : Continuation) : Application :=
  match s.around.revokes with
  | [] => s.resume c false
  | reply :: revokes =>
    let s := { s with around := { s.around with revokes } }
    match reply with
    | .waits => { s with revocations := s.revocations ++ [⟨c, false⟩] }
    | .refused => s.resume c false
    | .unneeded => s.resume c true
    | .process =>
      -- The process of a change of the settings may be running.
      if s.enrollment.systemAuthBusy then s.resume c false
      else
        { s.enroll (fun e => { e with systemAuthBusy := true }) with
          revocations := s.revocations ++ [⟨c, true⟩] }

/-- `commitEnrollment`. -/
def commitEnrollment (s : Application) : Application :=
  if s.enrollment.systemAuthBusy || s.enrollment.commitAfterSystemRevoke then s.commitRevoked
  else
    (s.enroll fun e => { e with commitAfterSystemRevoke := true }).revokeSystemProfileThen
      (.commit s.enrollment.profileMutationEpoch)

/-- The completion of the store of a new key. -/
def completeStore (s : Application) (result : KeyResult) : Application :=
  if result.state ≠ .available then s.fail
  else
    (s.enroll fun e =>
      { e with keyNeedsStore := false, keyStoredDuringEnrollment := true }).commitEnrollment

/-- `canFinish`. -/
def canFinish (s : Application) : Bool :=
  s.enrollment.pageActive && s.worker.isNone && s.enrollment.state = .readyToSave &&
    minimumSamples ≤ s.enrollment.sampleCount

/-- `finishAndSave`. -/
def finishAndSave (s : Application) : Application :=
  if !s.canFinish then s
  else
    let s := s.setState .saving
    if !s.enrollment.keyNeedsStore then s.commitEnrollment
    else if s.enrollment.key.length ≠ keyBytes then
      (s.ended .store .unavailable .answered).completeStore ⟨.unavailable, []⟩
    else s.callKey .store .store completeStore

/-- `deleteProfile` and `resetUnreadable`: the system profile is revoked first. -/
def changeProfile (s : Application) (operation : PendingOperation)
    (c : UInt64 → Continuation) : Application :=
  let e := s.enrollment
  if e.requestActive || e.busy || e.systemAuthBusy then s
  else
    (s.enroll fun e => { e with pendingOperation := operation, state := .saving })
      |>.revokeSystemProfileThen (c e.profileMutationEpoch)

/-- `deleteProfile`. -/
def deleteProfile (s : Application) : Application := s.changeProfile .delete .delete

/-- `resetUnreadable`. -/
def resetUnreadable (s : Application) : Application := s.changeProfile .reset .reset

/-- A revocation ends: the process of it, or the policy is read, or not in time. -/
def revoked (s : Application) (r : Revocation) (success : Bool) : Application :=
  if r.process then
    (s.enroll fun e => { e with systemAuthBusy := false }).resume r.continuation success
  -- The policy is read now; what it says decides how to go on.
  else if success ∧ r.continuation.epoch = s.enrollment.profileMutationEpoch then
    s.revokeSystemProfileThen r.continuation
  else s.resume r.continuation false

/-! ## The authentication settings -/

/-- The completion of `runAuthTargetOperation`. -/
def completeAuth (s : Application) (generation : UInt64) (result : KeyResult) : Application :=
  s.enroll fun e =>
    if generation ≠ e.authOperationGeneration then e
    else if result.state ≠ .available ∨ result.key.length ≠ keyBytes then
      { e with systemAuthBusy := false, authOperationState := .idle }
    else { e with authOperationState := .updating }

/-- `runAuthTargetOperation`, for a change that may be made. -/
def runAuthTargetOperation (s : Application) (requiresProfile : Bool) : Application :=
  let e := s.enrollment
  if e.systemAuthBusy || e.requestActive || e.busy || e.enrollmentActive then s
  else
    let generation := e.authOperationGeneration + 1
    let s := s.enroll fun e =>
      { e with
        systemAuthBusy := true
        authOperationState := if requiresProfile then .openingWallet else .updating
        authOperationGeneration := generation }
    if requiresProfile then s.callKey (.auth generation) .read (·.completeAuth generation) else s

/-- `finishAuthTargetOperation`. -/
def finishAuthTargetOperation (s : Application) (success : Bool) : Application :=
  s.enroll fun e =>
    if e.authOperationState ≠ .updating then e
    else if success then { e with authOperationState := .checking }
    else { e with authOperationState := .idle, systemAuthBusy := false }

/-- `finishAuthReadback`, or the timer of it. -/
def finishAuthReadback (s : Application) : Application :=
  s.enroll fun e =>
    if e.authOperationState ≠ .checking then e
    else { e with authOperationState := .idle, systemAuthBusy := false }

/-! ## The local test -/

/-- Something about the verification. -/
def verifying (s : Application) (f : Verification → Verification) : Application :=
  { s with verification := f s.verification }

/-- `LocalVerificationSession::handleResponse`. -/
def verifyResponse (s : Application) (generation : UInt64) (response : Response) : Application :=
  s.verifying fun v =>
    if generation = 0 ∨ generation ≠ v.activeGeneration then v
    else
      { v with
        requestActive := false
        activeGeneration := 0
        state :=
          match response with
          | .verification => .complete
          | .error code => if code = 18 then .cancelled else .failed
          | _ => .failed }

/-- The completion of `verifyCurrentFrame`. -/
def completeVerify (s : Application) (result : KeyResult) : Application :=
  if result.state ≠ .available then
    s.verifying fun v =>
      { v with state := if result.state = .cancelled then .cancelled else .failed }
  else
    let generation := nextGeneration s.verification.generation
    if result.key.length ≠ keyBytes ∨ s.around.frame ≠ .good then
      s.verifying fun v => { v with generation, state := .failed }
    else
      (s.verifying fun v =>
        { v with
          requestActive := true
          activeGeneration := generation
          generation
          state := .verifying }).execute
        { owner := .verification, generation, operation := .verify }
        (·.verifyResponse generation .transport)

/-- `verifyCurrentFrame`. -/
def verifyCurrentFrame (s : Application) : Application :=
  let v := s.verification
  if v.busy || !v.pageActive then s
  else if s.around.cooldown then s.verifying fun v => { v with state := .rateLimited }
  else if s.worker.isSome || !s.streaming || s.around.frame = .missing then s
  else if s.around.frame = .uncopied then s.verifying fun v => { v with state := .failed }
  else
    (s.verifying fun v => { v with state := .openingWallet }).callKey .verify .read completeVerify

/-- `clearResult`. -/
def clearResult (s : Application) : Application :=
  s.verifying fun v => if v.busy then v else { v with state := .idle }

/-! ## Cancellation -/

/-- The completion of a key operation. -/
def complete (s : Application) (c : Completion) (result : KeyResult) : Application :=
  match c with
  | .status => s.completeStatus result
  | .start => s.completeStart result
  | .store => s.completeStore result
  | .deleteRead epoch => s.completeDeleteRead epoch result
  | .deleteFinal => s.deletedKey result
  | .rollback => s.setState .failed
  | .discarded => s
  | .auth generation => s.completeAuth generation result
  | .verify => s.completeVerify result

/-- `KWalletKeyProvider::finish`, of the operation that waits for the wallet. -/
def finishKey (s : Application) (result : Action → KeyResult) (cause : Cause) : Application :=
  match s.pending with
  | none => s
  | some (c, action) =>
    let result := result action
    (({ s with pending := none }).ended c result.state cause).complete c result

/-- `KWalletKeyProvider::cancel`, by a session. It does not ask whose the operation
    is. -/
def cancelKey (s : Application) (session : Owner) : Application :=
  s.finishKey (fun _ => ⟨.cancelled, []⟩) (.cancelled session)

/-- `cancel`, first the request and the key operation. -/
def cancelRequests (s : Application) : Application :=
  let s := s.enroll fun e =>
    { e with
      profileMutationEpoch := e.profileMutationEpoch + 1
      commitAfterSystemRevoke := false
      sessionTimer := false }
  let s :=
    if s.enrollment.requestActive then
      (s.enroll fun e =>
        { e with requestActive := false, activeGeneration := 0, pendingOperation := .none })
        |>.cancelWorker
    else s
  s.cancelKey .enrollment

/-- `cancel`, then a key that this enrollment has stored. -/
def discardKey (s : Application) : Application :=
  if s.enrollment.keyStoredDuringEnrollment then
    (s.enroll fun e => { e with keyStoredDuringEnrollment := false }).callKey .discarded .delete
      fun s _ => s
  else s

/-- `cancel`. -/
def cancel (s : Application) : Application :=
  s.cancelRequests.discardKey.enroll fun e =>
    { e.clearSensitive with
      state := if e.state = .idle ∨ e.state = .complete then e.state else .cancelled }

/-- `LocalVerificationSession::cancel`. -/
def cancelVerification (s : Application) : Application :=
  let busy := s.verification.busy
  -- The key operation that waits is cancelled even if the verification has none.
  let s :=
    if s.verification.requestActive then
      (s.verifying fun v => { v with requestActive := false, activeGeneration := 0 }).cancelWorker
    else s
  (s.cancelKey .verification).verifying fun v =>
    { v with state := if busy then .cancelled else .idle }

/-! ## Events -/

/-- `setPageActive`. -/
def setPageActive (s : Application) (active : Bool) : Application :=
  let s := s.enroll fun e => { e with pageActive := active }
  if active then s.refreshProfileStatus else s.cancel

/-- `LocalVerificationSession::setPageActive`. -/
def setVerificationPage (s : Application) (active : Bool) : Application :=
  let s := s.verifying fun v => { v with pageActive := active }
  if active then s else s.cancelVerification

/-- The states in which the end of the preview is the end of the enrollment. -/
def needsPreview (s : Application) : Bool :=
  s.enrollment.state = .enrolling || s.enrollment.state = .capturing ||
    s.enrollment.state = .readyToSave || s.enrollment.state = .saving

/-- The preview changes its state; the enrollment hears of it first. -/
def previewChanged (s : Application) (streaming : Bool) : Application :=
  let s := { s with streaming }
  if streaming then s
  else (if s.needsPreview then s.cancel else s).cancelVerification

/-- The application gains or loses the focus. -/
def applicationChanged (s : Application) (active : Bool) : Application :=
  if active then
    s.enroll fun e =>
      { e with sessionTimer := e.sessionTimer || (e.enrollmentActive && s.around.remaining) }
  else (s.enroll fun e => { e with sessionTimer := false }).cancelVerification

/-- The wallet ends to open. -/
def walletFinished (s : Application) : WalletOutcome → Application
  | .opened key => s.finishKey (performRead · key) .answered
  | .failed => s.finishKey (fun _ => ⟨.unavailable, []⟩) .answered
  | .refused => s.finishKey (fun _ => ⟨.cancelled, []⟩) .refused

/-- `IdentityWorkerClient::finish`. -/
def workerFinished (s : Application) (f : InFlight) (response : Response) : Application :=
  let s := { s with worker := none }
  -- Of a process that was killed no output counts.
  let response := if f.cancelling then .transport else response
  match f.owner with
  | .enrollment => s.handleResponse f.generation response
  | .verification => s.verifyResponse f.generation response

end Application

/-- What happens in the application. -/
inductive Event
  | refreshProfileStatus
  | startEnrollment
  | captureSample
  | discardLastSample
  | finishAndSave
  | cancel
  | deleteProfile
  | resetUnreadable
  | setPageActive (active : Bool)
  | sessionTimer
  | runAuthTargetOperation (requiresProfile : Bool)
  | authFinished (success : Bool)
  | authReadback
  | verifyCurrentFrame
  | clearResult
  | cancelVerification
  | setVerificationPage (active : Bool)
  | previewChanged (streaming : Bool)
  | applicationChanged (active : Bool)
  | walletFinished (outcome : WalletOutcome)
  | workerFinished (response : Response)
  | revoked (i : ℕ) (success : Bool)
  deriving DecidableEq, Repr

namespace Application

/-- The event, if it may happen. -/
def handle (s : Application) : Event → Option Application
  | .refreshProfileStatus => some s.refreshProfileStatus
  | .startEnrollment => some s.startEnrollment
  | .captureSample => some s.captureSample
  | .discardLastSample => some s.discardLastSample
  | .finishAndSave => some s.finishAndSave
  | .cancel => some s.cancel
  | .deleteProfile => some s.deleteProfile
  | .resetUnreadable => some s.resetUnreadable
  | .setPageActive active => some (s.setPageActive active)
  | .sessionTimer =>
    if !s.enrollment.sessionTimer then none else some (if s.around.remaining then s else s.cancel)
  | .runAuthTargetOperation requiresProfile => some (s.runAuthTargetOperation requiresProfile)
  | .authFinished success => some (s.finishAuthTargetOperation success)
  | .authReadback => some s.finishAuthReadback
  | .verifyCurrentFrame => some s.verifyCurrentFrame
  | .clearResult => some s.clearResult
  | .cancelVerification => some s.cancelVerification
  | .setVerificationPage active => some (s.setVerificationPage active)
  | .previewChanged streaming => some (s.previewChanged streaming)
  | .applicationChanged active => some (s.applicationChanged active)
  | .walletFinished outcome => if s.pending.isNone then none else some (s.walletFinished outcome)
  | .workerFinished response => s.worker.map (s.workerFinished · response)
  | .revoked i success =>
    s.revocations[i]?.map fun r =>
      ({ s with revocations := s.revocations.eraseIdx i }).revoked r success

end Application

/-- The application, at the events and what the surroundings answer during them. -/
def machine : Machine Application (Event × Around) where
  init := {}
  step s e := ({ s with around := e.2 }).handle e.1

namespace Application

/-! ## What an event cancels -/

/-- The event cancels the enrollment. -/
def cancelsEnrollment (s : Application) (around : Around) : Event → Bool
  | .cancel => true
  | .setPageActive active => !active
  | .sessionTimer => !around.remaining
  | .previewChanged streaming => !streaming && s.needsPreview
  | _ => false

/-- The event cancels the verification. -/
def cancelsVerification : Event → Bool
  | .cancelVerification => true
  | .setVerificationPage active => !active
  | .previewChanged streaming => !streaming
  | .applicationChanged active => !active
  | _ => false

/-! ## What a call may do -/

/-- The key operation `c` waits for the wallet. -/
def waitsFor (s : Application) (c : Completion) : Bool :=
  s.pending.any fun p => p.1 = c

variable {s t : Application} {c : Completion} {action : Action} {result : KeyResult}
  {complete : Application → KeyResult → Application}

/-- A key operation ends at once with the result, in the state `t`. -/
structure Answered (s : Application) (c : Completion) (action : Action) (t : Application)
    (result : KeyResult) : Prop where
  eq : ∃ wallet,
    t = ({ s with around := { s.around with wallet } }).ended c result.state .answered
  result : result = ⟨.unavailable, []⟩ ∨ s.pending = none ∧
    ∃ key, s.around.wallet.head? = some (.entry key) ∧ result = performRead action key

namespace Answered

variable (h : s.Answered c action t result)
include h

theorem enrollment : t.enrollment = s.enrollment := by
  obtain ⟨wallet, rfl⟩ := h.eq
  rfl

theorem pending : t.pending = s.pending := by
  obtain ⟨wallet, rfl⟩ := h.eq
  rfl

theorem worker : t.worker = s.worker := by
  obtain ⟨wallet, rfl⟩ := h.eq
  rfl

theorem completed : t.completed = s.completed ++ [⟨c.owner, result.state, .answered⟩] := by
  obtain ⟨wallet, rfl⟩ := h.eq
  rfl

end Answered

/-- A key operation ends at once, or waits for the wallet. -/
theorem callKey_cases (s : Application) (c : Completion) (action : Action)
    (complete : Application → KeyResult → Application) :
    (∃ t result, s.Answered c action t result ∧ s.callKey c action complete = complete t result) ∨
      s.pending = none ∧ s.around.wallet.head? = some .pending ∧
        ∃ wallet, s.callKey c action complete =
          { s with around := { s.around with wallet }, pending := some (c, action) } := by
  unfold callKey
  dsimp only
  split
  · exact .inl ⟨_, _, ⟨⟨s.around.wallet, rfl⟩, .inl rfl⟩, rfl⟩
  next hp =>
    have hp : s.pending = none := by simpa using hp
    split
    next hw => exact .inl ⟨_, _, ⟨⟨s.around.wallet, rfl⟩, .inl rfl⟩, rfl⟩
    next reply wallet hw =>
      cases reply with
      | failed => exact .inl ⟨_, _, ⟨⟨wallet, rfl⟩, .inl rfl⟩, rfl⟩
      | pending => exact .inr ⟨hp, by rw [hw]; rfl, wallet, rfl⟩
      | entry key =>
        exact .inl ⟨_, _, ⟨⟨wallet, rfl⟩, .inr ⟨hp, key, by rw [hw]; rfl, rfl⟩⟩, rfl⟩

/-- What holds after a key operation: it holds after the completion, or while the
    operation waits. -/
theorem callKey_rule {P : Application → Prop} (s : Application)
    (hc : ∀ t result, s.Answered c action t result → P (complete t result))
    (hw : s.pending = none → s.around.wallet.head? = some .pending → ∀ wallet,
      P { s with around := { s.around with wallet }, pending := some (c, action) }) :
    P (s.callKey c action complete) := by
  rcases s.callKey_cases c action complete with ⟨t, result, h, eq⟩ | ⟨hp, hh, wallet, eq⟩
  · rw [eq]
    exact hc t result h
  · rw [eq]
    exact hw hp hh wallet

/-- What holds after a request: it holds after the completion, or while the worker
    works on the request. -/
theorem execute_rule {P : Application → Prop} {complete : Application → Application}
    (s : Application) (f : InFlight) (hc : s.worker.isSome → P (complete s))
    (hw : s.worker = none → P { s with worker := some f }) : P (s.execute f complete) := by
  unfold execute
  split
  next h => exact hc h
  next h => exact hw (by simpa using h)

theorem waitsFor_of_pending {c : Completion} {action : Action} (h : s.pending = some (c, action)) :
    s.waitsFor c := by
  simp [waitsFor, h]

/-- The start of an enrollment takes at most a key. -/
theorem takeKey_eq (s : Application) (result : KeyResult) :
    ∃ key keyNeedsStore,
      s.takeKey result = s.enroll fun e => { e with key, keyNeedsStore } := by
  unfold takeKey
  split
  · exact ⟨_, _, rfl⟩
  · split
    · exact ⟨_, _, rfl⟩
    · exact ⟨s.enrollment.key, s.enrollment.keyNeedsStore, rfl⟩
  · exact ⟨s.enrollment.key, s.enrollment.keyNeedsStore, rfl⟩

/-! ## The local test leaves the enrollment alone -/

theorem enrollment_completeVerify (s : Application) (result : KeyResult) :
    (s.completeVerify result).enrollment = s.enrollment := by
  unfold completeVerify
  split
  · rfl
  · dsimp only
    split
    · rfl
    · exact execute_rule (P := fun u => u.enrollment = s.enrollment) _ _ (fun _ => rfl) fun _ => rfl

theorem enrollment_verifyCurrentFrame (s : Application) :
    s.verifyCurrentFrame.enrollment = s.enrollment := by
  unfold verifyCurrentFrame
  dsimp only
  split
  · rfl
  · split
    · rfl
    · split
      · rfl
      · split
        · rfl
        · exact callKey_rule (P := fun u => u.enrollment = s.enrollment) _
            (fun t result ht => (enrollment_completeVerify t result).trans ht.enrollment)
            fun _ _ _ => rfl

end Application

end Enrollment

end KFaceAuth
