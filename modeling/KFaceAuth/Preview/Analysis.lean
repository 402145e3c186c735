import KFaceAuth.Lib.Bytes
import KFaceAuth.Lib.Machine
import KFaceAuth.Preview.Protocol

/-!
# The analysis of frames

`VisionAnalysisSession` has the current frame of the preview analyzed by a worker:
one frame when the user asks for it, by a worker that ends with it, or, while live
guidance is on (`continuousTracking`), one after the other by a worker that stays.
The tracking timer asks for the next frame. Whatever stops an analysis stops all
timers, the tracking timer with them, and leaves live guidance on (`guidance_stuck`);
one that is to be replaced is followed by another when its worker is gone, but not by
a third. Where no step does so while live guidance is on, it goes on
(`guided_of_reachable`).

What is shown of a result is left out, but for the result itself.
-/

namespace KFaceAuth

namespace Analysis

open Preview

/-! ## Constants -/

def protocolVersion : ℕ := 2
def successResponse : UInt8 := 0x81
def errorResponse : UInt8 := 0xff
def legacyInternalError : ℕ := 12
def runtimeFailureError : ℕ := 15
def knownQualityFlags : UInt8 := 0x0f
def requestHeaderBytes : ℤ := 24
def maxRequestBytes : ℤ := maxWidth * maxHeight * 4 + requestHeaderBytes
def successHeaderBytes : ℕ := 16
def faceRectangleBytes : ℕ := 8
def landmarkBytes : ℕ := 20
def faceObservationBytes : ℕ := faceRectangleBytes + landmarkBytes
def maxResponseBytes : ℕ := successHeaderBytes + 8 * faceObservationBytes

/-! ## The session -/

inductive State
  | idle
  | starting
  | analyzing
  | complete
  | failed
  deriving DecidableEq, Repr

/-- The error codes. -/
inductive ErrorCode
  | startupTimeout
  | inferenceTimeout
  | shutdownTimeout
  | startupFailed
  | workerBusy
  | workerCrashed
  | invalidFrame
  | protocolError
  | staleResponse
  | analysisError (code : UInt8)
  deriving DecidableEq, Repr

/-- `isRecoverableVisionError`. -/
def ErrorCode.isRecoverable : ErrorCode → Bool
  | .analysisError code => legacyInternalError ≤ code.toNat && code.toNat ≤ runtimeFailureError
  | _ => false

/-- `Result`. -/
structure Result where
  faceCount : ℕ
  brightness : UInt8
  contrast : UInt8
  sharpness : UInt8
  flags : UInt8
  /-- The rectangle of the first face. -/
  face : Option (ℕ × ℕ × ℕ × ℕ)
  frameWidth : ℕ
  frameHeight : ℕ
  landmarks : List (ℕ × ℕ)
  deriving DecidableEq, Repr

/-- A frame of the preview, and whether its pixels can be converted. -/
structure Frame where
  width : ℤ
  height : ℤ
  converts : Bool
  deriving DecidableEq, Repr

/-- What the session sees of `CameraPreviewSession`. -/
structure Camera where
  streaming : Bool
  frame : Option Frame
  deriving DecidableEq, Repr

/-- A worker that was started, and one that could not be, without the session noticing. -/
structure Process where
  started : Bool := false
  dead : Bool := false
  deriving DecidableEq, Repr

structure Session where
  /-- The preview, as long as there is one. -/
  preview : Option Camera := some ⟨false, none⟩
  process : Option Process := none
  responseBytes : List UInt8 := []
  state : State := .idle
  errorCode : Option ErrorCode := none
  generation : UInt64 := 0
  pendingResult : Option Result := none
  result : Option Result := none
  ignoringProcessExit : Bool := false
  responseReceived : Bool := false
  consecutiveVisionErrors : ℕ := 0
  replacementRequested : Bool := false
  requestWidth : ℕ := 0
  requestHeight : ℕ := 0
  stderrBytes : ℕ := 0
  startupTimer : Bool := false
  inferenceTimer : Bool := false
  shutdownTimer : Bool := false
  trackingTimer : Bool := false
  continuousTracking : Bool := false
  sessionMode : Bool := false
  workerStarted : Bool := false
  requestInFlight : Bool := false
  /-- The single shots of `processFinished` that are still to come: of an analysis that
      replaces another, and of the next frame. -/
  replacements : ℕ := 0
  nextFrames : ℕ := 0
  deriving DecidableEq, Repr

/-- What a process answers at once: whether it takes all of a request, and whether it
    fails to start within the call. -/
structure Answers where
  accepted : Bool
  atOnce : Bool
  deriving DecidableEq, Repr

namespace Session

/-- `busy`. -/
def busy (s : Session) : Bool := s.state = .starting || s.state = .analyzing

/-- `canAnalyze`. -/
def canAnalyze (s : Session) : Bool :=
  match s.preview with
  | none => false
  | some camera => camera.streaming && camera.frame.isSome

/-- `clearSensitiveData`. -/
def clearSensitiveData (s : Session) : Session :=
  { s with responseBytes := [], pendingResult := none, responseReceived := false }

/-- `clearResult`. -/
def clearResult (s : Session) : Session := { s with result := none }

/-- `setState`. -/
def setState (s : Session) (state : State) : Session :=
  { s with state := state, errorCode := if state = .failed then s.errorCode else none }

/-- `fail`. -/
def fail (s : Session) (code : ErrorCode) : Session :=
  let s := { s with
    startupTimer := false, inferenceTimer := false, shutdownTimer := false, trackingTimer := false,
    continuousTracking := false, requestInFlight := false, workerStarted := false,
    sessionMode := false, ignoringProcessExit := true, replacementRequested := false }
  { s.clearSensitiveData.clearResult with
    requestWidth := 0, requestHeight := 0, state := .failed, errorCode := some code }

/-- `stopAnalysis`. -/
def stopAnalysis (s : Session) (replacementRequested : Bool) : Session :=
  let s := { s with
    generation := s.generation + 1, replacementRequested := replacementRequested,
    startupTimer := false, inferenceTimer := false, shutdownTimer := false, trackingTimer := false,
    requestInFlight := false, workerStarted := false, sessionMode := false,
    ignoringProcessExit := true }
  s.clearSensitiveData.clearResult.setState .idle

/-- `cancelAnalysis`. -/
def cancelAnalysis (s : Session) : Session := s.stopAnalysis false

/-- `writeRequest`. -/
def writeRequest (s : Session) (accepted : Bool) : Session :=
  if s.process.isNone || !s.workerStarted then s.fail .protocolError
  else
    let s := (s.setState .analyzing).clearSensitiveData
    if !accepted then s.fail .protocolError else { s with inferenceTimer := true }

/-- What happens at an error of the process. -/
def errorOccurred (s : Session) (failedToStart crashed : Bool) : Session :=
  if s.ignoringProcessExit then s
  else if failedToStart then { s with process := none }.fail .startupFailed
  else if !crashed then s.fail .workerCrashed
  else s

/-- `startWorker`. -/
def startWorker (s : Session) (answers : Answers) : Session :=
  if s.process.isSome then
    if s.sessionMode && s.workerStarted then s.writeRequest answers.accepted
    else s.fail .workerBusy
  else
    let s := { s with sessionMode := s.continuousTracking }
    let s := if s.sessionMode then { s with consecutiveVisionErrors := 0 } else s
    let s := { s with
      errorCode := none, ignoringProcessExit := false, responseReceived := false,
      workerStarted := false, stderrBytes := 0, process := some {} }
    let s := s.setState .starting
    let s := if answers.atOnce then s.errorOccurred true false else s
    { s with startupTimer := true }

/-- `copyCurrentFrame`. -/
def copyCurrentFrame (s : Session) : Option Frame :=
  match s.preview with
  | none => none
  | some camera =>
    match camera.frame with
    | none => none
    | some frame =>
      if !camera.streaming ∨ frame.width ≤ 0 ∨ frame.width > maxWidth ∨ frame.height ≤ 0 ∨
          frame.height > maxHeight then
        none
      else some frame

/-- The bytes of a line of pixels of three bytes, which are padded to four. -/
def bytesPerLine (width : ℤ) : ℤ := (width * 3 + 3) / 4 * 4

/-- `analyzeCurrentFrame`. -/
def analyzeCurrentFrame (s : Session) (answers : Answers) : Session :=
  if !s.canAnalyze then s
  else if s.requestInFlight then
    if !s.sessionMode then s.stopAnalysis true else s
  else if s.busy then s
  else if s.process.isSome && (!s.sessionMode || !s.workerStarted) then s.stopAnalysis true
  else
    match s.copyCurrentFrame with
    | none => s
    | some frame =>
      if frame.width ≤ 0 ∨ frame.width > maxWidth ∨ frame.height ≤ 0 ∨ frame.height > maxHeight then
        s.fail .invalidFrame
      else
        let stride := bytesPerLine frame.width
        let frameSize := stride * frame.height
        if !frame.converts ∨ stride < frame.width * 3 ∨ stride > frame.width * 4 ∨ frameSize ≤ 0 ∨
            frameSize > maxRequestBytes - requestHeaderBytes ∨ frameSize > 2 ^ 32 - 1 then
          s.fail .invalidFrame
        else
          let s := { s with generation := s.generation + 1 }.clearSensitiveData
          let s := if s.sessionMode then s else s.clearResult
          let s := { s with
            requestWidth := frame.width.toNat, requestHeight := frame.height.toNat }
          if requestHeaderBytes + frameSize > maxRequestBytes then s.fail .invalidFrame
          else { s with requestInFlight := true }.startWorker answers

/-- `setContinuousTracking`. -/
def setContinuousTracking (s : Session) (enabled : Bool) (answers : Answers) : Session :=
  if s.continuousTracking = enabled then
    if !enabled && (s.state ≠ .idle || s.process.isSome) then s.cancelAnalysis else s
  else
    let s := { s with continuousTracking := enabled, trackingTimer := enabled }
    if s.continuousTracking && s.canAnalyze && !s.requestInFlight then
      s.analyzeCurrentFrame answers
    else if !s.continuousTracking && (s.state ≠ .idle || s.process.isSome) then s.cancelAnalysis
    else s

/-- `cancelForLifecycle`. -/
def cancelForLifecycle (s : Session) (answers : Answers) : Session :=
  s.setContinuousTracking false answers

/-- What happens at a tick of the tracking timer. -/
def track (s : Session) (answers : Answers) : Session :=
  if s.continuousTracking && s.canAnalyze && !s.requestInFlight then s.analyzeCurrentFrame answers
  else s

/-- What happens when a process has started. -/
def started (s : Session) (accepted : Bool) : Session :=
  if s.ignoringProcessExit || s.process.isNone then s
  else { s with startupTimer := false, workerStarted := true }.writeRequest accepted

/-! ## Responses -/

def readU16 (bytes : List UInt8) (offset : ℕ) : ℕ := ofBe ((bytes.drop offset).take 2)

/-- The landmarks of the face at an offset, if they are on the frame and in its
    rectangle. -/
def readLandmarks (s : Session) (payload : List UInt8) (offset : ℕ) (face : ℕ × ℕ × ℕ × ℕ) :
    Option (List (ℕ × ℕ)) :=
  let (x, y, width, height) := face
  (List.range 5).mapM fun i =>
    let lx := readU16 payload (offset + i * 4)
    let ly := readU16 payload (offset + i * 4 + 2)
    if lx ≥ s.requestWidth ∨ ly ≥ s.requestHeight ∨ lx < x ∨ ly < y ∨ lx ≥ x + width ∨
        ly ≥ y + height then
      none
    else some (lx, ly)

/-- A face of a response, with its landmarks. -/
def readFace (s : Session) (payload : List UInt8) (index : ℕ) :
    Option ((ℕ × ℕ × ℕ × ℕ) × List (ℕ × ℕ)) := do
  let offset := successHeaderBytes + index * faceObservationBytes
  let x := readU16 payload offset
  let y := readU16 payload (offset + 2)
  let width := readU16 payload (offset + 4)
  let height := readU16 payload (offset + 6)
  if width = 0 ∨ height = 0 ∨ x + width > s.requestWidth ∨ y + height > s.requestHeight then none
  else
    let landmarks ← s.readLandmarks payload (offset + faceRectangleBytes) (x, y, width, height)
    some ((x, y, width, height), landmarks)

/-- `parseResponse`, with the error code that it may give. -/
def parseResponse (s : Session) (payload : List UInt8) : Except (Option ErrorCode) Result :=
  let byte (i : ℕ) : UInt8 := payload.getD i 0
  if payload.length < 12 ∨ readU16 payload 0 ≠ protocolVersion then .error none
  else if ofBe ((payload.drop 4).take 8) ≠ s.generation.toNat then .error (some .staleResponse)
  else if byte 2 = errorResponse then
    if payload.length ≠ 12 ∨ byte 3 = 0 then .error none
    else .error (some (.analysisError (byte 3)))
  else if byte 2 ≠ successResponse ∨ payload.length < successHeaderBytes then .error none
  else
    let faceCount := (byte 3).toNat
    if faceCount > 8 ∨ payload.length ≠ successHeaderBytes + faceCount * faceObservationBytes then
      .error none
    else
      let flags := byte 15
      if flags &&& ~~~knownQualityFlags ≠ 0 ∨ flags &&& 0x03 = 0x03 then .error none
      else if s.requestWidth = 0 ∨ s.requestHeight = 0 then .error none
      else
        match (List.range faceCount).mapM (s.readFace payload) with
        | none => .error none
        | some faces =>
          .ok {
            faceCount := faceCount
            brightness := byte 12
            contrast := byte 13
            sharpness := byte 14
            flags := flags
            face := faces.head?.map Prod.fst
            frameWidth := s.requestWidth
            frameHeight := s.requestHeight
            landmarks := (faces.head?.map Prod.snd).getD [] }

/-- `readResponse`, of the bytes that have come. -/
def readResponse (s : Session) (bytes : List UInt8) : Session :=
  if s.process.isNone then s
  else if s.responseReceived ∨ s.responseBytes.length + bytes.length > maxResponseBytes + 4 then
    s.fail .protocolError
  else
    let s := { s with responseBytes := s.responseBytes ++ bytes }
    if s.responseBytes.length < 4 then s
    else
      let payloadSize := ofBe (s.responseBytes.take 4)
      let isErrorPayload : Bool := payloadSize = 12
      let isSuccessPayload : Bool :=
        successHeaderBytes ≤ payloadSize &&
          (payloadSize - successHeaderBytes) % faceObservationBytes = 0 &&
          (payloadSize - successHeaderBytes) / faceObservationBytes ≤ 8
      if payloadSize < 12 ∨ payloadSize > maxResponseBytes ∨
          (!isErrorPayload ∧ !isSuccessPayload) then
        s.fail .protocolError
      else if s.responseBytes.length < payloadSize + 4 then s
      else if s.responseBytes.length ≠ payloadSize + 4 then s.fail .protocolError
      else
        match s.parseResponse (s.responseBytes.drop 4) with
        | .error error =>
          if s.sessionMode && s.continuousTracking && error.any ErrorCode.isRecoverable then
            let s := { s with inferenceTimer := false, requestInFlight := false }.clearSensitiveData
            let s := { s with
              requestWidth := 0, requestHeight := 0, responseReceived := true }.clearResult
            let s := { s with consecutiveVisionErrors := s.consecutiveVisionErrors + 1 }
            if s.consecutiveVisionErrors > 3 then s.fail (error.getD .protocolError)
            else { s with state := .complete, errorCode := error }
          else s.fail (error.getD .protocolError)
        | .ok result =>
          let s := { s with
            inferenceTimer := false, responseReceived := true, responseBytes := [],
            requestInFlight := false }
          if s.sessionMode then
            let s := { s with consecutiveVisionErrors := 0 }.clearSensitiveData
            { s.setState .complete with
              result := some result, requestWidth := 0, requestHeight := 0 }
          else { s with pendingResult := some result, shutdownTimer := true }

/-- What happens at output on the standard error. -/
def readError (s : Session) (size : ℕ) : Session :=
  let s := { s with stderrBytes := s.stderrBytes + size }
  if s.stderrBytes > 64 * 1024 then s.fail .protocolError else s

/-- `processFinished`, of a normal exit with the code zero or of another. -/
def processFinished (s : Session) (success : Bool) : Session :=
  let s := { s with
    process := none, workerStarted := false, startupTimer := false, inferenceTimer := false,
    shutdownTimer := false }
  if s.ignoringProcessExit then
    let replacementRequested := s.replacementRequested
    let s := { s with ignoringProcessExit := false, replacementRequested := false }
    if replacementRequested then { s with replacements := s.replacements + 1 } else s
  else
    match s.pendingResult with
    | none => s.fail .workerCrashed
    | some result =>
      if !s.responseReceived ∨ !success then s.fail .workerCrashed
      else
        let s := { s with requestInFlight := false }.clearSensitiveData
        let s := { s.setState .complete with
          result := some result, requestWidth := 0, requestHeight := 0 }
        if s.continuousTracking && s.canAnalyze then { s with nextFrames := s.nextFrames + 1 }
        else s

/-- The single shot of the next frame. -/
def nextFrame (s : Session) (answers : Answers) : Session :=
  if s.continuousTracking && s.canAnalyze && s.state = .complete then
    { s with state := .idle }.analyzeCurrentFrame answers
  else s

/-- What happens when the preview has changed. -/
def previewChanged (s : Session) (camera : Camera) (answers : Answers) : Session :=
  let s := { s with preview := some camera }
  if !camera.streaming || camera.frame.isNone then s.cancelForLifecycle answers else s

end Session

/-! ## Runs -/

inductive Event
  | setContinuousTracking (enabled : Bool) (answers : Answers)
  | analyzeCurrentFrame (answers : Answers)
  | cancelAnalysis
  | tick (answers : Answers)
  /-- The single shots of `processFinished`. -/
  | replacement (answers : Answers)
  | nextFrame (answers : Answers)
  | started (accepted : Bool)
  | readyRead (bytes : List UInt8)
  | readyReadError (size : ℕ)
  | failedToStart
  | errorOccurred (crashed : Bool)
  | finished (success : Bool)
  | startupTimeout
  | inferenceTimeout
  | shutdownTimeout
  | previewChanged (camera : Camera) (answers : Answers)
  | previewDestroyed (answers : Answers)
  | applicationInactive (answers : Answers)
  deriving DecidableEq, Repr

namespace Session

/-- A worker that runs. -/
def live (s : Session) : Bool := s.process.any fun p => p.started && !p.dead

/-- A worker that is starting. -/
def launching (s : Session) : Bool := s.process.any fun p => !p.started && !p.dead

/-- The step at an event, if it may happen. -/
def step (s : Session) : Event → Option Session
  | .setContinuousTracking enabled answers => some (s.setContinuousTracking enabled answers)
  | .analyzeCurrentFrame answers => some (s.analyzeCurrentFrame answers)
  | .cancelAnalysis => some s.cancelAnalysis
  | .tick answers => if s.trackingTimer then some (s.track answers) else none
  | .replacement answers =>
    if 0 < s.replacements then
      some ({ s with replacements := s.replacements - 1 }.analyzeCurrentFrame answers)
    else none
  | .nextFrame answers =>
    if 0 < s.nextFrames then some ({ s with nextFrames := s.nextFrames - 1 }.nextFrame answers)
    else none
  | .started accepted =>
    if s.launching then
      some ({ s with process := some { started := true } }.started accepted)
    else none
  | .readyRead bytes => if s.live && bytes ≠ [] then some (s.readResponse bytes) else none
  | .readyReadError size => if s.live then some (s.readError size) else none
  | .failedToStart =>
    if s.launching then
      some ({ s with process := some { dead := true } }.errorOccurred true false)
    else none
  | .errorOccurred crashed => if s.live then some (s.errorOccurred false crashed) else none
  | .finished success => if s.live then some (s.processFinished success) else none
  | .startupTimeout =>
    if s.startupTimer then some ({ s with startupTimer := false }.fail .startupTimeout) else none
  | .inferenceTimeout =>
    if s.inferenceTimer then some ({ s with inferenceTimer := false }.fail .inferenceTimeout)
    else none
  | .shutdownTimeout =>
    if s.shutdownTimer then some ({ s with shutdownTimer := false }.fail .shutdownTimeout) else none
  | .previewChanged camera answers =>
    if s.preview.isSome then some (s.previewChanged camera answers) else none
  | .previewDestroyed answers =>
    if s.preview.isSome then some ({ s with preview := none }.cancelForLifecycle answers) else none
  | .applicationInactive answers => some (s.cancelForLifecycle answers)

end Session

/-- The session with its worker, its timers, the preview and the user. -/
def machine : Machine Session Event where
  init := {}
  step := Session.step

/-! ## Live guidance -/

/-- Something will analyze another frame: the tracking timer, a worker that is to be
    replaced when it is gone, or a single shot. -/
def Session.Scheduled (s : Session) : Prop :=
  s.trackingTimer = true ∨ (s.replacementRequested = true ∧ (s.live || s.launching) = true) ∨
    0 < s.replacements ∨ 0 < s.nextFrames

/-- Live guidance that is on goes on. -/
def Session.Guided (s : Session) : Prop := s.continuousTracking = true → s.Scheduled

/-- An analysis that is asked for now replaces one that is under way, or a worker that
    is not one of a session. -/
def Session.replaces (s : Session) : Bool :=
  s.canAnalyze &&
    if s.requestInFlight then !s.sessionMode
    else !s.busy && s.process.isSome && (!s.sessionMode || !s.workerStarted)

/-- The steps that do not stop an analysis while live guidance stays on. -/
def keepsTracking (s : Session) : Event → Bool
  | .cancelAnalysis => !s.continuousTracking
  | .analyzeCurrentFrame _ => !(s.continuousTracking && s.replaces)
  | .replacement _ => !(s.continuousTracking && s.replaces)
  | .tick _ => !(s.continuousTracking && !s.requestInFlight && s.replaces)
  | .nextFrame _ => !(s.continuousTracking && { s with state := .idle }.replaces)
  | .setContinuousTracking true _ =>
    !(!s.continuousTracking && !s.requestInFlight && s.replaces)
  | _ => true

/-- A step keeps the tracking timer, or leaves live guidance off. -/
def Keeps (s s' : Session) : Prop :=
  s'.continuousTracking = false ∨
    s'.continuousTracking = s.continuousTracking ∧ s'.trackingTimer = s.trackingTimer

namespace Keeps

variable {s s' s'' : Session}

theorem refl (s : Session) : Keeps s s := .inr ⟨rfl, rfl⟩

theorem trans (h : Keeps s s') (h' : Keeps s' s'') : Keeps s s'' := by
  rcases h' with h' | ⟨htracking, htimer⟩
  · exact .inl h'
  · rcases h with h | h
    · exact .inl (htracking.trans h)
    · exact .inr ⟨htracking.trans h.1, htimer.trans h.2⟩

/-- The timer runs while live guidance is on, also after the step. -/
theorem timer (h : Keeps s s') (hs : s.continuousTracking = true → s.trackingTimer = true) :
    s'.continuousTracking = true → s'.trackingTimer = true := by
  intro htracking
  rcases h with h | h
  · rw [h] at htracking
    cases htracking
  · rw [h.2]
    exact hs (h.1 ▸ htracking)

end Keeps

namespace Session

variable (s : Session)

theorem keeps_fail (code : ErrorCode) : Keeps s (s.fail code) := .inl rfl

theorem keeps_writeRequest (accepted : Bool) : Keeps s (s.writeRequest accepted) := by
  unfold writeRequest
  split
  · exact keeps_fail _ _
  · split
    · exact keeps_fail _ _
    · exact .inr ⟨rfl, rfl⟩

theorem keeps_errorOccurred (failedToStart crashed : Bool) :
    Keeps s (s.errorOccurred failedToStart crashed) := by
  unfold errorOccurred
  split
  · exact .refl s
  split
  · exact keeps_fail _ _
  split
  · exact keeps_fail _ _
  · exact .refl s

theorem keeps_startWorker (answers : Answers) : Keeps s (s.startWorker answers) := by
  unfold startWorker
  split
  · split
    · exact keeps_writeRequest _ _
    · exact keeps_fail _ _
  · dsimp only
    generalize hnext : (if s.continuousTracking then
        { s with sessionMode := s.continuousTracking, consecutiveVisionErrors := 0 }
      else { s with sessionMode := s.continuousTracking }) = next
    have hkeeps : Keeps s next := by
      rw [← hnext]
      split <;> exact .inr ⟨rfl, rfl⟩
    split
    · exact .inl rfl
    · exact hkeeps.trans (.inr ⟨rfl, rfl⟩)

theorem keeps_stopAnalysis (replacement : Bool) (h : s.continuousTracking = false) :
    Keeps s (s.stopAnalysis replacement) := .inl h

/-- An analysis that replaces none leaves the tracking timer alone. -/
theorem keeps_analyzeCurrentFrame (answers : Answers)
    (h : (!(s.continuousTracking && s.replaces)) = true) :
    Keeps s (s.analyzeCurrentFrame answers) := by
  have hstop : s.replaces = true → Keeps s (s.stopAnalysis true) := by
    intro hreplaces
    rw [hreplaces, Bool.and_true, Bool.not_eq_true'] at h
    exact keeps_stopAnalysis s true h
  unfold analyzeCurrentFrame
  split
  · exact .refl s
  next hcan =>
  rw [Bool.not_eq_true', Bool.not_eq_false] at hcan
  split
  next hflight =>
    split
    next hmode => exact hstop (by simp [replaces, hcan, hflight, hmode])
    · exact .refl s
  next hflight =>
  split
  · exact .refl s
  next hbusy =>
  split
  next hprocess =>
    refine hstop ?_
    rw [Bool.and_eq_true] at hprocess
    simp [replaces, hcan, hflight, hbusy, hprocess.1, hprocess.2]
  split
  · exact .refl s
  split
  · exact keeps_fail _ _
  dsimp only
  split
  · exact keeps_fail _ _
  split
  · exact .inl rfl
  · refine Keeps.trans ?_ (keeps_startWorker _ _)
    split <;> exact .inr ⟨rfl, rfl⟩

theorem keeps_readResponse (bytes : List UInt8) : Keeps s (s.readResponse bytes) := by
  unfold readResponse
  split
  · exact .refl s
  split
  · exact keeps_fail _ _
  dsimp only
  split
  · exact .inr ⟨rfl, rfl⟩
  split
  · exact .inl rfl
  split
  · exact .inr ⟨rfl, rfl⟩
  split
  · exact .inl rfl
  split
  · split
    · split
      · exact .inl rfl
      · exact .inr ⟨rfl, rfl⟩
    · exact .inl rfl
  · split
    · exact .inr ⟨rfl, rfl⟩
    · exact .inr ⟨rfl, rfl⟩

theorem keeps_processFinished (success : Bool) : Keeps s (s.processFinished success) := by
  unfold processFinished
  dsimp only
  split
  · split <;> exact .inr ⟨rfl, rfl⟩
  split
  · exact .inl rfl
  split
  · exact .inl rfl
  · split <;> exact .inr ⟨rfl, rfl⟩

/-- Switching live guidance off leaves it off. -/
theorem tracking_cancelForLifecycle (answers : Answers) :
    (s.cancelForLifecycle answers).continuousTracking = false := by
  unfold cancelForLifecycle setContinuousTracking
  split
  next h => split <;> exact h
  · dsimp only
    rw [Bool.false_and, Bool.false_and, if_neg Bool.false_ne_true]
    split <;> rfl

theorem timer_of_off {s : Session} (h : s.continuousTracking = false) :
    s.continuousTracking = true → s.trackingTimer = true := by
  intro htrue
  rw [h] at htrue
  cases htrue

/-- Switching live guidance on starts the timer, unless it replaces an analysis. -/
theorem timer_setContinuousTracking (answers : Answers)
    (h : s.continuousTracking = true → s.trackingTimer = true)
    (hkeeps : (!(!s.continuousTracking && !s.requestInFlight && s.replaces)) = true) :
    (s.setContinuousTracking true answers).continuousTracking = true →
      (s.setContinuousTracking true answers).trackingTimer = true := by
  unfold setContinuousTracking
  split
  · exact h
  next hoff =>
  dsimp only
  split
  next hrun =>
    rw [Bool.true_and, Bool.and_eq_true, Bool.not_eq_true'] at hrun
    rw [Bool.eq_false_iff.mpr hoff, show s.requestInFlight = false from hrun.2, Bool.not_false,
      Bool.true_and, Bool.true_and] at hkeeps
    refine (keeps_analyzeCurrentFrame { s with
      continuousTracking := true, trackingTimer := true } answers ?_).timer fun _ => rfl
    rw [Bool.true_and]
    exact hkeeps
  · exact fun _ => rfl

end Session

open Session in
/-- A step that stops no analysis keeps the tracking timer running. -/
theorem timer_step {s s' : Session} {e : Event}
    (h : s.continuousTracking = true → s.trackingTimer = true) (hkeeps : keepsTracking s e = true)
    (hstep : s.step e = some s') : s'.continuousTracking = true → s'.trackingTimer = true := by
  cases e with
  | setContinuousTracking enabled answers =>
    cases hstep
    rcases enabled with _ | _
    · exact timer_of_off (s.tracking_cancelForLifecycle answers)
    · exact s.timer_setContinuousTracking answers h hkeeps
  | analyzeCurrentFrame answers =>
    cases hstep
    exact (s.keeps_analyzeCurrentFrame answers hkeeps).timer h
  | cancelAnalysis =>
    cases hstep
    exact (s.keeps_stopAnalysis false (by simpa [keepsTracking] using hkeeps)).timer h
  | tick answers =>
    obtain ⟨-, ⟨⟩⟩ := Option.ite_none_right_eq_some.mp hstep
    unfold Session.track
    split
    next hrun =>
      simp only [Bool.and_eq_true, Bool.not_eq_true'] at hrun
      rw [keepsTracking, hrun.2, Bool.not_false, Bool.and_true] at hkeeps
      exact (s.keeps_analyzeCurrentFrame answers hkeeps).timer h
    · exact h
  | replacement answers =>
    obtain ⟨-, ⟨⟩⟩ := Option.ite_none_right_eq_some.mp hstep
    exact (Session.keeps_analyzeCurrentFrame { s with replacements := s.replacements - 1 } answers
      hkeeps).timer h
  | nextFrame answers =>
    obtain ⟨-, ⟨⟩⟩ := Option.ite_none_right_eq_some.mp hstep
    unfold Session.nextFrame
    split
    · exact (Session.keeps_analyzeCurrentFrame { s with
        nextFrames := s.nextFrames - 1, state := .idle } answers hkeeps).timer h
    · exact h
  | started accepted =>
    obtain ⟨-, ⟨⟩⟩ := Option.ite_none_right_eq_some.mp hstep
    unfold Session.started
    split
    · exact h
    · exact (Session.keeps_writeRequest _ accepted).timer h
  | readyRead bytes =>
    obtain ⟨-, ⟨⟩⟩ := Option.ite_none_right_eq_some.mp hstep
    exact (s.keeps_readResponse bytes).timer h
  | readyReadError size =>
    obtain ⟨-, ⟨⟩⟩ := Option.ite_none_right_eq_some.mp hstep
    unfold Session.readError
    dsimp only
    split
    · exact timer_of_off rfl
    · exact h
  | failedToStart =>
    obtain ⟨-, ⟨⟩⟩ := Option.ite_none_right_eq_some.mp hstep
    exact (Session.keeps_errorOccurred _ true false).timer h
  | errorOccurred crashed =>
    obtain ⟨-, ⟨⟩⟩ := Option.ite_none_right_eq_some.mp hstep
    exact (s.keeps_errorOccurred false crashed).timer h
  | finished success =>
    obtain ⟨-, ⟨⟩⟩ := Option.ite_none_right_eq_some.mp hstep
    exact (s.keeps_processFinished success).timer h
  | startupTimeout =>
    obtain ⟨-, ⟨⟩⟩ := Option.ite_none_right_eq_some.mp hstep
    exact timer_of_off rfl
  | inferenceTimeout =>
    obtain ⟨-, ⟨⟩⟩ := Option.ite_none_right_eq_some.mp hstep
    exact timer_of_off rfl
  | shutdownTimeout =>
    obtain ⟨-, ⟨⟩⟩ := Option.ite_none_right_eq_some.mp hstep
    exact timer_of_off rfl
  | previewChanged camera answers =>
    obtain ⟨-, ⟨⟩⟩ := Option.ite_none_right_eq_some.mp hstep
    unfold Session.previewChanged
    dsimp only
    split
    · exact timer_of_off (Session.tracking_cancelForLifecycle _ answers)
    · exact h
  | previewDestroyed answers =>
    obtain ⟨-, ⟨⟩⟩ := Option.ite_none_right_eq_some.mp hstep
    exact timer_of_off (Session.tracking_cancelForLifecycle _ answers)
  | applicationInactive answers =>
    cases hstep
    exact timer_of_off (s.tracking_cancelForLifecycle answers)

/-- Live guidance goes on in every run where no step stops an analysis while it is on. -/
theorem guided_of_reachable {s : Session} (h : (machine.restrict keepsTracking).Reachable s) :
    s.Guided := by
  have htimer : s.continuousTracking = true → s.trackingTimer = true :=
    h.inv_restrict (I := fun s => s.continuousTracking = true → s.trackingTimer = true)
      (fun h => Bool.noConfusion h) fun _ _ _ hs hkeeps hstep => timer_step hs hkeeps hstep
  exact fun htracking => .inl (htimer htracking)

/-- Live guidance that is switched on, and an analysis that is cancelled. -/
def cancelledGuidance : List Event :=
  [.previewChanged ⟨true, some ⟨640, 480, true⟩⟩ ⟨true, false⟩,
    .setContinuousTracking true ⟨true, false⟩, .started true, .cancelAnalysis, .finished false]

/-- After a cancellation live guidance is on with nothing to analyze another frame. -/
theorem guidance_stuck : ¬ ∀ s, machine.Reachable s → s.Guided := by
  intro hguided
  rcases hrun : machine.run machine.init cancelledGuidance with _ | s
  · exact absurd (congrArg Option.isSome hrun) (by decide +kernel)
  have hstate : (machine.run machine.init cancelledGuidance).map (fun s =>
      (s.continuousTracking, s.trackingTimer, s.replacementRequested, s.replacements,
        s.nextFrames)) = some (true, false, false, 0, 0) := by
    decide +kernel
  rw [hrun, Option.map_some, Option.some_inj, Prod.mk.injEq, Prod.mk.injEq, Prod.mk.injEq,
    Prod.mk.injEq] at hstate
  obtain ⟨htracking, htimer, hrequested, hreplacements, hnext⟩ := hstate
  rcases hguided s (Machine.Reachable.init.run hrun) htracking with h | h | h | h
  · rw [htimer] at h
    cases h
  · rw [hrequested] at h
    cases h.1
  · omega
  · omega

/-- Live guidance that is switched on while a worker that was cancelled is not gone yet:
    the worker is replaced, and the timer stays off. -/
def replacedGuidance : List Event :=
  [.previewChanged ⟨true, some ⟨640, 480, true⟩⟩ ⟨true, false⟩,
    .analyzeCurrentFrame ⟨true, false⟩, .started true, .cancelAnalysis,
    .setContinuousTracking true ⟨true, false⟩, .finished false, .replacement ⟨true, false⟩,
    .started true, .readyRead (be32 16 ++ be16 2 ++ [0x81, 0] ++ be64 4 ++ [0, 0, 0, 0])]

example : (machine.run machine.init replacedGuidance).map (fun s => (s.continuousTracking, s.state,
    s.trackingTimer, s.replacementRequested, s.replacements, s.nextFrames)) =
      some (true, .complete, false, false, 0, 0) := by
  decide +kernel

/-- Live guidance that is switched on, and gets its second frame from the timer. -/
def twoFrames : List Event :=
  [.previewChanged ⟨true, some ⟨640, 480, true⟩⟩ ⟨true, false⟩,
    .setContinuousTracking true ⟨true, false⟩, .started true,
    .readyRead (be32 16 ++ be16 2 ++ [0x81, 0] ++ be64 1 ++ [0, 0, 0, 0]), .tick ⟨true, false⟩]

theorem guided_twoFrames : ∃ s,
    (machine.restrict keepsTracking).run machine.init twoFrames = some s ∧
    s.continuousTracking = true ∧ s.state = .analyzing ∧ s.Guided := by
  rcases hrun : (machine.restrict keepsTracking).run machine.init twoFrames with _ | s
  · exact absurd (congrArg Option.isSome hrun) (by decide +kernel)
  have hstate : ((machine.restrict keepsTracking).run machine.init twoFrames).map (fun s =>
      (s.continuousTracking, s.state)) = some (true, .analyzing) := by
    decide +kernel
  rw [hrun, Option.map_some, Option.some_inj, Prod.mk.injEq] at hstate
  exact ⟨s, rfl, hstate.1, hstate.2, guided_of_reachable (Machine.Reachable.init.run hrun)⟩

end Analysis

end KFaceAuth
