import KFaceAuth.Preview.Protocol

/-!
# The worker that owns the camera

`PreviewWorker` handles the commands of the session (`Worker.handleCommand`) and
the events of the camera, and queues records: at most 16 control records, which
go first, and one frame.

What its surroundings answer is given from outside (`Surroundings`): the cameras
that are found, the outcome of opening one, and of attaching the shared memory.
-/

namespace KFaceAuth

namespace Preview

/-- The camera of `CameraProvider`. -/
inductive Camera
  | closed
  | opened
  | active
  deriving DecidableEq, Repr

/-- The errors of `CameraProvider::start`. -/
inductive CameraError
  | noCamera
  | permissionDenied
  | cameraBusy
  | cameraUnavailable
  | formatUnavailable
  deriving DecidableEq, Repr

def CameraError.code : CameraError → ErrorCode
  | noCamera => .noCamera
  | permissionDenied => .permissionDenied
  | cameraBusy => .cameraBusy
  | cameraUnavailable => .cameraUnavailable
  | formatUnavailable => .formatUnavailable

structure Surroundings where
  /-- The cameras that `CameraProvider::discover` finds. -/
  found : List Device
  /-- The error of `CameraProvider::start`. -/
  refused : Option CameraError
  /-- The shared memory can be attached. -/
  attach : Bool
  deriving DecidableEq, Repr

structure Worker where
  controlQueue : List Record := []
  pendingFrame : Option Record := none
  sessionId : String := ""
  lastCommandSequence : ℤ := 0
  sequence : ℤ := 0
  droppedFrames : ℕ := 0
  /-- The timer `m_previewLimit` runs. -/
  previewLimit : Bool := false
  deadlineMs : ℤ := 0
  enrollmentBudgetGranted : Bool := false
  previewInProgress : Bool := false
  discoveryPending : Bool := false
  camera : Camera := .closed
  /-- The shared memory is attached. -/
  attached : Bool := false
  deriving DecidableEq, Repr

namespace Worker

/-! ## Records -/

/-- `baseRecord`. -/
def baseRecord (w : Worker) (body : Body) : Record := ⟨version, w.sessionId, w.sequence + 1, body⟩

/-- `queueControl`, of a new record. -/
def queueControl (w : Worker) (body : Body) : Worker :=
  { w with
    sequence := w.sequence + 1
    controlQueue :=
      if w.controlQueue.length < maxControlRecords then w.controlQueue ++ [w.baseRecord body]
      else w.controlQueue }

/-- `queueFrame`, of a new record. -/
def queueFrame (w : Worker) (frame : Frame) : Worker :=
  let dropped := if w.pendingFrame.isSome then w.droppedFrames + 1 else w.droppedFrames
  { w with
    droppedFrames := dropped
    sequence := w.sequence + 1
    pendingFrame := some (w.baseRecord (.frame { frame with dropped := dropped })) }

/-- `flushOutput`, of one record. -/
def flushOutput (w : Worker) : Option (Worker × Record) :=
  match w.controlQueue, w.pendingFrame with
  | record :: controlQueue, _ => some ({ w with controlQueue }, record)
  | [], some record => some ({ w with pendingFrame := none }, record)
  | [], none => none

/-- `sendError`. -/
def sendError (w : Worker) (code : ErrorCode) : Worker := w.queueControl (.error code)

/-! ## Commands -/

/-- `discover`. -/
def discover (w : Worker) (found : List Device) : Worker :=
  if w.sessionId = "" ∨ w.previewInProgress then { w with discoveryPending := true }
  else { w with discoveryPending := false, camera := .closed }.queueControl (.devices found)

/-- The discovery that was left for the end of the preview. -/
def discoverPending (w : Worker) (found : List Device) : Worker :=
  if w.discoveryPending then w.discover found else w

/-- The camera is released. -/
def release (w : Worker) : Worker :=
  { w with
    previewLimit := false
    camera := .closed
    previewInProgress := false
    pendingFrame := none
    attached := false }

/-- `startPreview`. -/
def startPreview (w : Worker) (deadlineMs : ℤ) (around : Surroundings) : Worker :=
  if w.previewInProgress then w.sendError .cameraBusy
  else
    let w := { w with
      deadlineMs
      enrollmentBudgetGranted := false
      droppedFrames := 0
      pendingFrame := none
      attached := if w.sessionId = "" then w.attached else around.attach }
    match around.refused with
    | none => { w with previewInProgress := true, camera := .opened }
    | some error =>
      ({ w with previewInProgress := false, camera := .closed, attached := false }.sendError
        error.code).discoverPending around.found

/-- `stopPreview`. -/
def stopPreview (w : Worker) (reason : String) (found : List Device) : Worker :=
  (w.release.queueControl (.stopped reason (w.camera = .active))).discoverPending found

/-- What `handleCommand` does at a command that is in order. -/
def perform (w : Worker) (now : ℤ) (body : CommandBody) (around : Surroundings) : Worker :=
  match body with
  | .discover => w.discover around.found
  | .start device deadlineMs =>
    if validDeadline now deadlineMs maxPreviewSeconds ∧ device ≠ "" ∧ qsize device ≤ 64 then
      w.startPreview deadlineMs around
    else w.sendError .protocolError
  | .enrollment deadlineMs =>
    if w.camera = .active ∧ !w.enrollmentBudgetGranted ∧ now < w.deadlineMs ∧
        validDeadline now deadlineMs maxEnrollmentSeconds then
      { w with enrollmentBudgetGranted := true, deadlineMs, previewLimit := true }.queueControl
        (.budget deadlineMs)
    else w.sendError .protocolError
  | .stop => w.stopPreview "requested" around.found

/-- `handleCommand`. -/
def handleCommand (w : Worker) (now : ℤ) (command : Command) (around : Surroundings) : Worker :=
  if command.protocol ≠ version ∨ command.session = "" ∨ 64 < qsize command.session ∨
      command.sequence ≤ 0 ∨ command.sequence ≤ w.lastCommandSequence then
    let w := if w.sessionId = "" ∧ command.session ≠ "" ∧ qsize command.session ≤ 64 then
      { w with sessionId := command.session } else w
    w.sendError .protocolError
  else
    let w := if w.sessionId = "" then { w with sessionId := command.session } else w
    if command.session ≠ w.sessionId then w.sendError .protocolError
    else { w with lastCommandSequence := command.sequence }.perform now command.body around

/-! ## Events of the camera -/

/-- The camera is active. -/
def started (w : Worker) : Worker :=
  { { w with camera := .active }.queueControl (.started maxPreviewSeconds) with previewLimit := true }

/-- A frame of the camera: in the shared memory, or else as a JPEG image, unless
    it could not be encoded. -/
def frameReady (w : Worker) (frame : Frame) (jpeg : List UInt8) : Worker :=
  if w.attached then w.queueFrame { frame with shm := true, rgb := none, jpeg := none }
  else if jpeg = [] then w
  else w.queueFrame { frame with shm := false, rgb := none, jpeg := some jpeg }

/-- An error of the camera. -/
def failed (w : Worker) (found : List Device) : Worker :=
  (w.release.sendError .cameraUnavailable).discoverPending found

end Worker

end Preview

end KFaceAuth
