import KFaceAuth.Preview.Protocol

/-!
# The session of the application

`CameraPreviewSession` sends commands on the events of the application and
handles the records of the worker (`Session.handleRecord`). Its frame, its texts
and its timers, but for the countdown, are left out.
-/

namespace KFaceAuth

namespace Preview

inductive State
  | idle
  | discovering
  | ready
  | starting
  | streaming
  | stopping
  | failed
  deriving DecidableEq, Repr

/-- The process of the worker. -/
inductive Process
  | notRunning
  | starting
  | running
  deriving DecidableEq, Repr

structure Session where
  process : Process := .notRunning
  expectedExit : Bool := false
  state : State := .idle
  devices : List Device := []
  /-- The devices of a record that came during a preview. -/
  pendingDevices : Option (List Device) := none
  initialDiscovery : Bool := true
  selectedDeviceIndex : Option ℕ := none
  errorCode : Option ErrorCode := none
  sessionId : String := ""
  nextCommandSequence : ℤ := 0
  lastSequence : ℤ := 0
  deadlineMs : ℤ := 0
  enrollmentBudgetGranted : Bool := false
  /-- The shared memory is attached. -/
  attached : Bool := false
  deriving DecidableEq, Repr

namespace Session

/-! ## Helpers -/

/-- `setState`. -/
def setState (s : Session) (state : State) : Session :=
  { s with state, errorCode := if state = .failed then s.errorCode else none }

/-- `fail`. -/
def fail (s : Session) (code : ErrorCode) : Session :=
  { s with state := .failed, errorCode := some code }

/-- `terminateWorker`. -/
def terminateWorker (s : Session) : Session :=
  { s with attached := false, expectedExit := true, process := .notRunning }

/-- `sendCommand`. -/
def sendCommand (s : Session) (body : CommandBody) : Session × List Command :=
  if s.process = .running then
    ({ s with nextCommandSequence := s.nextCommandSequence + 1 },
      [⟨version, s.sessionId, s.nextCommandSequence + 1, body⟩])
  else (s, [])

/-! ## Events of the application -/

/-- `startWorker`, with the identifier of the new session. -/
def startWorker (s : Session) (uuid : String) : Session :=
  { s with
    attached := false
    selectedDeviceIndex := none
    pendingDevices := none
    expectedExit := false
    sessionId := uuid
    nextCommandSequence := 0
    lastSequence := 0
    process := .starting }.setState .discovering

/-- The process of the worker has started. -/
def processStarted (s : Session) : Session × List Command :=
  { s with process := .running }.sendCommand .discover

/-- `refreshDevices`. -/
def refreshDevices (s : Session) (uuid : String) : Session × List Command :=
  if s.state = .starting ∨ s.state = .streaming ∨ s.state = .stopping then s.sendCommand .discover
  else
    let s := { s with errorCode := none }
    if s.process = .notRunning ∨ s.expectedExit then (s.startWorker uuid, [])
    else (s.setState .discovering).sendCommand .discover

/-- `setSelectedDeviceIndex`, of an index that is not negative. -/
def setSelectedDeviceIndex (s : Session) (index : ℕ) : Session :=
  { s with selectedDeviceIndex := if index < s.devices.length then some index else none }

/-- The selected device. -/
def selectedDevice (s : Session) : Option Device :=
  s.selectedDeviceIndex.bind fun index => s.devices[index]?

/-- `startPreview`; `created` tells whether the shared memory could be created. -/
def startPreview (s : Session) (now : ℤ) (created : Bool) : Session × List Command :=
  match s.state, s.selectedDevice with
  | .ready, some device =>
    let deadlineMs := now + maxPreviewSeconds * 1000
    ({ s with
      deadlineMs
      enrollmentBudgetGranted := false
      attached := if s.sessionId = "" then s.attached else created }.setState .starting).sendCommand
        (.start device.token deadlineMs)
  | _, _ => (s, [])

/-- `beginEnrollmentBudget`. -/
def beginEnrollmentBudget (s : Session) (now : ℤ) : Session × List Command :=
  if s.state ≠ .streaming ∨ s.enrollmentBudgetGranted ∨ s.deadlineMs ≤ now then (s, [])
  else
    let deadlineMs := now + maxEnrollmentSeconds * 1000
    { s with enrollmentBudgetGranted := true, deadlineMs }.sendCommand (.enrollment deadlineMs)

/-- `stopPreview`. -/
def stopPreview (s : Session) : Session × List Command :=
  let s := { s with attached := false }
  if s.state ≠ .starting ∧ s.state ≠ .streaming then (s, [])
  else (s.setState .stopping).sendCommand .stop

/-- The timeout of `m_countdownTimer`, which runs while streaming. -/
def countdown (s : Session) (now : ℤ) : Session × List Command :=
  if max 0 ((s.deadlineMs - now + 999).tdiv 1000) = 0 then s.stopPreview else (s, [])

/-- The application is no longer active. -/
def applicationInactive (s : Session) : Session × List Command :=
  if s.state = .starting ∨ s.state = .streaming then s.stopPreview else (s, [])

/-! ## Records -/

/-- The checks of `handleDevices`. -/
def validDevices (devices : List Device) : Bool :=
  devices.length ≤ maxDevices && (devices.map (·.token)).Nodup &&
    devices.all fun device =>
      device.token ≠ "" && qsize device.token ≤ 64 && device.label.utf8ByteSize ≤ maxLabelBytes

/-- `handleDevices`. -/
def handleDevices (s : Session) (devices : List Device) : Session × Bool :=
  if !validDevices devices then (s, false)
  else if s.state = .starting ∨ s.state = .streaming ∨ s.state = .stopping then
    ({ s with pendingDevices := some devices }, true)
  else
    let selectedToken := (s.selectedDevice.map (·.token)).getD ""
    let preferredIndex :=
      if s.initialDiscovery ∧ devices.length = 1 then some 0
      else if selectedToken = "" then none
      else devices.findIdx? (·.token = selectedToken)
    let s := { s with
      devices
      initialDiscovery := false
      selectedDeviceIndex := preferredIndex
      errorCode := none }
    if devices = [] then (s.fail .noCamera, true) else (s.setState .ready, true)

section

variable (decode : List UInt8 → Option (ℤ × ℤ))

/-- The check of the picture of a frame in `handleFrame`, given the size of the
    image that `QImage::fromData` decodes. -/
def showsFrame (s : Session) (frame : Frame) : Bool :=
  (frame.shm && s.attached) ||
    (frame.rgb.any fun rgb => rgb.length = frame.width * frame.height * 3) ||
    (frame.jpeg.any fun jpeg => jpeg ≠ [] && jpeg.length ≤ maxJpegBytes &&
      (s.state = .stopping || decode jpeg = some (frame.width, frame.height)))

/-- `handleFrame`. -/
def handleFrame (s : Session) (frame : Frame) : Bool :=
  (s.state = .streaming || s.state = .stopping) &&
    0 < frame.width && frame.width ≤ maxWidth && 0 < frame.height && frame.height ≤ maxHeight &&
    0 ≤ frame.dropped && s.showsFrame decode frame

/-- `handleRecord`. -/
def handleRecord (s : Session) (record : Record) : Session × Bool :=
  if record.protocol ≠ version ∨ record.session ≠ s.sessionId ∨ record.sequence ≤ 0 ∨
      record.sequence ≤ s.lastSequence then (s, false)
  else
    let s := { s with lastSequence := record.sequence }
    match record.body with
    | .devices devices => s.handleDevices devices
    | .started seconds =>
      if s.state ≠ .starting ∨ seconds ≠ maxPreviewSeconds then (s, false)
      else (s.setState .streaming, true)
    | .budget deadlineMs =>
      (s, (s.state = .streaming || s.state = .stopping) && s.enrollmentBudgetGranted &&
        deadlineMs = s.deadlineMs)
    | .frame frame => (s, s.handleFrame decode frame)
    | .stopped _ _ =>
      if s.state ≠ .stopping ∧ s.state ≠ .streaming then (s, false)
      else
        let s := s.setState .ready
        match s.pendingDevices with
        | some devices => { s with pendingDevices := none }.handleDevices devices
        | none => (s, true)
    | .error code => if code.allowed then (s.fail code, true) else (s, false)
    | .malformed => (s, false)

/-- What `processRecords` does with a record. -/
def processRecord (s : Session) (record : Record) : Session :=
  match s.handleRecord decode record with
  | (s, true) => s
  | (s, false) => (s.fail .protocolError).terminateWorker

end

end Session

end Preview

end KFaceAuth
