import KFaceAuth.Lib.Machine
import KFaceAuth.Preview.Session
import KFaceAuth.Preview.Worker

/-!
# The session and the worker together

The session and the worker are connected by a pipe in each direction. Events
of the application, of the camera and deliveries happen in any order
(`Preview.machine`).

Records may cross commands. A frame that was on its way when the session sent
`stop` is expected, but a `started`, a second `stopped` or a frame in the shared
memory is not: the session then takes the worker for broken.

* `accepts_of_reachable`: the session accepts every record in the runs without
  such a crossing (`Preview.undisturbed`).
-/

namespace KFaceAuth

namespace Preview

/-- The session and the worker, what is on its way between them, and the clock. -/
structure System where
  session : Session := {}
  worker : Worker := {}
  /-- The commands on their way to the worker. -/
  commands : List Command := []
  /-- The records written by the worker and not yet read by the session. -/
  records : List Record := []
  now : ℤ := 0
  deriving DecidableEq, Repr

inductive Event
  | refreshDevices (uuid : String)
  | processStarted
  | setSelectedDeviceIndex (index : ℕ)
  | startPreview (created : Bool)
  | stopPreview
  | beginEnrollmentBudget
  | countdown
  | applicationInactive
  | receiveRecord
  | receiveCommand (around : Surroundings)
  | cameraStarted
  | frameReady (frame : Frame) (jpeg : List UInt8)
  | cameraFailed (found : List Device)
  | deviceListChanged (found : List Device)
  | previewLimit (found : List Device)
  | flushOutput
  | tick (milliseconds : ℕ)

namespace System

/-- The session has done something, and sent commands. -/
def sends (s : System) (r : Session × List Command) : System :=
  { s with session := r.1, commands := s.commands ++ r.2 }

/-- A worker that has been killed or is started anew has sent nothing, and has got nothing. -/
def restarted (s : System) : System := { s with worker := {}, commands := [], records := [] }

end System

section

variable (decode : List UInt8 → Option (ℤ × ℤ))

/-- A frame that the camera gives, within the bounds and decoded to its size. -/
def wellFormedFrame (frame : Frame) (jpeg : List UInt8) : Bool :=
  0 < frame.width && frame.width ≤ maxWidth && 0 < frame.height && frame.height ≤ maxHeight &&
    (jpeg = [] || (jpeg.length ≤ maxJpegBytes && decode jpeg = some (frame.width, frame.height)))

/-- An event, if it may happen: those of the worker while it runs, those of the
    camera while it is open, and deliveries while something is on its way. -/
def step (s : System) : Event → Option System
  | .refreshDevices uuid =>
    if uuid ≠ "" ∧ qsize uuid ≤ 64 then
      let r := s.session.refreshDevices uuid
      if r.1.process = .starting ∧ s.session.process ≠ .starting then some (s.restarted.sends r)
      else some (s.sends r)
    else none
  | .processStarted =>
    if s.session.process = .starting then some (s.sends s.session.processStarted) else none
  | .setSelectedDeviceIndex index =>
    some { s with session := s.session.setSelectedDeviceIndex index }
  | .startPreview created =>
    -- The memory cannot be created while the worker has it.
    some (s.sends (s.session.startPreview s.now (created && !s.worker.attached)))
  | .stopPreview => some (s.sends s.session.stopPreview)
  | .beginEnrollmentBudget => some (s.sends (s.session.beginEnrollmentBudget s.now))
  | .countdown =>
    if s.session.state = .streaming then some (s.sends (s.session.countdown s.now)) else none
  | .applicationInactive => some (s.sends s.session.applicationInactive)
  | .receiveRecord =>
    match s.records with
    | [] => none
    | record :: records =>
      let session := s.session.processRecord decode record
      if session.process = .notRunning then some { s.restarted with session }
      else some { s with session, records }
  | .receiveCommand around =>
    if Session.validDevices around.found then
      match s.commands with
      | [] => none
      | command :: commands =>
        -- There is only something to attach while the session has it.
        let around := { around with attach := around.attach && s.session.attached }
        some { s with worker := s.worker.handleCommand s.now command around, commands }
    else none
  | .cameraStarted =>
    if s.worker.camera = .opened then some { s with worker := s.worker.started } else none
  | .frameReady frame jpeg =>
    if s.worker.camera = .active ∧ wellFormedFrame decode frame jpeg then
      some { s with worker := s.worker.frameReady frame jpeg }
    else none
  | .cameraFailed found =>
    if s.worker.camera ≠ .closed ∧ Session.validDevices found then
      some { s with worker := s.worker.failed found }
    else none
  | .deviceListChanged found =>
    if s.session.process = .running ∧ Session.validDevices found then
      some { s with worker := s.worker.discover found }
    else none
  | .previewLimit found =>
    if s.worker.previewLimit ∧ Session.validDevices found then
      some { s with worker := s.worker.stopPreview "time-limit" found }
    else none
  | .flushOutput =>
    match s.worker.flushOutput with
    | none => none
    | some (worker, record) => some { s with worker, records := s.records ++ [record] }
  | .tick milliseconds => some { s with now := s.now + milliseconds }

/-- The session and the worker, in any order of events. -/
def machine : Machine System Event := ⟨{}, step decode⟩

end

/-! ## Crossings -/

/-- What commands ask for, but for discoveries. -/
def ordersOf (commands : List Command) : List CommandBody :=
  (commands.map (·.body)).filter (· ≠ .discover)

namespace System

/-- The records on their way to the session, but for a frame that is not written yet. -/
def coming (s : System) : List Body := (s.records ++ s.worker.controlQueue).map (·.body)

/-- The commands on their way to the worker, but for discoveries. -/
def orders (s : System) : List CommandBody := ordersOf s.commands

/-- A `stop` is on its way. -/
def stopOnItsWay (s : System) : Bool := .stop ∈ s.orders

/-- The next control record is dropped. -/
def controlFull (s : System) : Bool := maxControlRecords ≤ s.worker.controlQueue.length

/-- A record that the worker sends on its own is not expected behind a `stop`. -/
def expectsStopped (s : System) : Bool := s.stopOnItsWay && !s.controlFull

/-- An enrollment is on its way. -/
def enrollmentOnItsWay (s : System) : Bool := s.orders.any fun c => c matches .enrollment _

end System

/-- A record that is not expected after `stop` was sent. -/
def Body.unexpected : Body → Bool
  | .started _ | .stopped _ _ | .error _ | .malformed => true
  | .frame f => f.shm
  | .devices _ | .budget _ => false

/-- The session may stop the preview: nothing that it does not expect then is on its way. -/
def System.mayStop (s : System) : Bool :=
  (s.session.state ≠ .starting && s.session.state ≠ .streaming) ||
    s.coming.all fun body => !body.unexpected

/-- A step at which no record crosses a command that makes it unexpected. -/
def undisturbed (s : System) : Event → Bool
  | .stopPreview | .applicationInactive => s.mayStop
  | .countdown => s.now < s.session.deadlineMs || s.mayStop
  | .beginEnrollmentBudget =>
    s.session.state ≠ .streaming || s.session.enrollmentBudgetGranted ||
      s.session.deadlineMs ≤ s.now || s.worker.camera = .active
  | .receiveCommand around =>
    match s.commands with
    | [] => true
    | command :: _ =>
      match command.body with
      | .start _ deadlineMs => s.now < deadlineMs && (around.refused.isNone || !s.expectsStopped)
      | .enrollment deadlineMs => s.now < deadlineMs && s.now < s.worker.deadlineMs
      | .discover | .stop => true
  | .cameraStarted => s.stopOnItsWay = s.controlFull
  | .cameraFailed _ | .previewLimit _ => !s.expectsStopped && !s.enrollmentOnItsWay
  | .flushOutput =>
    !(s.stopOnItsWay && s.worker.controlQueue.isEmpty &&
      s.worker.pendingFrame.any fun record => record.body.unexpected)
  | _ => true

/-- Records are read in the order of their numbers. -/
def inOrder (s : System) : Event → Bool
  | .receiveRecord => s.records.head?.all fun record => s.session.lastSequence < record.sequence
  | _ => true

end Preview

end KFaceAuth
