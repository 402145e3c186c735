import KFaceAuth.Enrollment.Protocol
import KFaceAuth.Lib.Bytes
import KFaceAuth.Lib.Machine

/-!
# The client of the identity worker

`IdentityWorkerClient` runs one worker process for each request: it writes the
request when the process has started, collects the output, and hands the payload
to the completion of the request when the process has ended. Timers bound the
start, the operation and the end, and whatever goes wrong kills the process first
(`beginTermination`); the completion follows when the process is gone, or when that
takes too long.

The completion runs in the middle of `finish`. What the owner of the client does
meanwhile are events as any other, up to the one that says that the completion has
returned (`Event.returned`); nothing of the processes and the timers comes in
between.
-/

namespace KFaceAuth

namespace WorkerClient

open Enrollment

/-- `MaximumResponseBytes`. -/
def maximumResponseBytes : ℕ := 64 + embeddingBytes

/-- `QProcess::ExitStatus`. -/
inductive ExitStatus
  | normalExit
  | crashExit
  deriving DecidableEq, Repr

/-- `QProcess::ProcessError`. -/
inductive ProcessError
  | failedToStart
  | crashed
  | timedout
  | writeError
  | readError
  | unknownError
  deriving DecidableEq, Repr

/-- How a worker ended, and whether it was told to. -/
structure Exit where
  code : ℤ
  status : ExitStatus
  terminated : Bool
  deriving DecidableEq, Repr

/-- A process, with what happened to it. -/
structure Worker where
  /-- The call of `execute` that it is for. -/
  call : ℕ
  started : Bool := false
  failedToStart : Bool := false
  /-- What was written to its input before that was closed. -/
  offered : Option (List UInt8) := none
  /-- All that it has written, and what of it was not read. -/
  wrote : List UInt8 := []
  unread : List UInt8 := []
  /-- Its termination has begun. -/
  killed : Bool := false
  exit : Option Exit := none
  /-- The shutdown timer has fired after its termination had begun. -/
  expired : Bool := false
  deriving DecidableEq, Repr

/-- A call of `execute`. A completion may be empty. -/
structure Call where
  generation : UInt64
  request : List UInt8
  callable : Bool
  deriving DecidableEq, Repr

/-- A completion that was invoked, by its call. -/
structure Reply where
  call : ℕ
  generation : UInt64
  payload : List UInt8
  error : String
  deriving DecidableEq, Repr

/-- Where a completion runs. -/
inductive Frame
  /-- In `finish`, which goes on when the completion has returned. -/
  | finish
  /-- In `execute`, which has refused the request. -/
  | execute
  deriving DecidableEq, Repr

/-- `IdentityWorkerClient`, with the calls, the replies and the processes so far. -/
structure Client where
  process : Option Worker := none
  /-- The call whose completion is kept. -/
  completion : Option ℕ := none
  request : List UInt8 := []
  response : List UInt8 := []
  pendingError : String := ""
  generation : UInt64 := 0
  stderrBytes : ℕ := 0
  responseComplete : Bool := false
  cancelling : Bool := false
  startupTimer : Bool := false
  operationTimer : Bool := false
  shutdownTimer : Bool := false
  /-- The completions that run, the innermost first. -/
  running : List Frame := []
  calls : List Call := []
  replies : List Reply := []
  past : List Worker := []
  deriving DecidableEq, Repr

namespace Client

/-- `clearSensitive`. -/
def clearSensitive (s : Client) : Client :=
  { s with request := [], response := [], responseComplete := false, stderrBytes := 0 }

/-- `beginTermination`. -/
def beginTermination (s : Client) (code : String) : Client :=
  match s.process with
  | none => s
  | some w =>
    if s.cancelling then s
    else
      { s with
        cancelling := true, pendingError := code, startupTimer := false, operationTimer := false,
        request := [], process := some { w with killed := true }, shutdownTimer := true }

/-- `fail`. -/
def fail (s : Client) (code : String) : Client := s.beginTermination code

/-- The rest of `finish`, after the completion. -/
def finished (s : Client) : Client :=
  { s.clearSensitive with cancelling := false, pendingError := "" }

/-- `finish`, up to where the completion runs. -/
def finish (s : Client) (payload : List UInt8) (error : String) : Client :=
  let generation := s.generation
  let completion := s.completion
  let s := { s with
    startupTimer := false, operationTimer := false, shutdownTimer := false, process := none,
    completion := none, generation := 0, past := s.process.toList ++ s.past }
  match completion with
  | none => s.finished
  | some call => { s with
      replies := ⟨call, generation, payload, error⟩ :: s.replies, running := .finish :: s.running }

/-- `execute`. `atOnce` is set when the process fails to start within the call. -/
def execute (s : Client) (generation : UInt64) (request : List UInt8) (callable atOnce : Bool) :
    Client :=
  let call := s.calls.length
  let s := { s with calls := s.calls ++ [⟨generation, request, callable⟩] }
  if generation = 0 ∨ request = [] ∨ s.process.isSome then
    if callable then
      { s with
        replies := ⟨call, generation, [], "identity-worker-busy"⟩ :: s.replies,
        running := .execute :: s.running }
    else s
  else
    let s := { s with
      generation := generation, completion := if callable then some call else none,
      request := request, cancelling := false, responseComplete := false, stderrBytes := 0,
      process := some { call := call, failedToStart := atOnce } }
    let s := if atOnce then s.fail "identity-startup-failed" else s
    { s with startupTimer := true }

/-- `cancel`. -/
def cancel (s : Client) : Client :=
  if s.process.isNone then s.clearSensitive else s.beginTermination "cancelled"

/-- What happens when the process has started, and takes so many bytes of the request. -/
def started (s : Client) (w : Worker) (accepted : ℤ) : Client :=
  let w := { w with started := true }
  if s.cancelling then
    { s with startupTimer := false, request := [], process := some w }
  else
    let expected := s.request.length
    let s := { s with
      startupTimer := false, request := [], process := some { w with offered := some s.request } }
    if accepted ≠ expected then s.fail "identity-protocol-error"
    else { s with operationTimer := true }

/-- `readResponse`. -/
def readResponse (s : Client) : Client :=
  match s.process with
  | none => s
  | some w =>
    let bytes := w.unread
    let s := { s with process := some { w with unread := [] } }
    if s.responseComplete ∨ s.response.length + bytes.length > maximumResponseBytes + 4 then
      s.fail "identity-protocol-error"
    else
      let s := { s with response := s.response ++ bytes }
      if s.response.length < 4 then s
      else
        let payloadSize := ofBe (s.response.take 4)
        if payloadSize < 12 ∨ payloadSize > maximumResponseBytes then
          s.fail "identity-protocol-error"
        else if s.response.length < payloadSize + 4 then s
        else if s.response.length ≠ payloadSize + 4 then s.fail "identity-protocol-error"
        else { s with responseComplete := true, operationTimer := false, shutdownTimer := true }

/-- What happens at output on the standard error. -/
def readError (s : Client) (size : ℕ) : Client :=
  let s := { s with stderrBytes := s.stderrBytes + size }
  if s.stderrBytes > 64 * 1024 then s.fail "identity-protocol-error" else s

/-- What happens at an error of the process. -/
def errorOccurred (s : Client) (error : ProcessError) : Client :=
  if s.cancelling then s
  else if error = .failedToStart then s.fail "identity-startup-failed"
  else if error ≠ .crashed then s.fail "identity-worker-failed"
  else s

/-- `processFinished`. -/
def processFinished (s : Client) (code : ℤ) (status : ExitStatus) : Client :=
  if s.cancelling then s.finish [] s.pendingError
  else if !s.responseComplete ∨ code ≠ 0 ∨ status ≠ .normalExit then
    s.fail "identity-worker-failed"
  else
    let payloadSize := ofBe (s.response.take 4)
    s.finish ((s.response.drop 4).take payloadSize) ""

/-- What happens when the shutdown timer fires. -/
def shutdownTimeout (s : Client) : Client :=
  if s.cancelling then s.finish [] s.pendingError
  else s.beginTermination "identity-shutdown-timeout"

end Client

/-! ## Runs -/

inductive Event
  | execute (generation : UInt64) (request : List UInt8) (callable atOnce : Bool)
  | cancel
  /-- The innermost completion returns. -/
  | returned
  | started (accepted : ℤ)
  /-- The worker writes to its output. -/
  | wrote (bytes : List UInt8)
  | readyRead
  | readyReadError (size : ℕ)
  | errorOccurred (error : ProcessError)
  | finished (code : ℤ) (status : ExitStatus)
  | startupTimeout
  | operationTimeout
  | shutdownTimeout
  deriving DecidableEq, Repr

namespace Client

/-- A worker that runs. -/
def live (w : Worker) : Bool := w.started && w.exit.isNone

/-- What is left in the output is read before the end of the process is told. -/
def drain (s : Client) (w : Worker) : Client := if w.unread = [] then s else s.readResponse

/-- The process that ends is noted with its exit. -/
def exited (s : Client) (code : ℤ) (status : ExitStatus) : Client :=
  { s with process := s.process.map fun w => { w with exit := some ⟨code, status, w.killed⟩ } }

/-- The step at an event, if it may happen. -/
def step (s : Client) : Event → Option Client
  | .execute generation request callable atOnce =>
    some (s.execute generation request callable atOnce)
  | .cancel => some s.cancel
  | .returned =>
    match s.running with
    | [] => none
    | .execute :: running => some { s with running := running }
    | .finish :: running => some { s with running := running }.finished
  | .wrote bytes =>
    match s.process with
    | none => none
    | some w =>
      if live w then
        some { s with process := some { w with
          wrote := w.wrote ++ bytes, unread := w.unread ++ bytes } }
      else none
  | .started accepted =>
    match s.running, s.process with
    | [], some w =>
      if !w.started && !w.failedToStart then some (s.started w accepted) else none
    | _, _ => none
  | .readyRead =>
    match s.running, s.process with
    | [], some w => if live w && w.unread ≠ [] then some s.readResponse else none
    | _, _ => none
  | .readyReadError size =>
    match s.running, s.process with
    | [], some w => if live w then some (s.readError size) else none
    | _, _ => none
  | .errorOccurred error =>
    match s.running, s.process with
    | [], some w =>
      if error = .failedToStart then
        if !w.started && !w.failedToStart then
          some ({ s with process := some { w with failedToStart := true } }.errorOccurred error)
        else none
      else if live w then some (s.errorOccurred error)
      else none
    | _, _ => none
  | .finished code status =>
    match s.running, s.process with
    | [], some w =>
      if live w then some (((s.drain w).exited code status).processFinished code status) else none
    | _, _ => none
  | .startupTimeout =>
    if s.running = [] ∧ s.startupTimer then
      some ({ s with startupTimer := false }.fail "identity-startup-timeout")
    else none
  | .operationTimeout =>
    if s.running = [] ∧ s.operationTimer then
      some ({ s with operationTimer := false }.fail "identity-operation-timeout")
    else none
  | .shutdownTimeout =>
    if s.running = [] ∧ s.shutdownTimer then
      some (Client.shutdownTimeout { s with
        shutdownTimer := false,
        process := s.process.map fun w => { w with expired := w.expired || w.killed } })
    else none

end Client

/-- The client with its processes, its timers and its owner. -/
def machine : Machine Client Event where
  init := {}
  step := Client.step

end WorkerClient

end KFaceAuth
