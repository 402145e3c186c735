import Mathlib.Algebra.Group.Int.Defs
import Mathlib.Algebra.GroupWithZero.Nat
import Mathlib.Data.List.Basic
import Mathlib.Tactic.Common

/-!
# The protocol of the camera preview

The application commands a worker that owns the camera (`Command`), and the
worker sends records back (`Record`). A record that has not the keys and the
types of values that the protocol asks for is `Body.malformed`.
-/

namespace KFaceAuth

namespace Preview

/-! ## Constants -/

def version : ℤ := 2
def maxDevices : ℕ := 16
def maxLabelBytes : ℕ := 128
def maxJpegBytes : ℕ := 512 * 1024
def maxWidth : ℤ := 1920
def maxHeight : ℤ := 1080
def maxPreviewSeconds : ℤ := 60
def maxEnrollmentSeconds : ℤ := 300

/-- The size of `m_controlQueue`. -/
def maxControlRecords : ℕ := 16

/-- `validDeadline`. -/
def validDeadline (now deadline maximumSeconds : ℤ) : Bool :=
  now < deadline && deadline ≤ now + maximumSeconds * 1000

/-- `QString::size`, in UTF-16. -/
def qsize (s : String) : ℕ := (s.toList.map fun c => if c.val < 0x10000 then 1 else 2).sum

/-! ## Commands -/

inductive CommandBody
  | discover
  | start (device : String) (deadlineMs : ℤ)
  | enrollment (deadlineMs : ℤ)
  | stop
  deriving DecidableEq, Repr

structure Command where
  protocol : ℤ
  session : String
  sequence : ℤ
  body : CommandBody
  deriving DecidableEq, Repr

/-! ## Records -/

inductive Spectrum
  | rgb
  | ir
  | unknown
  deriving DecidableEq, Repr

structure Device where
  token : String
  label : String
  spectrum : Spectrum
  deriving DecidableEq, Repr

/-- The errors that the session shows. -/
inductive ErrorCode
  | permissionDenied
  | noCamera
  | cameraBusy
  | cameraUnavailable
  | formatUnavailable
  | protocolError
  | startupTimeout
  | streamStalled
  | workerCrashed
  deriving DecidableEq, Repr

/-- `allowedCodes`, the errors that the worker may send. -/
def ErrorCode.allowed : ErrorCode → Bool
  | permissionDenied | noCamera | cameraBusy | cameraUnavailable | formatUnavailable
  | protocolError => true
  | startupTimeout | streamStalled | workerCrashed => false

structure Frame where
  shm : Bool
  rgb : Option (List UInt8)
  jpeg : Option (List UInt8)
  width : ℤ
  height : ℤ
  spectrum : Spectrum
  dropped : ℤ
  deriving DecidableEq, Repr

inductive Body
  | devices (devices : List Device)
  | started (seconds : ℤ)
  | budget (deadlineMs : ℤ)
  | frame (frame : Frame)
  | stopped (reason : String) (wasActive : Bool)
  | error (code : ErrorCode)
  | malformed
  deriving DecidableEq, Repr

structure Record where
  protocol : ℤ
  session : String
  sequence : ℤ
  body : Body
  deriving DecidableEq, Repr

end Preview

end KFaceAuth
