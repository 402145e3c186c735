import KFaceAuth.Lib.Bytes
import Mathlib.Data.List.Basic
import Mathlib.Tactic.Common

/-!
# The protocol between the PAM module and the daemon

Requests and responses of the daemon, as bytes, and the reader of the PAM
module (`pamReceive`), which re-frames the bytes it receives: a header with the
length of the body, then the body, until a body that is no progress report.
-/

namespace KFaceAuth

/-! ## Constants -/

def daemonProtocolVersion : ℕ := 2
def freshnessProtocolVersion : ℕ := 3
def maxDaemonRequestBytes : ℕ := 14 + 255
def maxDaemonResponseBytes : ℕ := 64 * 1024
def defaultPamTimeoutMs : ℕ := 2000

def opPamAuth : UInt8 := 0x10
def opStatus : UInt8 := 0x11
def opFreshness : UInt8 := 0x12

def authTargetSddm : UInt8 := 1
def authTargetPlasmaLock : UInt8 := 2

def statusSuccess : UInt8 := 0x00
def statusAuthFailed : UInt8 := 0x01
def statusAccessDenied : UInt8 := 0x02
def statusTimeout : UInt8 := 0x04
def statusDeviceBusy : UInt8 := 0x05
def statusInternalError : UInt8 := 0x06
def statusRateLimited : UInt8 := 0x08
def statusCancelled : UInt8 := 0x09
def statusProgressLookingForFace : UInt8 := 0x80

/-! ## Requests -/

/-- `DaemonRequest`. -/
inductive DaemonRequest
  | pamAuth (targetUid : UInt32) (authTarget : UInt8) (timeoutMs : ℕ) (username : String)
  | status (targetUid : UInt32)
  | freshness (targetUid : UInt32) (localDigest : List UInt8)
  deriving DecidableEq, Repr

/-- `DaemonRequest::target_uid`. -/
def DaemonRequest.targetUid : DaemonRequest → UInt32
  | pamAuth uid _ _ _ | status uid | freshness uid _ => uid

/-- The PAM request of `decode_daemon_request`. -/
def decodePamRequest (payload : List UInt8) : Except String DaemonRequest :=
  let byte i := payload.getD i 0
  let slice i n := ofBe ((payload.drop i).take n)
  if payload.length < 14 then .error "malformed PAM request payload"
  else if byte 3 ≠ authTargetSddm ∧ byte 3 ≠ authTargetPlasmaLock then
    .error "invalid authentication target"
  else if slice 8 4 < 1 ∨ defaultPamTimeoutMs < slice 8 4 ∨ slice 12 2 < 1 ∨ 255 < slice 12 2 ∨
      payload.length ≠ 14 + slice 12 2 then
    .error "invalid PAM request bounds"
  else
    match String.fromUTF8? ⟨(payload.drop 14).toArray⟩ with
    | none => .error "invalid username encoding"
    | some username =>
      if username.toList.contains (Char.ofNat 0) then .error "invalid username"
      else .ok (.pamAuth (.ofNat (slice 4 4)) (byte 3) (slice 8 4) username)

/-- `decode_daemon_request`. -/
def decodeDaemonRequest (payload : List UInt8) : Except String DaemonRequest :=
  let byte i := payload.getD i 0
  let targetUid := UInt32.ofNat (ofBe ((payload.drop 4).take 4))
  if payload.length < 8 ∨ maxDaemonRequestBytes < payload.length then
    .error "invalid request payload length"
  else if ofBe (payload.take 2) = freshnessProtocolVersion ∧ payload.length = 40 ∧
      byte 2 = opFreshness ∧ byte 3 = 0 then
    .ok (.freshness targetUid (payload.drop 8))
  else if ofBe (payload.take 2) ≠ daemonProtocolVersion then .error "unsupported protocol version"
  else if byte 2 = opPamAuth then decodePamRequest payload
  else if byte 2 = opStatus ∧ payload.length = 8 ∧ byte 3 = 0 then .ok (.status targetUid)
  else .error "unknown opcode"

/-- `is_authorized`. -/
def isAuthorized (peerUid targetUid : UInt32) : Bool := peerUid = targetUid || peerUid = 0

/-! ## Responses -/

/-- `encode_daemon_response`. -/
def encodeDaemonResponse (statusCode : UInt8) (extra : List UInt8) : List UInt8 :=
  [0, 2, statusCode, 0] ++ extra

/-- The status of a response. -/
def responseStatus (response : List UInt8) : Option UInt8 := response[2]?

/-! ## The PAM module -/

/-- What `pam_sm_authenticate` returns once the request is sent: success, or
    an error after reporting a status to the greeter. -/
inductive PamResult
  | success
  | authErr (status : String)
  deriving DecidableEq, Repr

/-- `daemon_unavailable`. -/
def daemonUnavailable (timedOut : Bool) : PamResult :=
  .authErr (if timedOut then "KFACEAUTH_STATUS=timeout" else "KFACEAUTH_STATUS=service-unavailable")

/-- The result for the status of the last response. -/
def pamResult (status : UInt8) : PamResult :=
  if status = statusSuccess then .success
  else if status = statusTimeout then .authErr "KFACEAUTH_STATUS=timeout"
  else if status = statusDeviceBusy then .authErr "KFACEAUTH_STATUS=camera-busy"
  else if status = statusInternalError then .authErr "KFACEAUTH_STATUS=service-unavailable"
  else if status = statusRateLimited then .authErr "KFACEAUTH_STATUS=retry-later"
  else .authErr "KFACEAUTH_STATUS=use-password"

/-- The loop of `pam_sm_authenticate` reading responses. The bytes are those
    received until the connection ends, by the deadline if `timedOut`. -/
def pamReceive (timedOut : Bool) : List UInt8 → PamResult
  | h₀ :: h₁ :: h₂ :: h₃ :: body =>
    if ofBe [h₀, h₁, h₂, h₃] ≠ 4 then .authErr "KFACEAUTH_STATUS=service-unavailable"
    else
      match body with
      | b₀ :: b₁ :: b₂ :: b₃ :: rest =>
        if ofBe [b₀, b₁] ≠ daemonProtocolVersion ∨ b₃ ≠ 0 then
          .authErr "KFACEAUTH_STATUS=service-unavailable"
        else if b₂ = statusProgressLookingForFace then pamReceive timedOut rest
        else pamResult b₂
      | _ => daemonUnavailable timedOut
  | _ => daemonUnavailable timedOut

end KFaceAuth
