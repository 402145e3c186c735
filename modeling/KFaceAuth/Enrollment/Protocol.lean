import Mathlib.Algebra.Group.Nat.Defs
import Mathlib.Data.List.Basic
import Mathlib.Tactic.Common

/-!
# What the enrollment asks for

The application keeps the key of the face profile in the wallet of the user
(`KWalletKeyProvider`), and has a worker process for what needs the models
(`IdentityWorkerClient`). Both answer through a completion, later or at once.

There is one key provider and one worker for both sessions: a key operation that
waits for the wallet is kept as its completion (`Completion`), and the requests
that come meanwhile are refused.
-/

namespace KFaceAuth

namespace Enrollment

/-! ## Constants -/

def keyBytes : ℕ := 32
def embeddingBytes : ℕ := 128 * 4
def minimumSamples : ℕ := 3
def maximumSamples : ℕ := 8

/-- `nextGeneration`, which never is zero. -/
def nextGeneration (generation : UInt64) : UInt64 :=
  if generation + 1 = 0 then 1 else generation + 1

/-- The session that asks. -/
inductive Owner
  | enrollment
  | verification
  deriving DecidableEq, Repr

/-! ## The wallet -/

/-- `KWalletKeyProvider::State`. -/
inductive KeyState
  | available
  | absent
  | locked
  | cancelled
  | unavailable
  deriving DecidableEq, Repr

/-- `KWalletKeyProvider::Result`. -/
structure KeyResult where
  state : KeyState
  key : List UInt8 := []
  deriving DecidableEq, Repr

/-- `PendingAction`. -/
inductive Action
  | read
  | store
  | delete
  deriving DecidableEq, Repr

/-- What a key operation goes on with. -/
inductive Completion
  /-- The status of the profile. -/
  | status
  /-- The start of an enrollment. -/
  | start
  /-- The new key of an enrollment is stored. -/
  | store
  /-- The key of the profile to be deleted. -/
  | deleteRead (epoch : UInt64)
  /-- The key of a profile that was deleted or reset. -/
  | deleteFinal
  /-- The key that a failed enrollment had stored. -/
  | rollback
  /-- The key that a cancelled enrollment had stored. -/
  | discarded
  /-- A change of the authentication settings. -/
  | auth (generation : UInt64)
  /-- A local test. -/
  | verify
  deriving DecidableEq, Repr

def Completion.owner : Completion → Owner
  | verify => .verification
  | _ => .enrollment

/-- How the wallet answers a call: it has to be opened first; or something fails; or
    it is open, with the entry of the key. -/
inductive WalletReply
  | pending
  | failed
  | entry (key : Option (List UInt8))
  deriving DecidableEq, Repr

/-- How the wallet ends to open: it is open, with the entry of the key, or refused;
    or something fails, or takes too long. -/
inductive WalletOutcome
  | opened (key : Option (List UInt8))
  | failed
  | refused
  deriving DecidableEq, Repr

/-- `performRead`, in an open wallet. -/
def performRead : Action → Option (List UInt8) → KeyResult
  | .read, none => ⟨.absent, []⟩
  | .read, some key => if key.length = keyBytes then ⟨.available, key⟩ else ⟨.unavailable, []⟩
  | .store, none => ⟨.available, []⟩
  | .store, some _ => ⟨.unavailable, []⟩
  | .delete, _ => ⟨.absent, []⟩

/-! ## The worker -/

/-- The operations of the worker. -/
inductive Operation
  | status
  | capture
  | commit
  | delete
  | reset
  | verify
  deriving DecidableEq, Repr

/-- The answer of the worker: none that can be read, or a response. -/
inductive Response
  | transport
  | invalid
  | error (code : ℕ)
  | status
  | sample (payload : List UInt8)
  | ack
  | verification
  deriving DecidableEq, Repr

/-- The request that the worker process works on. -/
structure InFlight where
  owner : Owner
  generation : UInt64
  operation : Operation
  /-- The process was killed. -/
  cancelling : Bool := false
  deriving DecidableEq, Repr

/-! ## The system profile -/

/-- What `revokeSystemProfileThen` goes on with, and the epoch of it. -/
inductive Continuation
  | commit (epoch : UInt64)
  | delete (epoch : UInt64)
  | reset (epoch : UInt64)
  deriving DecidableEq, Repr

def Continuation.epoch : Continuation → UInt64
  | commit epoch | delete epoch | reset epoch => epoch

/-- How `revokeSystemProfileThen` proceeds: it waits for the policy to be read; it
    cannot revoke the profile; there is none; or a process revokes it. -/
inductive RevokeReply
  | waits
  | refused
  | unneeded
  | process
  deriving DecidableEq, Repr

/-- A revocation that is under way, by a process or not yet. -/
structure Revocation where
  continuation : Continuation
  process : Bool
  deriving DecidableEq, Repr

/-- The frame of the preview: there is none, or it cannot be copied, or not be sent. -/
inductive FrameReply
  | missing
  | uncopied
  | invalid
  | good
  deriving DecidableEq, Repr

/-- What the surroundings answer during an event. -/
structure Around where
  /-- The calls of the wallet, one after the other, and failures from then on. -/
  wallet : List WalletReply := []
  /-- The revocations, one after the other, and refusals from then on. -/
  revokes : List RevokeReply := []
  frame : FrameReply := .missing
  /-- `beginEnrollmentBudget` succeeds. -/
  budget : Bool := false
  /-- There are `remainingSeconds` of the preview. -/
  remaining : Bool := false
  /-- There are `cooldownRemainingSeconds` since the last local test. -/
  cooldown : Bool := false
  /-- The random bytes of `generateTransientKey`, if there are any. -/
  random : Option (Vector UInt8 keyBytes) := none
  deriving DecidableEq, Repr

end Enrollment

end KFaceAuth
