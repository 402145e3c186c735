import KFaceAuth.Lib.Runs
import KFaceAuth.Policy.Json
import KFaceAuth.Daemon.Supervisor
import Mathlib.Logic.Relation
import Mathlib.Order.Basic
import Mathlib.Data.Int.Order.Basic

/-!
# Handling a request

The daemon's answer to one request (`dispatchRequest`), as a program: for an
authentication it loads the policy, runs the worker, and loads the policy again.

What the calls of the program do is given by a relation (`Daemon.Call`). The
policy file may change before any call (`Daemon.Change`): in place, by
replacement or by removal. Of the file system it is assumed that a file stays
the same file while a descriptor on it is open, and that it gets a later `ctime`
whenever it is modified, linked or unlinked.
-/

namespace KFaceAuth

open Std

/-! ## Time -/

/-- `Duration::from_millis`, in nanoseconds. -/
def millis (n : ℕ) : ℤ := n * 10 ^ 6

/-- `checked_add` and `checked_sub` of instants, which are a 64-bit number of
    seconds and the nanoseconds. -/
def checked (t : ℤ) : Option ℤ :=
  if -2 ^ 63 * 10 ^ 9 ≤ t ∧ t < 2 ^ 63 * 10 ^ 9 then some t else none

def pamResponseReserve : ℤ := millis 100
def pamAttemptWindow : ℤ := millis 30000
def pamAttemptsPerWindow : ℕ := 3

/-! ## The rate limiter -/

/-- `AuthRateLimiter`: the times of the attempts of each user. -/
abbrev AuthRateLimiter := ExtTreeMap UInt32 (List ℤ)

namespace AuthRateLimiter

/-- The attempts still in the window. -/
def retain (l : AuthRateLimiter) (now : ℤ) : AuthRateLimiter :=
  l.filterMap fun _ times =>
    let times := times.filter fun at' => max 0 (now - at') < pamAttemptWindow
    if times.isEmpty then none else some times

/-- `allow_at`. -/
def allowAt (l : AuthRateLimiter) (uid : UInt32) (now : ℤ) : Bool × AuthRateLimiter :=
  let l := l.retain now
  let times := l[uid]?.getD []
  if times.length ≥ pamAttemptsPerWindow then (false, l.insert uid times)
  else (true, l.insert uid (times ++ [now]))

/-- `clear`. -/
def clear (l : AuthRateLimiter) (uid : UInt32) : AuthRateLimiter := l.erase uid

end AuthRateLimiter

/-! ## Calls -/

/-- A device and an inode number on it. -/
abbrev Inode := ℕ × ℕ

/-- The metadata of the policy file. Times are in nanoseconds. -/
structure PolicyMetadata where
  isFile : Bool
  uid : ℕ
  gid : ℕ
  mode : ℕ
  nlink : ℕ
  inode : Inode
  mtime : ℤ
  ctime : ℤ
  len : ℕ
  deriving DecidableEq

/-- `policy_identity`. -/
def policyIdentity (m : PolicyMetadata) : Inode × ℤ × ℤ × ℕ := (m.inode, m.mtime, m.ctime, m.len)

/-- The calls made for a request. Running the worker and writing the response
    are composed of further calls, with their own models. -/
inductive DaemonCall
  /-- Opening `/etc` and the configuration directory, and checking them. -/
  | directory
  /-- `symlink_metadata` of the policy: whether it is a regular file. -/
  | lstat
  | openPolicy
  | fstat (fd : Inode)
  | read (fd : Inode)
  | close (fd : Inode)
  | now
  /-- `remaining_timeout_ms(deadline).is_none()`. -/
  | expired (deadline : ℤ)
  | supervise (uid : UInt32) (authTarget : UInt8) (timeoutMs : ℕ) (deadline : ℤ) (client : Bool)
  | clear (uid : UInt32)
  /-- Loading the key and the vault of a user for a status request. -/
  | vaultStatus (uid : UInt32)
  | profileFreshness (uid : UInt32) (localDigest : List UInt8)
  | readFrame
  | setNonblocking (b : Bool)
  | writeFrame (response : List UInt8)

@[reducible] def DaemonCall.Reply : DaemonCall → Type
  | directory | expired _ | setNonblocking _ | writeFrame _ => Bool
  | lstat => Option Bool
  | openPolicy => Option Inode
  | fstat _ => Option PolicyMetadata
  | read _ | readFrame => Option (List UInt8)
  | close _ | clear _ => Unit
  | now => ℤ
  | supervise .. | profileFreshness .. => UInt8
  | vaultStatus _ => UInt8 × List UInt8

abbrev DaemonProg (α : Type) := Prog DaemonCall DaemonCall.Reply α

/-- The program of a single call. -/
abbrev ask (c : DaemonCall) : DaemonProg c.Reply := Prog.perform c

/-! ## The program -/

/-- `AuthPolicySnapshot`, with the descriptor it holds. -/
structure AuthPolicySnapshot where
  policy : AuthPolicy
  file : Inode
  identity : Inode × ℤ × ℤ × ℕ

/-- `AuthPolicySnapshot::load_from_directory`, once the file is open. -/
def loadOpened (fd : Inode) : DaemonProg (Option AuthPolicySnapshot) := do
  match ← ask (.fstat fd) with
  | none => return none
  | some m =>
    if !m.isFile || m.uid != 0 || m.gid != 0 || m.mode != 0o644 || m.nlink != 1 ||
        m.len > maxPolicyBytes then
      return none
    else
      match ← ask (.read fd) with
      | none => return none
      | some bytes =>
        match AuthPolicy.parseJson bytes with
        | .error _ => return none
        | .ok policy =>
          match ← ask (.fstat fd) with
          | none => return none
          | some m' =>
            if policyIdentity m' = policyIdentity m then return some ⟨policy, fd, policyIdentity m⟩
            else return none

/-- `authentication_policy`: the policy of the system, if it can be loaded. A
    file that is not loaded is closed. -/
def authenticationPolicy : DaemonProg (Option AuthPolicySnapshot) := do
  match ← ask .directory with
  | false => return none
  | true =>
    match ← ask .lstat with
    | some true =>
      match ← ask .openPolicy with
      | none => return none
      | some fd =>
        match ← loadOpened fd with
        | none => do
          ask (.close fd)
          return none
        | some snapshot => return some snapshot
    | _ => return none

/-- `AuthPolicySnapshot::same_file_as`. -/
def AuthPolicySnapshot.sameFileAs (start current : AuthPolicySnapshot) : DaemonProg Bool := do
  match ← ask (.fstat start.file) with
  | none => return false
  | some m => return m.inode = start.identity.1 && start.identity = current.identity

/-- `authentication_target`. -/
def authenticationTarget (authTarget : UInt8) : Option AuthTarget :=
  if authTarget = authTargetSddm then some .sddm
  else if authTarget = authTargetPlasmaLock then some .plasmaLock
  else none

/-- The target is on in the snapshot. -/
def AuthPolicySnapshot.enabled (s : AuthPolicySnapshot) (uid : UInt32) (authTarget : UInt8) :
    Bool :=
  (authenticationTarget authTarget).any fun target => s.policy.modeFor uid target ≠ .off

/-- The deadline of the worker: that of the request, or that of the connection
    if it is earlier, less the time kept for the response. -/
def processingDeadline (now : ℤ) (timeoutMs : ℕ) (deadline : ℤ) : Option ℤ :=
  checked (((checked (now + millis timeoutMs)).elim deadline fun requested =>
    min requested deadline) - pamResponseReserve)

/-- The second load of the policy: whether the first is still current. -/
def isCurrent (start : AuthPolicySnapshot) : DaemonProg Bool := do
  match ← authenticationPolicy with
  | none => return false
  | some current => do
    let same ← start.sameFileAs current
    ask (.close current.file)
    return same

/-- The `PamAuth` case of `dispatch_request_until_with_client`, once the policy
    is loaded. -/
def attempt (maxTimeoutMs : ℕ) (uid : UInt32) (authTarget : UInt8) (timeoutMs : ℕ) (deadline : ℤ)
    (client : Bool) (start : AuthPolicySnapshot) : DaemonProg (List UInt8) := do
  let timeoutMs := min (min timeoutMs maxTimeoutMs) defaultPamTimeoutMs
  let now ← ask .now
  match processingDeadline now timeoutMs deadline with
  | none => return encodeDaemonResponse statusTimeout []
  | some processing => do
    let status ← ask (.supervise uid authTarget timeoutMs processing client)
    if status = statusSuccess then
      match ← isCurrent start with
      | false => return encodeDaemonResponse statusAccessDenied []
      | true => do
        ask (.clear uid)
        return encodeDaemonResponse status []
    else return encodeDaemonResponse status []

/-- The `PamAuth` case of `dispatch_request_until_with_client`. -/
def dispatchPamAuth (maxTimeoutMs : ℕ) (uid : UInt32) (authTarget : UInt8) (timeoutMs : ℕ)
    (deadline : ℤ) (client : Bool) : DaemonProg (List UInt8) := do
  match ← authenticationPolicy with
  | none => return encodeDaemonResponse statusAccessDenied []
  | some start =>
    if start.enabled uid authTarget then do
      let response ← attempt maxTimeoutMs uid authTarget timeoutMs deadline client start
      ask (.close start.file)
      return response
    else do
      ask (.close start.file)
      return encodeDaemonResponse statusAccessDenied []

/-- The response to a freshness request. Only the user itself is told. -/
def dispatchFreshness (uid : UInt32) (localDigest : List UInt8) (peer : UInt32) (deadline : ℤ) :
    DaemonProg (List UInt8) := do
  let unknown := [0, 3, if peer = uid then statusSuccess else statusAccessDenied, 0, 0]
  if peer = uid then
    match ← ask (.expired deadline) with
    | true => return unknown
    | false => do
      let freshness ← ask (.profileFreshness uid localDigest)
      return [0, 3, statusSuccess, 0, freshness]
  else return unknown

/-- `dispatch_request_until_with_client`. -/
def dispatchRequest (maxTimeoutMs : ℕ) (request : DaemonRequest) (peer : UInt32) (deadline : ℤ)
    (client : Bool) : DaemonProg (List UInt8) :=
  match request with
  | .freshness uid localDigest => dispatchFreshness uid localDigest peer deadline
  | .pamAuth uid authTarget timeoutMs _ =>
    if isAuthorized peer uid then
      dispatchPamAuth maxTimeoutMs uid authTarget timeoutMs deadline client
    else return encodeDaemonResponse statusAccessDenied []
  | .status uid =>
    if isAuthorized peer uid then do
      let (status, extra) ← ask (.vaultStatus uid)
      return encodeDaemonResponse status extra
    else return encodeDaemonResponse statusAccessDenied []

/-! ## What the calls do -/

/-- A file that is, was or may become the policy. -/
structure PolicyFile where
  isFile : Bool
  uid : ℕ
  gid : ℕ
  mode : ℕ
  nlink : ℕ
  mtime : ℤ
  ctime : ℤ
  bytes : List UInt8

def PolicyFile.metadata (f : PolicyFile) (i : Inode) : PolicyMetadata :=
  ⟨f.isFile, f.uid, f.gid, f.mode, f.nlink, i, f.mtime, f.ctime, f.bytes.length⟩

/-- What happened: a change of the policy file, or a call of the daemon. -/
inductive Entry
  | change
  | call (c : DaemonCall) (r : c.Reply)

/-- The file at the path of the policy, the files by inode, the descriptors the
    daemon holds, the record of attempts, the bytes the client's socket has
    accepted (of progress reports, and of the response), and what happened. -/
structure Daemon where
  path : Option Inode
  files : Inode → PolicyFile
  opened : List Inode
  limiter : AuthRateLimiter
  progress : List UInt8
  answer : List UInt8
  log : List Entry

/-- The answers of the system to `supervise_auth_worker` before its loop. -/
structure StartReplies where
  /-- The lock of the worker's slot is free. -/
  slotFree : Bool
  /-- There is no earlier worker, or it has exited. -/
  previousExited : Bool
  expired : Bool
  now : ℤ
  spawned : Bool
  requestWritten : Bool
  nonblocking : Bool

/-- `supervise_auth_worker` up to its loop: the status it returns if it does not
    get there. -/
def startAuthWorker (r : StartReplies) (uid : UInt32) (l : AuthRateLimiter) :
    Except UInt8 Unit × AuthRateLimiter :=
  if !r.slotFree || !r.previousExited then (.error statusDeviceBusy, l)
  else if r.expired then (.error statusTimeout, l)
  else
    match l.allowAt uid r.now with
    | (false, l) => (.error statusRateLimited, l)
    | (true, l) =>
      if !r.spawned || !r.requestWritten || !r.nonblocking then (.error statusInternalError, l)
      else (.ok (), l)

/-- A write through `DeadlineStream`. -/
inductive StreamReply
  /-- The deadline has passed, or the timeout of the socket could not be set. -/
  | expired
  | accepted (n : ℕ)
  | wouldBlock
  | interrupted
  | failed
  deriving DecidableEq, Repr

/-- `write_all`: the bytes accepted, whether all were, and the answers left. -/
def writeAll : List UInt8 → List StreamReply → Option (List UInt8 × Bool × List StreamReply)
  | [], rs => some ([], true, rs)
  | _ :: _, [] => none
  | b :: bs, .interrupted :: rs => writeAll (b :: bs) rs
  | b :: bs, .accepted (n + 1) :: rs =>
    (writeAll (bs.drop n) rs).map fun (done, ok, rs) => (b :: (bs.take n ++ done), ok, rs)
  | _ :: _, _ :: rs => some ([], false, rs)

/-- `write_frame`: the bytes accepted, and whether it succeeded. -/
def writeFrame (payload : List UInt8) (rs : List StreamReply) (flushed : Bool) :
    Option (List UInt8 × Bool) :=
  if payload.isEmpty || payload.length > maxDaemonResponseBytes then some ([], false)
  else
    (writeAll (be32 payload.length) rs).bind fun
      | (header, false, _) => some (header, false)
      | (header, true, rs) =>
        (writeAll payload rs).map fun (body, ok, _) => (header ++ body, ok && flushed)

namespace Daemon

/-- A change of the policy file. A file with an open descriptor stays the same
    file, and is given a later `ctime` if it is modified; being or becoming the
    policy when the policy changes is such a modification. -/
structure Change (w w' : Daemon) : Prop where
  kept : ∀ i ∈ w.opened, w'.files i = w.files i ∨ (w.files i).ctime < (w'.files i).ctime
  stamped : ∀ i ∈ w.opened, w.path = some i ∨ w'.path = some i →
    (w.files i).ctime < (w'.files i).ctime
  rest : w' = { w with path := w'.path, files := w'.files, log := w.log ++ [Entry.change] }

/-- The call `c` is answered by `r`. -/
def Exec (w : Daemon) : (c : DaemonCall) → c.Reply → Daemon → Prop
  | .lstat, r, w' => w' = w ∧ ∀ b, r = some b → ∃ i, w.path = some i ∧ b = (w.files i).isFile
  | .openPolicy, r, w' =>
    (r = none ∧ w' = w) ∨ ∃ i, r = some i ∧ w.path = some i ∧ w' = { w with opened := i :: w.opened }
  | .fstat i, r, w' => w' = w ∧ ∀ m, r = some m → m = (w.files i).metadata i
  | .read i, r, w' => w' = w ∧ ∀ bs, r = some bs → bs = (w.files i).bytes.take (maxPolicyBytes + 1)
  | .close i, _, w' => w' = { w with opened := w.opened.erase i }
  | .supervise uid _ _ _ client, status, w' =>
    ∃ replies, match startAuthWorker replies uid w.limiter with
      | (.error early, limiter) => status = early ∧ w' = { w with limiter }
      | (.ok (), limiter) => ∃ es s, (Supervisor.start client).run client es = some s ∧
          s.phase = .returned status ∧ w' = { w with limiter, progress := w.progress ++ s.sent }
  | .clear uid, _, w' => w' = { w with limiter := w.limiter.clear uid }
  | .writeFrame response, ok, w' => ∃ rs flushed accepted,
      writeFrame response rs flushed = some (accepted, ok) ∧
      w' = { w with answer := w.answer ++ accepted }
  | _, _, w' => w' = w

/-- A call, after any changes of the policy file. -/
def Call (w : Daemon) (c : DaemonCall) (r : c.Reply) (w' : Daemon) : Prop :=
  ∃ w₁ w₂, Relation.ReflTransGen Change w w₁ ∧ w₁.Exec c r w₂ ∧
    w' = { w₂ with log := w₂.log ++ [Entry.call c r] }

end Daemon

end KFaceAuth
