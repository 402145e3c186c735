import KFaceAuth.Daemon.Connection
import KFaceAuth.Daemon.Requests
import KFaceAuth.Lib.Machine

/-!
# The PAM module

`pam_sm_authenticate` finds out whom the request is for, connects to the daemon, sends
the request and reads the response, all before one deadline. Every call it makes is
answered from outside (`Event`): the clock, `poll`, and the calls on the socket, which
may take or give any part of the bytes, be interrupted, or fail. Between two calls the
module is in one of the phases below, so that a run of it is the list of the answers.

* `success_iff_frames`: it lets the user in exactly when the whole request was sent
  and progress reports followed by a positive response were received, however the
  bytes were cut;
* `shown_of_reachable`: what the greeter is shown, and that a refusal is that of the
  bytes received;
* `ends_after_deadline`: once the deadline has passed, the module soon returns.
-/

namespace KFaceAuth

/-- Who calls the module, and what the system says about accounts. -/
structure Caller where
  /-- `PAM_SERVICE` -/
  service : Option String
  /-- The user that `pam_get_user` gives. -/
  user : Option (List UInt8)
  /-- The name of the account of the calling process, by `getpwuid`. -/
  self : Option (List UInt8)
  /-- `getpwnam` -/
  account : List UInt8 → Option UInt32

/-- `auth_target_for_service` -/
def authTargetForService : Option String → Option UInt8
  | none => none
  | some service =>
    if service = "sddm-kfaceauth" then some authTargetSddm
    else if service = "kde-kfaceauth" then some authTargetPlasmaLock
    else none

/-- The user of the request. Callers that give none are asking for themselves. -/
def Caller.username (c : Caller) : Option (List UInt8) :=
  match c.user with
  | none | some [] => c.self
  | some user => some user

namespace PamModule

/-! ## Answers from outside -/

/-- `errno`, as far as its values are told apart. -/
inductive Errno
  | interrupted
  /-- `EAGAIN` or `EWOULDBLOCK` -/
  | again
  | inProgress
  | timedOut
  | other
  deriving DecidableEq, Repr

/-- `revents`, as `poll` leaves them. -/
structure Revents where
  input : Bool
  output : Bool
  err : Bool
  nval : Bool
  hup : Bool
  deriving DecidableEq, Repr

/-- The answer to the call the module is at. -/
inductive Event
  | socket (r : Except Errno Unit)
  | clock (r : Except Errno Timespec)
  /-- `fcntl`, for the flags of the socket and then to set them. -/
  | fcntl (r : Except Errno Unit)
  | connect (r : Except Errno Unit)
  /-- Nothing, if the time is up. -/
  | poll (r : Except Errno (Option Revents))
  /-- `getsockopt`: the error of the socket, if there is one. -/
  | socketError (r : Except Errno (Option Errno))
  | send (r : Except Errno ℕ)
  | recv (r : Except Errno (List UInt8))

/-! ## The module -/

/-- What the module waits for in `wait_for_fd`. -/
inductive Use
  /-- `connect_until` -/
  | connecting
  /-- `send_all_until`, with what is left of the request. -/
  | sending (left : List UInt8)
  /-- `read_all_until`, with what there is of the header. -/
  | header (got : List UInt8)
  /-- `read_all_until`, with what there is of the body. -/
  | body (got : List UInt8)
  deriving DecidableEq, Repr

/-- Whether it waits for `POLLIN`. It waits for `POLLOUT` otherwise. -/
def Use.reads : Use → Bool
  | .header _ | .body _ => true
  | .connecting | .sending _ => false

/-- The events that are waited for, or the end of the connection for a reader. -/
def Revents.answer (r : Revents) (use : Use) : Bool :=
  (if use.reads then r.input else r.output) || (use.reads && r.hup)

/-- The call the module is at. -/
inductive Phase
  | socket
  /-- Reading the clock, to set the deadline. -/
  | start
  | getFlags
  | setFlags
  | connect
  /-- `remaining_timeout_ms` in `wait_for_fd`. -/
  | clock (use : Use)
  | poll (use : Use) (timeoutMs : ℤ)
  | socketError
  /-- `remaining_timeout_ms`, for the timeout in the request. -/
  | request
  /-- `send` or `recv`, once the socket is ready. -/
  | transfer (use : Use)
  /-- `PAM_SUCCESS` or `PAM_AUTH_ERR` -/
  | returned (success : Bool)
  deriving DecidableEq, Repr

end PamModule

/-- The variables of `pam_sm_authenticate`, the bytes that went over the socket, and the
    messages that were passed to `pam_info`. -/
structure PamModule where
  phase : PamModule.Phase
  authTarget : UInt8
  targetUid : UInt32
  username : List UInt8
  deadline : Option Timespec
  sent : List UInt8
  received : List UInt8
  shown : List String

namespace PamModule

/-- `fail_with_status` -/
def failWithStatus (s : PamModule) (status : String) : PamModule :=
  { s with phase := .returned false, shown := s.shown ++ [status] }

/-- `continue_with_password` -/
def continueWithPassword (s : PamModule) : PamModule :=
  s.failWithStatus "KFACEAUTH_STATUS=use-password"

/-- Returning, with the status of an error. -/
def finish (s : PamModule) : PamResult → PamModule
  | .success => { s with phase := .returned true }
  | .authErr status => s.failWithStatus status

/-- `daemon_unavailable` -/
def unavailable (s : PamModule) (e : Errno) : PamModule :=
  s.finish (daemonUnavailable (e = .timedOut))

/-- Until the socket is opened: the target, the user and the account. -/
def begin (c : Caller) : PamModule :=
  let s : PamModule := ⟨.socket, 0, 0, [], none, [], [], []⟩
  match authTargetForService c.service with
  | none => { s with phase := .returned false }
  | some authTarget =>
    let s := { s with authTarget, shown := ["KFACEAUTH_STATUS=starting-camera"] }
    match c.username with
    | none => s.continueWithPassword
    | some username =>
      match c.account username with
      | none => s.continueWithPassword
      | some targetUid => { s with targetUid, username }

/-- Once the socket is connected. -/
def connected (s : PamModule) : PamModule :=
  if 255 < s.username.length then s.continueWithPassword else { s with phase := .request }

/-- What is done with the descriptor when `wait_for_fd` returns. -/
def ready (s : PamModule) : Use → PamModule
  | .connecting => { s with phase := .socketError }
  | use => { s with phase := .transfer use }

/-- `wait_for_fd`, with the answer of `poll`. -/
def polled (s : PamModule) (use : Use) : Except Errno (Option Revents) → PamModule
  | .error .interrupted => { s with phase := .clock use }
  | .error e => s.unavailable e
  | .ok none => s.unavailable .timedOut
  | .ok (some r) =>
    if r.err || r.nval then s.unavailable .other
    else if r.hup && !use.reads then s.unavailable .other
    else if r.answer use then s.ready use
    else { s with phase := .clock use }

/-- The request, with the time that remains. -/
def request (s : PamModule) (remainingMs : ℤ) : PamModule :=
  match pamRequest s.authTarget s.targetUid remainingMs.toNat s.username with
  | none => s.continueWithPassword
  | some frame => { s with phase := .clock (.sending frame) }

/-- `send_all_until`, with the answer of `send`. -/
def sentSome (s : PamModule) (left : List UInt8) : Except Errno ℕ → Option PamModule
  | .error .interrupted | .error .again => some { s with phase := .clock (.sending left) }
  | .error e => some (s.unavailable e)
  | .ok n =>
    if n = 0 then some (s.unavailable .other)
    else if n ≤ left.length then
      let use : Use := if left.drop n = [] then .header [] else .sending (left.drop n)
      some { s with phase := .clock use, sent := s.sent ++ left.take n }
    else none

/-- The checks on a whole header. -/
def headerRead (s : PamModule) (header : List UInt8) : PamModule :=
  if ofBe header ≠ 4 then s.failWithStatus "KFACEAUTH_STATUS=service-unavailable"
  else { s with phase := .clock (.body []) }

/-- The checks on a whole body. -/
def bodyRead (s : PamModule) (body : List UInt8) : PamModule :=
  if ofBe (body.take 2) ≠ daemonProtocolVersion ∨ body.getD 3 0 ≠ 0 then
    s.failWithStatus "KFACEAUTH_STATUS=service-unavailable"
  else if body.getD 2 0 = statusProgressLookingForFace then
    { s with
      phase := .clock (.header [])
      shown := s.shown ++ ["KFACEAUTH_STATUS=looking-for-face"] }
  else s.finish (pamResult (body.getD 2 0))

/-- `read_all_until` of four bytes, with the answer of `recv`. -/
def receivedSome (s : PamModule) (use : List UInt8 → Use)
    (whole : PamModule → List UInt8 → PamModule) (got : List UInt8) :
    Except Errno (List UInt8) → Option PamModule
  | .error .interrupted | .error .again => some { s with phase := .clock (use got) }
  | .error e => some (s.unavailable e)
  | .ok bytes =>
    if bytes = [] then some (s.unavailable .other)
    else if (got ++ bytes).length ≤ 4 then
      let s := { s with received := s.received ++ bytes }
      if (got ++ bytes).length < 4 then some { s with phase := .clock (use (got ++ bytes)) }
      else some (whole s (got ++ bytes))
    else none

/-- What the module does with the answer to the call it is at. -/
def step (s : PamModule) (e : Event) : Option PamModule :=
  match s.phase, e with
  | .socket, .socket (.error e) => some (s.unavailable e)
  | .socket, .socket (.ok ()) => some { s with phase := .start }
  | .start, .clock (.error e) => some (s.unavailable e)
  | .start, .clock (.ok now) => some { s with phase := .getFlags, deadline := pamDeadline now }
  | .getFlags, .fcntl (.error e) => some (s.unavailable e)
  | .getFlags, .fcntl (.ok ()) => some { s with phase := .setFlags }
  | .setFlags, .fcntl (.error e) => some (s.unavailable e)
  | .setFlags, .fcntl (.ok ()) => some { s with phase := .connect }
  | .connect, .connect (.error e) =>
    if e = .inProgress ∨ e = .again then some { s with phase := .clock .connecting }
    else some (s.unavailable e)
  | .connect, .connect (.ok ()) => some s.connected
  | .clock _, .clock (.error e) => some (s.unavailable e)
  | .clock use, .clock (.ok now) =>
    match s.deadline.bind (remainingTimeoutMs · now) with
    | none => some (s.unavailable .timedOut)
    | some timeoutMs => some { s with phase := .poll use timeoutMs }
  | .poll use _, .poll r => some (s.polled use r)
  | .socketError, .socketError (.error e) => some (s.unavailable e)
  | .socketError, .socketError (.ok (some e)) => some (s.unavailable e)
  | .socketError, .socketError (.ok none) => some s.connected
  | .request, .clock (.error _) => some (s.failWithStatus "KFACEAUTH_STATUS=timeout")
  | .request, .clock (.ok now) =>
    match s.deadline.bind (remainingTimeoutMs · now) with
    | none => some (s.failWithStatus "KFACEAUTH_STATUS=timeout")
    | some remainingMs => some (s.request remainingMs)
  | .transfer (.sending left), .send r => s.sentSome left r
  | .transfer (.header got), .recv r => s.receivedSome .header headerRead got r
  | .transfer (.body got), .recv r => s.receivedSome .body bodyRead got r
  | _, _ => none

/-- `pam_sm_authenticate` -/
def machine (c : Caller) : Machine PamModule Event := ⟨begin c, step⟩

/-! ## What a run has done -/

open Supervisor (report)

/-- `k` progress reports. -/
def frames (k : ℕ) : List UInt8 := (List.replicate k report).flatten

/-- What the greeter is shown while the module is at work. -/
def progressShown (k : ℕ) : List String :=
  "KFACEAUTH_STATUS=starting-camera" :: List.replicate k "KFACEAUTH_STATUS=looking-for-face"

/-- The target, the user and the account are those of the caller. -/
structure Serves (c : Caller) (s : PamModule) : Prop where
  target : authTargetForService c.service = some s.authTarget
  user : c.username = some s.username
  account : c.account s.username = some s.targetUid

/-- The whole request was sent. -/
def Sent (s : PamModule) : Prop :=
  ∃ remainingMs, pamRequest s.authTarget s.targetUid remainingMs s.username = some s.sent

/-- Nothing was sent or received. -/
structure Fresh (s : PamModule) : Prop where
  sent : s.sent = []
  received : s.received = []
  shown : s.shown = progressShown 0

/-- What went over the socket, by what the module waits for. -/
def AtUse (s : PamModule) : Use → Prop
  | .connecting => s.Fresh
  | .sending left => left ≠ [] ∧ s.received = [] ∧ s.shown = progressShown 0 ∧
      ∃ remainingMs, pamRequest s.authTarget s.targetUid remainingMs s.username =
        some (s.sent ++ left)
  | .header got => s.Sent ∧ got.length < 4 ∧ ∃ k, s.received = frames k ++ got ∧
      s.shown = progressShown k
  | .body got => s.Sent ∧ got.length < 4 ∧ ∃ k, s.received = frames k ++ (be32 4 ++ got) ∧
      s.shown = progressShown k

/-- A refusal before the response, or that of the response. -/
def Refused (s : PamModule) : Prop :=
  ∃ k status, s.shown = progressShown k ++ [status] ∧
    (k = 0 ∧ s.received = [] ∧ status ∈ ["KFACEAUTH_STATUS=timeout",
        "KFACEAUTH_STATUS=service-unavailable", "KFACEAUTH_STATUS=use-password"] ∨
      s.Sent ∧ ∃ timedOut rest, s.received = frames k ++ rest ∧ ¬ report <+: rest ∧
        pamReceive timedOut rest = .authErr status)

/-- The service has no face authentication. -/
structure Unsupported (c : Caller) (s : PamModule) : Prop where
  target : authTargetForService c.service = none
  sent : s.sent = []
  received : s.received = []
  shown : s.shown = []

/-- A positive response was received. -/
def Admitted (s : PamModule) : Prop :=
  s.Sent ∧ ∃ k, s.received = frames k ++ framed (encodeDaemonResponse statusSuccess []) ∧
    s.shown = progressShown k

/-- What holds in each phase. -/
def Inv (c : Caller) (s : PamModule) : Prop :=
  match s.phase with
  | .returned true => Serves c s ∧ s.Admitted
  | .returned false => Unsupported c s ∨ s.Refused
  | .clock use | .poll use _ | .transfer use => Serves c s ∧ s.AtUse use
  | .socket | .start | .getFlags | .setFlags | .connect | .socketError | .request =>
    Serves c s ∧ s.Fresh

variable {c : Caller} {s s' : PamModule}

theorem pamReceive_short {timedOut : Bool} {got : List UInt8} (h : got.length < 4) :
    pamReceive timedOut got = daemonUnavailable timedOut := by
  rcases got with _ | ⟨_, _ | ⟨_, _ | ⟨_, _ | ⟨_, rest⟩⟩⟩⟩
  case cons.cons.cons.cons =>
    rw [List.length_cons, List.length_cons, List.length_cons, List.length_cons] at h
    omega
  all_goals rfl

theorem pamReceive_header {timedOut : Bool} {got : List UInt8} (h : got.length < 4) :
    pamReceive timedOut (be32 4 ++ got) = daemonUnavailable timedOut := by
  rcases got with _ | ⟨_, _ | ⟨_, _ | ⟨_, _ | ⟨_, rest⟩⟩⟩⟩
  case cons.cons.cons.cons =>
    rw [List.length_cons, List.length_cons, List.length_cons, List.length_cons] at h
    omega
  all_goals rfl

/-- A refusal while nothing was received. -/
theorem inv_early {status : String} (hreceived : s.received = [])
    (hshown : s.shown = progressShown 0)
    (h : status ∈ ["KFACEAUTH_STATUS=timeout", "KFACEAUTH_STATUS=service-unavailable",
      "KFACEAUTH_STATUS=use-password"]) : Inv c (s.failWithStatus status) :=
  .inr ⟨0, status, by rw [failWithStatus, hshown], .inl ⟨rfl, hreceived, h⟩⟩

/-- A refusal of what was received after `k` reports. -/
theorem inv_late {status : String} {k : ℕ} {rest : List UInt8} (timedOut : Bool) (hsent : s.Sent)
    (hreceived : s.received = frames k ++ rest) (hshown : s.shown = progressShown k)
    (hrest : ¬ report <+: rest) (h : pamReceive timedOut rest = .authErr status) :
    Inv c (s.failWithStatus status) :=
  .inr ⟨k, status, by rw [failWithStatus, hshown],
    .inr ⟨hsent, timedOut, rest, hreceived, hrest, h⟩⟩

theorem not_report_of_short {rest : List UInt8} (h : rest.length < 8) : ¬ report <+: rest := by
  intro hprefix
  have hlen : report.length = 8 := by decide
  have := hprefix.length_le
  omega

theorem mem_statuses (timedOut : Bool) :
    (if timedOut then "KFACEAUTH_STATUS=timeout" else "KFACEAUTH_STATUS=service-unavailable") ∈
      ["KFACEAUTH_STATUS=timeout", "KFACEAUTH_STATUS=service-unavailable",
        "KFACEAUTH_STATUS=use-password"] := by
  cases timedOut <;> simp

theorem Fresh.unavailable (h : s.Fresh) (e : Errno) : Inv c (s.unavailable e) :=
  inv_early h.received h.shown (mem_statuses _)

theorem AtUse.unavailable {use : Use} (h : s.AtUse use) (e : Errno) : Inv c (s.unavailable e) := by
  cases use with
  | connecting => exact Fresh.unavailable h e
  | sending left => exact inv_early h.2.1 h.2.2.1 (mem_statuses _)
  | header got =>
    obtain ⟨hsent, hgot, k, hreceived, hshown⟩ := h
    refine inv_late (e = .timedOut) hsent hreceived hshown (not_report_of_short (by omega)) ?_
    rw [pamReceive_short hgot]
    rfl
  | body got =>
    obtain ⟨hsent, hgot, k, hreceived, hshown⟩ := h
    refine inv_late (e = .timedOut) hsent hreceived hshown (not_report_of_short ?_) ?_
    · rw [List.length_append, length_be32]
      omega
    · rw [pamReceive_header hgot]
      rfl

theorem inv_begin (c : Caller) : Inv c (begin c) := by
  cases ht : authTargetForService c.service with
  | none =>
    simp only [begin, ht]
    exact .inl ⟨ht, rfl, rfl, rfl⟩
  | some target =>
    cases hu : c.username with
    | none =>
      simp only [begin, ht, hu]
      exact inv_early rfl rfl (by simp)
    | some user =>
      cases ha : c.account user with
      | none =>
        simp only [begin, ht, hu, ha]
        exact inv_early rfl rfl (by simp)
      | some uid =>
        simp only [begin, ht, hu, ha]
        exact ⟨⟨ht, hu, ha⟩, rfl, rfl, rfl⟩

theorem inv_connected (hs : Serves c s) (h : s.Fresh) : Inv c s.connected := by
  unfold connected
  split_ifs
  · exact inv_early h.received h.shown (by simp)
  · exact ⟨⟨hs.target, hs.user, hs.account⟩, h.sent, h.received, h.shown⟩

theorem inv_ready {use : Use} (hs : Serves c s) (h : s.AtUse use) : Inv c (s.ready use) := by
  have hs' : Serves c { s with phase := (s.ready use).phase } := ⟨hs.target, hs.user, hs.account⟩
  cases use with
  | connecting => exact ⟨hs', h.sent, h.received, h.shown⟩
  | sending left => exact ⟨hs', h⟩
  | header got => exact ⟨hs', h⟩
  | body got => exact ⟨hs', h⟩

theorem AtUse.phase {use : Use} {phase : Phase} (h : s.AtUse use) :
    AtUse { s with phase } use := by
  cases use with
  | connecting => exact ⟨h.sent, h.received, h.shown⟩
  | sending left => exact h
  | header got => exact h
  | body got => exact h

theorem inv_polled {use : Use} (hs : Serves c s) (h : s.AtUse use)
    (r : Except Errno (Option Revents)) : Inv c (s.polled use r) := by
  have hclock : Inv c { s with phase := .clock use } :=
    ⟨⟨hs.target, hs.user, hs.account⟩, h.phase⟩
  cases r with
  | error e =>
    cases e with
    | interrupted => exact hclock
    | again | inProgress | timedOut | other => exact h.unavailable _
  | ok revents =>
    cases revents with
    | none => exact h.unavailable _
    | some revents =>
      simp only [polled]
      split
      · exact h.unavailable _
      split
      · exact h.unavailable _
      split
      · exact inv_ready hs h
      · exact hclock

theorem inv_request (hs : Serves c s) (h : s.Fresh) (remainingMs : ℤ) :
    Inv c (s.request remainingMs) := by
  unfold request
  cases hr : pamRequest s.authTarget s.targetUid remainingMs.toNat s.username with
  | none => exact inv_early h.received h.shown (by simp)
  | some frame =>
    refine ⟨⟨hs.target, hs.user, hs.account⟩, ?_, h.received, h.shown, remainingMs.toNat, ?_⟩
    · rintro rfl
      unfold pamRequest at hr
      split_ifs at hr
      have := congrArg List.length (Option.some.inj hr)
      simp at this
    · rw [hr, h.sent, List.nil_append]

theorem inv_sentSome {left : List UInt8} (hs : Serves c s) (h : s.AtUse (.sending left))
    {r : Except Errno ℕ} (hr : s.sentSome left r = some s') : Inv c s' := by
  have hclock : Inv c { s with phase := .clock (.sending left) } :=
    ⟨⟨hs.target, hs.user, hs.account⟩, h.phase⟩
  have hbad : ∀ {e : Errno}, some (s.unavailable e) = some s' → Inv c s' :=
    fun he => Option.some.inj he ▸ h.unavailable _
  cases r with
  | error e =>
    cases e with
    | interrupted | again => exact Option.some.inj hr ▸ hclock
    | inProgress | timedOut | other => exact hbad hr
  | ok n =>
    simp only [sentSome] at hr
    split at hr
    · exact hbad hr
    split at hr
    · obtain ⟨-, hreceived, hshown, remainingMs, hrequest⟩ := h
      rw [← List.take_append_drop n left, ← List.append_assoc] at hrequest
      obtain rfl := Option.some.inj hr
      by_cases hleft : left.drop n = []
      · -- the request is complete
        rw [hleft, List.append_nil] at hrequest
        rw [if_pos hleft]
        exact ⟨⟨hs.target, hs.user, hs.account⟩, ⟨remainingMs, hrequest⟩, by simp, 0, hreceived,
          hshown⟩
      · rw [if_neg hleft]
        exact ⟨⟨hs.target, hs.user, hs.account⟩, hleft, hreceived, hshown, remainingMs, hrequest⟩
    · cases hr

theorem frames_succ (k : ℕ) : frames (k + 1) = frames k ++ report := by
  simp [frames, List.replicate_succ']

theorem progressShown_succ (k : ℕ) :
    progressShown (k + 1) = progressShown k ++ ["KFACEAUTH_STATUS=looking-for-face"] := by
  simp [progressShown, List.replicate_succ']

theorem inv_headerRead {header : List UInt8} {k : ℕ} (hs : Serves c s) (hsent : s.Sent)
    (hlen : header.length = 4) (hreceived : s.received = frames k ++ header)
    (hshown : s.shown = progressShown k) : Inv c (s.headerRead header) := by
  unfold headerRead
  split_ifs with hfour
  · refine inv_late false hsent hreceived hshown (not_report_of_short (by omega)) ?_
    obtain ⟨h₀, h₁, h₂, h₃, rfl⟩ := List.length_eq_four.1 hlen
    have hread : pamReceive false [h₀, h₁, h₂, h₃] = if ofBe [h₀, h₁, h₂, h₃] ≠ 4 then
        .authErr "KFACEAUTH_STATUS=service-unavailable" else daemonUnavailable false := rfl
    rw [hread, if_pos hfour]
  · have hheader : header = be32 4 := by
      rw [be32_eq]
      exact toBe_eq_of_ofBe hlen (not_not.1 hfour)
    refine ⟨⟨hs.target, hs.user, hs.account⟩, hsent, by simp, k, ?_, hshown⟩
    rw [List.append_nil, ← hheader]
    exact hreceived

/-- A frame of four bytes that is no progress report. -/
theorem not_report_of_body {b₀ b₁ b₂ b₃ : UInt8}
    (h : ofBe [b₀, b₁] ≠ daemonProtocolVersion ∨ b₃ ≠ 0 ∨ b₂ ≠ statusProgressLookingForFace) :
    ¬ report <+: be32 4 ++ [b₀, b₁, b₂, b₃] := by
  intro hprefix
  have heq : [0, 0, 0, 4, 0, 2, 0x80, 0] = [0, 0, 0, 4, b₀, b₁, b₂, b₃] :=
    hprefix.eq_of_length rfl
  simp only [List.cons.injEq, and_true, true_and] at heq
  obtain ⟨rfl, rfl, rfl, rfl⟩ := heq
  revert h
  decide

theorem inv_bodyRead {body : List UInt8} {k : ℕ} (hs : Serves c s) (hsent : s.Sent)
    (hlen : body.length = 4) (hreceived : s.received = frames k ++ (be32 4 ++ body))
    (hshown : s.shown = progressShown k) : Inv c (s.bodyRead body) := by
  obtain ⟨b₀, b₁, b₂, b₃, rfl⟩ := List.length_eq_four.1 hlen
  have hread : pamReceive false (be32 4 ++ [b₀, b₁, b₂, b₃]) =
      if ofBe [b₀, b₁] ≠ daemonProtocolVersion ∨ b₃ ≠ 0 then
        .authErr "KFACEAUTH_STATUS=service-unavailable"
      else if b₂ = statusProgressLookingForFace then pamReceive false [] else pamResult b₂ := rfl
  have version : ¬ (ofBe [b₀, b₁] ≠ daemonProtocolVersion ∨ b₃ ≠ 0) →
      b₀ = 0 ∧ b₁ = 2 ∧ b₃ = 0 := by
    intro hgood
    rw [not_or, not_not, not_not] at hgood
    have htwo : [b₀, b₁] = toBe 2 2 := toBe_eq_of_ofBe rfl hgood.1
    simp only [toBe, List.nil_append, List.cons_append, List.cons.injEq, and_true] at htwo
    exact ⟨htwo.1, htwo.2, hgood.2⟩
  change Inv c (if ofBe [b₀, b₁] ≠ daemonProtocolVersion ∨ b₃ ≠ 0 then _ else
    if b₂ = statusProgressLookingForFace then _ else s.finish (pamResult b₂))
  split_ifs at hread ⊢ with hbad hprogress
  · refine inv_late false hsent hreceived hshown (not_report_of_body ?_) hread
    exact hbad.imp_right .inl
  · obtain ⟨rfl, rfl, rfl⟩ := version hbad
    refine ⟨⟨hs.target, hs.user, hs.account⟩, hsent, by simp, k + 1, ?_, ?_⟩
    · rw [List.append_nil, frames_succ]
      simp only [hreceived, hprogress]
      rfl
    · rw [progressShown_succ, ← hshown]
  · cases hresult : pamResult b₂ with
    | authErr status =>
      rw [hresult] at hread
      exact inv_late false hsent hreceived hshown (not_report_of_body (.inr (.inr hprogress))) hread
    | success =>
      obtain ⟨rfl, rfl, rfl⟩ := version hbad
      refine ⟨⟨hs.target, hs.user, hs.account⟩, hsent, k, ?_, hshown⟩
      simp only [finish, hreceived, pamResult_eq_success hresult]
      rfl

/-- A reader of four bytes: what it has is at the end of what was received. -/
theorem inv_receivedSome {use : List UInt8 → Use} {whole : PamModule → List UInt8 → PamModule}
    {got : List UInt8} (before : List UInt8) (hs : Serves c s)
    (huse : ∀ (s : PamModule) got, s.AtUse (use got) ↔ s.Sent ∧ got.length < 4 ∧
      ∃ k, s.received = frames k ++ (before ++ got) ∧ s.shown = progressShown k)
    (hwhole : ∀ {s got k}, Serves c s → s.Sent → got.length = 4 →
      s.received = frames k ++ (before ++ got) → s.shown = progressShown k → Inv c (whole s got))
    (h : s.AtUse (use got)) {r : Except Errno (List UInt8)}
    (hr : s.receivedSome use whole got r = some s') : Inv c s' := by
  have hclock : Inv c { s with phase := .clock (use got) } :=
    ⟨⟨hs.target, hs.user, hs.account⟩, h.phase⟩
  have hbad : ∀ {e : Errno}, some (s.unavailable e) = some s' → Inv c s' :=
    fun he => Option.some.inj he ▸ h.unavailable _
  cases r with
  | error e =>
    cases e with
    | interrupted | again => exact Option.some.inj hr ▸ hclock
    | inProgress | timedOut | other => exact hbad hr
  | ok bytes =>
    simp only [receivedSome] at hr
    obtain ⟨hsent, -, k, hreceived, hshown⟩ := (huse s got).1 h
    have hmore : s.received ++ bytes = frames k ++ (before ++ (got ++ bytes)) := by
      rw [hreceived, List.append_assoc, List.append_assoc]
    split at hr
    · exact hbad hr
    split at hr
    · next hfour =>
      split at hr
      · next hshort =>
        obtain rfl := Option.some.inj hr
        exact ⟨⟨hs.target, hs.user, hs.account⟩,
          (huse _ _).2 ⟨hsent, hshort, k, hmore, hshown⟩⟩
      · next hshort =>
        obtain rfl := Option.some.inj hr
        exact hwhole ⟨hs.target, hs.user, hs.account⟩ hsent (by omega) hmore hshown
    · cases hr

theorem inv_step {e : Event} (h : Inv c s) (hstep : s.step e = some s') : Inv c s' := by
  have hdone : ∀ {t : PamModule}, Inv c t → some t = some s' → Inv c s' :=
    fun ht he => Option.some.inj he ▸ ht
  have hgo : ∀ {phase : Phase} {deadline : Option Timespec}, Serves c s ∧ s.Fresh →
      Serves c { s with phase, deadline } ∧ Fresh { s with phase, deadline } :=
    fun h => ⟨⟨h.1.target, h.1.user, h.1.account⟩, h.2.sent, h.2.received, h.2.shown⟩
  unfold step at hstep
  split at hstep <;> try simp only [Inv, ‹s.phase = _›] at h
  -- opening the socket and setting the deadline
  case h_1 | h_3 => exact hdone (h.2.unavailable _) hstep
  case h_2 => exact hdone (t := { s with phase := .start }) (hgo h) hstep
  case h_4 => exact hdone (t := { s with phase := .getFlags, deadline := _ }) (hgo h) hstep
  -- connecting
  case h_5 | h_7 => exact hdone (h.2.unavailable _) hstep
  case h_6 => exact hdone (t := { s with phase := .setFlags }) (hgo h) hstep
  case h_8 => exact hdone (t := { s with phase := .connect }) (hgo h) hstep
  case h_9 =>
    split at hstep
    · exact hdone (t := { s with phase := .clock .connecting }) (hgo h) hstep
    · exact hdone (h.2.unavailable _) hstep
  case h_10 => exact hdone (inv_connected h.1 h.2) hstep
  -- waiting
  case h_11 => exact hdone (h.2.unavailable _) hstep
  case h_12 =>
    split at hstep
    · exact hdone (h.2.unavailable _) hstep
    · exact hdone (t := { s with phase := .poll _ _ })
        ⟨⟨h.1.target, h.1.user, h.1.account⟩, h.2.phase⟩ hstep
  case h_13 => exact hdone (inv_polled h.1 h.2 _) hstep
  case h_14 | h_15 => exact hdone (h.2.unavailable _) hstep
  case h_16 => exact hdone (inv_connected h.1 h.2) hstep
  -- the request and the response
  case h_17 => exact hdone (inv_early h.2.received h.2.shown (by simp)) hstep
  case h_18 =>
    split at hstep
    · exact hdone (inv_early h.2.received h.2.shown (by simp)) hstep
    · exact hdone (inv_request h.1 h.2 _) hstep
  case h_19 => exact inv_sentSome h.1 h.2 hstep
  case h_20 =>
    exact inv_receivedSome [] h.1 (fun _ _ => Iff.rfl)
      (fun hs hsent hlen hr hshown => inv_headerRead hs hsent hlen hr hshown) h.2 hstep
  case h_21 =>
    exact inv_receivedSome (be32 4) h.1 (fun _ _ => Iff.rfl)
      (fun hs hsent hlen hr hshown => inv_bodyRead hs hsent hlen hr hshown) h.2 hstep
  case h_22 => cases hstep

theorem inv_of_reachable (h : (machine c).Reachable s) : Inv c s :=
  h.inv (inv_begin c) fun _ _ _ => inv_step

/-- The module lets the user in exactly when the service is supported, the user has an
    account, the whole request for this account was sent, and what was received is
    progress reports and then a positive response: whatever was interrupted, however the
    bytes were cut, and wherever the run was stopped. -/
theorem success_iff_frames (h : (machine c).Reachable s) :
    s.phase = .returned true ↔
      ∃ target user uid remainingMs k, authTargetForService c.service = some target ∧
        c.username = some user ∧ c.account user = some uid ∧
        pamRequest target uid remainingMs user = some s.sent ∧
        s.received = frames k ++ framed (encodeDaemonResponse statusSuccess []) := by
  have hinv := inv_of_reachable h
  constructor
  · intro hp
    simp only [Inv, hp] at hinv
    obtain ⟨hs, ⟨remainingMs, hsent⟩, k, hreceived, -⟩ := hinv
    exact ⟨_, _, _, remainingMs, k, hs.target, hs.user, hs.account, hsent, hreceived⟩
  · rintro ⟨target, user, uid, remainingMs, k, htarget, -, -, -, hreceived⟩
    have hread : ∀ timedOut, pamReceive timedOut s.received = .success := by
      intro timedOut
      rw [hreceived, frames, pamReceive_reports]
      rfl
    have hne : s.received ≠ [] := by
      intro hnil
      have := hread false
      rw [hnil] at this
      cases this
    have huse : ∀ {use}, ¬ s.AtUse use := by
      rintro (_ | left | got | got) huse
      · exact hne huse.received
      · exact hne huse.2.1
      · obtain ⟨-, hgot, k, hr, -⟩ := huse
        have := hread false
        rw [hr, frames, pamReceive_reports, pamReceive_short hgot] at this
        cases this
      · obtain ⟨-, hgot, k, hr, -⟩ := huse
        have := hread false
        rw [hr, frames, pamReceive_reports, pamReceive_header hgot] at this
        cases this
    cases hp : s.phase <;> simp only [Inv, hp] at hinv
    case returned success =>
      cases success with
      | true => rfl
      | false =>
        rcases hinv with hun | ⟨j, status, -, ⟨-, hnil, -⟩ | ⟨-, timedOut, rest, hr, -, hrefused⟩⟩
        · exact absurd hun.received hne
        · exact absurd hnil hne
        · have := hread timedOut
          rw [hr, frames, pamReceive_reports, hrefused] at this
          cases this
    all_goals first
      | exact absurd hinv.2.received hne
      | exact absurd hinv.2 huse

/-- The login screen asks for the user `ada`. -/
def exampleCaller : Caller :=
  ⟨some "sddm-kfaceauth", some (ascii "ada"), none,
    fun user => if user = ascii "ada" then some 1000 else none⟩

/-- A reading of the clock. -/
def exampleTime (ms : Fin 1000) : Timespec where
  sec := 7
  nsec := ms.val * 1000000
  nsec_nonneg := by omega
  nsec_lt := by omega

/-- The descriptor is ready, and the call on it is answered. -/
def exampleReady (e : Event) : List Event :=
  [.clock (.ok (exampleTime 1)), .poll (.ok (some ⟨true, true, false, false, false⟩)), e]

/-- The request is taken in two parts, and a report and the response come in pieces. -/
def exampleAnswers : List Event :=
  List.flatten [[.socket (.ok ()), .clock (.ok (exampleTime 0)), .fcntl (.ok ()), .fcntl (.ok ()),
    .connect (.error .inProgress)], exampleReady (.socketError (.ok none)),
    [.clock (.ok (exampleTime 1))], exampleReady (.send (.ok 5)), exampleReady (.send (.ok 16)),
    exampleReady (.recv (.ok [0, 0, 0])), exampleReady (.recv (.error .again)),
    exampleReady (.recv (.ok [4])), exampleReady (.recv (.ok [0, 2, 0x80, 0])),
    exampleReady (.recv (.ok [0, 0, 0, 4])), exampleReady (.recv (.ok [0, 2, 0, 0]))]

/-- The module after some of the answers. -/
def exampleRun (es : List Event) : Option PamModule :=
  (machine exampleCaller).run (begin exampleCaller) es

theorem exampleRun_ends : ∃ s, exampleRun exampleAnswers = some s ∧ s.phase = .returned true := by
  have hphase : (exampleRun exampleAnswers).map phase = some (.returned true) := by decide +kernel
  exact Option.map_eq_some_iff.1 hphase

theorem success_iff_frames_pieces :
    ∃ s, exampleRun exampleAnswers = some s ∧ ∃ target user uid remainingMs k,
      authTargetForService exampleCaller.service = some target ∧
      exampleCaller.username = some user ∧ exampleCaller.account user = some uid ∧
      pamRequest target uid remainingMs user = some s.sent ∧
      s.received = frames k ++ framed (encodeDaemonResponse statusSuccess []) := by
  obtain ⟨s, hs, hend⟩ := exampleRun_ends
  exact ⟨s, hs, (success_iff_frames (Machine.Reachable.init.run hs)).1 hend⟩

/-- What was shown while the module waits. -/
theorem AtUse.progress {use : Use} (h : s.AtUse use) :
    ∃ k rest, s.received = frames k ++ rest ∧ ¬ report <+: rest ∧ s.shown = progressShown k := by
  cases use with
  | connecting => exact ⟨0, [], h.received, not_report_of_short (by simp), h.shown⟩
  | sending left => exact ⟨0, [], h.2.1, not_report_of_short (by simp), h.2.2.1⟩
  | header got =>
    obtain ⟨-, hgot, k, hreceived, hshown⟩ := h
    exact ⟨k, got, hreceived, not_report_of_short (by omega), hshown⟩
  | body got =>
    obtain ⟨-, hgot, k, hreceived, hshown⟩ := h
    refine ⟨k, _, hreceived, not_report_of_short ?_, hshown⟩
    rw [List.length_append, length_be32]
    omega

/-- The greeter is shown that the camera starts, and then once for each progress report
    that was received that a face is looked for. A refusal ends with one status: that of
    what was received after the reports, or of a failure before the response. A service
    without face authentication is shown nothing. -/
theorem shown_of_reachable (h : (machine c).Reachable s) :
    (authTargetForService c.service = none ∧ s.phase = .returned false ∧ s.shown = [] ∧
      s.sent = []) ∨
    ∃ k rest, s.received = frames k ++ rest ∧ ¬ report <+: rest ∧
      (s.phase ≠ .returned false ∧ s.shown = progressShown k ∨
        s.phase = .returned false ∧ ∃ status, s.shown = progressShown k ++ [status] ∧
          (s.received = [] ∧ status ∈ ["KFACEAUTH_STATUS=timeout",
              "KFACEAUTH_STATUS=service-unavailable", "KFACEAUTH_STATUS=use-password"] ∨
            s.Sent ∧ ∃ timedOut, pamReceive timedOut rest = .authErr status)) := by
  have hinv := inv_of_reachable h
  have hnil : ¬ report <+: [] := not_report_of_short (by simp)
  cases hp : s.phase <;> simp only [Inv, hp] at hinv
  case returned success =>
    cases success with
    | true =>
      obtain ⟨-, -, k, hreceived, hshown⟩ := hinv
      exact .inr ⟨k, _, hreceived, by decide, .inl ⟨by simp, hshown⟩⟩
    | false =>
      rcases hinv with hun | ⟨k, status, hshown, ⟨rfl, hreceived, hstatus⟩ |
        ⟨hsent, timedOut, rest, hreceived, hrest, hrefused⟩⟩
      · exact .inl ⟨hun.target, rfl, hun.shown, hun.sent⟩
      · exact .inr ⟨0, [], hreceived, hnil, .inr ⟨rfl, status, hshown, .inl ⟨hreceived, hstatus⟩⟩⟩
      · exact .inr ⟨k, rest, hreceived, hrest,
          .inr ⟨rfl, status, hshown, .inr ⟨hsent, timedOut, hrefused⟩⟩⟩
  case clock | poll | transfer =>
    obtain ⟨k, rest, hreceived, hrest, hshown⟩ := hinv.2.progress
    exact .inr ⟨k, rest, hreceived, hrest, .inl ⟨by simp, hshown⟩⟩
  all_goals exact .inr ⟨0, [], hinv.2.received, hnil, .inl ⟨by simp, hinv.2.shown⟩⟩

theorem shown_of_reachable_pieces :
    ∃ s k rest, exampleRun exampleAnswers = some s ∧ s.received = frames k ++ rest ∧
      ¬ report <+: rest ∧ s.shown = progressShown k := by
  obtain ⟨s, hs, hend⟩ := exampleRun_ends
  rcases shown_of_reachable (Machine.Reachable.init.run hs) with ⟨hnone, -⟩ |
    ⟨k, rest, hreceived, hrest, ⟨-, hshown⟩ | ⟨hfalse, -⟩⟩
  · exact absurd hnone (by decide)
  · exact ⟨s, k, rest, hs, hreceived, hrest, hshown⟩
  · rw [hend] at hfalse
    cases hfalse

/-! ## The deadline -/

/-- How many answers the module takes at most once the deadline has passed. -/
def Phase.left : Phase → ℕ
  | .getFlags => 4
  | .setFlags | .poll _ _ => 3
  | .connect | .socketError | .transfer _ => 2
  | .clock _ | .request => 1
  | .socket | .start | .returned _ => 0

theorem remainingTimeoutMs_of_past {deadline now : Timespec} (h : deadline.total ≤ now.total) :
    remainingTimeoutMs deadline now = none := by
  cases hr : remainingTimeoutMs deadline now with
  | none => rfl
  | some ms => exact absurd (remainingTimeoutMs_eq hr).1 (by omega)

/-- The deadline is `d`, and fewer than `n` answers are left. -/
structure Near (d : Option Timespec) (n : ℕ) (s : PamModule) : Prop where
  deadline : s.deadline = d
  connecting : s.phase ≠ .socket ∧ s.phase ≠ .start
  left : s.phase.left < n

section Near

variable {d : Option Timespec} {n : ℕ}

theorem near_failWithStatus (hd : s.deadline = d) (hn : 0 < n) (status : String) :
    Near d n (s.failWithStatus status) :=
  ⟨hd, ⟨by simp [failWithStatus], by simp [failWithStatus]⟩, hn⟩

theorem near_finish (hd : s.deadline = d) (hn : 0 < n) (r : PamResult) :
    Near d n (s.finish r) := by
  cases r with
  | success => exact ⟨hd, ⟨by simp [finish], by simp [finish]⟩, hn⟩
  | authErr status => exact near_failWithStatus hd hn status

theorem near_connected (hd : s.deadline = d) (hn : 1 < n) : Near d n s.connected := by
  unfold connected
  split_ifs
  · exact near_failWithStatus hd (by omega) _
  · exact ⟨hd, ⟨by simp, by simp⟩, hn⟩

theorem near_polled (hd : s.deadline = d) (hn : 2 < n) (use : Use)
    (r : Except Errno (Option Revents)) : Near d n (s.polled use r) := by
  have hbad : ∀ e : Errno, Near d n (s.unavailable e) := fun _ => near_finish hd (by omega) _
  have hclock : Near d n { s with phase := .clock use } :=
    ⟨hd, ⟨by simp, by simp⟩, Nat.lt_of_le_of_lt (by decide : 1 ≤ 2) hn⟩
  cases r with
  | error e =>
    cases e with
    | interrupted => exact hclock
    | again | inProgress | timedOut | other => exact hbad _
  | ok revents =>
    cases revents with
    | none => exact hbad _
    | some revents =>
      simp only [polled]
      split
      · exact hbad _
      split
      · exact hbad _
      split
      · cases use <;> exact ⟨hd, ⟨by simp [ready], by simp [ready]⟩, hn⟩
      · exact hclock

theorem near_sentSome {left : List UInt8} (hd : s.deadline = d) (hn : 1 < n)
    {r : Except Errno ℕ} (hr : s.sentSome left r = some s') : Near d n s' := by
  have hbad : ∀ {e : Errno}, some (s.unavailable e) = some s' → Near d n s' :=
    fun he => Option.some.inj he ▸ near_finish hd (by omega) _
  cases r with
  | error e =>
    cases e with
    | interrupted | again => exact Option.some.inj hr ▸ ⟨hd, ⟨by simp, by simp⟩, hn⟩
    | inProgress | timedOut | other => exact hbad hr
  | ok m =>
    simp only [sentSome] at hr
    split at hr
    · exact hbad hr
    split at hr
    · exact Option.some.inj hr ▸ ⟨hd, ⟨by simp, by simp⟩, hn⟩
    · cases hr

theorem near_receivedSome {use : List UInt8 → Use} {whole : PamModule → List UInt8 → PamModule}
    {got : List UInt8} (hd : s.deadline = d) (hn : 1 < n)
    (hwhole : ∀ {s : PamModule}, s.deadline = d → ∀ bytes, Near d n (whole s bytes))
    {r : Except Errno (List UInt8)} (hr : s.receivedSome use whole got r = some s') :
    Near d n s' := by
  have hbad : ∀ {e : Errno}, some (s.unavailable e) = some s' → Near d n s' :=
    fun he => Option.some.inj he ▸ near_finish hd (by omega) _
  cases r with
  | error e =>
    cases e with
    | interrupted | again => exact Option.some.inj hr ▸ ⟨hd, ⟨by simp, by simp⟩, hn⟩
    | inProgress | timedOut | other => exact hbad hr
  | ok bytes =>
    simp only [receivedSome] at hr
    split at hr
    · exact hbad hr
    split at hr
    · split at hr
      · exact Option.some.inj hr ▸ ⟨hd, ⟨by simp, by simp⟩, hn⟩
      · exact Option.some.inj hr ▸ hwhole (s := { s with received := s.received ++ bytes }) hd _
    · cases hr

theorem near_headerRead (hd : s.deadline = d) (hn : 1 < n) (header : List UInt8) :
    Near d n (s.headerRead header) := by
  unfold headerRead
  split_ifs
  · exact near_failWithStatus hd (by omega) _
  · exact ⟨hd, ⟨by simp, by simp⟩, hn⟩

theorem near_bodyRead (hd : s.deadline = d) (hn : 1 < n) (body : List UInt8) :
    Near d n (s.bodyRead body) := by
  unfold bodyRead
  split_ifs
  · exact near_failWithStatus hd (by omega) _
  · exact ⟨hd, ⟨by simp, by simp⟩, hn⟩
  · exact near_finish hd (by omega) _

/-- The answers that are gained by a reading of the clock before the deadline. -/
def slack (d : Option Timespec) : Event → ℕ
  | .clock (.ok now) => if (d.bind (remainingTimeoutMs · now)).isSome then 3 else 0
  | _ => 0

theorem near_request (hd : s.deadline = d) (hn : 1 < n) (remainingMs : ℤ) :
    Near d n (s.request remainingMs) := by
  unfold request
  split
  · exact near_failWithStatus hd (by omega) _
  · exact ⟨hd, ⟨by simp, by simp⟩, hn⟩

/-- Every answer but a reading of the clock before the deadline leaves fewer to take. -/
theorem near_step {e : Event} (hsocket : s.phase ≠ .socket) (hstart : s.phase ≠ .start)
    (hstep : s.step e = some s') : Near s.deadline (s.phase.left + slack s.deadline e) s' := by
  have hdone : ∀ {t : PamModule} {n : ℕ}, some t = some s' → Near s.deadline n t →
      Near s.deadline n s' := fun he ht => Option.some.inj he ▸ ht
  unfold step at hstep
  split at hstep <;> try simp only [‹s.phase = _›, Phase.left, slack] at hsocket hstart ⊢
  case h_1 | h_2 => exact absurd rfl hsocket
  case h_3 | h_4 => exact absurd rfl hstart
  case h_5 | h_7 => exact hdone hstep (near_finish rfl (by decide) _)
  case h_6 => exact hdone hstep ⟨rfl, ⟨by simp, by simp⟩, (by decide : 3 < 4)⟩
  case h_8 => exact hdone hstep ⟨rfl, ⟨by simp, by simp⟩, (by decide : 2 < 3)⟩
  case h_9 =>
    split at hstep
    · exact hdone hstep ⟨rfl, ⟨by simp, by simp⟩, (by decide : 1 < 2)⟩
    · exact hdone hstep (near_finish rfl (by decide) _)
  case h_10 => exact hdone hstep (near_connected rfl (by decide))
  case h_11 => exact hdone hstep (near_finish rfl (by decide) _)
  case h_12 =>
    split at hstep
    · exact hdone hstep (near_finish rfl (by omega) _)
    · next hr =>
      rw [hr, Option.isSome_some, if_pos rfl]
      exact hdone hstep ⟨rfl, ⟨by simp, by simp⟩, (by decide : 3 < 4)⟩
  case h_13 => exact hdone hstep (near_polled rfl (by decide) _ _)
  case h_14 | h_15 => exact hdone hstep (near_finish rfl (by decide) _)
  case h_16 => exact hdone hstep (near_connected rfl (by decide))
  case h_17 => exact hdone hstep (near_failWithStatus rfl (by decide) _)
  case h_18 =>
    split at hstep
    · exact hdone hstep (near_failWithStatus rfl (by omega) _)
    · next hr =>
      rw [hr, Option.isSome_some, if_pos rfl]
      exact hdone hstep (near_request rfl (by decide) _)
  case h_19 => exact near_sentSome rfl (by decide) hstep
  case h_20 =>
    exact near_receivedSome rfl (by decide) (fun hd => near_headerRead hd (by decide)) hstep
  case h_21 =>
    exact near_receivedSome rfl (by decide) (fun hd => near_bodyRead hd (by decide)) hstep
  case h_22 => cases hstep

theorem slack_of_past {d : Timespec} {e : Event}
    (h : ∀ now, e = .clock (.ok now) → d.total ≤ now.total) : slack (some d) e = 0 := by
  cases e with
  | clock r =>
    cases r with
    | error e => rfl
    | ok now =>
      rw [slack, Option.bind_some, remainingTimeoutMs_of_past (h now rfl)]
      rfl
  | _ => rfl

theorem length_of_past {es : List Event} {d : Timespec} (hd : s.deadline = some d)
    (hs : s.phase ≠ .socket ∧ s.phase ≠ .start)
    (hpast : ∀ now, Event.clock (.ok now) ∈ es → d.total ≤ now.total)
    (hrun : (machine c).run s es = some s') :
    es.length + s'.phase.left ≤ s.phase.left ∧ s'.phase ≠ .socket ∧ s'.phase ≠ .start := by
  induction es generalizing s with
  | nil =>
    obtain rfl := Option.some.inj hrun
    exact ⟨by simp, hs⟩
  | cons e es ih =>
    obtain ⟨t, ht, hrun⟩ := Option.bind_eq_some_iff.1 hrun
    have hnear := near_step hs.1 hs.2 ht
    rw [hd, slack_of_past fun now he => hpast now (he ▸ List.mem_cons_self)] at hnear
    obtain ⟨hlen, hphase⟩ := ih hnear.deadline hnear.connecting
      (fun now hnow => hpast now (List.mem_cons_of_mem _ hnow)) hrun
    have hless := hnear.left
    refine ⟨?_, hphase⟩
    rw [List.length_cons]
    omega

end Near

/-- The deadline is set before the module connects. -/
theorem deadline_of_reachable (h : (machine c).Reachable s) :
    s.deadline = none ∨ s.phase ≠ .socket ∧ s.phase ≠ .start := by
  refine h.inv (I := fun s => s.deadline = none ∨ s.phase ≠ .socket ∧ s.phase ≠ .start) ?_ ?_
  · left
    change (begin c).deadline = none
    unfold begin
    cases authTargetForService c.service with
    | none => rfl
    | some target =>
      cases c.username with
      | none => rfl
      | some user =>
        dsimp only
        cases c.account user <;> rfl
  · intro s e s' hs hstep
    by_cases hphase : s.phase ≠ .socket ∧ s.phase ≠ .start
    · exact .inr (near_step hphase.1 hphase.2 hstep).connecting
    have hnone := hs.resolve_right hphase
    simp only [machine, step] at hstep
    split at hstep
    case h_1 | h_2 => exact Option.some.inj hstep ▸ .inl hnone
    case h_3 => exact Option.some.inj hstep ▸ .inr (near_finish rfl Nat.one_pos _).connecting
    case h_4 => exact Option.some.inj hstep ▸ .inr ⟨by simp, by simp⟩
    case h_22 => cases hstep
    all_goals
      rw [‹s.phase = _›] at hphase
      exact absurd ⟨by simp, by simp⟩ hphase

/-- Once the clock has passed the deadline, the module takes at most four more answers,
    whatever they are: by then it has returned. -/
theorem ends_after_deadline {es : List Event} {d : Timespec} (h : (machine c).Reachable s)
    (hd : s.deadline = some d) (hrun : (machine c).run s es = some s')
    (hpast : ∀ now, Event.clock (.ok now) ∈ es → d.total ≤ now.total) :
    es.length ≤ 4 ∧ (es.length = 4 → ∃ success, s'.phase = .returned success) := by
  have hs := (deadline_of_reachable h).resolve_left (by simp [hd])
  obtain ⟨hlen, hsocket, hstart⟩ := length_of_past hd hs hpast hrun
  have hfour : s.phase.left ≤ 4 := by cases s.phase <;> simp [Phase.left]
  refine ⟨by omega, fun hes => ?_⟩
  have hleft : s'.phase.left = 0 := by omega
  cases hp : s'.phase <;> simp [hp, Phase.left] at hleft hsocket hstart ⊢

/-- The answers while the deadline passes. -/
def lateAnswers : List Event :=
  [.fcntl (.ok ()), .fcntl (.ok ()), .connect (.error .inProgress),
    .clock (.ok ⟨9, 0, by decide, by decide⟩)]

theorem ends_after_deadline_connecting :
    ∃ s s', exampleRun (exampleAnswers.take 2) = some s ∧
      (machine exampleCaller).run s lateAnswers = some s' ∧
      ∃ success, s'.phase = .returned success := by
  have hstart : exampleRun (exampleAnswers.take 2) = some { begin exampleCaller with
    phase := .getFlags, deadline := some (pamDeadline (exampleTime 0)) } := rfl
  have hpast : ∀ now, Event.clock (.ok now) ∈ lateAnswers →
      (pamDeadline (exampleTime 0)).total ≤ now.total := by
    intro now hnow
    simp only [lateAnswers, List.mem_cons, reduceCtorEq, false_or, List.not_mem_nil, or_false,
      Event.clock.injEq, Except.ok.injEq] at hnow
    rw [hnow]
    decide
  refine ⟨_, _, hstart, rfl, ?_⟩
  exact (ends_after_deadline (Machine.Reachable.init.run hstart) rfl rfl hpast).2 rfl

end PamModule

end KFaceAuth
