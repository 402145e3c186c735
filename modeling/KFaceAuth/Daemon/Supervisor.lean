import KFaceAuth.Daemon.Protocol
import Mathlib.Tactic.Ring

/-!
# The supervisor of an authentication worker

The loop of `supervise_auth_worker`: it reads what the worker wrote, forwards
progress reports to the client, and asks whether the worker has exited. Every
call it makes is answered from outside (`Event`), and between two calls it is
in one of the phases below, so that a run of it is the list of the answers
(`Supervisor.run`).

* `Supervisor.Reading`: what the supervisor has made of the bytes it has read;
* `Supervisor.Forwarding`: what it has sent to the client.

Both are invariants of its steps.
-/

namespace KFaceAuth

/-! ## Answers from outside -/

/-- A nonblocking read of the worker's socket. -/
inductive ReadReply
  | data (bs : List UInt8)
  | eof
  | wouldBlock
  | interrupted
  | failed
  deriving DecidableEq, Repr

/-- A write to the client's socket. -/
inductive WriteReply
  | accepted (n : ℕ)
  | wouldBlock
  | interrupted
  | failed
  deriving DecidableEq, Repr

/-- `Child::try_wait`. -/
inductive WaitReply
  | exited (success : Bool)
  | running
  | failed
  deriving DecidableEq, Repr

/-- The answer to the call the supervisor is at. -/
inductive Event
  | disconnected (b : Bool)
  | expired (b : Bool)
  | read (r : ReadReply)
  | write (r : WriteReply)
  | wait (r : WaitReply)
  deriving DecidableEq, Repr

/-! ## The loop -/

/-- The worker's process, as its owner leaves it. -/
inductive Child
  | registered
  | killed
  | reaped
  deriving DecidableEq, Repr

/-- The call the supervisor is at. -/
inductive Phase
  /-- `client_disconnected`, at the top of the loop. -/
  | disconnect
  /-- `remaining_timeout_ms`, at the top of the loop. -/
  | deadline
  /-- Reading the worker's socket. -/
  | read
  /-- `write_client_progress`, at its check of the deadline, with what is left
      of the frame. -/
  | progressDeadline (left : List UInt8)
  /-- `write_client_progress`, writing what is left of the frame. -/
  | progressWrite (left : List UInt8)
  /-- `try_wait`. -/
  | tryWait
  /-- `client_disconnected`, once the worker has exited. -/
  | exitDisconnect (success : Bool)
  /-- `remaining_timeout_ms`, once the worker has exited. -/
  | exitDeadline
  | returned (status : UInt8)
  deriving DecidableEq, Repr

/-- The variables of `supervise_auth_worker`, and the bytes the client's socket
    has accepted. -/
structure Supervisor where
  phase : Phase
  child : Child
  workerResponse : List UInt8
  finalStatus : Option UInt8
  sent : List UInt8
  deriving DecidableEq, Repr

namespace Supervisor

/-- Returning after killing the worker. -/
def fail (s : Supervisor) (status : UInt8) : Supervisor :=
  { s with phase := .returned status, child := .killed }

/-- The top of the loop. Without a client there is nobody to disconnect. -/
def top (client : Bool) : Phase := if client then .disconnect else .deadline

/-- The `while` loop over the complete frames in `worker_response`. It pauses
    at a progress report, which is forwarded to the client. -/
def parse (client : Bool) (s : Supervisor) : List UInt8 → Option UInt8 → Supervisor
  | b₀ :: b₁ :: b₂ :: b₃ :: rest, final =>
    let taken := { s with workerResponse := rest, finalStatus := final }
    if b₀ ≠ 0 ∨ b₁ ≠ 2 ∨ b₃ ≠ 0 then taken.fail statusInternalError
    else if b₂ = statusProgressLookingForFace then
      if final.isSome then taken.fail statusInternalError
      else if client then { taken with phase := .progressDeadline (framed [b₀, b₁, b₂, b₃]) }
      else parse client s rest final
    else if b₂ ≤ statusCancelled ∧ final.isNone then parse client s rest (some b₂)
    else taken.fail statusInternalError
  | bs, final => { s with phase := .tryWait, workerResponse := bs, finalStatus := final }

/-- The supervisor goes on with the frames it has. -/
def resume (client : Bool) (s : Supervisor) : Supervisor :=
  s.parse client s.workerResponse s.finalStatus

/-- A write of `write_client_progress`. -/
def write (client : Bool) (s : Supervisor) (left : List UInt8) : WriteReply → Supervisor
  | .accepted 0 => s.fail statusCancelled
  | .accepted (n + 1) =>
    let s := { s with sent := s.sent ++ left.take (n + 1) }
    if left.drop (n + 1) = [] then s.resume client
    else { s with phase := .progressDeadline (left.drop (n + 1)) }
  | .wouldBlock | .interrupted => { s with phase := .progressDeadline left }
  | .failed => s.fail statusCancelled

/-- What the supervisor does with the answer to the call it is at. -/
def step (client : Bool) (s : Supervisor) : Event → Option Supervisor
  | .disconnected b =>
    match s.phase with
    | .disconnect => some (if b then s.fail statusCancelled else { s with phase := .deadline })
    | .exitDisconnect success =>
      some <|
        if b then { s with phase := .returned statusCancelled }
        else if !success || !s.workerResponse.isEmpty then
          { s with phase := .returned statusInternalError }
        else { s with phase := .exitDeadline }
    | _ => none
  | .expired b =>
    match s.phase with
    | .deadline => some (if b then s.fail statusTimeout else { s with phase := .read })
    | .progressDeadline left =>
      some (if b then s.fail statusCancelled else { s with phase := .progressWrite left })
    | .exitDeadline =>
      some { s with phase := .returned <|
        if b then statusTimeout else s.finalStatus.getD statusInternalError }
    | _ => none
  | .read r =>
    match s.phase with
    | .read =>
      some <| match r with
      | .data bs => { s with workerResponse := s.workerResponse ++ bs }
      | .eof | .wouldBlock => s.resume client
      | .interrupted => s
      | .failed => s.fail statusInternalError
    | _ => none
  | .write r =>
    match s.phase with
    | .progressWrite left => some (s.write client left r)
    | _ => none
  | .wait r =>
    match s.phase with
    | .tryWait =>
      some <| match r with
      | .exited success =>
        { s with
          child := .reaped
          phase :=
            if client then .exitDisconnect success
            else if !success || !s.workerResponse.isEmpty then .returned statusInternalError
            else .exitDeadline }
      | .running => { s with phase := top client }
      | .failed => s.fail statusInternalError
    | _ => none

/-- The supervisor when it enters the loop. -/
def start (client : Bool) : Supervisor where
  phase := top client
  child := .registered
  workerResponse := []
  finalStatus := none
  sent := []

/-- The run of the supervisor on the answers `es`. -/
def run (client : Bool) : Supervisor → List Event → Option Supervisor
  | s, [] => some s
  | s, e :: es => (s.step client e).bind fun s => run client s es

/-- An invariant of the steps holds along runs. -/
theorem run_inv {client : Bool} {P : Supervisor → Prop}
    (hstep : ∀ s e s', P s → s.step client e = some s' → P s') {s s' : Supervisor}
    {es : List Event} (hs : P s) (h : s.run client es = some s') : P s' := by
  induction es generalizing s with
  | nil =>
    cases h
    exact hs
  | cons e es ih =>
    obtain ⟨t, ht, h⟩ := Option.bind_eq_some_iff.1 h
    exact ih (hstep s e t hs ht) h

/-! ## What has been read -/

/-- A progress report, as the worker writes it. -/
def progress : List UInt8 := encodeDaemonResponse statusProgressLookingForFace []

/-- `n` progress reports. -/
def reports (n : ℕ) : List UInt8 := (List.replicate n progress).flatten

/-- The final result, as the worker writes it. -/
def result : Option UInt8 → List UInt8
  | none => []
  | some status => encodeDaemonResponse status []

theorem reports_succ (n : ℕ) : reports (n + 1) = reports n ++ progress := by
  simp [reports, List.replicate_succ']

/-- An exchange that ends in success: progress reports, then the result, and
    nothing else. -/
def Transcript (bs : List UInt8) : Prop := ∃ n, bs = reports n ++ result (some statusSuccess)

/-- Whether the bytes are such an exchange, frame by frame. -/
def isTranscript : List UInt8 → Bool
  | b₀ :: b₁ :: b₂ :: b₃ :: rest =>
    if [b₀, b₁, b₂, b₃] = progress then isTranscript rest
    else [b₀, b₁, b₂, b₃] = result (some statusSuccess) && rest.isEmpty
  | _ => false

theorem isTranscript_reports (n : ℕ) (bs : List UInt8) :
    isTranscript (reports n ++ bs) = isTranscript bs := by
  induction n with
  | zero => rfl
  | succ n ih =>
    rw [← ih]
    have : reports (n + 1) ++ bs = 0 :: 2 :: 0x80 :: 0 :: (reports n ++ bs) := by
      simp [reports, List.replicate_succ, progress, encodeDaemonResponse,
        statusProgressLookingForFace]
    rw [this, isTranscript, if_pos (by decide)]

theorem isTranscript_iff (bs : List UInt8) : isTranscript bs ↔ Transcript bs := by
  constructor
  · intro h
    induction bs using isTranscript.induct with
    | case1 b₀ b₁ b₂ b₃ rest hp ih =>
      rw [isTranscript, if_pos hp] at h
      obtain ⟨n, hn⟩ := ih h
      refine ⟨n + 1, ?_⟩
      have : b₀ :: b₁ :: b₂ :: b₃ :: rest = progress ++ rest := by
        rw [← hp]
        rfl
      rw [this, hn]
      simp [reports, List.replicate_succ]
    | case2 b₀ b₁ b₂ b₃ rest hp =>
      rw [isTranscript, if_neg hp, Bool.and_eq_true, decide_eq_true_eq, List.isEmpty_iff] at h
      exact ⟨0, by simp [reports, ← h.1, h.2]⟩
    | case3 bs h' => simp [isTranscript] at h
  · rintro ⟨n, rfl⟩
    rw [isTranscript_reports]
    rfl

/-- The frames taken so far are those at the front of the bytes read: some
    progress reports, and then perhaps a final result. -/
structure Taken (read : List UInt8) (final : Option UInt8) (rest : List UInt8) : Prop where
  frames : ∃ n, read = reports n ++ (result final ++ rest)
  final_le : ∀ status, final = some status → status ≤ statusCancelled

/-- The bytes read begin no exchange that ends in success. -/
def Broken (read : List UInt8) : Prop := ∀ more, ¬ Transcript (read ++ more)

theorem Taken.isTranscript {read rest : List UInt8} {final : Option UInt8}
    (h : Taken read final rest) (more : List UInt8) :
    isTranscript (read ++ more) = isTranscript (result final ++ (rest ++ more)) := by
  obtain ⟨n, rfl⟩ := h.frames
  simp only [List.append_assoc, isTranscript_reports]

theorem ne_progress_of_le {status : UInt8} (h : status ≤ statusCancelled) :
    status ≠ statusProgressLookingForFace := by
  rintro rfl
  exact absurd h (by decide)

/-- After a final result nothing may follow. -/
theorem Taken.transcript_some {read rest : List UInt8} {status : UInt8}
    (h : Taken read (some status) rest) (more : List UInt8) :
    Transcript (read ++ more) ↔ status = statusSuccess ∧ rest ++ more = [] := by
  rw [← isTranscript_iff, h.isTranscript]
  have hne := ne_progress_of_le (h.final_le status rfl)
  have : result (some status) ++ (rest ++ more) = 0 :: 2 :: status :: 0 :: (rest ++ more) := rfl
  rw [this, Supervisor.isTranscript, if_neg (by simpa [progress, encodeDaemonResponse] using hne)]
  simp [result, encodeDaemonResponse]

/-- A frame that is no valid one. -/
theorem Taken.broken {read rest : List UInt8} {final : Option UInt8} {b₀ b₁ b₂ b₃ : UInt8}
    (h : Taken read final (b₀ :: b₁ :: b₂ :: b₃ :: rest))
    (hf : final = none → [b₀, b₁, b₂, b₃] ≠ progress ∧
      [b₀, b₁, b₂, b₃] ≠ result (some statusSuccess)) : Broken read := by
  intro more
  cases final with
  | some status =>
    rw [h.transcript_some]
    simp
  | none =>
    obtain ⟨h₁, h₂⟩ := hf rfl
    rw [← isTranscript_iff, h.isTranscript]
    have : result none ++ (b₀ :: b₁ :: b₂ :: b₃ :: rest ++ more) =
        b₀ :: b₁ :: b₂ :: b₃ :: (rest ++ more) := rfl
    rw [this, Supervisor.isTranscript, if_neg h₁, decide_eq_false h₂]
    simp

theorem Taken.report {read rest : List UInt8} (h : Taken read none (0 :: 2 ::
    statusProgressLookingForFace :: 0 :: rest)) : Taken read none rest := by
  obtain ⟨n, hn⟩ := h.frames
  refine ⟨⟨n + 1, ?_⟩, by simp⟩
  rw [hn, reports_succ]
  simp [result, progress, encodeDaemonResponse]

theorem Taken.final {read rest : List UInt8} {status : UInt8} (h : Taken read none (0 :: 2 ::
    status :: 0 :: rest)) (hs : status ≤ statusCancelled) : Taken read (some status) rest := by
  obtain ⟨n, hn⟩ := h.frames
  refine ⟨⟨n, ?_⟩, fun t ht => Option.some.inj ht ▸ hs⟩
  rw [hn]
  simp [result, encodeDaemonResponse]

/-- What the loop over complete frames leaves: a broken exchange, fewer bytes
    than a frame, or a progress report to forward. -/
inductive Parsed (client : Bool) (read : List UInt8) (s t : Supervisor) : Prop
  | broken (phase : t.phase = .returned statusInternalError) (child : t.child = .killed)
      (sent : t.sent = s.sent) (h : Broken read)
  | waiting (phase : t.phase = .tryWait) (child : t.child = s.child) (sent : t.sent = s.sent)
      (taken : Taken read t.finalStatus t.workerResponse) (short : t.workerResponse.length < 4)
  | report (hclient : client = true) (phase : t.phase = .progressDeadline (framed progress))
      (child : t.child = s.child) (sent : t.sent = s.sent) (final : t.finalStatus = none)
      (taken : Taken read none t.workerResponse)

theorem parsed_parse (client : Bool) {s : Supervisor} {read : List UInt8} (bs : List UInt8)
    (final : Option UInt8) (h : Taken read final bs) :
    Parsed client read s (s.parse client bs final) := by
  fun_induction parse client s bs final with
  | case1 b₀ b₁ b₂ b₃ rest final taken hbad =>
    refine .broken rfl rfl rfl (h.broken fun _ => ?_)
    simp only [progress, result, encodeDaemonResponse, List.append_nil, ne_eq, List.cons.injEq,
      and_true]
    tauto
  | case2 b₀ b₁ b₃ rest final taken hbad hf =>
    -- a report after the final result
    refine .broken rfl rfl rfl (h.broken fun hn => ?_)
    simp [hn] at hf
  | case3 b₀ b₁ b₃ rest final taken hbad hf hc =>
    obtain ⟨rfl, rfl, rfl⟩ : b₀ = 0 ∧ b₁ = 2 ∧ b₃ = 0 := by tauto
    obtain rfl : final = none := by simpa using hf
    exact .report hc rfl rfl rfl rfl h.report
  | case4 b₀ b₁ b₃ rest final hbad hf hc ih =>
    obtain ⟨rfl, rfl, rfl⟩ : b₀ = 0 ∧ b₁ = 2 ∧ b₃ = 0 := by tauto
    obtain rfl : final = none := by simpa using hf
    exact ih h.report
  | case5 b₀ b₁ b₂ b₃ rest final hbad hp hs ih =>
    obtain ⟨rfl, rfl, rfl⟩ : b₀ = 0 ∧ b₁ = 2 ∧ b₃ = 0 := by tauto
    obtain rfl : final = none := by simpa using hs.2
    exact ih (h.final hs.1)
  | case6 b₀ b₁ b₂ b₃ rest final taken hbad hp hs =>
    -- an unknown status, or a second result
    refine .broken rfl rfl rfl (h.broken fun hn => ?_)
    have hle : ¬ b₂ ≤ statusCancelled := fun hle => hs ⟨hle, by simp [hn]⟩
    refine ⟨fun he => hp ?_, fun he => hle ?_⟩
    · simp only [progress, encodeDaemonResponse, List.append_nil, List.cons.injEq] at he
      exact he.2.2.1
    · simp only [result, encodeDaemonResponse, List.append_nil, List.cons.injEq] at he
      rw [he.2.2.1]
      decide
  | case7 bs final hbs =>
    refine .waiting rfl rfl rfl h ?_
    rcases bs with _ | ⟨a, _ | ⟨b, _ | ⟨c, _ | ⟨d, bs⟩⟩⟩⟩
    · simp
    · simp
    · simp
    · simp
    · exact absurd rfl (hbs a b c d bs)

end Supervisor

end KFaceAuth
