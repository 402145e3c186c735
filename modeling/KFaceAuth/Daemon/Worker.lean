import KFaceAuth.Daemon.Supervisor

/-!
# An authentication attempt

The worker and its supervisor, interleaved. The worker writes to its socket, in
any chunks, and exits with any code; the supervisor reads, parses and asks for
the exit at its own pace (`Attempt.act`). The deadline does not expire, the
client stays, and writes to it succeed.

The supervisor asks for the exit after it has read, not before: what the worker
writes in between and leaves by exiting is never read. The attempt succeeds
exactly for a complete and successful exchange unless this happens
(`success_iff`).
-/

namespace KFaceAuth

open Supervisor

/-- The supervisor, what it has read of the worker's output and what is left to
    read, and the exit code of the worker once it has exited. -/
structure Attempt where
  sup : Supervisor
  read : List UInt8
  unread : List UInt8
  exit : Option ℕ
  deriving DecidableEq, Repr

namespace Attempt

/-- All that the worker has written. -/
def written (a : Attempt) : List UInt8 := a.read ++ a.unread

/-- The answers the supervisor may get. -/
def Answers (a : Attempt) : Event → Prop
  | .disconnected b => b = false
  | .expired b => b = false
  | .read (.data bs) => bs ≠ [] ∧ bs.length ≤ 32 ∧ bs <+: a.unread
  | .read .eof => a.unread = [] ∧ a.exit.isSome
  | .read .wouldBlock => a.unread = [] ∧ a.exit = none
  | .read .interrupted => True
  | .read .failed => False
  | .write (.accepted n) => 0 < n
  | .write .wouldBlock => True
  | .write .interrupted => True
  | .write .failed => False
  | .wait (.exited success) => a.exit.isSome ∧ success = decide (a.exit = some 0)
  | .wait .running => a.exit = none
  | .wait .failed => False

instance (a : Attempt) (e : Event) : Decidable (a.Answers e) := by
  cases e with
  | read r => cases r <;> unfold Answers <;> infer_instance
  | write r => cases r <;> unfold Answers <;> infer_instance
  | wait r => cases r <;> unfold Answers <;> infer_instance
  | _ => unfold Answers; infer_instance

/-- The bytes an answer brings. -/
def bytes : Event → List UInt8
  | .read (.data bs) => bs
  | _ => []

/-- A step of the worker, or of the supervisor. -/
inductive Action
  | write (bs : List UInt8)
  | exit (code : ℕ)
  | answer (e : Event)
  deriving DecidableEq, Repr

def act (client : Bool) (a : Attempt) : Action → Option Attempt
  | .write bs => if a.exit = none then some { a with unread := a.unread ++ bs } else none
  | .exit code => if a.exit = none then some { a with exit := some code } else none
  | .answer e =>
    if a.Answers e then
      (a.sup.step client e).map fun sup =>
        { a with
          sup, read := a.read ++ bytes e, unread := a.unread.drop (bytes e).length }
    else none

def start (client : Bool) : Attempt := ⟨Supervisor.start client, [], [], none⟩

/-- An interleaving of the worker and the supervisor. -/
def run (client : Bool) : Attempt → List Action → Option Attempt
  | a, [] => some a
  | a, x :: xs => (a.act client x).bind fun a => run client a xs

/-- The attempts an interleaving leads to. -/
def Reachable (client : Bool) (a : Attempt) : Prop := ∃ xs, run client (start client) xs = some a

/-- What the supervisor knows of the exchange, at each call. -/
def Inv (a : Attempt) : Prop :=
  match a.sup.phase with
  | .disconnect | .deadline | .read => Taken a.read a.sup.finalStatus a.sup.workerResponse
  | .progressDeadline _ | .progressWrite _ =>
    a.sup.finalStatus = none ∧ Taken a.read none a.sup.workerResponse
  | .tryWait =>
    Taken a.read a.sup.finalStatus a.sup.workerResponse ∧ a.sup.workerResponse.length < 4
  | .exitDisconnect success =>
    Taken a.read a.sup.finalStatus a.sup.workerResponse ∧ a.sup.workerResponse.length < 4 ∧
      a.exit.isSome ∧ success = decide (a.exit = some 0)
  | .exitDeadline => Taken a.read a.sup.finalStatus [] ∧ a.exit = some 0
  | .returned status =>
    (status ≠ statusSuccess ∧ Broken a.read) ∨
      (a.exit.isSome ∧ (status = statusSuccess ↔ Transcript a.read ∧ a.exit = some 0))

/-- Fewer bytes than a frame are no end of an exchange. -/
theorem not_transcript_of_short {read rest : List UInt8} {final : Option UInt8}
    (h : Taken read final rest) (hr : rest ≠ []) (hlen : rest.length < 4) : ¬ Transcript read := by
  cases final with
  | some status =>
    have := h.transcript_some []
    rw [List.append_nil] at this
    rw [this]
    simp [hr]
  | none =>
    have := h.isTranscript []
    simp only [List.append_nil, result, List.nil_append] at this
    rw [← isTranscript_iff, this]
    rcases rest with _ | ⟨a, _ | ⟨b, _ | ⟨c, _ | ⟨d, rest⟩⟩⟩⟩
    · exact absurd rfl hr
    · simp [isTranscript]
    · simp [isTranscript]
    · simp [isTranscript]
    · simp at hlen
      omega

/-- The status returned when no byte is left over. -/
theorem final_iff {read : List UInt8} {final : Option UInt8} (h : Taken read final []) :
    final.getD statusInternalError = statusSuccess ↔ Transcript read := by
  cases final with
  | some status =>
    have := h.transcript_some []
    rw [List.append_nil] at this
    rw [this]
    simp
  | none =>
    have := h.isTranscript []
    rw [List.append_nil] at this
    rw [← isTranscript_iff, this]
    decide

theorem inv_resume {client : Bool} {s : Supervisor} {read : List UInt8} (unread : List UInt8)
    {exit : Option ℕ} (h : Taken read s.finalStatus s.workerResponse) :
    Inv ⟨s.resume client, read, unread, exit⟩ := by
  cases parsed_parse client (s := s) _ _ h with
  | broken phase child sent hb =>
    simp only [Inv, Supervisor.resume, phase]
    exact .inl ⟨by decide, hb⟩
  | waiting phase child sent taken short =>
    simp only [Inv, Supervisor.resume, phase]
    exact ⟨taken, short⟩
  | report hc phase child sent final taken =>
    simp only [Inv, Supervisor.resume, phase]
    exact ⟨final, taken⟩

theorem inv_write {a : Attempt} (bs : List UInt8) (h : a.Inv) :
    Inv { a with unread := a.unread ++ bs } := h

theorem inv_exit {a : Attempt} {code : ℕ} (he : a.exit = none) (h : a.Inv) :
    Inv { a with exit := some code } := by
  obtain ⟨⟨phase, child, response, final, sent⟩, read, unread, exit⟩ := a
  subst he
  cases phase with
  | exitDisconnect success => simp [Inv] at h
  | exitDeadline => simp [Inv] at h
  | returned status =>
    simp only [Inv, Option.isSome_none, Bool.false_eq_true, false_and, or_false] at h
    exact .inl h
  | _ => exact h

theorem Taken.more {read rest : List UInt8} {final : Option UInt8} (h : Taken read final rest)
    (bs : List UInt8) : Taken (read ++ bs) final (rest ++ bs) := by
  obtain ⟨n, hn⟩ := h.frames
  exact ⟨⟨n, by simp [hn]⟩, h.final_le⟩

/-- The exit of the worker, once `client_disconnected` is answered. -/
theorem inv_exited {s : Supervisor} {read : List UInt8} (unread : List UInt8)
    {exit : Option ℕ} {success : Bool}
    (ht : Taken read s.finalStatus s.workerResponse) (hlen : s.workerResponse.length < 4)
    (he : exit.isSome) (hs : success = decide (exit = some 0)) :
    Inv ⟨{ s with phase :=
      if !success || !s.workerResponse.isEmpty then .returned statusInternalError
      else .exitDeadline }, read, unread, exit⟩ := by
  split_ifs with hc
  · refine .inr ⟨he, iff_of_false (by decide) fun ⟨htr, h0⟩ => ?_⟩
    have h0 : exit = some 0 := h0
    have hne : s.workerResponse ≠ [] := by simpa [hs, h0] using hc
    exact not_transcript_of_short ht hne hlen htr
  · have hc' : exit = some 0 ∧ s.workerResponse = [] := by simpa [hs] using hc
    exact ⟨hc'.2 ▸ ht, hc'.1⟩

/-- Every answer keeps the invariant. -/
theorem inv_answer {client : Bool} {a : Attempt} {e : Event} {s' : Supervisor} (h : a.Inv)
    (ha : a.Answers e) (hs : a.sup.step client e = some s') :
    Inv { a with sup := s', read := a.read ++ bytes e, unread := a.unread.drop (bytes e).length } := by
  obtain ⟨⟨phase, child, response, final, sent⟩, read, unread, exit⟩ := a
  cases e with
  | disconnected b =>
    cases ha
    cases phase <;> simp only [step, reduceCtorEq] at hs
    case disconnect =>
      cases hs
      simpa [bytes, Inv] using h
    case exitDisconnect success =>
      cases hs
      obtain ⟨ht, hlen, he, hb⟩ := h
      have := inv_exited unread ht hlen he hb
      simp only [if_false, bytes, List.append_nil, List.length_nil, List.drop_zero]
      split_ifs at this ⊢ <;> exact this
  | expired b =>
    cases ha
    cases phase <;> simp only [step, reduceCtorEq] at hs
    case deadline =>
      cases hs
      simpa [bytes, Inv] using h
    case progressDeadline left =>
      cases hs
      simpa [bytes, Inv] using h
    case exitDeadline =>
      cases hs
      obtain ⟨ht, he⟩ : Taken read final [] ∧ exit = some 0 := h
      subst he
      refine .inr ⟨rfl, ?_⟩
      simpa [bytes] using final_iff ht
  | read r =>
    cases phase <;> simp only [step, reduceCtorEq] at hs
    case read =>
      cases hs
      have ht : Taken read final response := h
      cases r with
      | data bs => exact Taken.more ht bs
      | eof => simpa [bytes] using inv_resume unread ht
      | wouldBlock => simpa [bytes] using inv_resume unread ht
      | interrupted => simpa [bytes, Inv] using h
      | failed => exact ha.elim
  | write r =>
    cases phase <;> simp only [step, reduceCtorEq] at hs
    case progressWrite left =>
      cases hs
      obtain ⟨rfl, ht⟩ := h
      simp only [bytes, List.append_nil, List.length_nil, List.drop_zero]
      cases r with
      | accepted n =>
        cases n with
        | zero => exact absurd ha (by simp [Answers])
        | succ n =>
          simp only [Supervisor.write]
          split_ifs
          · exact inv_resume unread ht
          · exact ⟨rfl, ht⟩
      | wouldBlock => exact ⟨rfl, ht⟩
      | interrupted => exact ⟨rfl, ht⟩
      | failed => exact ha.elim
  | wait r =>
    cases phase <;> simp only [step, reduceCtorEq] at hs
    case tryWait =>
      cases hs
      obtain ⟨ht, hlen⟩ := h
      simp only [bytes, List.append_nil, List.length_nil, List.drop_zero]
      cases r with
      | exited success =>
        obtain ⟨he, hb⟩ := ha
        cases client with
        | true => exact ⟨ht, hlen, he, hb⟩
        | false =>
          exact inv_exited (s := ⟨.tryWait, .reaped, response, final, sent⟩) unread ht hlen he hb
      | running => cases client <;> exact ht
      | failed => exact ha.elim

theorem inv_act {client : Bool} {a a' : Attempt} {x : Action} (h : a.Inv)
    (hx : a.act client x = some a') : a'.Inv := by
  cases x with
  | write bs =>
    simp only [act] at hx
    split_ifs at hx
    cases hx
    exact inv_write bs h
  | exit code =>
    simp only [act] at hx
    split_ifs at hx with he
    cases hx
    exact inv_exit he h
  | answer e =>
    simp only [act] at hx
    split_ifs at hx with ha
    obtain ⟨s', hs, rfl⟩ := Option.map_eq_some_iff.1 hx
    exact inv_answer h ha hs

theorem inv_start (client : Bool) : (start client).Inv := by
  have : Taken [] none [] := ⟨⟨0, rfl⟩, by simp⟩
  cases client <;> exact this

theorem inv_of_reachable {client : Bool} {a : Attempt} (h : Reachable client a) : a.Inv := by
  obtain ⟨xs, hxs⟩ := h
  have key : ∀ (xs : List Action) (b : Attempt), b.Inv → run client b xs = some a → a.Inv := by
    intro xs
    induction xs with
    | nil =>
      intro b hb h
      cases h
      exact hb
    | cons x xs ih =>
      intro b hb h
      obtain ⟨b', hb', h⟩ := Option.bind_eq_some_iff.1 h
      exact ih b' (inv_act hb hb') h
  exact key xs _ (inv_start client) hxs

/-! ## The answer of the supervisor -/

/-- The worker exited with code 0 and left bytes unread that decide the answer:
    the exchange is successful without them, or with them. -/
def Raced (a : Attempt) : Prop :=
  a.exit = some 0 ∧ a.unread ≠ [] ∧ (Transcript a.read ∨ Transcript a.written)

/-- A successful exchange has no successful continuation. -/
theorem not_transcript_append {bs more : List UInt8} (h : Transcript bs) (hm : more ≠ []) :
    ¬ Transcript (bs ++ more) := by
  obtain ⟨n, rfl⟩ := h
  rw [← isTranscript_iff, List.append_assoc, isTranscript_reports]
  have : result (some statusSuccess) ++ more = 0 :: 2 :: 0 :: 0 :: more := rfl
  rw [this, isTranscript, if_neg (by decide)]
  simp [hm]

/-- The supervisor answers with success exactly if the worker wrote a complete
    and successful exchange and exited with 0, unless it lost a race. -/
theorem success_iff {client : Bool} {a : Attempt} {status : UInt8}
    (h : Reachable client a) (hr : a.sup.phase = .returned status) :
    (status = statusSuccess ↔ Transcript a.written ∧ a.exit = some 0) ↔ ¬ a.Raced := by
  have hinv := inv_of_reachable h
  simp only [Inv, hr] at hinv
  obtain ⟨hne, hb⟩ | ⟨-, hiff⟩ := hinv
  · -- a broken exchange is never successful
    have hw : ¬ Transcript a.written := hb a.unread
    have hrd : ¬ Transcript a.read := by simpa using hb []
    simp [Raced, hne, hw, hrd]
  · rw [hiff]
    by_cases he : a.exit = some 0
    · by_cases hu : a.unread = []
      · simp [Raced, hu, written]
      · -- the supervisor judged by what it read, a proper prefix of what was written
        have : Transcript a.read → ¬ Transcript a.written := fun ht =>
          not_transcript_append ht hu
        simp only [Raced, he, hu, and_true, true_and, ne_eq, not_false_eq_true]
        tauto
    · simp [Raced, he]

/-- A run in which the worker's success is followed by one more byte, which the
    supervisor does not see. -/
def trailingRun : List Action :=
  [.write (result (some statusSuccess)), .answer (.expired false),
    .answer (.read (.data (result (some statusSuccess)))), .answer (.read .wouldBlock),
    .write [1], .exit 0, .answer (.wait (.exited true)), .answer (.expired false)]

/-- A run in which the worker's success is lost. -/
def lostRun : List Action :=
  [.answer (.expired false), .answer (.read .wouldBlock),
    .write (result (some statusSuccess)), .exit 0, .answer (.wait (.exited true)),
    .answer (.expired false)]

theorem success_iff_on_clean_run :
    (statusSuccess = statusSuccess ↔
      Transcript (result (some statusSuccess)) ∧ (some 0 : Option ℕ) = some 0) := by
  have h := @success_iff false
    ⟨⟨.returned statusSuccess, .reaped, [], some statusSuccess, []⟩,
      result (some statusSuccess), [], some 0⟩ statusSuccess
    ⟨[.write (result (some statusSuccess)), .exit 0, .answer (.expired false),
      .answer (.read (.data (result (some statusSuccess)))), .answer (.read .eof),
      .answer (.wait (.exited true)), .answer (.expired false)], by decide⟩ rfl
  exact h.2 (by simp [Raced])

/-- Trailing bytes are ignored in one run, and the result is lost in another. -/
theorem success_iff_fails :
    (∃ a, Reachable false a ∧ a.sup.phase = .returned statusSuccess ∧ a.exit = some 0 ∧
      ¬ Transcript a.written) ∧
    ∃ a, Reachable false a ∧ a.sup.phase = .returned statusInternalError ∧ a.exit = some 0 ∧
      Transcript a.written := by
  refine ⟨⟨_, ⟨trailingRun, rfl⟩, ?_, ?_, ?_⟩, ⟨_, ⟨lostRun, rfl⟩, ?_, ?_, ⟨0, ?_⟩⟩⟩
  all_goals first | rfl | skip
  rw [← isTranscript_iff]
  decide

end Attempt

end KFaceAuth
