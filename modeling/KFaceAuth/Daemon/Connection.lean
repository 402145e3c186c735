import KFaceAuth.Daemon.Snapshot

/-!
# A connection to the daemon

The daemon reads one request from a connection, answers it, and writes the
response to the same stream to which the supervisor forwarded the progress
reports of the worker (`handleClientStream`). Both kinds of writes may stop
after any byte. The PAM module reads the stream as a sequence of frames.

A progress report that was cut short is followed by the bytes of the response.
The module is misled by this if, and only if, the report was cut before its
last two bytes: these are then read from the header of the response, and the
frame says success (`pam_success_iff`).
-/

namespace KFaceAuth

open Prog

/-! ## The program -/

/-- `handle_client_stream_with_peer`: whether the response was written. -/
def handleClientStream (maxTimeoutMs : ℕ) (peer : UInt32) (deadline : ℤ) : DaemonProg Bool := do
  match ← ask .readFrame with
  | none => return false
  | some payload =>
    match decodeDaemonRequest payload with
    | .error _ => ask (.writeFrame (encodeDaemonResponse statusInternalError []))
    | .ok (.pamAuth uid authTarget timeoutMs username) =>
      -- the client is watched while the worker runs
      match ← ask (.setNonblocking true) with
      | false => return false
      | true => do
        let response ← dispatchRequest maxTimeoutMs (.pamAuth uid authTarget timeoutMs username)
          peer deadline true
        match ← ask (.setNonblocking false) with
        | false => return false
        | true => ask (.writeFrame response)
    | .ok request => do
      let response ← dispatchRequest maxTimeoutMs request peer deadline false
      ask (.writeFrame response)

/-! ## Forwarded progress reports -/

namespace Supervisor

/-- A progress report, as it is forwarded to the client. -/
def report : List UInt8 := framed progress

/-- What has been sent to the client: whole reports, and the first `j` bytes of
    another, which is being written unless the supervisor has given up. -/
def Forwarding (s : Supervisor) : Prop :=
  ∃ k j, j < 8 ∧ s.sent = (List.replicate k report).flatten ++ report.take j ∧
    match s.phase with
    | .progressDeadline left | .progressWrite left => left = report.drop j
    | .returned status => j = 0 ∨ status = statusCancelled
    | _ => j = 0

theorem parse_phase (client : Bool) (s : Supervisor) (bs : List UInt8) (final : Option UInt8) :
    (s.parse client bs final).sent = s.sent ∧
      ((s.parse client bs final).phase = .returned statusInternalError ∨
        (s.parse client bs final).phase = .tryWait ∨
        (s.parse client bs final).phase = .progressDeadline report) := by
  fun_induction parse client s bs final with
  | case1 b₀ b₁ b₂ b₃ rest final taken hbad => exact ⟨rfl, .inl rfl⟩
  | case2 b₀ b₁ b₃ rest final taken hbad hf => exact ⟨rfl, .inl rfl⟩
  | case3 b₀ b₁ b₃ rest final taken hbad hf hc =>
    obtain ⟨rfl, rfl, rfl⟩ : b₀ = 0 ∧ b₁ = 2 ∧ b₃ = 0 := by tauto
    exact ⟨rfl, .inr (.inr rfl)⟩
  | case4 b₀ b₁ b₃ rest final hbad hf hc ih => exact ih
  | case5 b₀ b₁ b₂ b₃ rest final hbad hp hs ih => exact ih
  | case6 b₀ b₁ b₂ b₃ rest final taken hbad hp hs => exact ⟨rfl, .inl rfl⟩
  | case7 bs final hbs => exact ⟨rfl, .inr (.inl rfl)⟩

/-- The supervisor goes on only between two reports. -/
theorem forwarding_resume {client : Bool} {s : Supervisor} {k : ℕ}
    (h : s.sent = (List.replicate k report).flatten) : (s.resume client).Forwarding := by
  obtain ⟨hs, hp⟩ := parse_phase client s s.workerResponse s.finalStatus
  refine ⟨k, 0, by decide, by simpa [resume, hs] using h, ?_⟩
  rcases hp with hp | hp | hp
  · simp [resume, hp]
  · simp [resume, hp]
  · simp [resume, hp]

theorem forwarding_fail {s : Supervisor} {status : UInt8} {k j : ℕ} (hj : j < 8)
    (hs : s.sent = (List.replicate k report).flatten ++ report.take j)
    (hst : j = 0 ∨ status = statusCancelled) : (s.fail status).Forwarding :=
  ⟨k, j, hj, hs, hst⟩

theorem forwarding_write {client : Bool} {s : Supervisor} {left : List UInt8} {r : WriteReply}
    (h : s.Forwarding) (hp : s.phase = .progressWrite left) : (s.write client left r).Forwarding := by
  obtain ⟨k, j, hj, hs, hleft⟩ := h
  simp only [hp] at hleft
  subst hleft
  cases r with
  | accepted n =>
    cases n with
    | zero => exact forwarding_fail hj hs (.inr rfl)
    | succ n =>
      simp only [write]
      split_ifs with hd
      · -- the report is complete
        refine forwarding_resume (k := k + 1) ?_
        have htake : (report.drop j).take (n + 1) = report.drop j := by
          rw [List.drop_eq_nil_iff] at hd
          exact List.take_of_length_le hd
        simp only [hs, htake, List.append_assoc, List.take_append_drop]
        simp [List.replicate_succ']
      · have hlen : j + (n + 1) < 8 := by
          rw [List.drop_drop, List.drop_eq_nil_iff] at hd
          have : report.length = 8 := by decide
          omega
        refine ⟨k, j + (n + 1), hlen, ?_, ?_⟩
        · simp only [hs, List.append_assoc, List.take_add]
        · simp
  | wouldBlock => exact ⟨k, j, hj, hs, rfl⟩
  | interrupted => exact ⟨k, j, hj, hs, rfl⟩
  | failed => exact forwarding_fail hj hs (.inr rfl)

theorem forwarding_step {client : Bool} {s s' : Supervisor} {e : Event} (h : s.Forwarding)
    (hs : s.step client e = some s') : s'.Forwarding := by
  have hwrite := h
  obtain ⟨k, j, hj, hsent, hphase⟩ := h
  obtain ⟨phase, child, response, final, sent⟩ := s
  cases e with
  | disconnected b =>
    cases phase <;> simp only [step, reduceCtorEq] at hs
    case disconnect =>
      obtain rfl : j = 0 := hphase
      cases hs
      split_ifs <;> exact ⟨k, 0, hj, hsent, by simp [fail]⟩
    case exitDisconnect success =>
      obtain rfl : j = 0 := hphase
      cases hs
      split_ifs <;> exact ⟨k, 0, hj, hsent, by simp⟩
  | expired b =>
    cases phase <;> simp only [step, reduceCtorEq] at hs
    case deadline =>
      obtain rfl : j = 0 := hphase
      cases hs
      split_ifs <;> exact ⟨k, 0, hj, hsent, by simp [fail]⟩
    case progressDeadline left =>
      cases hs
      split_ifs
      · exact forwarding_fail hj hsent (.inr rfl)
      · exact ⟨k, j, hj, hsent, hphase⟩
    case exitDeadline =>
      obtain rfl : j = 0 := hphase
      cases hs
      exact ⟨k, 0, hj, hsent, .inl rfl⟩
  | read r =>
    cases phase <;> simp only [step, reduceCtorEq] at hs
    case read =>
      obtain rfl : j = 0 := hphase
      cases hs
      have hk : sent = (List.replicate k report).flatten := by simpa using hsent
      cases r with
      | data bs => exact ⟨k, 0, hj, hsent, rfl⟩
      | eof => exact forwarding_resume hk
      | wouldBlock => exact forwarding_resume hk
      | interrupted => exact ⟨k, 0, hj, hsent, rfl⟩
      | failed => exact forwarding_fail hj hsent (.inl rfl)
  | write r =>
    cases phase <;> simp only [step, reduceCtorEq] at hs
    case progressWrite left =>
      cases hs
      exact forwarding_write hwrite rfl
  | wait r =>
    cases phase <;> simp only [step, reduceCtorEq] at hs
    case tryWait =>
      obtain rfl : j = 0 := hphase
      cases hs
      cases r with
      | exited success =>
        refine ⟨k, 0, hj, hsent, ?_⟩
        dsimp only
        split_ifs <;> simp
      | running => cases client <;> exact ⟨k, 0, hj, hsent, rfl⟩
      | failed => exact forwarding_fail hj hsent (.inl rfl)

theorem forwarding_start (client : Bool) : (start client).Forwarding := by
  cases client <;> exact ⟨0, 0, by decide, rfl, rfl⟩

/-- A supervisor that has returned sent whole reports, unless it gave up. -/
theorem sent_of_returned {client : Bool} {es : List Event} {s : Supervisor} {status : UInt8}
    (h : (start client).run client es = some s) (hs : s.phase = .returned status) :
    ∃ k j, j < 8 ∧ s.sent = (List.replicate k report).flatten ++ report.take j ∧
      (j = 0 ∨ status = statusCancelled) := by
  obtain ⟨k, j, hj, hsent, hphase⟩ :=
    run_inv (P := Forwarding) (fun _ _ _ => forwarding_step) (forwarding_start client) h
  rw [hs] at hphase
  exact ⟨k, j, hj, hsent, hphase⟩

end Supervisor

/-! ## What the PAM module reads -/

theorem prefix_append_cases {x a b : List UInt8} (h : x <+: a ++ b) :
    x <+: a ∨ ∃ y, x = a ++ y ∧ y <+: b := by
  rcases List.prefix_or_prefix_of_prefix h (List.prefix_append a b) with h' | ⟨y, rfl⟩
  · exact .inl h'
  · exact .inr ⟨y, rfl, (List.prefix_append_right_inj a).1 h⟩

open Supervisor in
theorem pamReceive_reports (timedOut : Bool) (k : ℕ) (bs : List UInt8) :
    pamReceive timedOut ((List.replicate k report).flatten ++ bs) = pamReceive timedOut bs := by
  induction k with
  | zero => rfl
  | succ k ih =>
    rw [← ih]
    have : (List.replicate (k + 1) report).flatten ++ bs =
        0 :: 0 :: 0 :: 4 :: 0 :: 2 :: 0x80 :: 0 :: ((List.replicate k report).flatten ++ bs) := by
      have : report = [0, 0, 0, 4, 0, 2, 0x80, 0] := by decide
      simp [List.replicate_succ, this]
    rw [this, pamReceive, if_neg (by decide), if_neg (by decide), if_pos (by decide)]

open Supervisor in
/-- Reports alone are no success. -/
theorem pamReceive_prefix_reports (timedOut : Bool) (k : ℕ) {j : ℕ} (hj : j < 8)
    {rx : List UInt8} (h : rx <+: (List.replicate k report).flatten ++ report.take j) :
    pamReceive timedOut rx ≠ .success := by
  have short : ∀ timedOut : Bool, ∀ j < 8, pamReceive timedOut (report.take j) ≠ .success := by
    decide
  induction k generalizing rx with
  | zero =>
    rw [List.replicate_zero, List.flatten_nil, List.nil_append] at h
    rw [List.prefix_iff_eq_take.1 h, List.take_take]
    exact short timedOut _ (by omega)
  | succ k ih =>
    rw [List.replicate_succ, List.flatten_cons, List.append_assoc] at h
    rcases prefix_append_cases h with h | ⟨rest, rfl, hrest⟩
    · rcases eq_or_ne rx report with rfl | hne
      · have := pamReceive_reports timedOut 1 []
        simp only [List.replicate_one, List.flatten_singleton, List.append_nil] at this
        rw [this]
        cases timedOut <;> decide
      · have hlen : rx.length < 8 := by
          have h8 : report.length = 8 := by decide
          rcases Nat.lt_or_ge rx.length 8 with h' | h'
          · exact h'
          · exact absurd (h.eq_of_length_le (by omega)) hne
        rw [List.prefix_iff_eq_take.1 h]
        exact short timedOut _ hlen
    · have := pamReceive_reports timedOut 1 rest
      simp only [List.replicate_one, List.flatten_singleton] at this
      rw [this]
      exact ih hrest

theorem pamResult_eq_success {status : UInt8} (h : pamResult status = .success) :
    status = statusSuccess := by
  unfold pamResult at h
  split_ifs at h with hs
  exact hs

/-- A clean response is read as it was written. -/
theorem responseStatus_of_pamReceive {timedOut : Bool} {response y : List UInt8}
    (hlen : response.length ≤ maxDaemonResponseBytes) (hy : y <+: framed response)
    (h : pamReceive timedOut y = .success) : responseStatus response = some statusSuccess := by
  match y, h with
  | h₀ :: h₁ :: h₂ :: h₃ :: body, h =>
    unfold pamReceive at h
    split_ifs at h with hhdr
    obtain ⟨rest, hrest⟩ := hy
    -- the header is that of the response
    have hfour : response.length = 4 ∧ response = body ++ rest := by
      simp only [framed, be32, List.cons_append, List.nil_append, List.cons.injEq] at hrest
      obtain ⟨r₀, r₁, r₂, r₃, hbody⟩ := hrest
      have hbe : ofBe (be32 response.length) = 4 := by
        simp only [be32, ← r₀, ← r₁, ← r₂, ← r₃]
        exact not_not.1 hhdr
      rw [ofBe_be32 (by simp only [maxDaemonResponseBytes] at hlen; omega)] at hbe
      exact ⟨hbe, hbody.symm⟩
    match body, h, hfour with
    | b₀ :: b₁ :: b₂ :: b₃ :: tail, h, ⟨hl, hr⟩ =>
      obtain ⟨rfl, rfl⟩ : tail = [] ∧ rest = [] := by
        rw [hr] at hl
        simpa using hl
      dsimp only at h
      split_ifs at h with h₁ h₂
      · cases timedOut <;> cases h
      · rw [hr]
        simp [responseStatus, pamResult_eq_success h]
    | [], h, _ => cases timedOut <;> cases h
    | [_], h, _ => cases timedOut <;> cases h
    | [_, _], h, _ => cases timedOut <;> cases h
    | [_, _, _], h, _ => cases timedOut <;> cases h
  | [], h => cases timedOut <;> cases h
  | [_], h => cases timedOut <;> cases h
  | [_, _], h => cases timedOut <;> cases h
  | [_, _, _], h => cases timedOut <;> cases h

open Supervisor in
/-- After a report cut short, the response that the attempt was cancelled is
    read as success only if the cut is before the last two bytes. -/
theorem pamReceive_cut (timedOut : Bool) {j : ℕ} (hj : j < 8) (hj₀ : j ≠ 0) {y : List UInt8}
    (hy : y <+: framed (encodeDaemonResponse statusCancelled [])) :
    pamReceive timedOut (report.take j ++ y) = .success ↔ j = 6 ∧ 2 ≤ y.length := by
  have key : ∀ timedOut : Bool, ∀ j < 8, j ≠ 0 → ∀ n < 9,
      (pamReceive timedOut (report.take j ++
        (framed (encodeDaemonResponse statusCancelled [])).take n) = .success ↔ j = 6 ∧ 2 ≤ n) := by
    decide
  have hlen : y.length < 9 := by
    have := hy.length_le
    have h8 : (framed (encodeDaemonResponse statusCancelled [])).length = 8 := by decide
    omega
  rw [← key timedOut j hj hj₀ y.length hlen, ← List.prefix_iff_eq_take.1 hy]

/-! ## Writing the response -/

theorem writeAll_accepted {bs acc : List UInt8} {rs rs' : List StreamReply} {ok : Bool}
    (h : writeAll bs rs = some (acc, ok, rs')) : acc <+: bs ∧ (ok = true → acc = bs) := by
  fun_induction writeAll bs rs generalizing acc ok rs' with
  | case1 rs =>
    cases h
    exact ⟨List.prefix_rfl, fun _ => rfl⟩
  | case2 => cases h
  | case3 b bs rs ih => exact ih h
  | case4 b bs n rs ih =>
    obtain ⟨⟨done, ok', rs₁⟩, hr, he⟩ := Option.map_eq_some_iff.1 h
    cases he
    obtain ⟨hp, hfull⟩ := ih hr
    refine ⟨?_, fun hok => ?_⟩
    · have : b :: bs = b :: (bs.take n ++ bs.drop n) := by rw [List.take_append_drop]
      rw [this, List.cons_prefix_cons]
      exact ⟨rfl, (List.prefix_append_right_inj _).2 hp⟩
    · rw [hfull hok, List.take_append_drop]
  | case5 => 
    cases h
    exact ⟨List.nil_prefix, nofun⟩

theorem writeFrame_accepted {response acc : List UInt8} {rs : List StreamReply} {flushed ok : Bool}
    (h : writeFrame response rs flushed = some (acc, ok)) :
    acc <+: framed response ∧ (acc ≠ [] → response.length ≤ maxDaemonResponseBytes) := by
  unfold writeFrame at h
  split_ifs at h with hlen
  · cases h
    exact ⟨List.nil_prefix, fun h => absurd rfl h⟩
  simp only [Bool.or_eq_true, decide_eq_true_eq, not_or, not_lt] at hlen
  refine ⟨?_, fun _ => hlen.2⟩
  obtain ⟨⟨header, ok₁, rs₁⟩, hh, h⟩ := Option.bind_eq_some_iff.1 h
  obtain ⟨hp, hfull⟩ := writeAll_accepted hh
  cases ok₁ with
  | false =>
    cases h
    exact hp.trans (List.prefix_append _ _)
  | true =>
    obtain ⟨⟨body, ok₂, rs₂⟩, hb, he⟩ := Option.map_eq_some_iff.1 h
    cases he
    rw [hfull rfl, framed]
    exact (List.prefix_append_right_inj _).2 (writeAll_accepted hb).1

/-! ## The connection -/

namespace Daemon

variable {w w' : Daemon}

/-- A daemon at the start of a connection. -/
def connect (w : Daemon) : Daemon := { w with progress := [], answer := [], log := [] }

/-- An entry that writes a response. -/
def IsResponse : Entry → Prop
  | .call (.writeFrame _) _ => True
  | _ => False

def NotWriteFrame : DaemonCall → Prop
  | .writeFrame _ => False
  | _ => True

/-- Nothing is written to the client as a response. -/
def NoResponse (w w' : Daemon) : Prop :=
  w'.answer = w.answer ∧ ∃ l, w'.log = w.log ++ l ∧ ∀ e ∈ l, ¬ IsResponse e

theorem Call.noResponse {c : DaemonCall} {r : c.Reply} (h : Call w c r w')
    (hc : NotWriteFrame c) : NoResponse w w' := by
  obtain ⟨a, w₂, hch, he, rfl⟩ := h
  obtain ⟨l, hl, hal⟩ := changes_log hch
  have hans : w₂.answer = a.answer := by
    cases c with
    | writeFrame => exact hc.elim
    | openPolicy => obtain ⟨-, rfl⟩ | ⟨i, -, -, rfl⟩ := he <;> rfl
    | supervise =>
      obtain ⟨replies, he⟩ := he
      split at he
      · rw [he.2]
      · obtain ⟨es, s, -, -, rfl⟩ := he
        rfl
    | lstat => rw [he.1]
    | fstat => rw [he.1]
    | read => rw [he.1]
    | _ =>
      cases he
      rfl
  refine ⟨hans.trans (changes_frame hch).answer, l ++ [Entry.call c r], by simp [he.log, hl],
    fun e hmem => ?_⟩
  rcases List.mem_append.1 hmem with hmem | hmem
  · rw [hal e hmem]
    exact id
  · rw [List.mem_singleton.1 hmem]
    cases c <;> first | exact hc.elim | exact id

theorem NoResponse.trans {w₁ w₂ w₃ : Daemon} (h : NoResponse w₁ w₂) (h' : NoResponse w₂ w₃) :
    NoResponse w₁ w₃ := by
  obtain ⟨ha, l, hl, hn⟩ := h
  obtain ⟨ha', l', hl', hn'⟩ := h'
  refine ⟨ha'.trans ha, l ++ l', by rw [hl', hl, List.append_assoc], fun e he => ?_⟩
  exact (List.mem_append.1 he).elim (hn e) (hn' e)

theorem noResponse_of_calls {α : Type} {p : DaemonProg α} {x : α} (hp : p.Calls NotWriteFrame)
    (h : Runs Call p w x w') : NoResponse w w' := by
  exact h.rel hp (fun w => ⟨rfl, [], by simp, by simp⟩) (fun _ _ _ => NoResponse.trans)
    fun _ _ _ _ hc h => h.noResponse hc

theorem notWriteFrame_of_looksAtFiles {c : DaemonCall} (h : LooksAtFiles c) : NotWriteFrame c := by
  cases c <;> first | exact h | exact trivial

theorem calls_attempt (maxTimeoutMs : ℕ) (uid : UInt32) (authTarget : UInt8) (timeoutMs : ℕ)
    (deadline : ℤ) (client : Bool) (start : AuthPolicySnapshot) :
    (attempt maxTimeoutMs uid authTarget timeoutMs deadline client start).Calls NotWriteFrame := by
  refine Calls.bind (calls_perform.2 trivial) fun now => ?_
  split
  · exact trivial
  · refine Calls.bind (calls_perform.2 trivial) fun status => ?_
    split_ifs
    · refine Calls.bind ((calls_isCurrent start).mono fun _ => notWriteFrame_of_looksAtFiles)
        fun current => ?_
      cases current with
      | false => exact trivial
      | true => exact Calls.bind (calls_perform.2 trivial) fun _ => trivial
    · exact trivial

theorem calls_dispatchRequest (maxTimeoutMs : ℕ) (request : DaemonRequest) (peer : UInt32)
    (deadline : ℤ) (client : Bool) :
    (dispatchRequest maxTimeoutMs request peer deadline client).Calls NotWriteFrame := by
  cases request with
  | pamAuth uid authTarget timeoutMs username =>
    simp only [dispatchRequest]
    split_ifs
    · refine Calls.bind (calls_authenticationPolicy.mono fun _ => notWriteFrame_of_looksAtFiles)
        fun s => ?_
      cases s with
      | none => exact trivial
      | some s =>
        dsimp only
        split_ifs
        · exact Calls.bind (calls_attempt _ _ _ _ _ _ s) fun _ =>
            Calls.bind (calls_perform.2 trivial) fun _ => trivial
        · exact Calls.bind (calls_perform.2 trivial) fun _ => trivial
    · exact trivial
  | status uid =>
    simp only [dispatchRequest]
    split_ifs
    · exact Calls.bind (calls_perform.2 trivial) fun _ => trivial
    · exact trivial
  | freshness uid localDigest =>
    simp only [dispatchRequest, dispatchFreshness]
    split_ifs
    · refine Calls.bind (calls_perform.2 trivial) fun b => ?_
      cases b with
      | true => exact trivial
      | false => exact Calls.bind (calls_perform.2 trivial) fun _ => trivial
    · exact trivial

open Supervisor in
/-- The bytes of progress: whole reports, and a part of another only if the
    response is that the attempt was cancelled. -/
def Progressed (response progress : List UInt8) : Prop :=
  ∃ k j, j < 8 ∧ progress = (List.replicate k report).flatten ++ report.take j ∧
    (j = 0 ∨ response = encodeDaemonResponse statusCancelled [])

theorem progressed_nil (response : List UInt8) : Progressed response [] :=
  ⟨0, 0, by decide, rfl, .inl rfl⟩

theorem attempt_progressed {maxTimeoutMs : ℕ} {uid : UInt32} {authTarget : UInt8} {timeoutMs : ℕ}
    {deadline : ℤ} {client : Bool} {start : AuthPolicySnapshot} {response : List UInt8}
    (h : Runs Call (attempt maxTimeoutMs uid authTarget timeoutMs deadline client start) w
      response w') (hw : w.progress = []) : Progressed response w'.progress := by
  obtain ⟨rfl, hf⟩ | ⟨status, w₁, w₂, processing, ⟨now, hnow⟩, hsup, hcase⟩ := attempt_cases h
  · rw [hf.progress, hw]
    exact progressed_nil _
  have hw₁ : w₁.progress = [] := (hnow.frame trivial).progress.trans hw
  -- what follows the worker sends nothing
  have hend : w'.progress = w₂.progress := by
    obtain ⟨-, -, hf⟩ | ⟨-, -, hf⟩ | ⟨-, -, w₃, hcur, a, w₄, hch, he, rfl⟩ := hcase
    · exact hf.progress
    · exact hf.progress
    · cases he
      exact ((frame_of_calls (calls_isCurrent start) hcur).trans (changes_frame hch)).progress
  obtain ⟨-, replies, hm⟩ := supervised_of_call hsup
  split at hm
  · rw [hend, hm.2.2, hw₁]
    exact progressed_nil _
  · obtain ⟨es, s, hrun, hphase, -, hprog⟩ := hm
    obtain ⟨k, j, hj, hsent, hj₀⟩ := Supervisor.sent_of_returned hrun hphase
    refine ⟨k, j, hj, by rw [hend, hprog, hw₁, hsent, List.nil_append], hj₀.imp_right ?_⟩
    rintro rfl
    obtain ⟨-, rfl, -⟩ | ⟨-, hs, -⟩ | ⟨-, hs, -⟩ := hcase
    · rfl
    · exact absurd hs (by decide)
    · exact absurd hs (by decide)

theorem dispatchRequest_progressed {maxTimeoutMs : ℕ} {request : DaemonRequest} {peer : UInt32}
    {deadline : ℤ} {client : Bool} {response : List UInt8}
    (h : Runs Call (dispatchRequest maxTimeoutMs request peer deadline client) w response w')
    (hw : w.progress = []) : Progressed response w'.progress := by
  have quiet : Frame w w' → Progressed response w'.progress := by
    intro hf
    rw [hf.progress, hw]
    exact progressed_nil _
  cases request with
  | pamAuth uid authTarget timeoutMs username =>
    simp only [dispatchRequest] at h
    split_ifs at h
    · obtain ⟨-, hf⟩ | ⟨start, w₁, w₂, hpol, -, hatt, hclose⟩ := dispatchPamAuth_cases h
      · exact quiet hf
      · have hw₁ := (frame_of_calls calls_authenticationPolicy hpol).progress.trans hw
        rw [(hclose.frame trivial).progress]
        exact attempt_progressed hatt hw₁
    · obtain ⟨-, rfl⟩ := runs_pure.1 h
      exact quiet (.refl _)
  | status uid =>
    refine quiet (frame_of_calls ?_ h)
    simp only [dispatchRequest]
    split_ifs
    · exact Calls.bind (calls_perform.2 trivial) fun _ => trivial
    · exact trivial
  | freshness uid localDigest =>
    refine quiet (frame_of_calls ?_ h)
    simp only [dispatchRequest, dispatchFreshness]
    split_ifs
    · refine Calls.bind (calls_perform.2 trivial) fun b => ?_
      cases b with
      | true => exact trivial
      | false => exact Calls.bind (calls_perform.2 trivial) fun _ => trivial
    · exact trivial

/-- What a connection leaves in the client's socket: the progress of the
    request, and of the response the bytes that were accepted. -/
structure Answered (w : Daemon) (response : List UInt8) : Prop where
  answer : w.answer <+: framed response
  progressed : Progressed response w.progress
  only : ∀ r ok, .call (.writeFrame r) ok ∈ w.log → r = response
  written : w.answer ≠ [] → response.length ≤ maxDaemonResponseBytes ∧
    ∃ ok, .call (.writeFrame response) ok ∈ w.log

theorem answered_of_noResponse {response : List UInt8} (h : NoResponse w.connect w')
    (hp : Progressed response w'.progress) : Answered w' response := by
  obtain ⟨ha, l, hl, hn⟩ := h
  have hnil : w'.answer = [] := ha
  refine ⟨by simp [hnil], hp, fun r ok hmem => ?_, fun hne => absurd hnil hne⟩
  rw [hl] at hmem
  exact absurd trivial (hn (.call (.writeFrame r) ok) (by simpa [connect] using hmem))

theorem answered_of_writeFrame {response : List UInt8} {ok : Bool} {w₁ : Daemon}
    (h : NoResponse w.connect w₁) (hp : Progressed response w₁.progress)
    (hw : Call w₁ (.writeFrame response) ok w') : Answered w' response := by
  obtain ⟨ha, l, hl, hn⟩ := h
  obtain ⟨a, w₂, hch, ⟨rs, flushed, accepted, hwrite, rfl⟩, rfl⟩ := hw
  obtain ⟨cs, hcs, hall⟩ := changes_log hch
  have hf := changes_frame hch
  obtain ⟨hpre, hlen⟩ := writeFrame_accepted hwrite
  have hanswer : a.answer ++ accepted = accepted := by
    rw [hf.answer, ha]
    rfl
  refine ⟨?_, ?_, fun r ok' hmem => ?_, fun hne => ⟨hlen ?_, ok, by simp⟩⟩
  · simpa [hanswer] using hpre
  · simpa [hf.progress] using hp
  · have hlog : a.log ++ [Entry.call (.writeFrame response) ok] =
        l ++ cs ++ [Entry.call (.writeFrame response) ok] := by
      rw [hcs, hl]
      rfl
    have hmem' : Entry.call (.writeFrame r) ok' ∈
        l ++ cs ++ [Entry.call (.writeFrame response) ok] := by
      rw [← hlog]
      exact hmem
    simp only [List.mem_append, List.mem_singleton] at hmem'
    rcases hmem' with (hmem' | hmem') | hmem'
    · exact absurd trivial (hn _ hmem')
    · cases hall _ hmem'
    · cases hmem'
      rfl
  · rw [← hanswer]
    exact hne

theorem answered_of_handleClientStream {maxTimeoutMs : ℕ} {peer : UInt32} {deadline : ℤ}
    {done : Bool} (h : Runs Call (handleClientStream maxTimeoutMs peer deadline) w.connect done w') :
    ∃ response, Answered w' response := by
  obtain ⟨payload, w₁, h₁, h⟩ := runs_bind.1 h
  rw [runs_perform] at h₁
  have hn₁ := h₁.noResponse trivial
  have hp₁ : w₁.progress = [] := (h₁.frame trivial).progress
  cases payload with
  | none =>
    obtain ⟨-, rfl⟩ := runs_pure.1 h
    exact ⟨[], answered_of_noResponse hn₁ (by rw [hp₁]; exact progressed_nil _)⟩
  | some payload =>
    dsimp only at h
    cases hd : decodeDaemonRequest payload with
    | error e =>
      rw [hd] at h
      exact ⟨_, answered_of_writeFrame hn₁ (by rw [hp₁]; exact progressed_nil _)
        (runs_perform.1 h)⟩
    | ok request =>
      rw [hd] at h
      -- a request that is answered at once
      have direct : Runs Call (do
          let response ← dispatchRequest maxTimeoutMs request peer deadline false
          ask (.writeFrame response)) w₁ done w' → ∃ response, Answered w' response := by
        intro h
        obtain ⟨response, w₂, h₂, h⟩ := runs_bind.1 h
        have hn₂ := hn₁.trans (noResponse_of_calls (calls_dispatchRequest _ _ _ _ _) h₂)
        exact ⟨response, answered_of_writeFrame hn₂ (dispatchRequest_progressed h₂ hp₁)
          (runs_perform.1 h)⟩
      cases request with
      | status uid => exact direct h
      | freshness uid localDigest => exact direct h
      | pamAuth uid authTarget timeoutMs username =>
        obtain ⟨b, w₂, h₂, h⟩ := runs_bind.1 h
        rw [runs_perform] at h₂
        have hn₂ := hn₁.trans (h₂.noResponse trivial)
        have hp₂ : w₂.progress = [] := (h₂.frame trivial).progress.trans hp₁
        cases b with
        | false =>
          obtain ⟨-, rfl⟩ := runs_pure.1 h
          exact ⟨[], answered_of_noResponse hn₂ (by rw [hp₂]; exact progressed_nil _)⟩
        | true =>
          obtain ⟨response, w₃, h₃, h⟩ := runs_bind.1 h
          have hn₃ := hn₂.trans (noResponse_of_calls (calls_dispatchRequest _ _ _ _ _) h₃)
          have hp₃ := dispatchRequest_progressed h₃ hp₂
          obtain ⟨b', w₄, h₄, h⟩ := runs_bind.1 h
          rw [runs_perform] at h₄
          have hn₄ := hn₃.trans (h₄.noResponse trivial)
          have hp₄ : Progressed response w₄.progress := by
            rw [(h₄.frame trivial).progress]
            exact hp₃
          cases b' with
          | false =>
            obtain ⟨-, rfl⟩ := runs_pure.1 h
            exact ⟨response, answered_of_noResponse hn₄ hp₄⟩
          | true => exact ⟨response, answered_of_writeFrame hn₄ hp₄ (runs_perform.1 h)⟩

open Supervisor in
/-- The PAM module succeeds only if the daemon's response is success, unless a
    progress report was cut before its last two bytes and at least two bytes of
    the response follow it. -/
theorem pam_success_iff {maxTimeoutMs : ℕ} {peer : UInt32} {deadline : ℤ} {done : Bool}
    (h : Runs Call (handleClientStream maxTimeoutMs peer deadline) w.connect done w') :
    (∀ rx timedOut, rx <+: w'.progress ++ w'.answer → pamReceive timedOut rx = .success →
      ∃ response ok, .call (.writeFrame response) ok ∈ w'.log ∧
        responseStatus response = some statusSuccess) ↔
    ¬ (w'.progress.length % 8 = 6 ∧ 2 ≤ w'.answer.length) := by
  obtain ⟨response, hans⟩ := answered_of_handleClientStream h
  obtain ⟨k, j, hj, hprog, hcut⟩ := hans.progressed
  have hlen : w'.progress.length % 8 = j := by
    have h8 : report.length = 8 := by decide
    simp only [hprog, List.length_append, List.length_flatten, List.map_replicate,
      List.sum_replicate_nat, List.length_take, h8]
    omega
  rw [hlen]
  constructor
  · rintro hclaim ⟨rfl, h2⟩
    obtain rfl := hcut.resolve_left (by decide)
    have hsucc : pamReceive false (w'.progress ++ w'.answer) = .success := by
      rw [hprog, List.append_assoc, pamReceive_reports]
      exact (pamReceive_cut false hj (by decide) hans.answer).2 ⟨rfl, h2⟩
    obtain ⟨r, ok, hmem, hs⟩ := hclaim _ _ List.prefix_rfl hsucc
    rw [hans.only r ok hmem] at hs
    exact absurd hs (by decide)
  · intro hcond rx timedOut hrx hsucc
    rw [hprog] at hrx
    rcases prefix_append_cases hrx with hrx | ⟨y, rfl, hy⟩
    · exact absurd hsucc (pamReceive_prefix_reports timedOut k hj hrx)
    rw [List.append_assoc, pamReceive_reports] at hsucc
    rcases Nat.eq_zero_or_pos j with rfl | hpos
    · -- the response is read from its beginning
      have hy' : y <+: framed response := hy.trans hans.answer
      have hne : w'.answer ≠ [] := by
        rintro he
        rw [he, List.prefix_nil] at hy
        subst hy
        cases timedOut <;> cases hsucc
      obtain ⟨hmax, ok, hmem⟩ := hans.written hne
      exact ⟨response, ok, hmem, responseStatus_of_pamReceive hmax hy' hsucc⟩
    · obtain rfl := hcut.resolve_left (by omega)
      obtain ⟨h6, h2⟩ := (pamReceive_cut timedOut hj (by omega) (hy.trans hans.answer)).1 hsucc
      exact absurd ⟨h6, h2.trans hy.length_le⟩ hcond

/-! ## Two connections

A request of user 1000 under the policy of the example, for which the worker
reports progress. In one the attempt fails after a whole report; in the other
the client accepts six bytes of the report before the deadline. -/

/-- The request of user 1000 for the login screen. -/
def exampleRequest : List UInt8 :=
  [0, 2, opPamAuth, authTargetSddm] ++ be32 1000 ++ be32 2000 ++ [0, 4, 117, 115, 101, 114]

theorem runs_attempt_failed {es : List Event} {s : Supervisor} {status : UInt8}
    (hl : w.limiter = ∅) (hp : w.progress = [])
    (hes : (Supervisor.start true).run true es = some s) (hs : s.phase = .returned status)
    (hne : status ≠ statusSuccess) :
    ∃ w', Runs Call (attempt 2000 1000 authTargetSddm 2000 (10 ^ 10) true exampleSnapshot) w
      (encodeDaemonResponse status []) w' ∧ w'.progress = s.sent := by
  have hstart : startAuthWorker ⟨true, true, false, 0, true, true, true⟩ 1000 ∅ =
      (.ok (), ((∅ : AuthRateLimiter).allowAt 1000 0).2) := by
    decide
  refine Runs.seq_post (runs_ask (c := .now) (r := (0 : ℤ)) rfl) ?_
  rw [show processingDeadline 0 (min (min 2000 2000) defaultPamTimeoutMs) (10 ^ 10) =
    some 1900000000 by decide]
  refine Runs.seq_post (runs_ask (r := status)
    (v := { w with
      limiter := ((∅ : AuthRateLimiter).allowAt 1000 0).2
      progress := s.sent
      log := w.log ++ [Entry.call .now (0 : ℤ)] })
    ⟨⟨true, true, false, 0, true, true, true⟩, ?_⟩) ?_
  · dsimp only
    rw [hl, hstart]
    exact ⟨es, s, hes, hs, by simp [hp]⟩
  · rw [if_neg hne]
    exact ⟨_, .pure _ _, rfl⟩

theorem runs_connection_failed (es : List Event) (s : Supervisor) {status : UInt8}
    (hes : (Supervisor.start true).run true es = some s) (hs : s.phase = .returned status)
    (hne : status ≠ statusSuccess) :
    ∃ w', Runs Call (handleClientStream 2000 1000 (10 ^ 10)) exampleDaemon.connect true w' ∧
      w'.progress = s.sent ∧ w'.answer = framed (encodeDaemonResponse status []) := by
  have hreq : decodeDaemonRequest exampleRequest =
      .ok (.pamAuth 1000 authTargetSddm 2000 "user") := by decide
  let w₁ : Daemon := { exampleDaemon.connect with
    log := [.call .readFrame (some exampleRequest), .call (.setNonblocking true) true] }
  obtain ⟨w₂, h₂, -, hl⟩ := runs_authenticationPolicy_example (w := w₁) ⟨rfl, rfl⟩
  have hf := frame_of_calls calls_authenticationPolicy h₂
  obtain ⟨w₃, h₃, hp₃⟩ := runs_attempt_failed hl hf.progress hes hs hne
  have ha₃ : w₃.answer = [] :=
    (noResponse_of_calls (calls_attempt _ _ _ _ _ _ _) h₃).1.trans hf.answer
  have hdispatch : ∃ w', Runs Call (dispatchRequest 2000
      (.pamAuth 1000 authTargetSddm 2000 "user") 1000 (10 ^ 10) true) w₁
      (encodeDaemonResponse status []) w' ∧ w'.progress = s.sent ∧ w'.answer = [] := by
    simp only [dispatchRequest]
    rw [if_pos (by decide)]
    refine h₂.seq_post ?_
    dsimp only
    rw [if_pos (by decide)]
    exact h₃.seq_post ((runs_ask (c := .close (0, 1)) (r := ()) rfl).seq_post
      ⟨_, .pure _ _, hp₃, ha₃⟩)
  obtain ⟨w₄, h₄, hp₄, ha₄⟩ := hdispatch
  refine Runs.seq_post (runs_ask (c := .readFrame) (r := some exampleRequest) rfl) ?_
  dsimp only
  rw [hreq]
  refine Runs.seq_post (runs_ask (c := .setNonblocking true) (r := true) rfl) (h₄.seq_post ?_)
  refine Runs.seq_post (runs_ask (c := .setNonblocking false) (r := true) rfl) ?_
  exact ⟨_, runs_ask ⟨[.accepted 4, .accepted 4], true, _, rfl, rfl⟩, hp₄, by
    rw [ha₄]
    rfl⟩

/-- The attempt fails after one report. -/
def failedEvents : List Event :=
  [.disconnected false, .expired false,
    .read (.data (Supervisor.progress ++ encodeDaemonResponse statusAuthFailed [])), .read .wouldBlock,
    .expired false, .write (.accepted 8), .wait (.exited true), .disconnected false, .expired false]

/-- The client accepts six bytes of the report. -/
def cutEvents : List Event :=
  [.disconnected false, .expired false, .read (.data Supervisor.progress), .read .wouldBlock,
    .expired false, .write (.accepted 6), .expired false, .write .wouldBlock, .expired true]

/-- A connection on which nothing is cut: the module fails as the daemon does. -/
theorem pam_success_iff_on_whole_frames : ∃ w' : Daemon,
    w'.progress = Supervisor.report ∧
    w'.answer = framed (encodeDaemonResponse statusAuthFailed []) ∧
    ∀ rx timedOut, rx <+: w'.progress ++ w'.answer → pamReceive timedOut rx = .success →
      ∃ response ok, .call (.writeFrame response) ok ∈ w'.log ∧
        responseStatus response = some statusSuccess := by
  obtain ⟨w', h, hp, ha⟩ := runs_connection_failed failedEvents
    ⟨.returned statusAuthFailed, .reaped, [], some statusAuthFailed, Supervisor.report⟩
    (by decide) rfl (by decide)
  refine ⟨w', hp, ha, (pam_success_iff h).2 ?_⟩
  rw [hp, ha]
  decide

/-- A cancelled attempt that the module takes for a success. -/
theorem pam_success_iff_fails : ∃ w w' : Daemon,
    Runs Call (handleClientStream 2000 1000 (10 ^ 10)) w.connect true w' ∧
    pamReceive false (w'.progress ++ w'.answer) = .success ∧
    ∀ response ok, .call (.writeFrame response) ok ∈ w'.log →
      responseStatus response ≠ some statusSuccess := by
  obtain ⟨w', h, hp, ha⟩ := runs_connection_failed cutEvents
    ⟨.returned statusCancelled, .killed, [], none, Supervisor.report.take 6⟩
    (by decide) rfl (by decide)
  refine ⟨exampleDaemon, w', h, by rw [hp, ha]; decide, fun response ok hmem hs => ?_⟩
  obtain ⟨r, hans⟩ := answered_of_handleClientStream h
  obtain ⟨k, j, hj, hprog, hcut⟩ := hans.progressed
  -- six bytes are no number of whole reports
  have hcancelled : r = encodeDaemonResponse statusCancelled [] := by
    refine hcut.resolve_left ?_
    rintro rfl
    have := congrArg List.length (hp.symm.trans hprog)
    have h8 : Supervisor.report.length = 8 := by decide
    simp only [List.length_append, List.length_flatten, List.map_replicate,
      List.sum_replicate_nat, List.length_take, h8] at this
    omega
  rw [hans.only response ok hmem, hcancelled] at hs
  exact absurd hs (by decide)

end Daemon

end KFaceAuth
