import KFaceAuth.Enrollment.WorkerClient

/-!
# The completions of the worker's client

A request has its completion invoked at most once, and only with a payload that
its worker has written as one frame before it exited normally (`Sound`): this holds
in every run. A completion runs before `finish` has cleared what belongs to the
request that is over. When it makes a request of its own, this is taken, and
cleared with the rest, so that the next worker is given an empty request
(`request_lost`). And a worker that ends by itself without an answer has its
termination begin only then, so that its completion waits for the shutdown timer. In
the runs without either, every worker is given the request of its call, and every
completion was invoked when its worker has ended or the shutdown timer has fired
(`kept_of_reachable`).
-/

namespace KFaceAuth

namespace WorkerClient

/-! ## Steps -/

/-- The steps of the client. -/
inductive Step (s : Client) : Event → Client → Prop
  | execute (generation : UInt64) (request : List UInt8) (callable atOnce : Bool) :
    Step s (.execute generation request callable atOnce)
      (s.execute generation request callable atOnce)
  | cancel : Step s .cancel s.cancel
  | returnedExecute {running : List Frame} (hrunning : s.running = .execute :: running) :
    Step s .returned { s with running := running }
  | returnedFinish {running : List Frame} (hrunning : s.running = .finish :: running) :
    Step s .returned { s with running := running }.finished
  | wrote {w : Worker} (bytes : List UInt8) (hw : s.process = some w)
    (hlive : Client.live w = true) :
    Step s (.wrote bytes) { s with process := some { w with
      wrote := w.wrote ++ bytes, unread := w.unread ++ bytes } }
  | started {w : Worker} (accepted : ℤ) (hrunning : s.running = []) (hw : s.process = some w)
    (hstarted : w.started = false) (hfailed : w.failedToStart = false) :
    Step s (.started accepted) (s.started w accepted)
  | readyRead {w : Worker} (hrunning : s.running = []) (hw : s.process = some w)
    (hlive : Client.live w = true) : Step s .readyRead s.readResponse
  | readyReadError {w : Worker} (size : ℕ) (hrunning : s.running = []) (hw : s.process = some w)
    (hlive : Client.live w = true) : Step s (.readyReadError size) (s.readError size)
  | failedToStart {w : Worker} (hrunning : s.running = []) (hw : s.process = some w)
    (hstarted : w.started = false) :
    Step s (.errorOccurred .failedToStart)
      ({ s with process := some { w with failedToStart := true } }.errorOccurred .failedToStart)
  | errorOccurred {w : Worker} {error : ProcessError} (hrunning : s.running = [])
    (hw : s.process = some w) (hlive : Client.live w = true) :
    Step s (.errorOccurred error) (s.errorOccurred error)
  | finished {w : Worker} (code : ℤ) (status : ExitStatus) (hrunning : s.running = [])
    (hw : s.process = some w) (hlive : Client.live w = true) :
    Step s (.finished code status)
      (((s.drain w).exited code status).processFinished code status)
  | startupTimeout (hrunning : s.running = []) :
    Step s .startupTimeout ({ s with startupTimer := false }.fail "identity-startup-timeout")
  | operationTimeout (hrunning : s.running = []) :
    Step s .operationTimeout ({ s with operationTimer := false }.fail "identity-operation-timeout")
  | shutdownTimeout (hrunning : s.running = []) (htimer : s.shutdownTimer = true) :
    Step s .shutdownTimeout (Client.shutdownTimeout { s with
      shutdownTimer := false,
      process := s.process.map fun w => { w with expired := w.expired || w.killed } })

theorem step_cases {s s' : Client} {e : Event} (h : s.step e = some s') : Step s e s' := by
  cases e with
  | execute generation request callable atOnce =>
    cases h
    exact .execute generation request callable atOnce
  | cancel =>
    cases h
    exact .cancel
  | returned =>
    rw [Client.step] at h
    split at h
    · cases h
    next hrunning =>
      cases h
      exact .returnedExecute hrunning
    next hrunning =>
      cases h
      exact .returnedFinish hrunning
  | wrote bytes =>
    rw [Client.step] at h
    split at h
    · cases h
    next hw =>
      obtain ⟨hlive, ⟨⟩⟩ := Option.ite_none_right_eq_some.mp h
      exact .wrote bytes hw hlive
  | started accepted =>
    rw [Client.step] at h
    split at h
    next hrunning hw =>
      obtain ⟨hnew, ⟨⟩⟩ := Option.ite_none_right_eq_some.mp h
      rw [Bool.and_eq_true, Bool.not_eq_true', Bool.not_eq_true'] at hnew
      exact .started accepted hrunning hw hnew.1 hnew.2
    · cases h
  | readyRead =>
    rw [Client.step] at h
    split at h
    next hrunning hw =>
      obtain ⟨hlive, ⟨⟩⟩ := Option.ite_none_right_eq_some.mp h
      exact .readyRead hrunning hw (Bool.and_eq_true .. ▸ hlive).1
    · cases h
  | readyReadError size =>
    rw [Client.step] at h
    split at h
    next hrunning hw =>
      obtain ⟨hlive, ⟨⟩⟩ := Option.ite_none_right_eq_some.mp h
      exact .readyReadError size hrunning hw hlive
    · cases h
  | errorOccurred error =>
    rw [Client.step] at h
    split at h
    next hrunning hw =>
      split at h
      next herror =>
        obtain ⟨hnew, ⟨⟩⟩ := Option.ite_none_right_eq_some.mp h
        rw [Bool.and_eq_true, Bool.not_eq_true'] at hnew
        rw [herror]
        exact .failedToStart hrunning hw hnew.1
      · obtain ⟨hlive, ⟨⟩⟩ := Option.ite_none_right_eq_some.mp h
        exact .errorOccurred hrunning hw hlive
    · cases h
  | finished code status =>
    rw [Client.step] at h
    split at h
    next hrunning hw =>
      obtain ⟨hlive, ⟨⟩⟩ := Option.ite_none_right_eq_some.mp h
      exact .finished code status hrunning hw hlive
    · cases h
  | startupTimeout =>
    obtain ⟨⟨hrunning, -⟩, ⟨⟩⟩ := Option.ite_none_right_eq_some.mp h
    exact .startupTimeout hrunning
  | operationTimeout =>
    obtain ⟨⟨hrunning, -⟩, ⟨⟩⟩ := Option.ite_none_right_eq_some.mp h
    exact .operationTimeout hrunning
  | shutdownTimeout =>
    obtain ⟨⟨hrunning, htimer⟩, ⟨⟩⟩ := Option.ite_none_right_eq_some.mp h
    exact .shutdownTimeout hrunning htimer

/-! ## Every run -/

/-- The payload of exactly one complete frame. -/
def oneFrame (bytes : List UInt8) : Option (List UInt8) :=
  let size := ofBe (bytes.take 4)
  if 4 ≤ bytes.length ∧ 12 ≤ size ∧ size ≤ maximumResponseBytes ∧ bytes.length = size + 4 then
    some (bytes.drop 4)
  else none

/-- Output that cannot become a frame any more: it is too long, or the size that it
    begins with is out of bounds. -/
def Broken (bytes : List UInt8) : Prop :=
  maximumResponseBytes + 4 < bytes.length ∨
    4 ≤ bytes.length ∧ (ofBe (bytes.take 4) < 12 ∨ maximumResponseBytes < ofBe (bytes.take 4) ∨
      ofBe (bytes.take 4) + 4 < bytes.length)

instance (bytes : List UInt8) : Decidable (Broken bytes) := inferInstanceAs (Decidable (_ ∨ _))

theorem not_broken_nil : ¬ Broken [] := by simp [Broken]

/-- What holds of a client in every run. -/
structure Sound (s : Client) : Prop where
  once : (s.replies.map (·.call)).Nodup
  called : ∀ r ∈ s.replies, r.call < s.calls.length
  kept : ∀ i, s.completion = some i → i < s.calls.length ∧ i ∉ s.replies.map (·.call)
  owner : ∀ i w, s.completion = some i → s.process = some w → w.call = i
  idle : s.process = none → .finish ∉ s.running → s.response = []
  /-- What was read is the response, as long as nothing went wrong. A process that a
      completion has started within `finish` has nothing read yet. -/
  reading : ∀ w, s.process = some w → .finish ∉ s.running → s.cancelling = false →
    w.wrote = s.response ++ w.unread ∧ s.responseComplete = (oneFrame s.response).isSome ∧
      ¬ Broken s.response
  unread : ∀ w, s.process = some w → .finish ∈ s.running → w.wrote = w.unread
  payload : ∀ r ∈ s.replies, r.payload ≠ [] → ∃ w ∈ s.past, w.call = r.call ∧
    (∃ e, w.exit = some e ∧ e.code = 0 ∧ e.status = .normalExit) ∧
    oneFrame w.wrote = some r.payload

namespace Client

theorem beginTermination_cases (s : Client) (code : String) :
    (s.process = none ∨ s.cancelling = true) ∧ s.beginTermination code = s ∨
    ∃ w, s.process = some w ∧ s.cancelling = false ∧ s.beginTermination code =
      { s with
        cancelling := true, pendingError := code, startupTimer := false, operationTimer := false,
        request := [], process := some { w with killed := true }, shutdownTimer := true } := by
  unfold beginTermination
  split
  next h => exact .inl ⟨.inl h, rfl⟩
  next w h =>
    split
    next hc => exact .inl ⟨.inr hc, rfl⟩
    next hc => exact .inr ⟨w, h, Bool.eq_false_iff.mpr hc, rfl⟩

end Client

/- `none` and `some` in states that are written out. -/

theorem absent {α : Type} {p : Prop} {a : α} (h : none = some a) : p := nomatch h

theorem present {α : Type} {p : Prop} {a : α} (h : some a = none) : p := nomatch h

theorem sound_beginTermination {s : Client} (h : Sound s) (code : String) :
    Sound (s.beginTermination code) := by
  rcases s.beginTermination_cases code with ⟨-, heq⟩ | ⟨w, hw, hc, heq⟩
  · rw [heq]
    exact h
  · rw [heq]
    refine ⟨h.once, h.called, h.kept, ?_, present, ?_, ?_, h.payload⟩
    · rintro i w' hi ⟨⟩
      exact h.owner i w hi hw
    · intro w' _ _ hc'
      cases hc'
    · rintro w' ⟨⟩ hf
      exact h.unread w hw hf

/-- The timers, and what is to be sent, do not matter. -/
theorem sound_timers {s : Client} (h : Sound s) (startup operation shutdown : Bool)
    (request : List UInt8) (stderrBytes : ℕ) :
    Sound { s with
      startupTimer := startup, operationTimer := operation, shutdownTimer := shutdown,
      request := request, stderrBytes := stderrBytes } :=
  ⟨h.once, h.called, h.kept, h.owner, h.idle, h.reading, h.unread, h.payload⟩

theorem sound_finish {s : Client} (h : Sound s) (payload : List UInt8) (error : String)
    (hpayload : payload ≠ [] → ∃ w, s.process = some w ∧
      (∃ e, w.exit = some e ∧ e.code = 0 ∧ e.status = .normalExit) ∧
      oneFrame w.wrote = some payload) : Sound (s.finish payload error) := by
  have hpast : ∀ r ∈ s.replies, r.payload ≠ [] → ∃ w ∈ s.process.toList ++ s.past,
      w.call = r.call ∧ (∃ e, w.exit = some e ∧ e.code = 0 ∧ e.status = .normalExit) ∧
      oneFrame w.wrote = some r.payload := by
    intro r hr hne
    obtain ⟨w, hw, hrest⟩ := h.payload r hr hne
    exact ⟨w, List.mem_append_right _ hw, hrest⟩
  unfold Client.finish
  dsimp only
  split
  · exact ⟨h.once, h.called, fun _ hi => absent hi, fun _ _ hi => absent hi, fun _ _ => rfl,
      fun _ hw => absent hw, fun _ hw => absent hw, hpast⟩
  next i hi =>
    obtain ⟨hlt, hfresh⟩ := h.kept i hi
    refine ⟨?_, ?_, fun _ hi => absent hi, fun _ _ hi => absent hi, ?_, fun _ hw => absent hw,
      fun _ hw => absent hw, ?_⟩
    · rw [List.map_cons, List.nodup_cons]
      exact ⟨hfresh, h.once⟩
    · intro r hr
      rcases List.mem_cons.mp hr with rfl | hr
      · exact hlt
      · exact h.called r hr
    · intro _ hf
      exact absurd List.mem_cons_self hf
    · intro r hr hne
      rcases List.mem_cons.mp hr with rfl | hr
      · obtain ⟨w, hw, hexit, hframe⟩ := hpayload hne
        refine ⟨w, List.mem_append_left _ ?_, h.owner i w hi hw, hexit, hframe⟩
        rw [hw]
        exact List.mem_singleton.mpr rfl
      · exact hpast r hr hne

theorem sound_finished {s : Client} (h : Sound s) {running : List Frame}
    (hrunning : s.running = .finish :: running) :
    Sound { s with running := running }.finished := by
  have hmem : Frame.finish ∈ s.running := hrunning ▸ List.mem_cons_self
  refine ⟨h.once, h.called, h.kept, h.owner, fun _ _ => rfl, ?_, ?_, h.payload⟩
  · intro w hw _ _
    exact ⟨h.unread w hw hmem, rfl, not_broken_nil⟩
  · intro w hw _
    exact h.unread w hw hmem

theorem sound_execute {s : Client} (h : Sound s) (generation : UInt64) (request : List UInt8)
    (callable atOnce : Bool) : Sound (s.execute generation request callable atOnce) := by
  have hcalls : ∀ {i : ℕ}, i < s.calls.length →
      i < (s.calls ++ [(⟨generation, request, callable⟩ : Call)]).length := by
    intro i hi
    rw [List.length_append]
    exact Nat.lt_add_right _ hi
  have hnew : s.calls.length < (s.calls ++ [(⟨generation, request, callable⟩ : Call)]).length := by
    rw [List.length_append]
    exact Nat.lt_succ_self _
  have hfresh : s.calls.length ∉ s.replies.map (·.call) := by
    intro hmem
    obtain ⟨r, hr, heq⟩ := List.mem_map.mp hmem
    have := h.called r hr
    omega
  unfold Client.execute
  dsimp only
  split
  · split
    · refine ⟨?_, ?_, ?_, h.owner, ?_, ?_, ?_, ?_⟩
      · rw [List.map_cons, List.nodup_cons]
        exact ⟨hfresh, h.once⟩
      · intro r hr
        rcases List.mem_cons.mp hr with rfl | hr
        · exact hnew
        · exact hcalls (h.called r hr)
      · intro i hi
        obtain ⟨hlt, hnot⟩ := h.kept i hi
        refine ⟨hcalls hlt, ?_⟩
        rw [List.map_cons, List.mem_cons, not_or]
        exact ⟨Nat.ne_of_lt hlt, hnot⟩
      · intro hnone hf
        exact h.idle hnone fun hmem => hf (List.mem_cons_of_mem _ hmem)
      · intro w hw hf hc
        exact h.reading w hw (fun hmem => hf (List.mem_cons_of_mem _ hmem)) hc
      · intro w hw hf
        rcases List.mem_cons.mp hf with hf | hf
        · cases hf
        · exact h.unread w hw hf
      · intro r hr hne
        rcases List.mem_cons.mp hr with rfl | hr
        · exact absurd rfl hne
        · exact h.payload r hr hne
    · exact ⟨h.once, fun r hr => hcalls (h.called r hr),
        fun i hi => ⟨hcalls (h.kept i hi).1, (h.kept i hi).2⟩, h.owner, h.idle, h.reading, h.unread,
        h.payload⟩
  next haccepted =>
    rw [not_or, not_or, Bool.not_eq_true, Option.isSome_eq_false_iff,
      Option.isNone_iff_eq_none] at haccepted
    -- the process is new, and what an earlier one has left of the response goes with it
    have hidle : ∀ w, s.process = some w → False := fun w hw => by
      rw [haccepted.2.2] at hw
      cases hw
    have hstarted : Sound { s with
        calls := s.calls ++ [⟨generation, request, callable⟩], generation := generation,
        completion := if callable then some s.calls.length else none, request := request,
        cancelling := false, responseComplete := false, stderrBytes := 0,
        process := some { call := s.calls.length, failedToStart := atOnce } } := by
      refine ⟨h.once, fun r hr => hcalls (h.called r hr), ?_, ?_, present, ?_, ?_, h.payload⟩
      · intro i hi
        dsimp only at hi
        split at hi
        · cases hi
          exact ⟨hnew, hfresh⟩
        · cases hi
      · rintro i w hi ⟨⟩
        dsimp only at hi
        split at hi
        · cases hi
          rfl
        · cases hi
      · rintro w ⟨⟩ hf _
        dsimp only
        rw [h.idle haccepted.2.2 hf]
        exact ⟨rfl, rfl, not_broken_nil⟩
      · rintro w ⟨⟩ _
        rfl
    split
    · exact sound_timers (sound_beginTermination hstarted _) true _ _ _ _
    · exact sound_timers hstarted true _ _ _ _

theorem sound_cancel {s : Client} (h : Sound s) : Sound s.cancel := by
  unfold Client.cancel
  split
  next hnone =>
    rw [Option.isNone_iff_eq_none] at hnone
    have hno : ∀ w, s.process ≠ some w := fun w hw => by
      rw [hnone] at hw
      cases hw
    exact ⟨h.once, h.called, h.kept, h.owner, fun _ _ => rfl, fun w hw => absurd hw (hno w),
      fun w hw => absurd hw (hno w), h.payload⟩
  · exact sound_beginTermination h _

/-- A change of the process that keeps what is read of it. -/
theorem sound_process {s : Client} (h : Sound s) {w w' : Worker} (hw : s.process = some w)
    (hcall : w'.call = w.call) (hwrote : w'.wrote = w.wrote) (hunread : w'.unread = w.unread) :
    Sound { s with process := some w' } := by
  refine ⟨h.once, h.called, h.kept, ?_, present, ?_, ?_, h.payload⟩
  · rintro i w'' hi ⟨⟩
    rw [hcall]
    exact h.owner i w hi hw
  · rintro w'' ⟨⟩ hf hc
    rw [hwrote, hunread]
    exact h.reading w hw hf hc
  · rintro w'' ⟨⟩ hf
    rw [hwrote, hunread]
    exact h.unread w hw hf

theorem sound_map {s : Client} (h : Sound s) {f : Worker → Worker}
    (hcall : ∀ w, (f w).call = w.call) (hwrote : ∀ w, (f w).wrote = w.wrote)
    (hunread : ∀ w, (f w).unread = w.unread) :
    Sound { s with process := s.process.map f } := by
  rcases hw : s.process with _ | w
  · rw [Option.map_none, ← hw]
    exact h
  · exact sound_process h hw (hcall w) (hwrote w) (hunread w)

theorem sound_started {s : Client} (h : Sound s) {w : Worker} (hw : s.process = some w)
    (accepted : ℤ) : Sound (s.started w accepted) := by
  unfold Client.started
  dsimp only
  split
  · exact sound_timers (@sound_process s h w { w with started := true } hw rfl rfl rfl) false _ _
      [] _
  · have hnext := @sound_process s h w { w with started := true, offered := some s.request } hw
      rfl rfl rfl
    split
    · exact sound_beginTermination (sound_timers hnext false _ _ [] _) _
    · exact sound_timers hnext false true _ [] _

/-- Once termination has begun, what was read does not matter. -/
theorem sound_terminated {s : Client} (h : Sound s) {w w' : Worker} (hw : s.process = some w)
    (hrunning : s.running = []) (hcall : w'.call = w.call) (response : List UInt8)
    (code : String) :
    Sound (Client.beginTermination { s with process := some w', response := response } code) := by
  have hf : Frame.finish ∉ s.running := by
    rw [hrunning]
    exact List.not_mem_nil
  have howner : ∀ i, s.completion = some i → w'.call = i := fun i hi =>
    hcall.trans (h.owner i w hi hw)
  rcases Client.beginTermination_cases { s with process := some w', response := response } code with
    ⟨hsame, heq⟩ | ⟨w'', hw'', -, heq⟩
  · rw [heq]
    have hcancelling : s.cancelling = true := hsame.resolve_left nofun
    refine ⟨h.once, h.called, h.kept, ?_, present, ?_, fun _ _ hmem => absurd hmem hf, h.payload⟩
    · rintro i w'' hi ⟨⟩
      exact howner i hi
    · intro w'' _ _ hc
      rw [show s.cancelling = false from hc] at hcancelling
      cases hcancelling
  · rw [heq]
    cases hw''
    refine ⟨h.once, h.called, h.kept, ?_, present, fun _ _ _ hc => Bool.noConfusion hc,
      fun _ _ hmem => absurd hmem hf, h.payload⟩
    rintro i w'' hi ⟨⟩
    exact howner i hi

theorem oneFrame_eq_none {bytes : List UInt8}
    (h : bytes.length < 4 ∨ bytes.length ≠ ofBe (bytes.take 4) + 4) : oneFrame bytes = none := by
  unfold oneFrame
  dsimp only
  rw [if_neg]
  omega

theorem sound_readResponse {s : Client} (h : Sound s) (hrunning : s.running = []) :
    Sound s.readResponse := by
  have hf : Frame.finish ∉ s.running := by
    rw [hrunning]
    exact List.not_mem_nil
  unfold Client.readResponse
  split
  · exact h
  next w hw =>
    dsimp only
    have hterminated : ∀ response code, Sound (Client.fail { s with
        process := some { w with unread := [] }, response := response } code) :=
      @sound_terminated s h w { w with unread := [] } hw hrunning rfl
    split
    · exact hterminated _ _
    next hmore =>
    rw [not_or, Bool.not_eq_true] at hmore
    have hlong : (s.response ++ w.unread).length ≤ maximumResponseBytes + 4 := by
      rw [List.length_append]
      exact Nat.le_of_not_gt hmore.2
    have hread : ∀ complete, complete = (oneFrame (s.response ++ w.unread)).isSome →
        ¬ Broken (s.response ++ w.unread) → Sound { s with
          process := some { w with unread := [] }, response := s.response ++ w.unread,
          responseComplete := complete } := by
      intro complete hcomplete hbroken
      refine ⟨h.once, h.called, h.kept, ?_, present, ?_, fun _ _ hmem => absurd hmem hf, h.payload⟩
      · rintro i w' hi ⟨⟩
        exact h.owner i w hi hw
      · rintro w' ⟨⟩ _ hc
        refine ⟨?_, hcomplete, hbroken⟩
        rw [(h.reading w hw hf hc).1, List.append_nil]
    have hshort : oneFrame (s.response ++ w.unread) = none → ¬ Broken (s.response ++ w.unread) →
        Sound { s with
          process := some { w with unread := [] }, response := s.response ++ w.unread } := by
      intro hnone hbroken
      have := hread s.responseComplete (by rw [hmore.1, hnone]; rfl) hbroken
      exact this
    split
    next hlength => exact hshort (oneFrame_eq_none (.inl hlength)) (by unfold Broken; omega)
    next hlength =>
    split
    · exact hterminated _ _
    next hsize =>
    split
    next hpart =>
      exact hshort (oneFrame_eq_none (.inr (Nat.ne_of_lt hpart))) (by unfold Broken; omega)
    next hpart =>
    split
    · exact hterminated _ _
    next hwhole =>
      rw [not_not] at hwhole
      have hcomplete : (oneFrame (s.response ++ w.unread)).isSome = true := by
        unfold oneFrame
        dsimp only
        rw [if_pos (by omega)]
        rfl
      exact sound_timers (hread true hcomplete.symm (by unfold Broken; omega)) _ false true _ _

/-- Reading leaves nothing of the output, unless there is no process. -/
theorem Client.readResponse_process {s : Client} {w : Worker} (hw : s.process = some w) :
    ∃ killed, (s.readResponse).process = some { w with unread := [], killed := killed } ∧
      (s.readResponse).running = s.running := by
  have hfail : ∀ (s' : Client) code, s'.process = some { w with unread := [] } →
      s'.running = s.running → ∃ killed,
        (s'.fail code).process = some { w with unread := [], killed := killed } ∧
        (s'.fail code).running = s.running := by
    intro s' code hs' hrunning
    rcases s'.beginTermination_cases code with ⟨-, heq⟩ | ⟨w', hw', -, heq⟩
    · exact ⟨w.killed, by rw [fail, heq, hs'], by rw [fail, heq, hrunning]⟩
    · rw [hs', Option.some_inj] at hw'
      subst hw'
      exact ⟨true, by rw [fail, heq], by rw [fail, heq, hrunning]⟩
  unfold readResponse
  rw [hw]
  dsimp only
  split
  · exact hfail _ _ rfl rfl
  split
  · exact ⟨w.killed, rfl, rfl⟩
  split
  · exact hfail _ _ rfl rfl
  split
  · exact ⟨w.killed, rfl, rfl⟩
  split
  · exact hfail _ _ rfl rfl
  · exact ⟨w.killed, rfl, rfl⟩

/-- When the end of a process is told, all of its output was read. -/
theorem Client.drain_process {s : Client} {w : Worker} (hw : s.process = some w) :
    ∃ killed, (s.drain w).process = some { w with unread := [], killed := killed } ∧
      (s.drain w).running = s.running := by
  unfold drain
  split
  next hread => exact ⟨w.killed, by rw [hw, ← hread], rfl⟩
  · exact Client.readResponse_process hw

theorem sound_drain {s : Client} (h : Sound s) (hrunning : s.running = []) (w : Worker) :
    Sound (s.drain w) := by
  unfold Client.drain
  split
  · exact h
  · exact sound_readResponse h hrunning

theorem oneFrame_eq_some {bytes : List UInt8} (h : (oneFrame bytes).isSome = true) :
    oneFrame bytes = some ((bytes.drop 4).take (ofBe (bytes.take 4))) := by
  unfold oneFrame at h ⊢
  dsimp only at h ⊢
  split at h
  next hsize =>
    rw [if_pos hsize, List.take_of_length_le]
    rw [List.length_drop]
    omega
  · cases h

theorem sound_processFinished {s : Client} (h : Sound s) (hrunning : s.running = []) {w : Worker}
    (hw : s.process = some w) (hread : w.unread = []) {code : ℤ} {status : ExitStatus}
    (hexit : w.exit = some ⟨code, status, w.killed⟩) :
    Sound (s.processFinished code status) := by
  have hf : Frame.finish ∉ s.running := by
    rw [hrunning]
    exact List.not_mem_nil
  unfold Client.processFinished
  split
  · exact sound_finish h _ _ fun hne => absurd rfl hne
  next hc =>
    split
    · exact sound_beginTermination h _
    next hsuccess =>
      simp only [Bool.not_eq_true', not_or, Bool.not_eq_false, not_not] at hsuccess
      obtain ⟨hcomplete, rfl, rfl⟩ := hsuccess
      obtain ⟨hwrote, hframe, -⟩ := h.reading w hw hf (Bool.eq_false_iff.mpr hc)
      refine sound_finish h _ _ fun _ => ⟨w, hw, ⟨_, hexit, rfl, rfl⟩, ?_⟩
      rw [hwrote, hread, List.append_nil]
      exact oneFrame_eq_some (hframe.symm.trans hcomplete)

theorem sound_errorOccurred {s : Client} (h : Sound s) (error : ProcessError) :
    Sound (s.errorOccurred error) := by
  unfold Client.errorOccurred
  split
  · exact h
  split
  · exact sound_beginTermination h _
  split
  · exact sound_beginTermination h _
  · exact h

theorem sound_step {s s' : Client} {e : Event} (h : Sound s) (hstep : s.step e = some s') :
    Sound s' := by
  cases step_cases hstep with
  | execute generation request callable atOnce => exact sound_execute h _ _ _ _
  | cancel => exact sound_cancel h
  | returnedExecute hrunning =>
    have hmem : ∀ running, s.running = .execute :: running →
        (Frame.finish ∈ s.running ↔ Frame.finish ∈ running) := by
      intro running heq
      rw [heq, List.mem_cons]
      exact or_iff_right nofun
    have hmem := hmem _ hrunning
    exact ⟨h.once, h.called, h.kept, h.owner, fun hnone hf => h.idle hnone (mt hmem.mp hf),
      fun w hw hf => h.reading w hw (mt hmem.mp hf), fun w hw hf => h.unread w hw (hmem.mpr hf),
      h.payload⟩
  | returnedFinish hrunning => exact sound_finished h hrunning
  | @wrote w bytes hw hlive =>
    refine ⟨h.once, h.called, h.kept, ?_, present, ?_, ?_, h.payload⟩
    · rintro i w' hi ⟨⟩
      exact h.owner i w hi hw
    · rintro w' ⟨⟩ hf hc
      obtain ⟨hwrote, hresponse⟩ := h.reading w hw hf hc
      refine ⟨?_, hresponse⟩
      dsimp only
      rw [hwrote, List.append_assoc]
    · rintro w' ⟨⟩ hf
      dsimp only
      rw [h.unread w hw hf]
  | started accepted hrunning hw => exact sound_started h hw accepted
  | readyRead hrunning => exact sound_readResponse h hrunning
  | readyReadError size =>
    unfold Client.readError
    dsimp only
    split
    · exact sound_beginTermination (sound_timers h _ _ _ _ _) _
    · exact sound_timers h _ _ _ _ _
  | @failedToStart w hrunning hw =>
    exact sound_errorOccurred (@sound_process s h w { w with failedToStart := true } hw rfl rfl rfl)
      _
  | errorOccurred => exact sound_errorOccurred h _
  | @finished w code status hrunning hw hlive =>
    obtain ⟨killed, hdrained, hrunning'⟩ := Client.drain_process hw
    have hexited : ((s.drain w).exited code status).process = some { w with
        unread := [], killed := killed, exit := some ⟨code, status, killed⟩ } := by
      rw [Client.exited, hdrained]
      rfl
    have hsound : Sound ((s.drain w).exited code status) :=
      sound_map (sound_drain h hrunning w) (fun _ => rfl) (fun _ => rfl) fun _ => rfl
    exact sound_processFinished hsound (hrunning'.trans hrunning) hexited rfl rfl
  | startupTimeout => exact sound_beginTermination (sound_timers h false _ _ _ _) _
  | operationTimeout => exact sound_beginTermination (sound_timers h _ false _ _ _) _
  | shutdownTimeout hrunning htimer =>
    have hmap := @sound_map s h (fun w => { w with expired := w.expired || w.killed })
      (fun _ => rfl) (fun _ => rfl) fun _ => rfl
    have hnext := sound_timers hmap s.startupTimer s.operationTimer false s.request s.stderrBytes
    unfold Client.shutdownTimeout
    split
    · exact sound_finish hnext _ _ fun hne => absurd rfl hne
    · exact sound_beginTermination hnext _

theorem client_sound {s : Client} (h : machine.Reachable s) : Sound s :=
  h.inv ⟨List.nodup_nil, nofun, fun _ hi => absent hi, fun _ _ hi => absent hi, fun _ _ => rfl,
      fun _ hw => absent hw, fun _ hw => absent hw, nofun⟩
    fun _ _ _ hs hstep => sound_step hs hstep

/-! ## Runs in which every end answers -/

/-- What a worker was given: the request of its call, unless its termination had begun
    before it started. -/
structure Delivered (calls : List Call) (w : Worker) : Prop where
  offered : ∀ bytes, w.offered = some bytes →
    ∃ c, calls[w.call]? = some c ∧ bytes = c.request
  withheld : w.started = true → w.offered = none → w.killed = true

/-- Every call is answered or has the completion that is kept, and every worker was
    given its request. -/
structure Pending (s : Client) : Prop where
  waiting : ∀ (i : ℕ) c, s.calls[i]? = some c → c.callable = true →
    i ∈ s.replies.map (·.call) ∨ s.completion = some i
  past : ∀ w ∈ s.past, Delivered s.calls w
  delivered : ∀ w, s.process = some w → Delivered s.calls w

/-- What holds of a client in the runs where no completion makes a request that is
    taken within `finish`, and no worker ends by itself without an answer. -/
structure Prompt (s : Client) : Prop extends Pending s where
  idle : .finish ∈ s.running → s.process = none
  holding : s.process = none → s.completion = none
  killed : ∀ w, s.process = some w → w.killed = s.cancelling
  expired : ∀ w, s.process = some w → w.expired = false
  exit : ∀ w, s.process = some w → w.exit = none
  request : ∀ w, s.process = some w → w.started = false → s.cancelling = false →
    ∃ c, s.calls[w.call]? = some c ∧ s.request = c.request

theorem Delivered.append {calls : List Call} {w : Worker} (h : Delivered calls w)
    (more : List Call) : Delivered (calls ++ more) w := by
  refine ⟨fun bytes hbytes => ?_, h.withheld⟩
  obtain ⟨c, hc, heq⟩ := h.offered bytes hbytes
  exact ⟨c, List.getElem?_append_left (List.getElem?_eq_some_iff.mp hc).1 ▸ hc, heq⟩

theorem prompt_beginTermination {s : Client} (h : Prompt s) (code : String) :
    Prompt (s.beginTermination code) := by
  rcases s.beginTermination_cases code with ⟨-, heq⟩ | ⟨w, hw, hc, heq⟩
  · rw [heq]
    exact h
  · rw [heq]
    have hdelivered := h.delivered w hw
    refine ⟨⟨h.waiting, h.past, ?_⟩, ?_, present, ?_, ?_, ?_, fun _ _ _ hc => Bool.noConfusion hc⟩
    · rintro w' ⟨⟩
      exact ⟨hdelivered.offered, fun _ _ => rfl⟩
    · intro hf
      rw [h.idle hf] at hw
      cases hw
    · rintro w' ⟨⟩
      rfl
    · rintro w' ⟨⟩
      exact h.expired w hw
    · rintro w' ⟨⟩
      exact h.exit w hw

/-- The timers, and what is read, do not matter. -/
theorem prompt_reading {s : Client} (h : Prompt s) (startup operation shutdown : Bool)
    (response : List UInt8) (complete : Bool) (stderrBytes : ℕ) :
    Prompt { s with
      startupTimer := startup, operationTimer := operation, shutdownTimer := shutdown,
      response := response, responseComplete := complete, stderrBytes := stderrBytes } :=
  ⟨⟨h.waiting, h.past, h.delivered⟩, h.idle, h.holding, h.killed, h.expired, h.exit, h.request⟩

/-- `finish` answers the call whose completion is kept. -/
theorem prompt_finish {s : Client} (h : Pending s) (payload : List UInt8) (error : String) :
    Prompt (s.finish payload error) := by
  have hpast : ∀ w ∈ s.process.toList ++ s.past, Delivered s.calls w := by
    intro w hw
    rcases List.mem_append.mp hw with hw | hw
    · exact h.delivered w (Option.mem_toList.mp hw)
    · exact h.past w hw
  unfold Client.finish
  dsimp only
  split
  next hnone =>
    refine ⟨⟨?_, hpast, fun _ hw => absent hw⟩, fun _ => rfl, fun _ => rfl, fun _ hw => absent hw,
      fun _ hw => absent hw, fun _ hw => absent hw, fun _ hw => absent hw⟩
    intro i c hi hc
    refine .inl ((h.waiting i c hi hc).resolve_right fun hi' => ?_)
    rw [hnone] at hi'
    cases hi'
  next call hcall =>
    refine ⟨⟨?_, hpast, fun _ hw => absent hw⟩, fun _ => rfl, fun _ => rfl, fun _ hw => absent hw,
      fun _ hw => absent hw, fun _ hw => absent hw, fun _ hw => absent hw⟩
    intro i c hi hc
    rw [List.map_cons, List.mem_cons]
    rcases h.waiting i c hi hc with hi' | hi'
    · exact .inl (.inr hi')
    · rw [hcall, Option.some_inj] at hi'
      exact .inl (.inl hi'.symm)

/-- No completion makes a request that is taken within `finish`; and a worker that ends
    by itself has answered with one frame, a normal exit and the code 0, or has written
    what cannot become a frame, at which its termination begins. -/
def quiet (s : Client) : Event → Bool
  | .execute generation request _ _ =>
    !(s.running.contains .finish && generation ≠ 0 && request ≠ [] && s.process.isNone)
  | .finished code status =>
    s.cancelling || s.process.all fun w =>
      decide (Broken w.wrote) ||
        (code = 0 && status = .normalExit && (oneFrame w.wrote).isSome)
  | _ => true

theorem prompt_execute {s : Client} (h : Prompt s) {generation : UInt64} {request : List UInt8}
    {callable atOnce : Bool} (hquiet : quiet s (.execute generation request callable atOnce)) :
    Prompt (s.execute generation request callable atOnce) := by
  have hcalls : ∀ {i : ℕ} {c : Call}, i ≠ s.calls.length →
      (s.calls ++ [(⟨generation, request, callable⟩ : Call)])[i]? = some c →
      s.calls[i]? = some c := by
    intro i c hne hi
    rcases Nat.lt_or_ge i s.calls.length with hlt | hge
    · rwa [List.getElem?_append_left hlt] at hi
    · rw [List.getElem?_append_right hge, List.getElem?_singleton] at hi
      split at hi
      · omega
      · cases hi
  have hkeep : ∀ {i : ℕ} {c : Call}, s.calls[i]? = some c →
      (s.calls ++ [(⟨generation, request, callable⟩ : Call)])[i]? = some c := by
    intro i c hi
    rw [List.getElem?_append_left (List.getElem?_eq_some_iff.mp hi).1, hi]
  have hnew : (s.calls ++ [(⟨generation, request, callable⟩ : Call)])[s.calls.length]? =
      some ⟨generation, request, callable⟩ := by
    rw [List.getElem?_append_right (Nat.le_refl _), Nat.sub_self]
    rfl
  have hrequest : ∀ w, s.process = some w → w.started = false → s.cancelling = false →
      ∃ c, (s.calls ++ [(⟨generation, request, callable⟩ : Call)])[w.call]? = some c ∧
        s.request = c.request := by
    intro w hw hstarted hc
    obtain ⟨c, hcall, heq⟩ := h.request w hw hstarted hc
    exact ⟨c, hkeep hcall, heq⟩
  have hpast : ∀ w ∈ s.past, Delivered (s.calls ++ [⟨generation, request, callable⟩]) w :=
    fun w hw => (h.past w hw).append _
  have hdelivered : ∀ w, s.process = some w →
      Delivered (s.calls ++ [⟨generation, request, callable⟩]) w :=
    fun w hw => (h.delivered w hw).append _
  unfold Client.execute
  dsimp only
  split
  · split
    next hcallable =>
      refine ⟨⟨?_, hpast, hdelivered⟩, ?_, h.holding, h.killed, h.expired, h.exit, hrequest⟩
      · intro i c hi hc
        rw [List.map_cons, List.mem_cons]
        by_cases hlast : i = s.calls.length
        · exact .inl (.inl hlast)
        · exact (h.waiting i c (hcalls hlast hi) hc).imp_left .inr
      · intro hf
        rcases List.mem_cons.mp hf with hf | hf
        · cases hf
        · exact h.idle hf
    next hcallable =>
      refine ⟨⟨?_, hpast, hdelivered⟩, h.idle, h.holding, h.killed, h.expired, h.exit, hrequest⟩
      intro i c hi hc
      by_cases hlast : i = s.calls.length
      · rw [hlast, hnew] at hi
        cases hi
        exact absurd hc hcallable
      · exact h.waiting i c (hcalls hlast hi) hc
  next haccepted =>
    rw [not_or, not_or, Bool.not_eq_true, Option.isSome_eq_false_iff] at haccepted
    obtain ⟨hgeneration, hnonempty, hnone⟩ := haccepted
    have hidle : Frame.finish ∉ s.running := by
      intro hf
      have hcontains : s.running.contains .finish = true := List.contains_iff_mem.mpr hf
      simp only [quiet, hcontains, hnone, Bool.and_true, Bool.true_and, Bool.not_eq_true',
        Bool.and_eq_false_iff, decide_eq_false_iff_not, not_not] at hquiet
      exact hquiet.elim hgeneration hnonempty
    rw [Option.isNone_iff_eq_none] at hnone
    have hstarted : Prompt { s with
        calls := s.calls ++ [⟨generation, request, callable⟩], generation := generation,
        completion := if callable then some s.calls.length else none, request := request,
        cancelling := false, responseComplete := false, stderrBytes := 0,
        process := some { call := s.calls.length, failedToStart := atOnce } } := by
      refine ⟨⟨?_, hpast, ?_⟩, fun hf => absurd hf hidle, present, ?_, ?_, ?_, ?_⟩
      · intro i c hi hc
        by_cases hlast : i = s.calls.length
        · rw [hlast, hnew] at hi
          cases hi
          refine .inr ?_
          rw [hlast, if_pos hc]
        · refine .inl ((h.waiting i c (hcalls hlast hi) hc).resolve_right fun hi' => ?_)
          rw [h.holding hnone] at hi'
          cases hi'
      · rintro w ⟨⟩
        exact ⟨nofun, nofun⟩
      · rintro w ⟨⟩
        rfl
      · rintro w ⟨⟩
        rfl
      · rintro w ⟨⟩
        rfl
      · rintro w ⟨⟩ _ _
        exact ⟨_, hnew, rfl⟩
    split
    · exact prompt_reading (prompt_beginTermination hstarted _) true _ _ _ _ _
    · exact prompt_reading hstarted true _ _ _ _ _

theorem prompt_cancel {s : Client} (h : Prompt s) : Prompt s.cancel := by
  unfold Client.cancel
  split
  next hnone =>
    rw [Option.isNone_iff_eq_none] at hnone
    refine ⟨⟨h.waiting, h.past, h.delivered⟩, h.idle, h.holding, h.killed, h.expired, h.exit, ?_⟩
    intro w hw
    have hw' : s.process = some w := hw
    rw [hnone] at hw'
    cases hw'
  · exact prompt_beginTermination h _

/-- A change of the output of a process. -/
theorem prompt_process {s : Client} (h : Prompt s) {w w' : Worker} (hw : s.process = some w)
    (hcall : w'.call = w.call) (hstarted : w'.started = w.started)
    (hoffered : w'.offered = w.offered) (hkilled : w'.killed = w.killed)
    (hexpired : w'.expired = w.expired) (hexit : w'.exit = w.exit) :
    Prompt { s with process := some w' } := by
  have hdelivered := h.delivered w hw
  refine ⟨⟨h.waiting, h.past, ?_⟩, ?_, present, ?_, ?_, ?_, ?_⟩
  · rintro w'' ⟨⟩
    constructor
    · rw [hoffered, hcall]
      exact hdelivered.offered
    · rw [hstarted, hoffered, hkilled]
      exact hdelivered.withheld
  · intro hf
    rw [h.idle hf] at hw
    cases hw
  · rintro w'' ⟨⟩
    rw [hkilled]
    exact h.killed w hw
  · rintro w'' ⟨⟩
    rw [hexpired]
    exact h.expired w hw
  · rintro w'' ⟨⟩
    rw [hexit]
    exact h.exit w hw
  · rintro w'' ⟨⟩
    rw [hstarted, hcall]
    exact h.request w hw

theorem prompt_started {s : Client} (h : Prompt s) {w : Worker} (hw : s.process = some w)
    (hnew : w.started = false) (accepted : ℤ) : Prompt (s.started w accepted) := by
  have hdelivered := h.delivered w hw
  have hidle : Frame.finish ∈ s.running → False := fun hf => by
    rw [h.idle hf] at hw
    cases hw
  unfold Client.started
  dsimp only
  split
  next hc =>
    refine ⟨⟨h.waiting, h.past, ?_⟩, fun hf => (hidle hf).elim, present, ?_, ?_, ?_, ?_⟩
    · rintro w' ⟨⟩
      exact ⟨hdelivered.offered, fun _ _ => (h.killed w hw).trans hc⟩
    · rintro w' ⟨⟩
      exact h.killed w hw
    · rintro w' ⟨⟩
      exact h.expired w hw
    · rintro w' ⟨⟩
      exact h.exit w hw
    · rintro w' ⟨⟩ hstarted
      cases hstarted
  next hc =>
    rw [Bool.not_eq_true] at hc
    have hnext : Prompt { s with
        startupTimer := false, request := [],
        process := some { w with started := true, offered := some s.request } } := by
      refine ⟨⟨h.waiting, h.past, ?_⟩, fun hf => (hidle hf).elim, present, ?_, ?_, ?_, ?_⟩
      · rintro w' ⟨⟩
        refine ⟨?_, nofun⟩
        rintro bytes ⟨⟩
        exact h.request w hw hnew hc
      · rintro w' ⟨⟩
        exact h.killed w hw
      · rintro w' ⟨⟩
        exact h.expired w hw
      · rintro w' ⟨⟩
        exact h.exit w hw
      · rintro w' ⟨⟩ hstarted
        cases hstarted
    split
    · exact prompt_beginTermination hnext _
    · exact prompt_reading hnext _ true _ _ _ _

theorem prompt_readResponse {s : Client} (h : Prompt s) {w : Worker} (hw : s.process = some w) :
    Prompt s.readResponse := by
  have hread := @prompt_process s h w { w with unread := [] } hw rfl rfl rfl rfl rfl rfl
  unfold Client.readResponse
  rw [hw]
  dsimp only
  split
  · exact prompt_beginTermination hread _
  split
  · exact prompt_reading hread _ _ _ _ _ _
  split
  · exact prompt_beginTermination (prompt_reading hread _ _ _ _ _ _) _
  split
  · exact prompt_reading hread _ _ _ _ _ _
  split
  · exact prompt_beginTermination (prompt_reading hread _ _ _ _ _ _) _
  · exact prompt_reading hread _ false true _ true _

theorem prompt_drain {s : Client} (h : Prompt s) {w : Worker} (hw : s.process = some w) :
    Prompt (s.drain w) := by
  unfold Client.drain
  split
  · exact h
  · exact prompt_readResponse h hw

/-- Reading does not take back a termination. -/
theorem Client.cancelling_drain {s : Client} (w : Worker) (h : s.cancelling = true) :
    (s.drain w).cancelling = true := by
  have hfail : ∀ (s' : Client) code, s'.cancelling = true → (s'.fail code).cancelling = true := by
    intro s' code hs'
    rcases s'.beginTermination_cases code with ⟨-, heq⟩ | ⟨w', -, -, heq⟩
    · rw [fail, heq, hs']
    · rw [fail, heq]
  unfold drain
  split
  · exact h
  unfold readResponse
  split
  · exact h
  dsimp only
  split
  · exact hfail _ _ h
  split
  · exact h
  split
  · exact hfail _ _ h
  split
  · exact h
  split
  · exact hfail _ _ h
  · exact h

/-- The end of a process answers its call, if its termination has begun or it has
    answered. -/
theorem prompt_finishedProcess {s : Client} (h : Prompt s) (hsound : Sound s)
    (hrunning : s.running = []) {w : Worker} (hw : s.process = some w) (hread : w.unread = [])
    {code : ℤ} {status : ExitStatus}
    (hanswer : s.cancelling = false → Broken w.wrote ∨
      code = 0 ∧ status = .normalExit ∧ (oneFrame w.wrote).isSome = true) :
    Prompt ((s.exited code status).processFinished code status) := by
  have hf : Frame.finish ∉ s.running := by
    rw [hrunning]
    exact List.not_mem_nil
  have hexited : s.exited code status =
      { s with process := some { w with exit := some ⟨code, status, w.killed⟩ } } := by
    rw [Client.exited, hw]
    rfl
  have hdelivered := h.delivered w hw
  have hpending : Pending (s.exited code status) := by
    rw [hexited]
    refine ⟨h.waiting, h.past, ?_⟩
    rintro w' ⟨⟩
    exact ⟨hdelivered.offered, hdelivered.withheld⟩
  unfold Client.processFinished
  split
  · exact prompt_finish hpending _ _
  next hc =>
  have hc' : s.cancelling = false := Bool.eq_false_iff.mpr hc
  split
  next hfailed =>
    -- all that the worker wrote is the response, and it is one frame
    obtain ⟨hwrote, hframe, hbroken⟩ := hsound.reading w hw hf hc'
    rw [hread, List.append_nil] at hwrote
    rw [hwrote] at hanswer
    obtain ⟨rfl, rfl, hone⟩ := (hanswer hc').resolve_left hbroken
    have hcomplete : (s.exited 0 .normalExit).responseComplete = true := hframe.trans hone
    simp [hcomplete] at hfailed
  · exact prompt_finish hpending _ _

theorem prompt_shutdownTimeout {s : Client} (h : Prompt s) :
    Prompt (Client.shutdownTimeout { s with
      shutdownTimer := false,
      process := s.process.map fun w => { w with expired := w.expired || w.killed } }) := by
  unfold Client.shutdownTimeout
  split
  next hc =>
    apply prompt_finish
    refine ⟨h.waiting, h.past, ?_⟩
    intro w' hw'
    obtain ⟨w, hw, rfl⟩ := Option.map_eq_some_iff.mp hw'
    exact ⟨(h.delivered w hw).offered, (h.delivered w hw).withheld⟩
  next hc =>
    -- termination has not begun: the timer has not fired in vain
    replace hc : s.cancelling = false := Bool.eq_false_iff.mpr hc
    apply prompt_beginTermination
    refine ⟨⟨h.waiting, h.past, ?_⟩, ?_, ?_, ?_, ?_, ?_, ?_⟩
    · intro w' hw'
      obtain ⟨w, hw, rfl⟩ := Option.map_eq_some_iff.mp hw'
      exact ⟨(h.delivered w hw).offered, (h.delivered w hw).withheld⟩
    · intro hf
      dsimp only
      rw [h.idle hf]
      rfl
    · intro hnone
      exact h.holding (Option.map_eq_none_iff.mp hnone)
    · intro w' hw'
      obtain ⟨w, hw, rfl⟩ := Option.map_eq_some_iff.mp hw'
      exact h.killed w hw
    · intro w' hw'
      obtain ⟨w, hw, rfl⟩ := Option.map_eq_some_iff.mp hw'
      dsimp only
      rw [h.expired w hw, h.killed w hw, hc]
      rfl
    · intro w' hw'
      obtain ⟨w, hw, rfl⟩ := Option.map_eq_some_iff.mp hw'
      exact h.exit w hw
    · intro w' hw'
      obtain ⟨w, hw, rfl⟩ := Option.map_eq_some_iff.mp hw'
      exact h.request w hw

theorem prompt_errorOccurred {s : Client} (h : Prompt s) (error : ProcessError) :
    Prompt (s.errorOccurred error) := by
  unfold Client.errorOccurred
  split
  · exact h
  split
  · exact prompt_beginTermination h _
  split
  · exact prompt_beginTermination h _
  · exact h

theorem prompt_step {s s' : Client} {e : Event} (h : Prompt s) (hsound : Sound s)
    (hquiet : quiet s e) (hstep : s.step e = some s') : Prompt s' := by
  cases step_cases hstep with
  | execute generation request callable atOnce => exact prompt_execute h hquiet
  | cancel => exact prompt_cancel h
  | returnedExecute hrunning =>
    refine ⟨⟨h.waiting, h.past, h.delivered⟩, ?_, h.holding, h.killed, h.expired, h.exit, h.request⟩
    intro hf
    exact h.idle (hrunning ▸ List.mem_cons_of_mem _ hf)
  | returnedFinish hrunning =>
    have hnone := h.idle (hrunning ▸ List.mem_cons_self)
    have hno : ∀ w, s.process = some w → False := fun w hw => by
      rw [hnone] at hw
      cases hw
    exact ⟨⟨h.waiting, h.past, h.delivered⟩, fun _ => hnone, h.holding, fun w hw => (hno w hw).elim,
      h.expired, h.exit, fun w hw => (hno w hw).elim⟩
  | @wrote w bytes hw hlive =>
    exact prompt_process h hw rfl rfl rfl rfl rfl rfl
  | started accepted hrunning hw hstarted => exact prompt_started h hw hstarted accepted
  | readyRead hrunning hw => exact prompt_readResponse h hw
  | readyReadError size =>
    unfold Client.readError
    dsimp only
    split
    · exact prompt_beginTermination (prompt_reading h _ _ _ _ _ _) _
    · exact prompt_reading h _ _ _ _ _ _
  | @failedToStart w hrunning hw hstarted =>
    exact prompt_errorOccurred (@prompt_process s h w { w with failedToStart := true } hw rfl rfl
      rfl rfl rfl rfl) _
  | errorOccurred => exact prompt_errorOccurred h _
  | @finished w code status hrunning hw hlive =>
    obtain ⟨killed, hdrained, hrunning'⟩ := Client.drain_process hw
    refine prompt_finishedProcess (prompt_drain h hw) (sound_drain hsound hrunning w)
      (hrunning'.trans hrunning) hdrained rfl fun hc => ?_
    have hnot : s.cancelling = false := by
      rw [← Bool.not_eq_true]
      intro hcancelling
      rw [Client.cancelling_drain w hcancelling] at hc
      cases hc
    simpa [quiet, hnot, hw, and_assoc] using hquiet
  | startupTimeout => exact prompt_beginTermination (prompt_reading h false _ _ _ _ _) _
  | operationTimeout => exact prompt_beginTermination (prompt_reading h _ false _ _ _ _) _
  | shutdownTimeout hrunning htimer => exact prompt_shutdownTimeout h

/-- What a client promises. A completion is invoked at most once, and it has been when
    its worker has ended or the shutdown timer has fired after termination had begun. A
    payload comes from a worker that has written exactly one frame and exited normally,
    and a worker is given the request of its call. -/
structure Kept (s : Client) : Prop where
  once : (s.replies.map (·.call)).Nodup
  answered : ∀ (i : ℕ) c, s.calls[i]? = some c → c.callable = true →
    i ∈ s.replies.map (·.call) ∨
      ∃ w, s.process = some w ∧ w.call = i ∧ w.exit = none ∧ w.expired = false
  payload : ∀ r ∈ s.replies, r.payload ≠ [] → ∃ w ∈ s.past, w.call = r.call ∧
    (∃ e, w.exit = some e ∧ e.code = 0 ∧ e.status = .normalExit) ∧
    oneFrame w.wrote = some r.payload
  delivered : ∀ w ∈ s.process.toList ++ s.past, Delivered s.calls w

/-- A client keeps its promises in every run where no completion makes a request that
    is taken within `finish`, and no worker ends by itself without an answer. -/
theorem kept_of_reachable {s : Client} (h : (machine.restrict quiet).Reachable s) : Kept s := by
  have hinv : Sound s ∧ Prompt s := by
    refine h.inv_restrict (I := fun s => Sound s ∧ Prompt s) ⟨?_, ?_⟩ ?_
    · exact client_sound .init
    · exact ⟨⟨nofun, nofun, fun _ hw => absent hw⟩, nofun, fun _ => rfl, fun _ hw => absent hw,
        fun _ hw => absent hw, fun _ hw => absent hw, fun _ hw => absent hw⟩
    · rintro s e s' ⟨hsound, hprompt⟩ hquiet hstep
      exact ⟨sound_step hsound hstep, prompt_step hprompt hsound hquiet hstep⟩
  obtain ⟨hsound, hprompt⟩ := hinv
  refine ⟨hsound.once, ?_, hsound.payload, ?_⟩
  · intro i c hi hc
    refine (hprompt.waiting i c hi hc).imp_right fun hcompletion => ?_
    rcases hw : s.process with _ | w
    · rw [hprompt.holding hw] at hcompletion
      cases hcompletion
    · exact ⟨w, rfl, hsound.owner i w hcompletion hw, hprompt.exit w hw, hprompt.expired w hw⟩
  · intro w hw
    rcases List.mem_append.mp hw with hw | hw
    · exact hprompt.delivered w (Option.mem_toList.mp hw)
    · exact hprompt.past w hw

/-- A request that the completion of another makes. -/
def nestedRequest : List Event :=
  [.execute 1 [1] true false, .started 1, .wrote (framed (List.replicate 12 0)),
    .finished 0 .normalExit, .execute 2 [7] true false, .returned, .started 0]

/-- A worker that crashes. -/
def crashedWorker : List Event := [.execute 1 [1] true false, .started 1, .finished 9 .crashExit]

/-- A request made from a completion is lost: its worker is given an empty one. And when
    a worker has crashed, its completion is still to be invoked. -/
theorem request_lost : (¬ ∀ s, machine.Reachable s → Kept s) ∧
    ∃ s, machine.run machine.init crashedWorker = some s ∧
      s.process.bind (·.exit) = some ⟨9, .crashExit, false⟩ ∧ s.replies = [] := by
  refine ⟨fun hkept => ?_, _, rfl, by decide +kernel, by decide +kernel⟩
  rcases hrun : machine.run machine.init nestedRequest with _ | s
  · exact absurd (congrArg Option.isSome hrun) (by decide +kernel)
  have hcalls : (machine.run machine.init nestedRequest).map (fun s => s.calls[1]?) =
      some (some ⟨2, [7], true⟩) := by
    decide +kernel
  have hworker : (machine.run machine.init nestedRequest).map
      (fun s => s.process.map fun w => (w.call, w.offered)) = some (some (1, some [])) := by
    decide +kernel
  rw [hrun, Option.map_some, Option.some_inj] at hcalls hworker
  obtain ⟨w, hw, heq⟩ := Option.map_eq_some_iff.mp hworker
  rw [Prod.mk.injEq] at heq
  have hmem : w ∈ s.process.toList ++ s.past :=
    List.mem_append_left _ (Option.mem_toList.mpr hw)
  obtain ⟨c, hc, hrequest⟩ :=
    ((hkept s (Machine.Reachable.init.run hrun)).delivered w hmem).offered [] heq.2
  rw [heq.1, hcalls] at hc
  cases hc
  cases hrequest

/-- A worker that answers, one that is cancelled, and one that does not end in time. -/
def threeRequests : List Event :=
  [.execute 1 [1] true false, .started 1, .wrote (framed (List.replicate 12 0)),
    .finished 0 .normalExit, .returned, .execute 2 [7] true false, .started 1, .cancel,
    .finished 9 .crashExit, .returned, .execute 3 [7] true false, .startupTimeout,
    .shutdownTimeout]

theorem kept_threeRequests :
    ∃ s, (machine.restrict quiet).run machine.init threeRequests = some s ∧
      s.replies = [⟨2, 3, [], "identity-startup-timeout"⟩, ⟨1, 2, [], "cancelled"⟩,
        ⟨0, 1, List.replicate 12 0, ""⟩] ∧ Kept s := by
  rcases hrun : (machine.restrict quiet).run machine.init threeRequests with _ | s
  · exact absurd (congrArg Option.isSome hrun) (by decide +kernel)
  have hreplies : ((machine.restrict quiet).run machine.init threeRequests).map Client.replies =
      some [⟨2, 3, [], "identity-startup-timeout"⟩, ⟨1, 2, [], "cancelled"⟩,
        ⟨0, 1, List.replicate 12 0, ""⟩] := by
    decide +kernel
  rw [hrun, Option.map_some, Option.some_inj] at hreplies
  exact ⟨s, rfl, hreplies, kept_of_reachable (Machine.Reachable.init.run hrun)⟩

end WorkerClient

end KFaceAuth
