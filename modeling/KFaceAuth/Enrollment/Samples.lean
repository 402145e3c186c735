import KFaceAuth.Enrollment.Session

/-!
# The samples and the key in memory

An enrollment holds the samples so far, one after the other, and the key of the
profile. Whenever it fails or is cancelled it drops both, and a save that succeeds does
so too. The removal of a profile does not: it ends as complete with what the session
held before, and a rollback that the wallet answers late makes a new enrollment failed.

* `sound_of_reachable`: if the removal of a key ends only while nothing is held
  (`settled`), the buffer has exactly the samples counted, at most eight, the key is
  empty or 32 bytes long, and a session at rest holds nothing;
* `sound_of_reachable_fails`: a profile that is deleted during an enrollment.
-/

namespace KFaceAuth

namespace Enrollment

/-- `Idle`, `Complete`, `Failed` and `Cancelled`. -/
def State.atRest : State → Bool
  | .idle | .complete | .failed | .cancelled => true
  | _ => false

namespace Session

/-- No sample and no key. -/
def Clean (e : Session) : Prop :=
  e.key = [] ∧ e.embeddings = [] ∧ e.sampleCount = 0

instance (e : Session) : Decidable e.Clean :=
  inferInstanceAs (Decidable (_ ∧ _ ∧ _))

/-- What a session holds fits its state. -/
structure Sound (e : Session) : Prop where
  embeddings : e.embeddings.length = e.sampleCount * embeddingBytes
  count : e.sampleCount ≤ maximumSamples
  key : e.key = [] ∨ e.key.length = keyBytes
  rest : e.state.atRest → e.Clean
  /-- There is room for the sample that is being captured. -/
  capture : e.pendingOperation = .capture → e.sampleCount < maximumSamples

variable {e e' : Session}

theorem clean_clearSensitive (e : Session) : e.clearSensitive.Clean := ⟨rfl, rfl, rfl⟩

theorem Clean.sound (h : e.Clean) : e.Sound := by
  obtain ⟨hkey, hembeddings, hcount⟩ := h
  refine ⟨?_, ?_, .inl hkey, fun _ => ⟨hkey, hembeddings, hcount⟩, fun _ => ?_⟩
  · rw [hembeddings, hcount, Nat.zero_mul]
    rfl
  · rw [hcount]
    decide
  · rw [hcount]
    decide

/-- A change that leaves the samples and the key alone. -/
theorem Sound.of_same (h : e.Sound) (hkey : e'.key = e.key)
    (hembeddings : e'.embeddings = e.embeddings) (hcount : e'.sampleCount = e.sampleCount)
    (hrest : e'.state.atRest → e.state.atRest)
    (hcapture : e'.pendingOperation = .capture → e.pendingOperation = .capture) : e'.Sound := by
  refine ⟨?_, ?_, ?_, fun hr => ?_, fun hc => ?_⟩
  · rw [hembeddings, hcount]
    exact h.embeddings
  · rw [hcount]
    exact h.count
  · rw [hkey]
    exact h.key
  · obtain ⟨hk, he, hn⟩ := h.rest (hrest hr)
    exact ⟨hkey.trans hk, hembeddings.trans he, hcount.trans hn⟩
  · rw [hcount]
    exact h.capture (hcapture hc)

theorem atRest_sampled (e : Session) : e.sampled.atRest = false := by
  unfold sampled
  split
  · rfl
  · rfl

end Session

namespace Application

open Session

variable {s t : Application}

theorem sound_callKey {c : Completion} {action : Action}
    {complete : Application → KeyResult → Application} (h : s.enrollment.Sound)
    (hc : ∀ t result, s.Answered c action t result → t.enrollment.Sound →
      (complete t result).enrollment.Sound) :
    (s.callKey c action complete).enrollment.Sound :=
  callKey_rule (P := fun u => u.enrollment.Sound) s
    (fun t result ht => hc t result ht (ht.enrollment ▸ h)) fun _ _ _ => h

/-! ## Failures -/

theorem clean_fail (s : Application) : s.fail.enrollment.Clean := by
  unfold fail
  dsimp only
  split
  · refine callKey_rule (P := fun u => u.enrollment.Clean) _ (fun t result ht => ?_) fun _ _ _ => ?_
    · have hc : t.enrollment.Clean := ht.enrollment ▸ clean_clearSensitive s.enrollment
      exact hc
    · exact clean_clearSensitive s.enrollment
  · exact clean_clearSensitive s.enrollment

theorem sound_fail (s : Application) : s.fail.enrollment.Sound := (clean_fail s).sound

theorem sound_deletedKey {result : KeyResult}
    (h : result.state = .absent → s.enrollment.Clean) : (s.deletedKey result).enrollment.Sound := by
  unfold deletedKey
  split
  next ha =>
    have hc : (s.setState .complete).enrollment.Clean := h ha
    exact hc.sound
  · exact sound_fail s

/-! ## Responses -/

/-- A sample, when there is room for it. -/
theorem sound_accepted (h : s.enrollment.Sound) (hc : s.enrollment.sampleCount < maximumSamples)
    {payload : List UInt8} (hp : payload.length = embeddingBytes) :
    { (s.accepted payload).enrollment with pendingOperation := .none }.Sound := by
  -- There was room for one sample, and no other capture is waited for.
  refine ⟨?_, hc, h.key, fun hr => ?_, fun hc => by cases hc⟩
  · change (s.enrollment.embeddings ++ payload).length =
      (s.enrollment.sampleCount + 1) * embeddingBytes
    rw [List.length_append, h.embeddings, hp, Nat.succ_mul]
  · have hr : (Session.sampled _).atRest = true := hr
    rw [atRest_sampled] at hr
    cases hr

/-- The end of an operation: the removal of a profile ends with nothing held, if it
    ends at once. -/
theorem sound_handleResult (h : s.enrollment.Sound) {response : Response}
    (hend : s.enrollment.pendingOperation = .delete ∨ s.enrollment.pendingOperation = .reset →
      response = .ack → s.pending = none → (∃ key, s.around.wallet.head? = some (.entry key)) →
      s.enrollment.Clean) :
    { (s.handleResult response).enrollment with pendingOperation := .none }.Sound := by
  have none {e : Session} (he : e.Sound) : { e with pendingOperation := .none }.Sound :=
    he.of_same rfl rfl rfl id fun hc => by cases hc
  have removal (hp : s.enrollment.pendingOperation = .delete ∨
      s.enrollment.pendingOperation = .reset) (hr : response = .ack) :
      (s.callKey .deleteFinal .delete deletedKey).enrollment.Sound := by
    refine sound_callKey h fun t result ht _ => sound_deletedKey fun ha => ?_
    -- Only an open wallet can remove the key at once.
    rcases ht.result with rfl | ⟨hpending, key, hw, _⟩
    · cases ha
    · rw [ht.enrollment]
      exact hend hp hr hpending ⟨key, hw⟩
  unfold handleResult
  split
  · exact none h
  · split
    · exact none h
    · exact none (sound_fail s)
  next hp =>
    split
    · split
      next hl => exact sound_accepted h (h.capture hp) hl
      · exact none (sound_fail s)
    · exact none (sound_fail s)
  · split
    · have hc : s.committed.enrollment.Clean := clean_clearSensitive s.enrollment
      exact none hc.sound
    · exact none (sound_fail s)
  next hp =>
    split
    next hr => exact none (removal (.inl hp) hr)
    · exact none (sound_fail s)
  next hp =>
    split
    next hr => exact none (removal (.inr hp) hr)
    · exact none (sound_fail s)

theorem sound_handleResponse (h : s.enrollment.Sound) {generation : UInt64} {response : Response}
    (hend : generation ≠ 0 → generation = s.enrollment.activeGeneration →
      s.enrollment.pendingOperation = .delete ∨ s.enrollment.pendingOperation = .reset →
      response = .ack → s.pending = none → (∃ key, s.around.wallet.head? = some (.entry key)) →
      s.enrollment.Clean) :
    (s.handleResponse generation response).enrollment.Sound := by
  unfold handleResponse
  split
  · exact h
  next hg =>
    obtain ⟨hzero, hactive⟩ := not_or.1 hg
    have hend := hend hzero (Classical.not_not.1 hactive)
    have hs : (s.enroll fun e =>
        { e with requestActive := false, activeGeneration := 0 }).enrollment.Sound :=
      h.of_same rfl rfl rfl id id
    dsimp only
    split
    · exact sound_fail _
    · exact sound_fail _
    · split
      · -- The sample is refused, and the samples so far stay.
        refine hs.of_same rfl rfl rfl (fun hr => ?_) fun hc => by cases hc
        have hr : (Session.sampled _).atRest = true := hr
        rw [atRest_sampled] at hr
        cases hr
      · exact sound_fail _
    all_goals exact sound_handleResult hs hend

theorem sound_transport (h : s.enrollment.Sound) (generation : UInt64) :
    (s.handleResponse generation .transport).enrollment.Sound :=
  sound_handleResponse h fun _ _ _ hr => by cases hr

theorem sound_submit (h : s.enrollment.Sound) {operation : Operation} {pending : PendingOperation}
    {state : State} (hrest : state.atRest → s.enrollment.state.atRest)
    (hcapture : pending = .capture → s.enrollment.sampleCount < maximumSamples) :
    (s.submit operation pending state).enrollment.Sound := by
  have hs : ({ s.enrollment with
      pendingOperation := pending
      requestActive := true
      activeGeneration := nextGeneration s.enrollment.generation
      generation := nextGeneration s.enrollment.generation
      state } : Session).Sound :=
    ⟨h.embeddings, h.count, h.key, fun hr => h.rest (hrest hr), hcapture⟩
  refine execute_rule (P := fun u => u.enrollment.Sound) _ _
    (fun _ => sound_transport ?_ _) fun _ => ?_
  · exact hs
  · exact hs

/-! ## The status of the profile -/

theorem sound_completeStatus (h : s.enrollment.Sound) (result : KeyResult) :
    (s.completeStatus result).enrollment.Sound := by
  have run (key : List UInt8) : (s.runStatus key).enrollment.Sound := by
    unfold runStatus
    split
    · exact h.of_same rfl rfl rfl id id
    · exact sound_submit h id fun hc => by cases hc
  unfold completeStatus
  split
  · exact run _
  · exact run _
  · exact h

theorem sound_refreshProfileStatus (h : s.enrollment.Sound) :
    s.refreshProfileStatus.enrollment.Sound := by
  unfold refreshProfileStatus
  split
  · exact h
  · exact sound_callKey h fun t result _ ht => sound_completeStatus ht result

/-! ## The samples -/

theorem sound_completeStart (h : s.enrollment.Sound) (result : KeyResult) :
    (s.completeStart result).enrollment.Sound := by
  obtain ⟨key, keyNeedsStore, htake⟩ := takeKey_eq s result
  unfold completeStart
  dsimp only
  rw [htake]
  split
  · exact sound_fail _
  next hkey =>
    -- Whatever the wallet gave, the key has its length now.
    split
    · exact sound_fail _
    · exact ⟨h.embeddings, h.count, .inr (Classical.not_not.1 hkey), fun hr => (by cases hr),
        h.capture⟩

theorem sound_startEnrollment (s : Application) : s.startEnrollment.enrollment.Sound := by
  unfold startEnrollment
  split
  · exact sound_fail s
  · have hc : (s.enroll fun e =>
        { e.clearSensitive with state := .openingWallet }).enrollment.Clean :=
      clean_clearSensitive s.enrollment
    exact sound_callKey hc.sound fun t result _ ht => sound_completeStart ht result

theorem sound_captureSample (h : s.enrollment.Sound) : s.captureSample.enrollment.Sound := by
  unfold captureSample
  split
  · exact h
  next hc =>
    split
    · exact sound_fail s
    · split
      · exact sound_fail _
      · refine sound_submit h (fun hr => by cases hr) fun _ => ?_
        simp only [canCapture, Bool.not_eq_true', Bool.not_eq_false, Bool.and_eq_true,
          decide_eq_true_eq] at hc
        exact hc.1.1.2

theorem sound_discardLastSample (h : s.enrollment.Sound) :
    s.discardLastSample.enrollment.Sound := by
  unfold discardLastSample
  split
  · exact h
  next hc =>
    have hpos : s.enrollment.sampleCount ≠ 0 := by
      simp only [Bool.or_eq_true, decide_eq_true_eq, not_or] at hc
      exact hc.2
    refine ⟨?_, ?_, h.key, fun hr => ?_, fun hp => ?_⟩
    · let kept := (s.enrollment.sampleCount - 1) * embeddingBytes
      change (s.enrollment.embeddings.take kept).length = kept
      rw [List.length_take, h.embeddings]
      exact Nat.min_eq_left (Nat.mul_le_mul_right _ (Nat.sub_le _ _))
    · exact Nat.le_trans (Nat.sub_le _ _) h.count
    · have hr : (Session.sampled _).atRest = true := hr
      rw [atRest_sampled] at hr
      cases hr
    · exact Nat.lt_of_le_of_lt (Nat.sub_le _ _) (h.capture hp)

/-! ## The profile -/

theorem sound_commitRevoked (h : s.enrollment.Sound) : s.commitRevoked.enrollment.Sound := by
  have hs : (s.enroll fun e => { e with commitAfterSystemRevoke := false }).enrollment.Sound :=
    h.of_same rfl rfl rfl id id
  unfold commitRevoked
  dsimp only
  split
  · exact sound_fail _
  · split
    · exact sound_fail _
    · exact sound_submit hs id fun hc => by cases hc

theorem sound_completeDeleteRead (h : s.enrollment.Sound) (epoch : UInt64) (result : KeyResult) :
    (s.completeDeleteRead epoch result).enrollment.Sound := by
  unfold completeDeleteRead
  split
  · exact h
  · split
    · exact sound_fail s
    · exact sound_submit h (fun hr => by cases hr) fun hc => by cases hc

theorem sound_resume (h : s.enrollment.Sound) (c : Continuation) (success : Bool) :
    (s.resume c success).enrollment.Sound := by
  unfold resume
  split
  · exact h
  · split
    · split
      · exact h
      · split
        · exact sound_commitRevoked h
        · exact sound_fail _
    · split
      · have hs : (s.setState .openingWallet).enrollment.Sound :=
          h.of_same rfl rfl rfl (fun hr => by cases hr) id
        exact sound_callKey hs fun t result _ ht => sound_completeDeleteRead ht _ result
      · exact sound_fail s
    · split
      · exact sound_submit h (fun hr => by cases hr) fun hc => by cases hc
      · exact sound_fail s

theorem sound_revokeSystemProfileThen (h : s.enrollment.Sound) (c : Continuation) :
    (s.revokeSystemProfileThen c).enrollment.Sound := by
  unfold revokeSystemProfileThen
  split
  · exact sound_resume h c _
  next reply revokes _ =>
    dsimp only
    split
    · exact h
    · exact sound_resume (s := { s with around := { s.around with revokes } }) h c _
    · exact sound_resume (s := { s with around := { s.around with revokes } }) h c _
    · split
      · exact sound_resume (s := { s with around := { s.around with revokes } }) h c _
      · exact h.of_same rfl rfl rfl id id

theorem sound_commitEnrollment (h : s.enrollment.Sound) :
    s.commitEnrollment.enrollment.Sound := by
  unfold commitEnrollment
  split
  · exact sound_commitRevoked h
  · refine sound_revokeSystemProfileThen (s := s.enroll _) ?_ _
    exact h.of_same rfl rfl rfl id id

theorem sound_completeStore (h : s.enrollment.Sound) (result : KeyResult) :
    (s.completeStore result).enrollment.Sound := by
  unfold completeStore
  split
  · exact sound_fail s
  · refine sound_commitEnrollment (s := s.enroll _) ?_
    exact h.of_same rfl rfl rfl id id

theorem sound_finishAndSave (h : s.enrollment.Sound) : s.finishAndSave.enrollment.Sound := by
  have hs : (s.setState .saving).enrollment.Sound :=
    h.of_same rfl rfl rfl (fun hr => by cases hr) id
  unfold finishAndSave
  split
  · exact h
  · dsimp only
    split
    · exact sound_commitEnrollment hs
    · split
      · exact sound_completeStore (s := (s.setState .saving).ended _ _ _) hs _
      · exact sound_callKey hs fun t result _ ht => sound_completeStore ht result

theorem sound_changeProfile (h : s.enrollment.Sound) {operation : PendingOperation}
    (ho : operation ≠ .capture) (c : UInt64 → Continuation) :
    (s.changeProfile operation c).enrollment.Sound := by
  unfold changeProfile
  dsimp only
  split
  · exact h
  · refine sound_revokeSystemProfileThen (s := s.enroll _) ?_ _
    exact h.of_same rfl rfl rfl (fun hr => by cases hr) fun hc => absurd hc ho

theorem sound_revoked (h : s.enrollment.Sound) (r : Revocation) (success : Bool) :
    (s.revoked r success).enrollment.Sound := by
  unfold revoked
  split
  · refine sound_resume (s := s.enroll _) ?_ _ _
    exact h.of_same rfl rfl rfl id id
  · split
    · exact sound_revokeSystemProfileThen h _
    · exact sound_resume h _ _

/-! ## The authentication settings -/

theorem sound_completeAuth (h : s.enrollment.Sound) (generation : UInt64) (result : KeyResult) :
    (s.completeAuth generation result).enrollment.Sound := by
  unfold completeAuth enroll
  dsimp only
  split
  · exact h
  · split
    · exact h.of_same rfl rfl rfl id id
    · exact h.of_same rfl rfl rfl id id

theorem sound_runAuthTargetOperation (h : s.enrollment.Sound) (requiresProfile : Bool) :
    (s.runAuthTargetOperation requiresProfile).enrollment.Sound := by
  unfold runAuthTargetOperation
  dsimp only
  split
  · exact h
  · split
    · refine sound_callKey (s := s.enroll _) ?_ fun t result _ ht => sound_completeAuth ht _ result
      exact h.of_same rfl rfl rfl id id
    · exact h.of_same rfl rfl rfl id id

theorem sound_finishAuthTargetOperation (h : s.enrollment.Sound) (success : Bool) :
    (s.finishAuthTargetOperation success).enrollment.Sound := by
  unfold finishAuthTargetOperation enroll
  dsimp only
  split
  · exact h
  · split
    · exact h.of_same rfl rfl rfl id id
    · exact h.of_same rfl rfl rfl id id

theorem sound_finishAuthReadback (h : s.enrollment.Sound) :
    s.finishAuthReadback.enrollment.Sound := by
  unfold finishAuthReadback enroll
  dsimp only
  split
  · exact h
  · exact h.of_same rfl rfl rfl id id

/-! ## The end of a key operation -/

/-- The completion of a key operation, with nothing held at the end of a removal. -/
theorem sound_complete (h : s.enrollment.Sound) {c : Completion} {result : KeyResult}
    (hdelete : c = .deleteFinal → result.state = .absent → s.enrollment.Clean)
    (hrollback : c = .rollback → s.enrollment.Clean) :
    (s.complete c result).enrollment.Sound := by
  cases c with
  | status => exact sound_completeStatus h result
  | start => exact sound_completeStart h result
  | store => exact sound_completeStore h result
  | deleteRead epoch => exact sound_completeDeleteRead h epoch result
  | deleteFinal => exact sound_deletedKey (hdelete rfl)
  | rollback =>
    have hc : (s.setState .failed).enrollment.Clean := hrollback rfl
    exact hc.sound
  | discarded => exact h
  | auth generation => exact sound_completeAuth h generation result
  | verify => exact (enrollment_completeVerify s result).symm ▸ h

theorem sound_finishKey (h : s.enrollment.Sound) {result : Action → KeyResult} {cause : Cause}
    (hdelete : ∀ action, s.pending = some (.deleteFinal, action) →
      (result action).state = .absent → s.enrollment.Clean)
    (hrollback : ∀ action, s.pending = some (.rollback, action) → s.enrollment.Clean) :
    (s.finishKey result cause).enrollment.Sound := by
  unfold finishKey
  split
  · exact h
  next c action hp =>
    refine sound_complete (s := ({ s with pending := none }).ended c _ _) h ?_ ?_
    · rintro rfl
      exact hdelete action hp
    · rintro rfl
      exact hrollback action hp

/-! ## Cancellation -/

theorem clean_cancel (s : Application) : s.cancel.enrollment.Clean :=
  clean_clearSensitive s.cancelRequests.discardKey.enrollment

theorem sound_cancel (s : Application) : s.cancel.enrollment.Sound := (clean_cancel s).sound

theorem sound_cancelVerification (h : s.enrollment.Sound)
    (hrollback : ∀ action, s.pending = some (.rollback, action) → s.enrollment.Clean) :
    s.cancelVerification.enrollment.Sound := by
  unfold cancelVerification
  dsimp only
  split
  · exact sound_finishKey (s := (s.verifying _).cancelWorker) h
      (fun _ _ ha => by cases ha) hrollback
  · exact sound_finishKey h (fun _ _ ha => by cases ha) hrollback

/-! ## The runs -/

/-- The worker has removed a profile, and the wallet is open for the key of it. -/
def removed (s : Application) (around : Around) : Bool :=
  s.pending.isNone && (around.wallet.head?.any fun reply => reply matches .entry _) &&
    (s.enrollment.pendingOperation = .delete || s.enrollment.pendingOperation = .reset) &&
    s.worker.any fun f =>
      f.owner = .enrollment && !f.cancelling && f.generation ≠ 0 &&
        f.generation = s.enrollment.activeGeneration

/-- The removal of a key ends with the event, and the session comes to rest. -/
def endsRemoval (s : Application) (e : Event × Around) : Bool :=
  match e.1 with
  | .walletFinished outcome =>
    s.waitsFor .rollback || s.waitsFor .deleteFinal && (outcome matches .opened _)
  | .workerFinished response => response = .ack && s.removed e.2
  | e' => cancelsVerification e' && !s.cancelsEnrollment e.2 e' && s.waitsFor .rollback

/-- The removal of a key ends only while the session holds no sample and no key. -/
def settled (s : Application) (e : Event × Around) : Bool :=
  !s.endsRemoval e || decide s.enrollment.Clean

theorem clean_of_settled {e : Event × Around} (h : s.settled e) (he : s.endsRemoval e) :
    s.enrollment.Clean := by
  simpa [settled, he] using h

/-- The end of a rollback by the verification. -/
theorem clean_of_rollback {e : Event} {around : Around} (h : s.settled (e, around))
    (hv : cancelsVerification e) (hc : s.cancelsEnrollment around e = false) {action : Action}
    (hp : s.pending = some (.rollback, action)) : s.enrollment.Clean := by
  refine clean_of_settled h ?_
  have hw := waitsFor_of_pending hp
  cases e with
  | walletFinished outcome => cases hv
  | workerFinished response => cases hv
  | _ => simp [endsRemoval, hv, hc, hw]

end Application

open Application Session

variable {s t : Application}

theorem sound_walletFinished {outcome : WalletOutcome} {around : Around} (h : s.enrollment.Sound)
    (ha : s.settled (.walletFinished outcome, around)) :
    (({ s with around } : Application).walletFinished outcome).enrollment.Sound := by
  have hrollback (action : Action) (hp : s.pending = some (.rollback, action)) :
      s.enrollment.Clean := by
    refine clean_of_settled ha ?_
    simp [endsRemoval, waitsFor_of_pending hp]
  cases outcome with
  | opened key =>
    refine sound_finishKey (s := { s with around }) h (fun action hp _ => ?_) hrollback
    refine clean_of_settled (s := s) ha ?_
    have hw : s.waitsFor .deleteFinal := waitsFor_of_pending (s := s) hp
    simp [endsRemoval, hw]
  | failed =>
    exact sound_finishKey (s := { s with around }) h (fun _ _ ha => by cases ha) hrollback
  | refused =>
    exact sound_finishKey (s := { s with around }) h (fun _ _ ha => by cases ha) hrollback

theorem sound_workerFinished {f : InFlight} {response : Response} {around : Around}
    (h : s.enrollment.Sound) (hf : s.worker = some f)
    (ha : s.settled (.workerFinished response, around)) :
    (({ s with around } : Application).workerFinished f response).enrollment.Sound := by
  unfold workerFinished
  dsimp only
  split
  next howner =>
    refine sound_handleResponse (s := { s with around, worker := none }) h ?_
    rintro hzero hactive hoperation hack hpending ⟨key, hw⟩
    -- A worker that was killed gives no acknowledgement.
    have hcancelling : f.cancelling = false := by
      rw [← Bool.not_eq_true]
      intro hcancelling
      rw [if_pos hcancelling] at hack
      cases hack
    rw [if_neg (by simp [hcancelling])] at hack
    refine clean_of_settled (s := s) ha ?_
    have hpending : s.pending = none := hpending
    have hw : around.wallet.head? = some (.entry key) := hw
    have hactive : f.generation = s.enrollment.activeGeneration := hactive
    have hoperation : s.enrollment.pendingOperation = .delete ∨
      s.enrollment.pendingOperation = .reset := hoperation
    simp [endsRemoval, removed, hack, hpending, hw, hf, howner, hcancelling, hzero, ← hactive,
      hoperation]
  · exact h

/-- One step that settles what it ends. -/
theorem sound_step {e : Event × Around} (h : s.enrollment.Sound) (ha : s.settled e)
    (hs : machine.step s e = some t) : t.enrollment.Sound := by
  obtain ⟨e, around⟩ := e
  simp only [machine] at hs
  cases e with
  | refreshProfileStatus =>
    obtain rfl := Option.some.inj hs
    exact sound_refreshProfileStatus (s := { s with around }) h
  | startEnrollment =>
    obtain rfl := Option.some.inj hs
    exact sound_startEnrollment _
  | captureSample =>
    obtain rfl := Option.some.inj hs
    exact sound_captureSample (s := { s with around }) h
  | discardLastSample =>
    obtain rfl := Option.some.inj hs
    exact sound_discardLastSample (s := { s with around }) h
  | finishAndSave =>
    obtain rfl := Option.some.inj hs
    exact sound_finishAndSave (s := { s with around }) h
  | cancel =>
    obtain rfl := Option.some.inj hs
    exact sound_cancel _
  | deleteProfile =>
    obtain rfl := Option.some.inj hs
    exact sound_changeProfile (s := { s with around }) h (by simp) _
  | resetUnreadable =>
    obtain rfl := Option.some.inj hs
    exact sound_changeProfile (s := { s with around }) h (by simp) _
  | setPageActive active =>
    obtain rfl := Option.some.inj hs
    cases active with
    | true =>
      refine sound_refreshProfileStatus (s := ({ s with around } : Application).enroll _) ?_
      exact h.of_same rfl rfl rfl id id
    | false => exact sound_cancel _
  | sessionTimer =>
    simp only [handle] at hs
    split at hs
    · cases hs
    · obtain rfl := Option.some.inj hs
      split
      · exact h
      · exact sound_cancel _
  | runAuthTargetOperation requiresProfile =>
    obtain rfl := Option.some.inj hs
    exact sound_runAuthTargetOperation (s := { s with around }) h requiresProfile
  | authFinished success =>
    obtain rfl := Option.some.inj hs
    exact sound_finishAuthTargetOperation (s := { s with around }) h success
  | authReadback =>
    obtain rfl := Option.some.inj hs
    exact sound_finishAuthReadback (s := { s with around }) h
  | verifyCurrentFrame =>
    obtain rfl := Option.some.inj hs
    exact (enrollment_verifyCurrentFrame { s with around }).symm ▸ h
  | clearResult =>
    obtain rfl := Option.some.inj hs
    exact h
  | cancelVerification =>
    obtain rfl := Option.some.inj hs
    exact sound_cancelVerification (s := { s with around }) h
      fun _ hp => clean_of_rollback (s := s) ha rfl rfl hp
  | setVerificationPage active =>
    obtain rfl := Option.some.inj hs
    cases active with
    | true => exact h
    | false =>
      exact sound_cancelVerification (s := ({ s with around } : Application).verifying _) h
        fun _ hp => clean_of_rollback (s := s) ha rfl rfl hp
  | previewChanged streaming =>
    obtain rfl := Option.some.inj hs
    cases streaming with
    | true => exact h
    | false =>
      simp only [previewChanged, Bool.false_eq_true, ↓reduceIte]
      split
      · -- The enrollment is cancelled first, and holds nothing from then on.
        exact sound_cancelVerification (sound_cancel _) fun _ _ => clean_cancel _
      next hn =>
        have hn : s.needsPreview = false := Bool.not_eq_true _ ▸ hn
        exact sound_cancelVerification (s := { s with around, streaming := false }) h
          fun _ hp => clean_of_rollback (s := s) ha rfl (by simp [cancelsEnrollment, hn]) hp
  | applicationChanged active =>
    obtain rfl := Option.some.inj hs
    cases active with
    | true => exact h.of_same rfl rfl rfl id id
    | false =>
      refine sound_cancelVerification (s := ({ s with around } : Application).enroll _) ?_
        fun _ hp => clean_of_rollback (s := s) ha rfl rfl hp
      exact h.of_same rfl rfl rfl id id
  | walletFinished outcome =>
    simp only [handle] at hs
    split at hs
    · cases hs
    · obtain rfl := Option.some.inj hs
      exact sound_walletFinished h ha
  | workerFinished response =>
    obtain ⟨f, hf, rfl⟩ := Option.map_eq_some_iff.1 hs
    exact sound_workerFinished h hf ha
  | revoked i success =>
    obtain ⟨r, _, rfl⟩ := Option.map_eq_some_iff.1 hs
    let u := { s with around, revocations := s.revocations.eraseIdx i }
    exact sound_revoked (s := u) h r success

/-- In every run that settles what it ends, the buffer has exactly the samples counted,
    which are at most eight, the key is empty or has its length, and a session at rest
    holds neither. -/
theorem sound_of_reachable (h : (machine.restrict settled).Reachable s) :
    s.enrollment.embeddings.length = s.enrollment.sampleCount * embeddingBytes ∧
      s.enrollment.sampleCount ≤ maximumSamples ∧
      (s.enrollment.key = [] ∨ s.enrollment.key.length = keyBytes) ∧
      (s.enrollment.state = .idle ∨ s.enrollment.state = .complete ∨
        s.enrollment.state = .failed ∨ s.enrollment.state = .cancelled →
          s.enrollment.key = [] ∧ s.enrollment.embeddings = [] ∧ s.enrollment.sampleCount = 0) := by
  have hs : s.enrollment.Sound :=
    h.inv_restrict (I := fun s => s.enrollment.Sound) (Clean.sound ⟨rfl, rfl, rfl⟩)
      fun _ _ _ hs ha hstep => sound_step hs ha hstep
  refine ⟨hs.embeddings, hs.count, hs.key, fun hr => hs.rest ?_⟩
  rcases hr with hr | hr | hr | hr
  · rw [hr]
    rfl
  · rw [hr]
    rfl
  · rw [hr]
    rfl
  · rw [hr]
    rfl

/-- A key of the wallet. -/
def walletKey : List UInt8 := List.replicate keyBytes 7

/-- An enrollment captures one sample. -/
def sampleRun : List (Event × Around) :=
  [(.previewChanged true, {}), (.setPageActive true, {}),
    (.startEnrollment, { wallet := [.entry (some walletKey)], budget := true }),
    (.captureSample, { frame := .good }),
    (.workerFinished (.sample (List.replicate embeddingBytes 1)), {})]

/-- The enrollment is cancelled, and the profile is to be deleted. -/
def stoppedRun : List (Event × Around) :=
  sampleRun ++
    [(.cancel, ({} : Around)),
      (.deleteProfile, { wallet := [.entry (some walletKey)], revokes := [.unneeded] })]

/-- The worker has removed the profile, and the key is removed from the wallet. -/
def removalEnd : Event × Around := (.workerFinished .ack, { wallet := [.entry (some walletKey)] })

/-- An enrollment with one sample, which is cancelled before the profile is deleted. -/
theorem sound_of_reachable_removal :
    (∃ s, (machine.restrict settled).run {} sampleRun = some s ∧ s.enrollment.sampleCount = 1 ∧
      s.enrollment.embeddings.length = s.enrollment.sampleCount * embeddingBytes ∧
      (s.enrollment.key = [] ∨ s.enrollment.key.length = keyBytes)) ∧
    ∃ s t, (machine.restrict settled).run {} stoppedRun = some s ∧ s.endsRemoval removalEnd ∧
      (machine.restrict settled).step s removalEnd = some t ∧ t.enrollment.state = .complete ∧
      t.enrollment.key = [] ∧ t.enrollment.embeddings = [] ∧ t.enrollment.sampleCount = 0 := by
  refine ⟨?_, ?_⟩
  · let s := ((machine.restrict settled).run {} sampleRun).getD {}
    have hs : (machine.restrict settled).run {} sampleRun = some s := by decide +kernel
    have h := sound_of_reachable (Machine.Reachable.init.run hs)
    exact ⟨s, hs, by decide +kernel, h.1, h.2.2.1⟩
  · let s := ((machine.restrict settled).run {} stoppedRun).getD {}
    let t := ((machine.restrict settled).step s removalEnd).getD {}
    have hs : (machine.restrict settled).run {} stoppedRun = some s := by decide +kernel
    have ht : (machine.restrict settled).step s removalEnd = some t := by decide +kernel
    have hcomplete : t.enrollment.state = .complete := by decide +kernel
    have h := sound_of_reachable ((Machine.Reachable.init.run hs).step _ ht)
    exact ⟨s, t, hs, by decide +kernel, ht, hcomplete, h.2.2.2 (.inr (.inl hcomplete))⟩

/-- The profile is deleted during the enrollment, which then is complete. -/
def deletionRun : List (Event × Around) :=
  sampleRun ++
    [(.deleteProfile, { wallet := [.entry (some walletKey)], revokes := [.unneeded] }), removalEnd]

/-- A profile that is deleted during an enrollment leaves the sample and the key in
    memory. -/
theorem sound_of_reachable_fails :
    ∃ s, machine.Reachable s ∧ s.enrollment.state = .complete ∧ s.enrollment.key ≠ [] ∧
      s.enrollment.sampleCount ≠ 0 := by
  let s := (machine.run {} deletionRun).getD {}
  have hs : machine.run {} deletionRun = some s := by decide +kernel
  exact ⟨s, Machine.Reachable.init.run hs, by decide +kernel⟩

end Enrollment

end KFaceAuth
