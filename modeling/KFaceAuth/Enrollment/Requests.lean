import KFaceAuth.Enrollment.Session

/-!
# The request that the enrollment waits for

A response of the worker counts if its generation is the active one, and is then read by
the operation that the session waits for. The two are kept apart, and a failure ends the
operation without a word to the worker: the response that comes later is still the
active one, for no operation.

* `tracked_of_reachable`: in every reachable state the response of the active generation
  is read by no operation but the one that it was requested for, and while a capture
  waits the worker works on it.
-/

namespace KFaceAuth

namespace Enrollment

/-- What the session waits for while the worker works on a request. -/
def Operation.pending : Operation → PendingOperation
  | .status => .status
  | .capture => .capture
  | .commit => .commit
  | .delete => .delete
  | .reset => .reset
  | .verify => .none

theorem nextGeneration_ne_zero (generation : UInt64) : nextGeneration generation ≠ 0 := by
  unfold nextGeneration
  split
  · decide
  next h => exact h

namespace Application

/-- The worker and the session agree on the request. -/
structure Tracked (s : Application) : Prop where
  active : s.enrollment.requestActive = true ↔ s.enrollment.activeGeneration ≠ 0
  operation : ∀ f, s.worker = some f → f.owner = .enrollment → f.generation ≠ 0 →
    f.generation = s.enrollment.activeGeneration →
      s.enrollment.pendingOperation = .none ∨ s.enrollment.pendingOperation = f.operation.pending
  capture : s.enrollment.pendingOperation = .capture → ∃ f, s.worker = some f ∧
    f.owner = .enrollment ∧ f.operation = .capture ∧ f.generation ≠ 0 ∧
      f.generation = s.enrollment.activeGeneration
  /-- No enrollment starts while the status is asked for. -/
  start : ∀ f, s.worker = some f → f.operation = .status → s.waitsFor .start = false

/-- No request is asked for any more, or a step forgets at most the operation. -/
structure Steady (s t : Application) : Prop where
  worker : t.worker = s.worker
  requestActive : t.enrollment.requestActive = s.enrollment.requestActive
  activeGeneration : t.enrollment.activeGeneration = s.enrollment.activeGeneration
  operation : t.enrollment.pendingOperation = .none ∨
    t.enrollment.pendingOperation = s.enrollment.pendingOperation
  start : t.waitsFor .start → s.waitsFor .start

variable {s t u : Application}

theorem Tracked.steady (hs : s.Tracked) (h : s.Steady t) : t.Tracked := by
  refine ⟨?_, fun f hf howner hzero hactive => ?_, fun hc => ?_, fun f hf hstatus => ?_⟩
  · rw [h.requestActive, h.activeGeneration]
    exact hs.active
  · rcases h.operation with ho | ho
    · exact .inl ho
    · rw [ho]
      exact hs.operation f (h.worker ▸ hf) howner hzero (h.activeGeneration ▸ hactive)
  · -- A capture that is waited for now was so before.
    rcases h.operation with ho | ho
    · rw [ho] at hc
      cases hc
    · obtain ⟨f, hf, howner, hcapture, hzero, hactive⟩ := hs.capture (ho ▸ hc)
      exact ⟨f, h.worker.trans hf, howner, hcapture, hzero,
        hactive.trans h.activeGeneration.symm⟩
  · have hs := hs.start f (h.worker ▸ hf) hstatus
    rw [← Bool.not_eq_true]
    intro ht
    rw [h.start ht] at hs
    cases hs

namespace Steady

theorem refl (s : Application) : s.Steady s :=
  ⟨rfl, rfl, rfl, .inr rfl, id⟩

theorem trans (h : s.Steady t) (h' : t.Steady u) : s.Steady u := by
  refine ⟨h'.worker.trans h.worker, h'.requestActive.trans h.requestActive,
    h'.activeGeneration.trans h.activeGeneration, ?_, fun hu => h.start (h'.start hu)⟩
  rcases h'.operation with ho | ho
  · exact .inl ho
  · rw [ho]
    exact h.operation

theorem enroll (h : s.Steady t) {f : Session → Session}
    (hrequest : (f t.enrollment).requestActive = t.enrollment.requestActive)
    (hactive : (f t.enrollment).activeGeneration = t.enrollment.activeGeneration)
    (hoperation : (f t.enrollment).pendingOperation = .none ∨
      (f t.enrollment).pendingOperation = t.enrollment.pendingOperation) :
    s.Steady (t.enroll f) :=
  h.trans ⟨rfl, hrequest, hactive, hoperation, id⟩

theorem setState (h : s.Steady t) (state : State) : s.Steady (t.setState state) :=
  h.enroll rfl rfl (.inr rfl)

theorem verifying (h : s.Steady t) (f : Verification → Verification) : s.Steady (t.verifying f) :=
  h.trans ⟨rfl, rfl, rfl, .inr rfl, id⟩

theorem answered {c : Completion} {action : Action} {result : KeyResult}
    (h : s.Answered c action t result) : s.Steady t := by
  obtain ⟨wallet, rfl⟩ := h.eq
  exact ⟨rfl, rfl, rfl, .inr rfl, id⟩

theorem callKey {c : Completion} {action : Action}
    {complete : Application → KeyResult → Application} (h : s.Steady t) (hc : c ≠ .start)
    (hcomplete : ∀ u result, t.Answered c action u result → u.Steady (complete u result)) :
    s.Steady (t.callKey c action complete) := by
  refine callKey_rule t (fun u result hu => ?_) fun _ _ wallet => ?_
  · exact h.trans ((answered hu).trans (hcomplete u result hu))
  · refine h.trans ⟨rfl, rfl, rfl, .inr rfl, fun hw => ?_⟩
    simp only [waitsFor, Option.any_some, decide_eq_true_eq] at hw
    exact absurd hw hc

end Steady

/-! ## Failures and responses -/

theorem steady_fail (s : Application) : s.Steady s.fail := by
  have h := (Steady.refl s).enroll (f := fun e =>
    { e.clearSensitive with sessionTimer := false, pendingOperation := .none }) rfl rfl (.inl rfl)
  unfold fail
  dsimp only
  split
  · refine Steady.callKey (h.enroll rfl rfl (.inr rfl)) (by simp) fun u _ _ => ?_
    exact (Steady.refl u).setState _
  · exact h.setState _

theorem steady_deletedKey (s : Application) (result : KeyResult) :
    s.Steady (s.deletedKey result) := by
  unfold deletedKey
  split
  · exact (Steady.refl s).setState _
  · exact steady_fail s

theorem steady_handleResult (s : Application) (response : Response) :
    s.Steady (s.handleResult response) := by
  unfold handleResult
  split
  · exact .refl s
  · split
    · exact .refl s
    · exact steady_fail s
  · split
    · split
      · exact (Steady.refl s).enroll rfl rfl (.inr rfl)
      · exact steady_fail s
    · exact steady_fail s
  · split
    · exact (Steady.refl s).enroll rfl rfl (.inr rfl)
    · exact steady_fail s
  all_goals
    split
    · exact (Steady.refl s).callKey (by simp) fun u result _ => steady_deletedKey u result
    · exact steady_fail s

/-- A session that asks for nothing. -/
structure Unasked (s : Application) : Prop where
  requestActive : s.enrollment.requestActive = false
  activeGeneration : s.enrollment.activeGeneration = 0
  operation : s.enrollment.pendingOperation = .none

theorem Unasked.tracked (h : s.Unasked)
    (hstart : ∀ f, s.worker = some f → f.operation = .status → s.waitsFor .start = false) :
    s.Tracked := by
  refine ⟨?_, fun f hf howner hzero hactive => ?_, fun hc => ?_, hstart⟩
  · rw [h.requestActive, h.activeGeneration]
    simp
  · exact .inl h.operation
  · rw [h.operation] at hc
    cases hc

theorem operation_fail (s : Application) : s.fail.enrollment.pendingOperation = .none := by
  unfold fail
  dsimp only
  split
  · refine callKey_rule (P := fun u => u.enrollment.pendingOperation = .none) _
      (fun t result ht => ?_) fun _ _ _ => rfl
    exact congrArg Session.pendingOperation ht.enrollment
  · rfl

/-- After the response of the active generation nothing is asked for. -/
theorem tracked_handleResponse_active {generation : UInt64} {response : Response}
    (hzero : generation ≠ 0) (hactive : generation = s.enrollment.activeGeneration)
    (hstart : ∀ f, s.worker = some f → f.operation = .status → s.waitsFor .start = false) :
    (s.handleResponse generation response).Tracked := by
  let s' := s.enroll fun e => { e with requestActive := false, activeGeneration := 0 }
  have done {t : Application} (h : s'.Steady t) (ho : t.enrollment.pendingOperation = .none) :
      t.Tracked := by
    refine Unasked.tracked ⟨h.requestActive, h.activeGeneration, ho⟩ fun f hf hstatus => ?_
    rw [← Bool.not_eq_true]
    intro hw
    have hs := hstart f (h.worker ▸ hf) hstatus
    have hw : s.waitsFor .start = true := h.start hw
    rw [hw] at hs
    cases hs
  unfold handleResponse
  rw [if_neg (by rintro (h | h); exacts [hzero h, h hactive])]
  dsimp only
  split
  · exact done (steady_fail _) (operation_fail _)
  · exact done (steady_fail _) (operation_fail _)
  · split
    · exact done ((Steady.refl s').enroll rfl rfl (.inl rfl)) rfl
    · exact done (steady_fail _) (operation_fail _)
  all_goals exact done ((steady_handleResult _ _).enroll rfl rfl (.inl rfl)) rfl

/-- A request is asked for, of the worker if it is free. -/
theorem Tracked.submit (h : s.Tracked) {operation : Operation} {pending : PendingOperation}
    (hpending : pending = operation.pending) (state : State)
    (hstart : operation = .status → s.waitsFor .start = false) :
    (s.submit operation pending state).Tracked := by
  have hzero := nextGeneration_ne_zero s.enrollment.generation
  unfold Application.submit
  dsimp only
  refine execute_rule (P := Tracked) _ _ (fun _ => ?_) fun _ => ?_
  · -- The worker is busy: the request fails at once, and nothing is asked for.
    exact tracked_handleResponse_active hzero rfl h.start
  · refine ⟨?_, fun f hf howner _ _ => ?_, fun hc => ?_, fun f hf hstatus => ?_⟩
    · simpa [enroll] using hzero
    · obtain rfl := Option.some.inj hf
      exact .inr hpending
    · refine ⟨_, rfl, rfl, ?_, hzero, rfl⟩
      have hc : pending = .capture := hc
      rw [hpending] at hc
      cases operation <;> first | rfl | cases hc
    · obtain rfl := Option.some.inj hf
      exact hstart hstatus

theorem Tracked.callKey {c : Completion} {action : Action}
    {complete : Application → KeyResult → Application} (h : s.Tracked)
    (hc : c = .start → s.worker = none)
    (hcomplete : ∀ t result, s.Answered c action t result → t.Tracked →
      (complete t result).Tracked) : (s.callKey c action complete).Tracked := by
  refine callKey_rule s (fun t result ht => ?_) fun hp _ wallet => ?_
  · exact hcomplete t result ht (h.steady (.answered ht))
  · refine ⟨h.active, h.operation, h.capture, fun f hf _ => ?_⟩
    have hf : s.worker = some f := hf
    simp only [waitsFor, Option.any_some, decide_eq_false_iff_not]
    intro hstart
    -- An enrollment starts only while the worker is free.
    rw [hc hstart] at hf
    cases hf

/-! ## The status of the profile -/

theorem Tracked.completeStatus (h : s.Tracked) {result : KeyResult}
    (hstart : result.state = .available ∨ result.state = .absent → s.waitsFor .start = false) :
    (s.completeStatus result).Tracked := by
  have run (key : List UInt8) (hstart : s.waitsFor .start = false) :
      (s.runStatus key).Tracked := by
    unfold runStatus
    split
    · exact h.steady ((Steady.refl s).enroll rfl rfl (.inr rfl))
    · exact h.submit rfl _ fun _ => hstart
  unfold Application.completeStatus
  split
  next hr => exact run _ (hstart (.inl hr))
  next hr => exact run _ (hstart (.inr hr))
  · exact h

/-- A key that is answered at once is so while no other operation waits. -/
theorem Answered.waitsFor {c c' : Completion} {action : Action} {result : KeyResult}
    (h : s.Answered c action t result) (hr : result.state ≠ .unavailable) :
    t.waitsFor c' = false := by
  rcases h.result with rfl | ⟨hp, _⟩
  · exact absurd rfl hr
  · simp [Application.waitsFor, h.pending, hp]

theorem Tracked.refreshProfileStatus (h : s.Tracked) : s.refreshProfileStatus.Tracked := by
  unfold Application.refreshProfileStatus
  split
  · exact h
  · refine h.callKey (by simp) fun t result ht htracked => htracked.completeStatus fun hr => ?_
    refine ht.waitsFor ?_
    rcases hr with hr | hr
    · rw [hr]
      simp
    · rw [hr]
      simp

/-! ## The samples -/

theorem steady_completeStart (s : Application) (result : KeyResult) :
    s.Steady (s.completeStart result) := by
  have h : s.Steady (s.takeKey result) := by
    obtain ⟨key, keyNeedsStore, h⟩ := takeKey_eq s result
    rw [h]
    exact (Steady.refl s).enroll rfl rfl (.inr rfl)
  unfold completeStart
  dsimp only
  split
  · exact h.trans (steady_fail _)
  · split
    · exact h.trans (steady_fail _)
    · exact h.enroll rfl rfl (.inr rfl)

theorem Tracked.startEnrollment (h : s.Tracked) : s.startEnrollment.Tracked := by
  unfold Application.startEnrollment
  split
  · exact h.steady (steady_fail s)
  next hg =>
    have hs := h.steady ((Steady.refl s).enroll (f := fun e =>
      { e.clearSensitive with state := .openingWallet }) rfl rfl (.inr rfl))
    refine hs.callKey (fun _ => ?_) fun t result _ ht => ht.steady (steady_completeStart t result)
    simp only [Bool.or_eq_true, not_or] at hg
    have hw : s.worker = none := by simpa using hg.1.2
    exact hw

theorem Tracked.captureSample (h : s.Tracked) : s.captureSample.Tracked := by
  unfold Application.captureSample
  split
  · exact h
  · split
    · exact h.steady (steady_fail s)
    · split
      · exact h.steady (((Steady.refl s).enroll rfl rfl (.inr rfl)).trans (steady_fail _))
      · exact h.submit rfl _ fun hs => by cases hs

theorem steady_discardLastSample (s : Application) : s.Steady s.discardLastSample := by
  unfold discardLastSample
  split
  · exact .refl s
  · exact (Steady.refl s).enroll rfl rfl (.inr rfl)

/-! ## The profile -/

theorem Tracked.commitRevoked (h : s.Tracked) : s.commitRevoked.Tracked := by
  have hs := (Steady.refl s).enroll (f := fun e => { e with commitAfterSystemRevoke := false })
    rfl rfl (.inr rfl)
  unfold Application.commitRevoked
  dsimp only
  split
  · exact h.steady (hs.trans (steady_fail _))
  · split
    · exact h.steady ((hs.enroll rfl rfl (.inr rfl)).trans (steady_fail _))
    · exact (h.steady hs).submit rfl _ fun hs => by cases hs

theorem Tracked.completeDeleteRead (h : s.Tracked) (epoch : UInt64) (result : KeyResult) :
    (s.completeDeleteRead epoch result).Tracked := by
  unfold Application.completeDeleteRead
  split
  · exact h
  · split
    · exact h.steady (steady_fail s)
    · exact h.submit rfl _ fun hs => by cases hs

theorem Tracked.resume (h : s.Tracked) (c : Continuation) (success : Bool) :
    (s.resume c success).Tracked := by
  unfold Application.resume
  split
  · exact h
  · split
    · split
      · exact h
      · split
        · exact h.commitRevoked
        · exact h.steady (((Steady.refl s).enroll rfl rfl (.inr rfl)).trans (steady_fail _))
    · split
      · exact (h.steady ((Steady.refl s).setState _)).callKey (by simp)
          fun t result _ ht => ht.completeDeleteRead _ result
      · exact h.steady (steady_fail s)
    · split
      · exact h.submit rfl _ fun hs => by cases hs
      · exact h.steady (steady_fail s)

theorem Tracked.revokeSystemProfileThen (h : s.Tracked) (c : Continuation) :
    (s.revokeSystemProfileThen c).Tracked := by
  unfold Application.revokeSystemProfileThen
  split
  · exact h.resume c _
  next reply revokes _ =>
    have hs : ({ s with around := { s.around with revokes } } : Application).Tracked :=
      h.steady ⟨rfl, rfl, rfl, .inr rfl, id⟩
    dsimp only
    split
    · exact h.steady ⟨rfl, rfl, rfl, .inr rfl, id⟩
    · exact hs.resume c _
    · exact hs.resume c _
    · split
      · exact hs.resume c _
      · exact h.steady ⟨rfl, rfl, rfl, .inr rfl, id⟩

theorem Tracked.commitEnrollment (h : s.Tracked) : s.commitEnrollment.Tracked := by
  unfold Application.commitEnrollment
  split
  · exact h.commitRevoked
  · exact (h.steady ((Steady.refl s).enroll rfl rfl (.inr rfl))).revokeSystemProfileThen _

theorem Tracked.completeStore (h : s.Tracked) (result : KeyResult) :
    (s.completeStore result).Tracked := by
  unfold Application.completeStore
  split
  · exact h.steady (steady_fail s)
  · exact (h.steady ((Steady.refl s).enroll rfl rfl (.inr rfl))).commitEnrollment

theorem Tracked.finishAndSave (h : s.Tracked) : s.finishAndSave.Tracked := by
  have hs := h.steady ((Steady.refl s).setState .saving)
  unfold Application.finishAndSave
  split
  · exact h
  · dsimp only
    split
    · exact hs.commitEnrollment
    · split
      · have he : ((s.setState .saving).ended .store .unavailable .answered).Tracked :=
          hs.steady ⟨rfl, rfl, rfl, .inr rfl, id⟩
        exact he.completeStore _
      · exact hs.callKey (by simp) fun t result _ ht => ht.completeStore result

/-- An operation that is asked for while none is. -/
theorem Tracked.begin (h : s.Tracked) (hr : s.enrollment.requestActive = false)
    {pending : PendingOperation} (hp : pending ≠ .capture) (state : State) :
    (s.enroll fun e => { e with pendingOperation := pending, state }).Tracked := by
  have hzero : s.enrollment.activeGeneration = 0 := by
    by_contra hzero
    rw [h.active.2 hzero] at hr
    cases hr
  refine ⟨h.active, fun f hf howner hne hactive => ?_, fun hc => absurd hc hp, h.start⟩
  exact absurd (hactive.trans hzero) hne

theorem Tracked.changeProfile (h : s.Tracked) {operation : PendingOperation}
    (ho : operation ≠ .capture) (c : UInt64 → Continuation) :
    (s.changeProfile operation c).Tracked := by
  unfold Application.changeProfile
  dsimp only
  split
  · exact h
  next hg =>
    simp only [Bool.or_eq_true, not_or, Bool.not_eq_true] at hg
    exact (h.begin hg.1.1 ho _).revokeSystemProfileThen _

theorem Tracked.revoked (h : s.Tracked) (r : Revocation) (success : Bool) :
    (s.revoked r success).Tracked := by
  unfold Application.revoked
  split
  · exact (h.steady ((Steady.refl s).enroll rfl rfl (.inr rfl))).resume _ _
  · split
    · exact h.revokeSystemProfileThen _
    · exact h.resume _ _

/-! ## The authentication settings and the local test -/

theorem steady_completeAuth (s : Application) (generation : UInt64) (result : KeyResult) :
    s.Steady (s.completeAuth generation result) := by
  refine (Steady.refl s).enroll ?_ ?_ (.inr ?_)
  all_goals
    split
    · rfl
    · split
      · rfl
      · rfl

theorem steady_runAuthTargetOperation (s : Application) (requiresProfile : Bool) :
    s.Steady (s.runAuthTargetOperation requiresProfile) := by
  unfold runAuthTargetOperation
  dsimp only
  split
  · exact .refl s
  · split
    · refine ((Steady.refl s).enroll rfl rfl (.inr rfl)).callKey (by simp) fun t result _ => ?_
      exact steady_completeAuth t _ result
    · exact (Steady.refl s).enroll rfl rfl (.inr rfl)

theorem steady_finishAuthTargetOperation (s : Application) (success : Bool) :
    s.Steady (s.finishAuthTargetOperation success) := by
  refine (Steady.refl s).enroll ?_ ?_ (.inr ?_)
  all_goals
    split
    · rfl
    · split
      · rfl
      · rfl

theorem steady_finishAuthReadback (s : Application) : s.Steady s.finishAuthReadback := by
  refine (Steady.refl s).enroll ?_ ?_ (.inr ?_)
  all_goals
    split
    · rfl
    · rfl

theorem Tracked.completeVerify (h : s.Tracked) (result : KeyResult) :
    (s.completeVerify result).Tracked := by
  unfold Application.completeVerify
  split
  · exact h.steady ((Steady.refl s).verifying _)
  · dsimp only
    split
    · exact h.steady ((Steady.refl s).verifying _)
    · refine execute_rule (P := Tracked) _ _ (fun _ => ?_) fun hw => ?_
      · exact h.steady (((Steady.refl s).verifying _).verifying _)
      · have hw : s.worker = none := hw
        refine ⟨h.active, fun f hf howner _ _ => ?_, fun hc => ?_, fun f hf hstatus => ?_⟩
        · obtain rfl := Option.some.inj hf
          cases howner
        · -- A capture that waits has the worker.
          obtain ⟨f, hf, _⟩ := h.capture hc
          rw [hw] at hf
          cases hf
        · obtain rfl := Option.some.inj hf
          cases hstatus

theorem Tracked.verifyCurrentFrame (h : s.Tracked) : s.verifyCurrentFrame.Tracked := by
  unfold Application.verifyCurrentFrame
  dsimp only
  split
  · exact h
  · split
    · exact h.steady ((Steady.refl s).verifying _)
    · split
      · exact h
      · split
        · exact h.steady ((Steady.refl s).verifying _)
        · exact (h.steady ((Steady.refl s).verifying _)).callKey (by simp)
            fun t result _ ht => ht.completeVerify result

/-! ## Cancellation -/

theorem Tracked.complete (h : s.Tracked) (hp : s.pending = none) (c : Completion)
    (result : KeyResult) : (s.complete c result).Tracked := by
  cases c with
  | status => exact h.completeStatus fun _ => by simp [waitsFor, hp]
  | start => exact h.steady (steady_completeStart s result)
  | store => exact h.completeStore result
  | deleteRead epoch => exact h.completeDeleteRead epoch result
  | deleteFinal => exact h.steady (steady_deletedKey s result)
  | rollback => exact h.steady ((Steady.refl s).setState _)
  | discarded => exact h
  | auth generation => exact h.steady (steady_completeAuth s generation result)
  | verify => exact h.completeVerify result

theorem Tracked.finishKey (h : s.Tracked) (result : Action → KeyResult) (cause : Cause) :
    (s.finishKey result cause).Tracked := by
  unfold Application.finishKey
  split
  · exact h
  next c action _ =>
    have hs : (({ s with pending := none }).ended c (result action).state cause).Tracked :=
      h.steady ⟨rfl, rfl, rfl, .inr rfl, fun hw => by cases hw⟩
    exact hs.complete rfl c (result action)

theorem Tracked.cancelWorker (h : s.Tracked) : s.cancelWorker.Tracked := by
  refine ⟨h.active, fun f hf howner hzero hactive => ?_, fun hc => ?_, fun f hf hstatus => ?_⟩
  · obtain ⟨f, hf', rfl⟩ := Option.map_eq_some_iff.1 hf
    exact h.operation f hf' howner hzero hactive
  · obtain ⟨f, hf, howner, hcapture, hzero, hactive⟩ := h.capture hc
    exact ⟨_, Option.map_eq_some_iff.2 ⟨f, hf, rfl⟩, howner, hcapture, hzero, hactive⟩
  · obtain ⟨f, hf', rfl⟩ := Option.map_eq_some_iff.1 hf
    exact h.start f hf' hstatus

theorem Tracked.cancelRequests (h : s.Tracked) : s.cancelRequests.Tracked := by
  have hs := h.steady ((Steady.refl s).enroll (f := fun e =>
    { e with
      profileMutationEpoch := e.profileMutationEpoch + 1
      commitAfterSystemRevoke := false
      sessionTimer := false }) rfl rfl (.inr rfl))
  unfold Application.cancelRequests
  dsimp only
  split
  · -- Nothing is asked for any more, though the worker may still be running.
    refine Tracked.finishKey (Tracked.cancelWorker ?_) _ _
    exact Unasked.tracked ⟨rfl, rfl, rfl⟩ h.start
  · exact hs.finishKey _ _

theorem steady_discardKey (s : Application) : s.Steady s.discardKey := by
  unfold discardKey
  split
  · exact ((Steady.refl s).enroll rfl rfl (.inr rfl)).callKey (by simp) fun u _ _ => .refl u
  · exact .refl s

theorem Tracked.cancel (h : s.Tracked) : s.cancel.Tracked :=
  h.cancelRequests.steady ((steady_discardKey _).enroll rfl rfl (.inr rfl))

theorem Tracked.cancelVerification (h : s.Tracked) : s.cancelVerification.Tracked := by
  unfold Application.cancelVerification
  dsimp only
  split
  · have hs := (h.steady ((Steady.refl s).verifying fun v =>
      { v with requestActive := false, activeGeneration := 0 })).cancelWorker
    exact (hs.finishKey _ _).steady ((Steady.refl _).verifying _)
  · exact (h.finishKey _ _).steady ((Steady.refl _).verifying _)

/-- The response of the worker ends its request. -/
theorem Tracked.workerFinished (h : s.Tracked) {f : InFlight} (hf : s.worker = some f)
    (response : Response) : (s.workerFinished f response).Tracked := by
  unfold Application.workerFinished
  dsimp only
  split
  next howner =>
    by_cases hg : f.generation = 0 ∨ f.generation ≠ s.enrollment.activeGeneration
    · unfold Application.handleResponse
      rw [if_pos hg]
      refine ⟨h.active, fun _ hf => (by cases hf), fun hc => ?_, fun _ hf => (by cases hf)⟩
      -- The response of a capture that waits has the active generation.
      obtain ⟨f', hf', _, _, hzero, hactive⟩ := h.capture hc
      obtain rfl := Option.some.inj (hf.symm.trans hf')
      rcases hg with hg | hg
      · exact absurd hg hzero
      · exact absurd hactive hg
    · obtain ⟨hzero, hactive⟩ := not_or.1 hg
      exact tracked_handleResponse_active hzero (Classical.not_not.1 hactive)
        fun _ hf => (by cases hf)
  next howner =>
    refine ⟨h.active, fun _ hf => (by cases hf), fun hc => ?_, fun _ hf => (by cases hf)⟩
    obtain ⟨f', hf', howner', _⟩ := h.capture hc
    obtain rfl := Option.some.inj (hf.symm.trans hf')
    rw [howner] at howner'
    cases howner'

end Application

open Application

variable {s t : Application}

/-- Every step keeps the request. -/
theorem tracked_step {e : Event × Around} (h : s.Tracked) (hs : machine.step s e = some t) :
    t.Tracked := by
  obtain ⟨e, around⟩ := e
  have h' : ({ s with around } : Application).Tracked := h.steady ⟨rfl, rfl, rfl, .inr rfl, id⟩
  simp only [machine] at hs
  cases e with
  | refreshProfileStatus =>
    obtain rfl := Option.some.inj hs
    exact h'.refreshProfileStatus
  | startEnrollment =>
    obtain rfl := Option.some.inj hs
    exact h'.startEnrollment
  | captureSample =>
    obtain rfl := Option.some.inj hs
    exact h'.captureSample
  | discardLastSample =>
    obtain rfl := Option.some.inj hs
    exact h'.steady (steady_discardLastSample _)
  | finishAndSave =>
    obtain rfl := Option.some.inj hs
    exact h'.finishAndSave
  | cancel =>
    obtain rfl := Option.some.inj hs
    exact h'.cancel
  | deleteProfile =>
    obtain rfl := Option.some.inj hs
    exact h'.changeProfile (by simp) _
  | resetUnreadable =>
    obtain rfl := Option.some.inj hs
    exact h'.changeProfile (by simp) _
  | setPageActive active =>
    obtain rfl := Option.some.inj hs
    have hp := h'.steady ((Steady.refl _).enroll (f := fun e => { e with pageActive := active })
      rfl rfl (.inr rfl))
    cases active with
    | true => exact hp.refreshProfileStatus
    | false => exact hp.cancel
  | sessionTimer =>
    simp only [handle] at hs
    split at hs
    · cases hs
    · obtain rfl := Option.some.inj hs
      split
      · exact h'
      · exact h'.cancel
  | runAuthTargetOperation requiresProfile =>
    obtain rfl := Option.some.inj hs
    exact h'.steady (steady_runAuthTargetOperation _ _)
  | authFinished success =>
    obtain rfl := Option.some.inj hs
    exact h'.steady (steady_finishAuthTargetOperation _ _)
  | authReadback =>
    obtain rfl := Option.some.inj hs
    exact h'.steady (steady_finishAuthReadback _)
  | verifyCurrentFrame =>
    obtain rfl := Option.some.inj hs
    exact h'.verifyCurrentFrame
  | clearResult =>
    obtain rfl := Option.some.inj hs
    exact h'.steady ((Steady.refl _).verifying _)
  | cancelVerification =>
    obtain rfl := Option.some.inj hs
    exact h'.cancelVerification
  | setVerificationPage active =>
    obtain rfl := Option.some.inj hs
    have hp := h'.steady ((Steady.refl _).verifying fun v => { v with pageActive := active })
    cases active with
    | true => exact hp
    | false => exact hp.cancelVerification
  | previewChanged streaming =>
    obtain rfl := Option.some.inj hs
    have hp : ({ s with around, streaming } : Application).Tracked :=
      h'.steady ⟨rfl, rfl, rfl, .inr rfl, id⟩
    cases streaming with
    | true => exact hp
    | false =>
      simp only [previewChanged, Bool.false_eq_true, ↓reduceIte]
      split
      · exact hp.cancel.cancelVerification
      · exact hp.cancelVerification
  | applicationChanged active =>
    obtain rfl := Option.some.inj hs
    cases active with
    | true => exact h'.steady ⟨rfl, rfl, rfl, .inr rfl, id⟩
    | false =>
      exact (h'.steady ((Steady.refl _).enroll rfl rfl (.inr rfl))).cancelVerification
  | walletFinished outcome =>
    simp only [handle] at hs
    split at hs
    · cases hs
    · obtain rfl := Option.some.inj hs
      cases outcome with
      | opened key => exact h'.finishKey _ _
      | failed => exact h'.finishKey _ _
      | refused => exact h'.finishKey _ _
  | workerFinished response =>
    obtain ⟨f, hf, rfl⟩ := Option.map_eq_some_iff.1 hs
    exact h'.workerFinished hf response
  | revoked i success =>
    obtain ⟨r, _, rfl⟩ := Option.map_eq_some_iff.1 hs
    have hr : ({ s with around, revocations := s.revocations.eraseIdx i } : Application).Tracked :=
      h'.steady ⟨rfl, rfl, rfl, .inr rfl, id⟩
    exact hr.revoked r success

theorem tracked_init : machine.init.Tracked := by
  refine Unasked.tracked ⟨rfl, rfl, rfl⟩ fun f hf _ => ?_
  cases hf

/-- In every reachable state the worker and the session agree on the request. -/
theorem tracked_of_reachable (h : machine.Reachable s) : s.Tracked :=
  h.inv tracked_init fun _ _ _ hs hstep => tracked_step hs hstep

end Enrollment

end KFaceAuth
