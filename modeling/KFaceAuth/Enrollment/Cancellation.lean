import KFaceAuth.Enrollment.Session

/-!
# Who cancels a key operation

The key provider has at most one operation that waits for the wallet, and its `cancel`
ends it, whoever started it. Both sessions call it: the verification whenever the
preview stops, the focus is lost or its page is left, also when it has nothing to
cancel.

* `cancelled_of_reachable`: if no session is cancelled while an operation of the other
  waits (`apart`), an operation is cancelled only by its own session, or because the
  wallet refused to open;
* `cancelled_of_reachable_fails`: the start of an enrollment is aborted by the loss of
  the focus.
-/

namespace KFaceAuth

namespace Enrollment

/-- An open wallet cancels nothing. -/
theorem performRead_ne_cancelled (action : Action) (key : Option (List UInt8)) :
    (performRead action key).state ≠ .cancelled := by
  unfold performRead
  split
  · simp
  · split <;> simp
  · simp
  · simp
  · simp

namespace Application

variable {s t u : Application}

/-- Every key operation that was cancelled was so by its own session, or the wallet
    refused to open. -/
def Fair (s : Application) : Prop :=
  ∀ c ∈ s.completed, c.state = .cancelled → c.cause = .refused ∨ c.cause = .cancelled c.owner

/-- No key operation is cancelled from `s` to `t`. -/
def Answers (s t : Application) : Prop :=
  ∀ c ∈ t.completed, c ∈ s.completed ∨ c.state ≠ .cancelled

theorem Fair.answers (hs : s.Fair) (h : s.Answers t) : t.Fair := by
  intro c hc hcancelled
  rcases h c hc with hc | hc
  · exact hs c hc hcancelled
  · exact absurd hcancelled hc

namespace Answers

theorem refl (s : Application) : s.Answers s :=
  fun _ hc => .inl hc

theorem trans (h : s.Answers t) (h' : t.Answers u) : s.Answers u := by
  intro c hc
  rcases h' c hc with hc | hc
  · exact h c hc
  · exact .inr hc

theorem of_completed (h : t.completed = s.completed) : s.Answers t := by
  intro c hc
  rw [h] at hc
  exact .inl hc

theorem enroll (h : s.Answers t) (f : Session → Session) : s.Answers (t.enroll f) := h

theorem verifying (h : s.Answers t) (f : Verification → Verification) :
    s.Answers (t.verifying f) := h

theorem setState (h : s.Answers t) (state : State) : s.Answers (t.setState state) := h

theorem ended (h : s.Answers t) (c : Completion) {state : KeyState} (cause : Cause)
    (hstate : state ≠ .cancelled) : s.Answers (t.ended c state cause) := by
  intro d hd
  rcases List.mem_append.1 hd with hd | hd
  · exact h d hd
  · rw [List.mem_singleton.1 hd]
    exact .inr hstate

theorem callKey {complete : Application → KeyResult → Application} (h : s.Answers t)
    (c : Completion) (action : Action)
    (hc : ∀ (u : Application) result, u.Answers (complete u result)) :
    s.Answers (t.callKey c action complete) := by
  refine callKey_rule t (fun u result hu => ?_) fun _ _ wallet => h.trans (of_completed rfl)
  refine h.trans (trans ?_ (hc u result))
  obtain ⟨wallet, rfl⟩ := hu.eq
  refine ended (of_completed rfl) c _ ?_
  rcases hu.result with rfl | ⟨_, key, _, rfl⟩
  · simp
  · exact performRead_ne_cancelled action key

theorem execute {complete : Application → Application} (h : s.Answers t) (f : InFlight)
    (hc : ∀ u : Application, u.Answers (complete u)) : s.Answers (t.execute f complete) :=
  execute_rule t f (fun _ => h.trans (hc t)) fun _ => h.trans (of_completed rfl)

end Answers

/-! ## No function cancels but `cancelKey` -/

theorem answers_fail (s : Application) : s.Answers s.fail := by
  unfold fail
  dsimp only
  split
  · -- The rollback of the stored key ends at once or waits; either way it is not cancelled.
    exact ((Answers.refl s).enroll _ |>.enroll _).callKey _ _ fun u _ => (Answers.refl u).setState _
  · exact ((Answers.refl s).enroll _).setState _

theorem answers_deletedKey (s : Application) (result : KeyResult) :
    s.Answers (s.deletedKey result) := by
  unfold deletedKey
  split
  · exact (Answers.refl s).setState _
  · exact answers_fail s

theorem answers_handleResult (s : Application) (response : Response) :
    s.Answers (s.handleResult response) := by
  unfold handleResult
  split
  · exact .refl s
  · split
    · exact .refl s
    · exact answers_fail s
  · split
    · split
      · exact (Answers.refl s).enroll _
      · exact answers_fail s
    · exact answers_fail s
  · split
    · exact (Answers.refl s).enroll _
    · exact answers_fail s
  all_goals
    split
    · exact (Answers.refl s).callKey _ _ answers_deletedKey
    · exact answers_fail s

theorem answers_handleResponse (s : Application) (generation : UInt64) (response : Response) :
    s.Answers (s.handleResponse generation response) := by
  unfold handleResponse
  split
  · exact .refl s
  · have h := (Answers.refl s).enroll fun e =>
      { e with requestActive := false, activeGeneration := 0 }
    dsimp only
    split
    · exact h.trans (answers_fail _)
    · exact h.trans (answers_fail _)
    · split
      · exact h.enroll _
      · exact h.trans (answers_fail _)
    all_goals exact (h.trans (answers_handleResult _ _)).enroll _

theorem answers_submit (s : Application) (operation : Operation) (pending : PendingOperation)
    (state : State) : s.Answers (s.submit operation pending state) :=
  ((Answers.refl s).enroll _).execute _ fun u => answers_handleResponse u _ _

theorem answers_runStatus (s : Application) (key : List UInt8) : s.Answers (s.runStatus key) := by
  unfold runStatus
  split
  · exact (Answers.refl s).enroll _
  · exact answers_submit s _ _ _

theorem answers_completeStatus (s : Application) (result : KeyResult) :
    s.Answers (s.completeStatus result) := by
  unfold completeStatus
  split
  · exact answers_runStatus s _
  · exact answers_runStatus s _
  · exact .refl s

theorem answers_refreshProfileStatus (s : Application) : s.Answers s.refreshProfileStatus := by
  unfold refreshProfileStatus
  split
  · exact .refl s
  · exact (Answers.refl s).callKey _ _ answers_completeStatus

theorem answers_completeStart (s : Application) (result : KeyResult) :
    s.Answers (s.completeStart result) := by
  have h : s.Answers (s.takeKey result) := by
    obtain ⟨key, keyNeedsStore, h⟩ := takeKey_eq s result
    rw [h]
    exact (Answers.refl s).enroll _
  unfold completeStart
  dsimp only
  split
  · exact h.trans (answers_fail _)
  · split
    · exact h.trans (answers_fail _)
    · exact h.enroll _

theorem answers_startEnrollment (s : Application) : s.Answers s.startEnrollment := by
  unfold startEnrollment
  split
  · exact answers_fail s
  · exact ((Answers.refl s).enroll _).callKey _ _ answers_completeStart

theorem answers_captureSample (s : Application) : s.Answers s.captureSample := by
  unfold captureSample
  split
  · exact .refl s
  · split
    · exact answers_fail s
    · split
      · exact ((Answers.refl s).enroll _).trans (answers_fail _)
      · exact answers_submit s _ _ _

theorem answers_discardLastSample (s : Application) : s.Answers s.discardLastSample := by
  unfold discardLastSample
  split
  · exact .refl s
  · exact (Answers.refl s).enroll _

theorem answers_commitRevoked (s : Application) : s.Answers s.commitRevoked := by
  have h := (Answers.refl s).enroll fun e => { e with commitAfterSystemRevoke := false }
  unfold commitRevoked
  dsimp only
  split
  · exact h.trans (answers_fail _)
  · split
    · exact (h.enroll _).trans (answers_fail _)
    · exact h.trans (answers_submit _ _ _ _)

theorem answers_completeDeleteRead (s : Application) (epoch : UInt64) (result : KeyResult) :
    s.Answers (s.completeDeleteRead epoch result) := by
  unfold completeDeleteRead
  split
  · exact .refl s
  · split
    · exact answers_fail s
    · exact answers_submit s _ _ _

theorem answers_resume (s : Application) (c : Continuation) (success : Bool) :
    s.Answers (s.resume c success) := by
  unfold resume
  split
  · exact .refl s
  · split
    · split
      · exact .refl s
      · split
        · exact answers_commitRevoked s
        · exact ((Answers.refl s).enroll _).trans (answers_fail _)
    · split
      · exact ((Answers.refl s).setState _).callKey _ _ fun u => answers_completeDeleteRead u _
      · exact answers_fail s
    · split
      · exact answers_submit s _ _ _
      · exact answers_fail s

theorem answers_revokeSystemProfileThen (s : Application) (c : Continuation) :
    s.Answers (s.revokeSystemProfileThen c) := by
  unfold revokeSystemProfileThen
  split
  · exact answers_resume s _ _
  next reply revokes _ =>
    have h : s.Answers { s with around := { s.around with revokes } } := .of_completed rfl
    dsimp only
    split
    · exact .of_completed rfl
    · exact h.trans (answers_resume _ _ _)
    · exact h.trans (answers_resume _ _ _)
    · split
      · exact h.trans (answers_resume _ _ _)
      · exact .of_completed rfl

theorem answers_commitEnrollment (s : Application) : s.Answers s.commitEnrollment := by
  unfold commitEnrollment
  split
  · exact answers_commitRevoked s
  · exact ((Answers.refl s).enroll _).trans (answers_revokeSystemProfileThen _ _)

theorem answers_completeStore (s : Application) (result : KeyResult) :
    s.Answers (s.completeStore result) := by
  unfold completeStore
  split
  · exact answers_fail s
  · exact ((Answers.refl s).enroll _).trans (answers_commitEnrollment _)

theorem answers_finishAndSave (s : Application) : s.Answers s.finishAndSave := by
  have h := (Answers.refl s).setState .saving
  unfold finishAndSave
  split
  · exact .refl s
  · dsimp only
    split
    · exact h.trans (answers_commitEnrollment _)
    · split
      · exact (h.ended _ _ (by simp)).trans (answers_completeStore _ _)
      · exact h.callKey _ _ answers_completeStore

theorem answers_changeProfile (s : Application) (operation : PendingOperation)
    (c : UInt64 → Continuation) : s.Answers (s.changeProfile operation c) := by
  unfold changeProfile
  dsimp only
  split
  · exact .refl s
  · exact ((Answers.refl s).enroll _).trans (answers_revokeSystemProfileThen _ _)

theorem answers_revoked (s : Application) (r : Revocation) (success : Bool) :
    s.Answers (s.revoked r success) := by
  unfold revoked
  split
  · exact ((Answers.refl s).enroll _).trans (answers_resume _ _ _)
  · split
    · exact answers_revokeSystemProfileThen s _
    · exact answers_resume s _ _

theorem answers_runAuthTargetOperation (s : Application) (requiresProfile : Bool) :
    s.Answers (s.runAuthTargetOperation requiresProfile) := by
  unfold runAuthTargetOperation
  dsimp only
  split
  · exact .refl s
  · split
    · exact ((Answers.refl s).enroll _).callKey _ _ fun u _ => (Answers.refl u).enroll _
    · exact (Answers.refl s).enroll _

theorem answers_completeVerify (s : Application) (result : KeyResult) :
    s.Answers (s.completeVerify result) := by
  unfold completeVerify
  split
  · exact (Answers.refl s).verifying _
  · dsimp only
    split
    · exact (Answers.refl s).verifying _
    · exact ((Answers.refl s).verifying _).execute _ fun u => (Answers.refl u).verifying _

theorem answers_verifyCurrentFrame (s : Application) : s.Answers s.verifyCurrentFrame := by
  unfold verifyCurrentFrame
  dsimp only
  split
  · exact .refl s
  · split
    · exact (Answers.refl s).verifying _
    · split
      · exact .refl s
      · split
        · exact (Answers.refl s).verifying _
        · exact ((Answers.refl s).verifying _).callKey _ _ answers_completeVerify

theorem answers_complete (s : Application) (c : Completion) (result : KeyResult) :
    s.Answers (s.complete c result) := by
  unfold complete
  split
  · exact answers_completeStatus s _
  · exact answers_completeStart s _
  · exact answers_completeStore s _
  · exact answers_completeDeleteRead s _ _
  · exact answers_deletedKey s _
  · exact (Answers.refl s).setState _
  · exact .refl s
  · exact (Answers.refl s).enroll _
  · exact answers_completeVerify s _

theorem answers_workerFinished (s : Application) (f : InFlight) (response : Response) :
    s.Answers (s.workerFinished f response) := by
  have h : s.Answers { s with worker := none } := .of_completed rfl
  unfold workerFinished
  dsimp only
  split
  · exact h.trans (answers_handleResponse _ _ _)
  · exact h.verifying _

theorem answers_discardKey (s : Application) : s.Answers s.discardKey := by
  unfold discardKey
  split
  · exact ((Answers.refl s).enroll _).callKey _ _ fun u _ => .refl u
  · exact .refl s

/-! ## The ends of a key operation -/

/-- The operation that waits may end so. -/
theorem Fair.finishKey (hs : s.Fair) {result : Action → KeyResult} {cause : Cause}
    (h : ∀ c action, s.pending = some (c, action) → (result action).state = .cancelled →
      cause = .refused ∨ cause = .cancelled c.owner) : (s.finishKey result cause).Fair := by
  unfold Application.finishKey
  split
  · exact hs
  next c action hp =>
    -- What the completion does is answered; only the operation itself may be cancelled.
    refine Fair.answers ?_ (answers_complete _ _ _)
    intro d hd hcancelled
    rcases List.mem_append.1 hd with hd | hd
    · exact hs d hd hcancelled
    · rw [List.mem_singleton.1 hd] at hcancelled ⊢
      exact h c action hp hcancelled

/-- The session of the operation that waits for the wallet. -/
def waiting (s : Application) : Option Owner := s.pending.map fun p => p.1.owner

/-- A session may cancel what is its own. -/
theorem Fair.cancelKey (hs : s.Fair) {session : Owner}
    (h : s.waiting = none ∨ s.waiting = some session) : (s.cancelKey session).Fair := by
  refine hs.finishKey fun c action hp _ => .inr ?_
  rcases h with h | h
  · rw [waiting, hp] at h
    cases h
  · rw [waiting, hp] at h
    exact congrArg _ (Option.some.inj h).symm

theorem Fair.cancel (hs : s.Fair) (h : s.waiting ≠ some .verification) : s.cancel.Fair := by
  have hw : s.waiting = none ∨ s.waiting = some .enrollment := by
    rcases hw : s.waiting with _ | (_ | _)
    · exact .inl rfl
    · exact .inr rfl
    · exact absurd hw h
  refine Fair.answers ?_ ((answers_discardKey _).enroll _)
  unfold cancelRequests
  dsimp only
  split
  · exact Fair.cancelKey (s := ((s.enroll _).enroll _).cancelWorker) hs hw
  · exact Fair.cancelKey (s := s.enroll _) hs hw

theorem Fair.cancelVerification (hs : s.Fair) (h : s.waiting ≠ some .enrollment) :
    s.cancelVerification.Fair := by
  have hw : s.waiting = none ∨ s.waiting = some .verification := by
    rcases hw : s.waiting with _ | (_ | _)
    · exact .inl rfl
    · exact absurd hw h
    · exact .inr rfl
  unfold Application.cancelVerification
  dsimp only
  split
  · exact Fair.cancelKey (s := (s.verifying _).cancelWorker) hs hw
  · exact Fair.cancelKey hs hw

/-! ## What a cancelled enrollment leaves behind -/

/-- No key operation waits, and the removal of a stored key would not wait either. -/
def Quiet (s : Application) : Prop :=
  s.pending = none ∧
    (s.enrollment.keyStoredDuringEnrollment → s.around.wallet.head? ≠ some .pending)

theorem Quiet.fail (h : s.Quiet) : s.fail.Quiet := by
  unfold Application.fail
  dsimp only
  split
  next hk =>
    refine callKey_rule _ (fun t result ht => ?_) fun _ hw _ => absurd hw (h.2 hk)
    -- The rollback is answered at once, and there is no stored key any more.
    refine ⟨ht.pending.trans h.1, fun hk => ?_⟩
    have hk : t.enrollment.keyStoredDuringEnrollment := hk
    rw [ht.enrollment] at hk
    exact absurd hk (by simp [enroll])
  · exact h

theorem Quiet.completeStart (h : s.Quiet) :
    (s.completeStart ⟨.cancelled, []⟩).Quiet := by
  have ht : (s.takeKey ⟨.cancelled, []⟩).Quiet := h
  unfold Application.completeStart
  dsimp only
  split
  · exact ht.fail
  · split
    · exact ht.fail
    · exact ht

/-- An operation of the enrollment that is cancelled starts no other that waits. -/
theorem Quiet.complete (h : s.Quiet) (c : Completion) :
    (s.complete c ⟨.cancelled, []⟩).Quiet := by
  cases c with
  | start => exact h.completeStart
  | store => exact h.fail
  | deleteRead epoch =>
    simp only [Application.complete, completeDeleteRead]
    split
    · exact h
    · exact h.fail
  | deleteFinal => exact h.fail
  | auth generation =>
    refine ⟨h.1, fun hk => h.2 ?_⟩
    simp only [Application.complete, completeAuth, enroll] at hk
    split at hk
    · exact hk
    · exact hk
  | status => exact h
  | rollback => exact h
  | discarded => exact h
  | verify => exact h

theorem pending_cancel
    (h : s.enrollment.keyStoredDuringEnrollment → s.around.wallet.head? ≠ some .pending) :
    s.cancel.pending = none := by
  -- The request and the operation that waits end first.
  have hq : s.cancelRequests.Quiet := by
    have key (u : Application) (hk : u.enrollment.keyStoredDuringEnrollment →
        u.around.wallet.head? ≠ some .pending) : (u.cancelKey .enrollment).Quiet := by
      unfold cancelKey finishKey
      split
      next hp => exact ⟨hp, hk⟩
      next c action hp =>
        let v := ({ u with pending := none }).ended c .cancelled (.cancelled .enrollment)
        exact Quiet.complete (s := v) ⟨rfl, hk⟩ c
    unfold cancelRequests
    dsimp only
    split
    · exact key _ h
    · exact key _ h
  change s.cancelRequests.discardKey.pending = none
  unfold discardKey
  split
  next hk =>
    -- Neither does the removal of a stored key wait.
    refine callKey_rule (P := fun u => u.pending = none) _ (fun t _ ht => ?_)
      fun _ hw _ => absurd hw (hq.2 hk)
    exact ht.pending.trans hq.1
  · exact hq.1

/-! ## The runs -/

/-- No session is cancelled while a key operation of the other waits: neither one that
    waited before, nor, when the preview stops, the removal of a stored key that the
    cancelled enrollment starts just then. -/
def apart (s : Application) (e : Event × Around) : Bool :=
  if s.cancelsEnrollment e.2 e.1 then
    s.waiting ≠ some .verification &&
      !(cancelsVerification e.1 && s.enrollment.keyStoredDuringEnrollment &&
        e.2.wallet.head? = some .pending)
  else !(cancelsVerification e.1 && s.waiting = some .enrollment)

variable {e : Event × Around}

theorem waiting_of_cancelsEnrollment (h : s.apart e) (hc : s.cancelsEnrollment e.2 e.1) :
    s.waiting ≠ some .verification := by
  simp only [apart, hc, ↓reduceIte, Bool.and_eq_true, decide_eq_true_eq] at h
  exact h.1

theorem waiting_of_cancelsVerification (h : s.apart e) (hc : s.cancelsEnrollment e.2 e.1 = false)
    (hv : cancelsVerification e.1) : s.waiting ≠ some .enrollment := by
  simpa [apart, hc, hv] using h

end Application

open Application

variable {s t : Application}

/-- One step that keeps the sessions apart. -/
theorem fair_step {e : Event × Around} (hs : s.Fair) (ha : s.apart e)
    (h : machine.step s e = some t) : t.Fair := by
  obtain ⟨e, around⟩ := e
  have hs' : ({ s with around } : Application).Fair := hs
  simp only [machine] at h
  cases e with
  | refreshProfileStatus =>
    obtain rfl := Option.some.inj h
    exact hs'.answers (answers_refreshProfileStatus _)
  | startEnrollment =>
    obtain rfl := Option.some.inj h
    exact hs'.answers (answers_startEnrollment _)
  | captureSample =>
    obtain rfl := Option.some.inj h
    exact hs'.answers (answers_captureSample _)
  | discardLastSample =>
    obtain rfl := Option.some.inj h
    exact hs'.answers (answers_discardLastSample _)
  | finishAndSave =>
    obtain rfl := Option.some.inj h
    exact hs'.answers (answers_finishAndSave _)
  | cancel =>
    obtain rfl := Option.some.inj h
    exact hs'.cancel (waiting_of_cancelsEnrollment (s := s) ha rfl)
  | deleteProfile =>
    obtain rfl := Option.some.inj h
    exact hs'.answers (answers_changeProfile _ _ _)
  | resetUnreadable =>
    obtain rfl := Option.some.inj h
    exact hs'.answers (answers_changeProfile _ _ _)
  | setPageActive active =>
    obtain rfl := Option.some.inj h
    cases active with
    | true => exact hs'.answers (((Answers.refl _).enroll _).trans (answers_refreshProfileStatus _))
    | false =>
      exact Fair.cancel (s := ({ s with around } : Application).enroll _) hs'
        (waiting_of_cancelsEnrollment (s := s) ha rfl)
  | sessionTimer =>
    simp only [handle] at h
    split at h
    · cases h
    · obtain rfl := Option.some.inj h
      split
      · exact hs'
      next hr =>
        have hc : s.cancelsEnrollment around .sessionTimer := by simpa [cancelsEnrollment] using hr
        exact hs'.cancel (waiting_of_cancelsEnrollment (s := s) ha hc)
  | runAuthTargetOperation requiresProfile =>
    obtain rfl := Option.some.inj h
    exact hs'.answers (answers_runAuthTargetOperation _ _)
  | authFinished success =>
    obtain rfl := Option.some.inj h
    exact hs'
  | authReadback =>
    obtain rfl := Option.some.inj h
    exact hs'
  | verifyCurrentFrame =>
    obtain rfl := Option.some.inj h
    exact hs'.answers (answers_verifyCurrentFrame _)
  | clearResult =>
    obtain rfl := Option.some.inj h
    exact hs'
  | cancelVerification =>
    obtain rfl := Option.some.inj h
    exact hs'.cancelVerification (waiting_of_cancelsVerification (s := s) ha rfl rfl)
  | setVerificationPage active =>
    obtain rfl := Option.some.inj h
    cases active with
    | true => exact hs'
    | false =>
      exact Fair.cancelVerification (s := ({ s with around } : Application).verifying _) hs'
        (waiting_of_cancelsVerification (s := s) ha rfl rfl)
  | previewChanged streaming =>
    obtain rfl := Option.some.inj h
    cases streaming with
    | true => exact hs'
    | false =>
      simp only [previewChanged, Bool.false_eq_true, ↓reduceIte]
      split
      next hn =>
        -- The enrollment is cancelled first, and leaves no operation behind.
        have hn : s.needsPreview = true := hn
        simp only [apart, cancelsEnrollment, cancelsVerification, hn, Bool.not_false, Bool.and_self,
          ↓reduceIte, Bool.true_and, Bool.and_eq_true, Bool.not_eq_true', Bool.and_eq_false_imp,
          decide_eq_false_iff_not, decide_eq_true_eq] at ha
        refine Fair.cancelVerification ?_ ?_
        · exact Fair.cancel (s := { s with around, streaming := false }) hs' ha.1
        · rw [waiting, pending_cancel (s := { s with around, streaming := false }) ha.2]
          simp
      next hn =>
        have hn : s.needsPreview = false := Bool.not_eq_true _ ▸ hn
        exact Fair.cancelVerification (s := { s with around, streaming := false }) hs'
          (waiting_of_cancelsVerification (s := s) ha (by simp [cancelsEnrollment, hn]) rfl)
  | applicationChanged active =>
    obtain rfl := Option.some.inj h
    cases active with
    | true => exact hs'
    | false =>
      exact Fair.cancelVerification (s := ({ s with around } : Application).enroll _) hs'
        (waiting_of_cancelsVerification (s := s) ha rfl rfl)
  | walletFinished outcome =>
    simp only [handle] at h
    split at h
    · cases h
    · obtain rfl := Option.some.inj h
      cases outcome with
      | opened key =>
        exact hs'.finishKey fun c action _ hc => absurd hc (performRead_ne_cancelled action key)
      | failed => exact hs'.finishKey fun _ _ _ hc => absurd hc (by simp)
      | refused => exact hs'.finishKey fun _ _ _ _ => .inl rfl
  | workerFinished response =>
    obtain ⟨f, _, rfl⟩ := Option.map_eq_some_iff.1 h
    exact hs'.answers (answers_workerFinished _ f response)
  | revoked i success =>
    obtain ⟨r, _, rfl⟩ := Option.map_eq_some_iff.1 h
    exact Fair.answers (s := { s with around, revocations := s.revocations.eraseIdx i }) hs'
      (answers_revoked _ r success)

/-- In every run that keeps the sessions apart, a key operation is cancelled only by its
    own session, or because the wallet refused to open. -/
theorem cancelled_of_reachable (h : (machine.restrict apart).Reachable s) :
    ∀ c ∈ s.completed, c.state = .cancelled → c.cause = .refused ∨ c.cause = .cancelled c.owner :=
  h.inv_restrict (I := Fair) (fun _ hc => absurd hc (by simp [machine]))
    fun _ _ _ hs ha hstep => fair_step hs ha hstep

/-- An enrollment waits for the wallet when `e` happens. -/
def waitingRun (e : Event) : List (Event × Around) :=
  [(.previewChanged true, {}), (.setPageActive true, {}),
    (.startEnrollment, { wallet := [.pending] }), (e, {})]

/-- An enrollment that is cancelled cancels what it waits for. -/
theorem cancelled_of_reachable_own :
    ∃ s, (machine.restrict apart).run {} (waitingRun .cancel) = some s ∧
      (∃ c ∈ s.completed, c.state = .cancelled) ∧
      ∀ c ∈ s.completed, c.state = .cancelled →
        c.cause = .refused ∨ c.cause = .cancelled c.owner := by
  let s := ((machine.restrict apart).run {} (waitingRun .cancel)).getD {}
  have hs : (machine.restrict apart).run {} (waitingRun .cancel) = some s := by
    decide +kernel
  exact ⟨s, hs, by decide +kernel, cancelled_of_reachable (Machine.Reachable.init.run hs)⟩

/-- The loss of the focus aborts an enrollment that waits for the wallet, though it
    cancels the verification only. -/
theorem cancelled_of_reachable_fails :
    ∃ s, machine.Reachable s ∧ ∃ c ∈ s.completed,
      c.state = .cancelled ∧ c.cause ≠ .refused ∧ c.cause ≠ .cancelled c.owner := by
  let s := (machine.run {} (waitingRun (.applicationChanged false))).getD {}
  have hs : machine.run {} (waitingRun (.applicationChanged false)) = some s := by
    decide +kernel
  exact ⟨s, Machine.Reachable.init.run hs, by decide +kernel⟩

end Enrollment

end KFaceAuth
