import KFaceAuth.Enrollment.Requests
import KFaceAuth.Enrollment.Samples

/-!
# A query of the status beside an enrollment

The status of the profile may be asked for at any time that the session is not busy, and
the wallet answers later, perhaps when a capture is running. The query shares the worker,
the active generation and the failures with the enrollment.

* `samples_of_reachable`: if the query fails only while there is nothing to lose
  (`harmless`), samples are dropped only by what is meant to drop them (`drops`), or by
  an operation that fails (`mayFail`), and the query leaves the samples, the enrollment
  and a running capture alone;
* `samples_of_reachable_fails`: a query that the wallet answers during a capture.
-/

namespace KFaceAuth

namespace Enrollment

/-- No enrollment is under way that could be lost. -/
def Session.vacant (e : Session) : Bool :=
  decide e.Clean && e.state ≠ .enrolling && e.state ≠ .capturing && e.state ≠ .readyToSave &&
    e.pendingOperation ≠ .capture

/-- The worker is asked for the status. -/
def KeyResult.asks (result : KeyResult) : Bool :=
  result.state = .available || result.state = .absent

/-- The key operation is one of the enrollment or changes the profile. -/
def Completion.changes : Completion → Bool
  | .start | .store | .deleteRead _ | .deleteFinal => true
  | _ => false

namespace Application

/-! ## What may become of the samples -/

/-- The samples are the same, or more. -/
def Keeps (s t : Application) : Prop :=
  s.enrollment.embeddings <+: t.enrollment.embeddings ∧
    s.enrollment.sampleCount ≤ t.enrollment.sampleCount

/-- The session has failed, or does so when a key is rolled back. -/
def Fails (t : Application) : Prop :=
  t.enrollment.Clean ∧ (t.enrollment.state = .failed ∨ t.waitsFor .rollback)

/-- A query of the status leaves the samples, the enrollment and a running capture
    alone. -/
structure Kept (s t : Application) : Prop where
  embeddings : t.enrollment.embeddings = s.enrollment.embeddings
  count : t.enrollment.sampleCount = s.enrollment.sampleCount
  key : t.enrollment.key = s.enrollment.key
  /-- The enrollment goes on: while it samples, saves or waits for the wallet. -/
  state : s.enrollment.state = .enrolling ∨ s.enrollment.state = .capturing ∨
    s.enrollment.state = .readyToSave ∨ s.enrollment.key ≠ [] ∨ s.waitsFor .start →
      t.enrollment.state = s.enrollment.state
  start : s.waitsFor .start → t.waitsFor .start
  /-- The response of the capture still has the active generation, and is waited for. -/
  capture : s.enrollment.pendingOperation = .capture →
    t.enrollment.pendingOperation = .capture ∧
      t.enrollment.activeGeneration = s.enrollment.activeGeneration ∧
      t.worker.map InFlight.generation = s.worker.map InFlight.generation

variable {s t u : Application}

theorem Keeps.refl (s : Application) : s.Keeps s :=
  ⟨List.prefix_refl _, Nat.le_refl _⟩

/-- The samples of `s` and `t` are the same. -/
theorem Keeps.of_same (he : t.enrollment.embeddings = s.enrollment.embeddings)
    (hc : t.enrollment.sampleCount = s.enrollment.sampleCount) : s.Keeps t := by
  rw [Keeps, he, hc]
  exact ⟨List.prefix_refl _, Nat.le_refl _⟩

theorem Keeps.trans (h : s.Keeps t) (h' : t.Keeps u) : s.Keeps u :=
  ⟨h.1.trans h'.1, Nat.le_trans h.2 h'.2⟩

theorem Keeps.enroll (h : s.Keeps t) {f : Session → Session}
    (he : (f t.enrollment).embeddings = t.enrollment.embeddings)
    (hc : (f t.enrollment).sampleCount = t.enrollment.sampleCount) : s.Keeps (t.enroll f) :=
  h.trans (.of_same he hc)

/-- The samples are kept, or the operation has failed. -/
def Spares (s t : Application) : Prop := s.Keeps t ∨ t.Fails

theorem Keeps.spares (h : s.Keeps t) (h' : t.Spares u) : s.Spares u := by
  rcases h' with h' | h'
  · exact .inl (h.trans h')
  · exact .inr h'

theorem Keeps.callKey {c : Completion} {action : Action}
    {complete : Application → KeyResult → Application} (h : s.Keeps t)
    (hc : ∀ u result, t.Answered c action u result → u.Spares (complete u result)) :
    s.Spares (t.callKey c action complete) := by
  -- An operation that waits has changed nothing yet.
  refine callKey_rule t (fun u result hu => ?_) fun _ _ _ => .inl h
  have hs : t.Keeps u := by
    rw [Keeps, hu.enrollment]
    exact Keeps.refl t
  exact (h.trans hs).spares (hc u result hu)

/-! ## Operations that may fail -/

theorem fails_fail (s : Application) : s.fail.Fails := by
  refine ⟨clean_fail s, ?_⟩
  unfold fail
  dsimp only
  split
  · refine callKey_rule (P := fun u => u.enrollment.state = .failed ∨ u.waitsFor .rollback) _
      (fun t result ht => .inl rfl) fun _ _ _ => .inr rfl
  · exact .inl rfl

theorem spares_fail (s t : Application) : s.Spares t.fail := .inr (fails_fail t)

theorem spares_deletedKey (s : Application) (result : KeyResult) :
    s.Spares (s.deletedKey result) := by
  unfold deletedKey
  split
  · exact .inl (Keeps.refl s)
  · exact spares_fail s s

/-- The end of an operation, other than a commit that succeeds. -/
theorem spares_handleResult {response : Response}
    (h : s.enrollment.pendingOperation = .commit → response ≠ .ack) :
    s.Spares (s.handleResult response) := by
  unfold handleResult
  split
  · exact .inl (.refl s)
  · split
    · exact .inl (.refl s)
    · exact spares_fail s s
  · split
    · split
      · exact .inl ⟨List.prefix_append _ _, Nat.le_succ _⟩
      · exact spares_fail s s
    · exact spares_fail s s
  next hp =>
    split
    next hr => exact absurd hr (h hp)
    · exact spares_fail s s
  all_goals
    split
    · exact (Keeps.refl s).callKey fun u result _ => spares_deletedKey u result
    · exact spares_fail s s

theorem spares_handleResponse {generation : UInt64} {response : Response}
    (h : generation ≠ 0 → generation = s.enrollment.activeGeneration →
      s.enrollment.pendingOperation = .commit → response ≠ .ack) :
    s.Spares (s.handleResponse generation response) := by
  unfold handleResponse
  split
  · exact .inl (.refl s)
  next hg =>
    obtain ⟨hzero, hactive⟩ := not_or.1 hg
    have h := h hzero (Classical.not_not.1 hactive)
    let s' := s.enroll fun e => { e with requestActive := false, activeGeneration := 0 }
    dsimp only
    split
    · exact spares_fail s _
    · exact spares_fail s _
    · split
      · exact .inl (.refl s)
      · exact spares_fail s _
    all_goals exact spares_handleResult (s := s') h

theorem spares_submit (s : Application) (operation : Operation) (pending : PendingOperation)
    (state : State) : s.Spares (s.submit operation pending state) := by
  unfold submit
  dsimp only
  refine execute_rule (P := s.Spares) _ _ (fun _ => ?_) fun _ => .inl (Keeps.refl s)
  refine ((Keeps.refl s).enroll rfl rfl).spares (spares_handleResponse fun _ _ _ hr => ?_)
  cases hr

theorem spares_completeStart (s : Application) (result : KeyResult) :
    s.Spares (s.completeStart result) := by
  have h : s.Keeps (s.takeKey result) := by
    obtain ⟨key, keyNeedsStore, h⟩ := takeKey_eq s result
    rw [h]
    exact (Keeps.refl s).enroll rfl rfl
  unfold completeStart
  dsimp only
  split
  · exact spares_fail s _
  · split
    · exact spares_fail s _
    · exact .inl h

theorem spares_captureSample (s : Application) : s.Spares s.captureSample := by
  unfold captureSample
  split
  · exact .inl (.refl s)
  · split
    · exact spares_fail s s
    · split
      · exact spares_fail s _
      · exact spares_submit s _ _ _

theorem spares_commitRevoked (s : Application) : s.Spares s.commitRevoked := by
  unfold commitRevoked
  dsimp only
  split
  · exact spares_fail s _
  · split
    · exact spares_fail s _
    · exact ((Keeps.refl s).enroll rfl rfl).spares (spares_submit _ _ _ _)

theorem spares_completeDeleteRead (s : Application) (epoch : UInt64) (result : KeyResult) :
    s.Spares (s.completeDeleteRead epoch result) := by
  unfold completeDeleteRead
  split
  · exact .inl (.refl s)
  · split
    · exact spares_fail s s
    · exact spares_submit s _ _ _

theorem spares_resume (s : Application) (c : Continuation) (success : Bool) :
    s.Spares (s.resume c success) := by
  unfold resume
  split
  · exact .inl (.refl s)
  · split
    · split
      · exact .inl (.refl s)
      · split
        · exact spares_commitRevoked s
        · exact spares_fail s _
    · split
      · have h : s.Keeps (s.setState .openingWallet) := .refl s
        exact h.callKey fun u result _ => spares_completeDeleteRead u _ result
      · exact spares_fail s s
    · split
      · exact spares_submit s _ _ _
      · exact spares_fail s s

theorem spares_revokeSystemProfileThen (s : Application) (c : Continuation) :
    s.Spares (s.revokeSystemProfileThen c) := by
  unfold revokeSystemProfileThen
  split
  · exact spares_resume s c _
  next reply revokes _ =>
    have h : s.Keeps { s with around := { s.around with revokes } } := .refl s
    dsimp only
    split
    · exact .inl h
    · exact h.spares (spares_resume _ c _)
    · exact h.spares (spares_resume _ c _)
    · split
      · exact h.spares (spares_resume _ c _)
      · exact .inl h

theorem spares_commitEnrollment (s : Application) : s.Spares s.commitEnrollment := by
  unfold commitEnrollment
  split
  · exact spares_commitRevoked s
  · exact ((Keeps.refl s).enroll rfl rfl).spares (spares_revokeSystemProfileThen _ _)

theorem spares_completeStore (s : Application) (result : KeyResult) :
    s.Spares (s.completeStore result) := by
  unfold completeStore
  split
  · exact spares_fail s s
  · exact ((Keeps.refl s).enroll rfl rfl).spares (spares_commitEnrollment _)

theorem spares_finishAndSave (s : Application) : s.Spares s.finishAndSave := by
  have h : s.Keeps (s.setState .saving) := .refl s
  unfold finishAndSave
  split
  · exact .inl (.refl s)
  · dsimp only
    split
    · exact h.spares (spares_commitEnrollment _)
    · split
      · have he : s.Keeps ((s.setState .saving).ended .store .unavailable .answered) := h
        exact he.spares (spares_completeStore _ _)
      · exact h.callKey fun u result _ => spares_completeStore u result

theorem spares_changeProfile (s : Application) (operation : PendingOperation)
    (c : UInt64 → Continuation) : s.Spares (s.changeProfile operation c) := by
  unfold changeProfile
  dsimp only
  split
  · exact .inl (.refl s)
  · exact ((Keeps.refl s).enroll rfl rfl).spares (spares_revokeSystemProfileThen _ _)

theorem spares_revoked (s : Application) (r : Revocation) (success : Bool) :
    s.Spares (s.revoked r success) := by
  unfold revoked
  split
  · exact ((Keeps.refl s).enroll rfl rfl).spares (spares_resume _ _ _)
  · split
    · exact spares_revokeSystemProfileThen s _
    · exact spares_resume s _ _

/-! ## The query -/

theorem Kept.refl (s : Application) : s.Kept s :=
  ⟨rfl, rfl, rfl, fun _ => rfl, id, fun hc => ⟨hc, rfl, rfl⟩⟩

/-- Something else has changed. -/
theorem Kept.of_same (he : t.enrollment = s.enrollment)
    (hw : t.worker.map InFlight.generation = s.worker.map InFlight.generation)
    (hs : s.waitsFor .start → t.waitsFor .start) : s.Kept t := by
  refine ⟨?_, ?_, ?_, fun _ => ?_, hs, fun hc => ⟨?_, ?_, hw⟩⟩
  all_goals rw [he]
  exact hc

/-- There was nothing to lose. -/
theorem Kept.of_vacant (hv : s.enrollment.vacant) (hs : s.waitsFor .start = false)
    (ht : t.enrollment.Clean) : s.Kept t := by
  simp only [Session.vacant, Bool.and_eq_true, decide_eq_true_eq, ne_eq] at hv
  obtain ⟨⟨⟨⟨⟨hkey, hembeddings, hcount⟩, henrolling⟩, hcapturing⟩, hready⟩, hcapture⟩ := hv
  refine ⟨ht.2.1.trans hembeddings.symm, ht.2.2.trans hcount.symm, ht.1.trans hkey.symm, ?_, ?_,
    fun hc => absurd hc hcapture⟩
  · rintro (h | h | h | h | h)
    · exact absurd h henrolling
    · exact absurd h hcapturing
    · exact absurd h hready
    · exact absurd hkey h
    · rw [hs] at h
      cases h
  · intro h
    rw [hs] at h
    cases h

theorem Kept.verifying (h : s.Kept t) (f : Verification → Verification) :
    s.Kept (t.verifying f) :=
  ⟨h.embeddings, h.count, h.key, h.state, h.start, h.capture⟩

theorem Kept.keeps (h : s.Kept t) : s.Keeps t := .of_same h.embeddings h.count

/-- What follows a change of what no enrollment looks at. -/
theorem Kept.of_eq (h : t.Kept u) (he : t.enrollment = s.enrollment) (hw : t.worker = s.worker)
    (hs : s.waitsFor .start → t.waitsFor .start) : s.Kept u := by
  refine ⟨?_, ?_, ?_, fun hstate => ?_, fun hstart => h.start (hs hstart), fun hc => ?_⟩
  · rw [h.embeddings, he]
  · rw [h.count, he]
  · rw [h.key, he]
  · rw [← he] at hstate ⊢
    refine h.state ?_
    rcases hstate with hstate | hstate | hstate | hstate | hstate
    · exact .inl hstate
    · exact .inr (.inl hstate)
    · exact .inr (.inr (.inl hstate))
    · exact .inr (.inr (.inr (.inl hstate)))
    · exact .inr (.inr (.inr (.inr (hs hstate))))
  · rw [← he] at hc ⊢
    rw [← hw]
    exact h.capture hc

/-- A request that fails at once leaves nothing. -/
theorem clean_transport {generation : UInt64} (hzero : generation ≠ 0)
    (hactive : generation = s.enrollment.activeGeneration) :
    (s.handleResponse generation .transport).enrollment.Clean := by
  unfold handleResponse
  rw [if_neg (by rintro (h | h); exacts [hzero h, h hactive])]
  exact clean_fail _

theorem kept_runStatus (h : s.Tracked) {key : List UInt8} (hstart : s.waitsFor .start = false)
    (hbusy : s.worker.isSome → s.enrollment.vacant) : s.Kept (s.runStatus key) := by
  unfold runStatus
  split
  · exact ⟨rfl, rfl, rfl, fun _ => rfl, id, fun hc => ⟨hc, rfl, rfl⟩⟩
  · unfold submit
    dsimp only
    refine execute_rule (P := s.Kept) _ _ (fun hw => ?_) fun hw => ?_
    · -- The worker is busy: everything is dropped, and the response to come is ignored.
      exact .of_vacant (hbusy hw) hstart (clean_transport (nextGeneration_ne_zero _) rfl)
    · refine ⟨rfl, rfl, rfl, fun _ => rfl, id, fun hc => ?_⟩
      -- The worker is free, so no capture is running.
      obtain ⟨f, hf, _⟩ := h.capture hc
      have hw : s.worker = none := hw
      rw [hw] at hf
      cases hf

theorem kept_completeStatus (h : s.Tracked) {result : KeyResult}
    (hstart : result.asks → s.waitsFor .start = false)
    (hbusy : result.asks → s.worker.isSome → s.enrollment.vacant) :
    s.Kept (s.completeStatus result) := by
  unfold completeStatus
  split
  next hr =>
    have ha : result.asks := by simp [KeyResult.asks, hr]
    exact kept_runStatus h (hstart ha) (hbusy ha)
  next hr =>
    have ha : result.asks := by simp [KeyResult.asks, hr]
    exact kept_runStatus h (hstart ha) (hbusy ha)
  · exact .refl s

/-- The status is asked for at once. -/
def asked (s : Application) (around : Around) : Bool :=
  !(s.enrollment.requestActive || s.enrollment.busy) && s.pending.isNone &&
    around.wallet.head?.any fun reply =>
      match reply with
      | .entry key => (performRead .read key).asks
      | _ => false

theorem kept_refreshProfileStatus (h : s.Tracked)
    (hbusy : s.asked s.around → s.worker.isSome → s.enrollment.vacant) :
    s.Kept s.refreshProfileStatus := by
  unfold refreshProfileStatus
  split
  · exact .refl s
  next hg =>
    refine callKey_rule (P := s.Kept) s (fun t result ht => ?_) fun hp _ _ => ?_
    · have hstart (ha : result.asks) : t.waitsFor .start = false := by
        refine ht.waitsFor fun hr => ?_
        simp [KeyResult.asks, hr] at ha
      have hk := kept_completeStatus (h.steady (.answered ht)) hstart fun ha hw => ?_
      · refine hk.of_eq ht.enrollment ht.worker fun hs => ?_
        simpa [waitsFor, ht.pending] using hs
      · rw [ht.enrollment]
        rw [ht.worker] at hw
        refine hbusy ?_ hw
        rcases ht.result with rfl | ⟨hp, key, hhead, rfl⟩
        · cases ha
        · rw [Bool.not_eq_true] at hg
          simp [asked, hg, hp, hhead, ha]
    · refine .of_same rfl rfl fun hs => ?_
      rw [waitsFor, hp] at hs
      cases hs

/-! ## The end of a key operation -/

theorem spares_completeStatus (s : Application) (result : KeyResult) :
    s.Spares (s.completeStatus result) := by
  have run (key : List UInt8) : s.Spares (s.runStatus key) := by
    unfold runStatus
    split
    · exact .inl (.refl s)
    · exact spares_submit s _ _ _
  unfold completeStatus
  split
  · exact run _
  · exact run _
  · exact .inl (.refl s)

theorem spares_refreshProfileStatus (s : Application) : s.Spares s.refreshProfileStatus := by
  unfold refreshProfileStatus
  split
  · exact .inl (.refl s)
  · exact (Keeps.refl s).callKey fun u result _ => spares_completeStatus u result

theorem keeps_completeAuth (s : Application) (generation : UInt64) (result : KeyResult) :
    s.Keeps (s.completeAuth generation result) := by
  refine (Keeps.refl s).enroll ?_ ?_
  all_goals
    split
    · rfl
    · split
      · rfl
      · rfl

theorem keeps_completeVerify (s : Application) (result : KeyResult) :
    s.Keeps (s.completeVerify result) := by
  rw [Keeps, enrollment_completeVerify]
  exact Keeps.refl s

/-- The completion of an operation that is not one of the enrollment. -/
theorem keeps_complete {c : Completion} (hc : c.changes = false) (hs : c ≠ .status)
    (result : KeyResult) : s.Keeps (s.complete c result) := by
  cases c with
  | status => exact absurd rfl hs
  | rollback => exact .refl s
  | discarded => exact .refl s
  | auth generation => exact keeps_completeAuth s generation result
  | verify => exact keeps_completeVerify s result
  | _ => cases hc

theorem spares_complete (s : Application) (c : Completion) (result : KeyResult) :
    s.Spares (s.complete c result) := by
  cases c with
  | status => exact spares_completeStatus s result
  | start => exact spares_completeStart s result
  | store => exact spares_completeStore s result
  | deleteRead epoch => exact spares_completeDeleteRead s epoch result
  | deleteFinal => exact spares_deletedKey s result
  | rollback => exact .inl (.refl s)
  | discarded => exact .inl (.refl s)
  | auth generation => exact .inl (keeps_completeAuth s generation result)
  | verify => exact .inl (keeps_completeVerify s result)

theorem spares_finishKey (s : Application) (result : Action → KeyResult) (cause : Cause) :
    s.Spares (s.finishKey result cause) := by
  unfold finishKey
  split
  · exact .inl (.refl s)
  next c action _ =>
    have h : s.Keeps (({ s with pending := none }).ended c (result action).state cause) := .refl s
    exact h.spares (spares_complete _ _ _)

theorem keeps_finishKey {result : Action → KeyResult} {cause : Cause}
    (hc : (s.pending.any fun p => p.1.changes) = false) (hs : s.waitsFor .status = false) :
    s.Keeps (s.finishKey result cause) := by
  unfold finishKey
  split
  · exact .refl s
  next c action hp =>
    rw [hp] at hc
    have h : s.Keeps (({ s with pending := none }).ended c (result action).state cause) := .refl s
    refine h.trans (keeps_complete hc ?_ _)
    rintro rfl
    rw [waitsFor_of_pending hp] at hs
    cases hs

/-- The query goes on with the key, or ends without it. -/
theorem kept_finishKey (h : s.Tracked) {result : Action → KeyResult} {cause : Cause}
    (hs : s.waitsFor .status)
    (hbusy : (s.pending.any fun p => p.1 = .status && (result p.2).asks) → s.worker.isSome →
      s.enrollment.vacant) : s.Kept (s.finishKey result cause) := by
  unfold finishKey
  split
  · exact .refl s
  next c action hp =>
    obtain rfl : c = .status := by simpa [waitsFor, hp] using hs
    let s' := ({ s with pending := none }).ended .status (result action).state cause
    have h' : s'.Tracked := h.steady ⟨rfl, rfl, rfl, .inr rfl, fun hw => by cases hw⟩
    have hk : s'.Kept (s'.completeStatus (result action)) := by
      refine kept_completeStatus h' (fun _ => rfl) fun ha hw => hbusy ?_ hw
      simpa [hp] using ha
    refine hk.of_eq rfl rfl fun hw => ?_
    simp [waitsFor, hp] at hw

theorem spares_cancelVerification (s : Application) : s.Spares s.cancelVerification := by
  unfold cancelVerification
  dsimp only
  split
  · have h : s.Keeps (s.verifying fun v =>
      { v with requestActive := false, activeGeneration := 0 }).cancelWorker := .refl s
    exact h.spares (spares_finishKey _ _ _)
  · exact spares_finishKey s _ _

theorem keeps_cancelVerification (hc : (s.pending.any fun p => p.1.changes) = false)
    (hs : s.waitsFor .status = false) : s.Keeps s.cancelVerification := by
  unfold cancelVerification
  dsimp only
  split
  · exact keeps_finishKey (s := (s.verifying _).cancelWorker) hc hs
  · exact keeps_finishKey hc hs

theorem kept_cancelVerification (h : s.Tracked) (hs : s.waitsFor .status) :
    s.Kept s.cancelVerification := by
  have finish {u : Application} (hu : u.Tracked) (hs : u.waitsFor .status) :
      u.Kept (u.cancelKey .verification) :=
    kept_finishKey hu hs fun ha _ => by simp [KeyResult.asks] at ha
  unfold cancelVerification
  dsimp only
  split
  · let u := (s.verifying fun v => { v with requestActive := false, activeGeneration := 0 })
    have hk := finish (u := u.cancelWorker)
      (h.steady ((Steady.refl s).verifying _)).cancelWorker hs
    refine ⟨hk.embeddings, hk.count, hk.key, hk.state, hk.start, fun hc => ?_⟩
    obtain ⟨hc, hactive, hworker⟩ := hk.capture hc
    refine ⟨hc, hactive, hworker.trans ?_⟩
    simp only [cancelWorker, verifying, u, Option.map_map]
    rfl
  · exact (finish h hs).verifying _

/-! ## The response of the worker -/

/-- The response is none that the query may have. -/
def refuses (s : Application) : Response → Bool
  | .transport | .invalid | .error _ => true
  | response => s.enrollment.pendingOperation = .status && response ≠ .status

/-- After such a response nothing is held. -/
theorem clean_refused {generation : UInt64} {response : Response} (hzero : generation ≠ 0)
    (hactive : generation = s.enrollment.activeGeneration)
    (hcapture : s.enrollment.pendingOperation ≠ .capture) (hr : s.refuses response) :
    (s.handleResponse generation response).enrollment.Clean := by
  let s' := s.enroll fun e => { e with requestActive := false, activeGeneration := 0 }
  -- A response of another kind.
  have other (hp : s.enrollment.pendingOperation = .status) (hr : response ≠ .status) :
      (s'.handleResult response).enrollment.Clean := by
    have hp : s'.enrollment.pendingOperation = .status := hp
    unfold handleResult
    rw [hp]
    dsimp only
    rw [if_neg hr]
    exact clean_fail s'
  unfold handleResponse
  rw [if_neg (by rintro (h | h); exacts [hzero h, h hactive])]
  dsimp only
  split
  · exact clean_fail _
  · exact clean_fail _
  · split
    next hp => exact absurd hp.1 hcapture
    · exact clean_fail _
  all_goals
    simp only [refuses, Bool.and_eq_true, decide_eq_true_eq] at hr
    exact other hr.1 hr.2

/-- The response of the query, which nothing else waits for. -/
theorem kept_statusResponse {generation : UInt64} {response : Response} (hzero : generation ≠ 0)
    (hactive : generation = s.enrollment.activeGeneration)
    (hoperation : s.enrollment.pendingOperation = .none ∨ s.enrollment.pendingOperation = .status)
    (hstart : s.waitsFor .start = false) (hfails : s.refuses response → s.enrollment.vacant) :
    s.Kept (s.handleResponse generation response) := by
  have hcapture : s.enrollment.pendingOperation ≠ .capture := by
    rcases hoperation with ho | ho <;> simp [ho]
  let s' := s.enroll fun e => { e with requestActive := false, activeGeneration := 0 }
  -- The query has its answer, and is over.
  have passed (hr : s.refuses response = false) :
      s.Kept ((s'.handleResult response).enroll fun e => { e with pendingOperation := .none }) := by
    have hs : s'.handleResult response = s' := by
      unfold handleResult
      rcases hoperation with ho | ho
      · have ho' : s'.enrollment.pendingOperation = .none := ho
        rw [ho']
      · have ho' : s'.enrollment.pendingOperation = .status := ho
        rw [ho']
        dsimp only
        refine if_pos ?_
        cases response <;> simp_all [refuses]
    rw [hs]
    exact ⟨rfl, rfl, rfl, fun _ => rfl, id, fun hc => absurd hc hcapture⟩
  by_cases hr : s.refuses response
  · -- Nothing could be lost, and nothing is held from now on.
    exact .of_vacant (hfails hr) hstart (clean_refused hzero hactive hcapture hr)
  · rw [Bool.not_eq_true] at hr
    unfold handleResponse
    rw [if_neg (by rintro (h | h); exacts [hzero h, h hactive])]
    cases response with
    | transport => cases hr
    | invalid => cases hr
    | error code => cases hr
    | status => exact passed hr
    | sample payload => exact passed hr
    | ack => exact passed hr
    | verification => exact passed hr

theorem kept_workerFinished (h : s.Tracked) {f : InFlight} (hf : s.worker = some f)
    (howner : f.owner = .enrollment) (hstatus : f.operation = .status) {response : Response}
    (hfails : f.generation ≠ 0 → f.generation = s.enrollment.activeGeneration →
      f.cancelling ∨ s.refuses response → s.enrollment.vacant) :
    s.Kept (s.workerFinished f response) := by
  have hcapture : s.enrollment.pendingOperation ≠ .capture := by
    intro hc
    obtain ⟨f', hf', _, hoperation, _⟩ := h.capture hc
    obtain rfl := Option.some.inj (hf.symm.trans hf')
    rw [hstatus] at hoperation
    cases hoperation
  let s' := { s with worker := none }
  have hk (response' : Response)
      (hr : s'.refuses response' → f.cancelling ∨ s.refuses response) :
      s'.Kept (s'.handleResponse f.generation response') := by
    by_cases hg : f.generation = 0 ∨ f.generation ≠ s.enrollment.activeGeneration
    · unfold handleResponse
      rw [if_pos hg]
      exact .refl s'
    · obtain ⟨hzero, hactive⟩ := not_or.1 hg
      have hactive := Classical.not_not.1 hactive
      have hoperation := h.operation f hf howner hzero hactive
      rw [hstatus] at hoperation
      exact kept_statusResponse hzero hactive hoperation (h.start f hf hstatus)
        fun hr' => hfails hzero hactive (hr hr')
  have hk : s'.Kept (s.workerFinished f response) := by
    unfold workerFinished
    rw [howner]
    dsimp only
    split
    next hc => exact hk .transport fun _ => .inl hc
    · exact hk response .inr
  exact ⟨hk.embeddings, hk.count, hk.key, hk.state, hk.start, fun hc => absurd hc hcapture⟩

/-- The response of another operation: nothing is dropped but by a commit that
    succeeds. -/
theorem spares_workerFinished (h : s.Tracked) {f : InFlight} (hf : s.worker = some f)
    {response : Response}
    (hcommit : f.owner = .enrollment → f.operation = .commit → f.cancelling = false →
      response ≠ .ack) : s.Spares (s.workerFinished f response) := by
  have hs : s.Keeps { s with worker := none } := .refl s
  unfold workerFinished
  dsimp only
  split
  next howner =>
    refine hs.spares (spares_handleResponse fun hzero hactive hoperation => ?_)
    split
    · simp
    next hc =>
      refine hcommit howner ?_ (by simpa using hc)
      -- The response is read by the operation that it was requested for.
      rcases h.operation f hf howner hzero hactive with ho | ho
      · rw [show s.enrollment.pendingOperation = .commit from hoperation] at ho
        cases ho
      · rw [show s.enrollment.pendingOperation = .commit from hoperation] at ho
        cases hf : f.operation <;> rw [hf] at ho <;> first | rfl | cases ho
  · exact .inl (.refl s)

/-! ## The runs -/

/-- The event is meant to drop samples: `discardLastSample`, a new `startEnrollment`, a
    cancellation of the enrollment, or a commit that succeeds. -/
def drops (s : Application) (e : Event × Around) : Bool :=
  match e.1 with
  | .discardLastSample | .startEnrollment => true
  | .workerFinished response =>
    response = .ack && s.worker.any fun f =>
      f.owner = .enrollment && f.operation = .commit && !f.cancelling
  | e' => s.cancelsEnrollment e.2 e'

/-- An operation of the enrollment, a save, a delete or a reset may fail at the event. -/
def mayFail (s : Application) (e : Event × Around) : Bool :=
  match e.1 with
  | .captureSample | .finishAndSave | .deleteProfile | .resetUnreadable | .revoked _ _ => true
  | .walletFinished _ => s.pending.any fun p => p.1.changes
  | .workerFinished _ => s.worker.any fun f => f.owner = .enrollment && f.operation ≠ .status
  | e' => cancelsVerification e' && s.pending.any fun p => p.1.changes

/-- The event is a query of the status, or a result of it. -/
def ofStatus (s : Application) (e : Event × Around) : Bool :=
  match e.1 with
  | .refreshProfileStatus => true
  | .setPageActive active => active
  | .walletFinished _ => s.waitsFor .status
  | .workerFinished _ => s.worker.any fun f => f.owner = .enrollment && f.operation = .status
  | e' => cancelsVerification e' && !s.cancelsEnrollment e.2 e' && s.waitsFor .status

/-- A query of the status fails at the event: the worker is busy when the wallet has
    answered, or the worker does not answer. -/
def statusFails (s : Application) (e : Event × Around) : Bool :=
  match e.1 with
  | .refreshProfileStatus => s.asked e.2 && s.worker.isSome
  | .setPageActive active => active && s.asked e.2 && s.worker.isSome
  | .walletFinished (.opened key) =>
    (s.pending.any fun p => p.1 = .status && (performRead p.2 key).asks) && s.worker.isSome
  | .workerFinished response =>
    s.worker.any fun f =>
      f.owner = .enrollment && f.operation = .status && f.generation ≠ 0 &&
        f.generation = s.enrollment.activeGeneration && (f.cancelling || s.refuses response)
  | _ => false

/-- A query of the status fails only while there is nothing to lose. -/
def harmless (s : Application) (e : Event × Around) : Bool :=
  !s.statusFails e || s.enrollment.vacant

theorem vacant_of_harmless {e : Event × Around} (h : s.harmless e) (hf : s.statusFails e) :
    s.enrollment.vacant := by
  simpa [harmless, hf] using h

end Application

open Application

variable {s t : Application} {e : Event × Around}

theorem keeps_finishAuthTargetOperation (s : Application) (success : Bool) :
    s.Keeps (s.finishAuthTargetOperation success) := by
  refine (Keeps.refl s).enroll ?_ ?_
  all_goals
    split
    · rfl
    · split
      · rfl
      · rfl

theorem keeps_finishAuthReadback (s : Application) : s.Keeps s.finishAuthReadback := by
  refine (Keeps.refl s).enroll ?_ ?_
  all_goals
    split
    · rfl
    · rfl

theorem keeps_runAuthTargetOperation (s : Application) (requiresProfile : Bool) :
    s.Keeps (s.runAuthTargetOperation requiresProfile) := by
  unfold runAuthTargetOperation
  dsimp only
  split
  · exact .refl s
  · split
    · refine callKey_rule (P := s.Keeps) _ (fun u result hu => ?_) fun _ _ _ => .refl s
      refine Keeps.trans ?_ (keeps_completeAuth u _ result)
      rw [Keeps, hu.enrollment]
      exact Keeps.refl s
    · exact .refl s

/-- One step that is not meant to drop samples keeps them, or fails. -/
theorem spares_step (h : s.Tracked) (hd : s.drops e = false) (hs : machine.step s e = some t) :
    s.Spares t := by
  obtain ⟨e, around⟩ := e
  have hk : s.Keeps { s with around } := .refl s
  simp only [machine] at hs
  cases e with
  | refreshProfileStatus =>
    obtain rfl := Option.some.inj hs
    exact hk.spares (spares_refreshProfileStatus _)
  | startEnrollment => cases hd
  | captureSample =>
    obtain rfl := Option.some.inj hs
    exact hk.spares (spares_captureSample _)
  | discardLastSample => cases hd
  | finishAndSave =>
    obtain rfl := Option.some.inj hs
    exact hk.spares (spares_finishAndSave _)
  | cancel => cases hd
  | deleteProfile =>
    obtain rfl := Option.some.inj hs
    exact hk.spares (spares_changeProfile _ _ _)
  | resetUnreadable =>
    obtain rfl := Option.some.inj hs
    exact hk.spares (spares_changeProfile _ _ _)
  | setPageActive active =>
    obtain rfl := Option.some.inj hs
    cases active with
    | true => exact (hk.enroll rfl rfl).spares (spares_refreshProfileStatus _)
    | false => cases hd
  | sessionTimer =>
    simp only [handle] at hs
    split at hs
    · cases hs
    · obtain rfl := Option.some.inj hs
      have hr : around.remaining = true := by simpa [drops, cancelsEnrollment] using hd
      rw [if_pos hr]
      exact .inl hk
  | runAuthTargetOperation requiresProfile =>
    obtain rfl := Option.some.inj hs
    exact .inl (hk.trans (keeps_runAuthTargetOperation _ _))
  | authFinished success =>
    obtain rfl := Option.some.inj hs
    exact .inl (hk.trans (keeps_finishAuthTargetOperation _ _))
  | authReadback =>
    obtain rfl := Option.some.inj hs
    exact .inl (hk.trans (keeps_finishAuthReadback _))
  | verifyCurrentFrame =>
    obtain rfl := Option.some.inj hs
    left
    rw [Keeps, enrollment_verifyCurrentFrame]
    exact hk
  | clearResult =>
    obtain rfl := Option.some.inj hs
    exact .inl hk
  | cancelVerification =>
    obtain rfl := Option.some.inj hs
    exact hk.spares (spares_cancelVerification _)
  | setVerificationPage active =>
    obtain rfl := Option.some.inj hs
    have hk : s.Keeps (({ s with around } : Application).verifying fun v =>
      { v with pageActive := active }) := .refl s
    cases active with
    | true => exact .inl hk
    | false => exact hk.spares (spares_cancelVerification _)
  | previewChanged streaming =>
    obtain rfl := Option.some.inj hs
    cases streaming with
    | true => exact .inl hk
    | false =>
      have hn : s.needsPreview = false := by simpa [drops, cancelsEnrollment] using hd
      have hn : ({ s with around, streaming := false } : Application).needsPreview = false := hn
      simp only [previewChanged, Bool.false_eq_true, ↓reduceIte, hn]
      have hk : s.Keeps { s with around, streaming := false } := .refl s
      exact hk.spares (spares_cancelVerification _)
  | applicationChanged active =>
    obtain rfl := Option.some.inj hs
    cases active with
    | true => exact .inl hk
    | false => exact (hk.enroll rfl rfl).spares (spares_cancelVerification _)
  | walletFinished outcome =>
    simp only [handle] at hs
    split at hs
    · cases hs
    · obtain rfl := Option.some.inj hs
      cases outcome with
      | opened key => exact hk.spares (spares_finishKey _ _ _)
      | failed => exact hk.spares (spares_finishKey _ _ _)
      | refused => exact hk.spares (spares_finishKey _ _ _)
  | workerFinished response =>
    obtain ⟨f, hf, rfl⟩ := Option.map_eq_some_iff.1 hs
    have hf : s.worker = some f := hf
    have h' : ({ s with around } : Application).Tracked := h.steady ⟨rfl, rfl, rfl, .inr rfl, id⟩
    refine hk.spares (spares_workerFinished h' hf ?_)
    rintro howner hcommit hc rfl
    simp [drops, hf, howner, hcommit, hc] at hd
  | revoked i success =>
    obtain ⟨r, _, rfl⟩ := Option.map_eq_some_iff.1 hs
    have hk : s.Keeps { s with around, revocations := s.revocations.eraseIdx i } := .refl s
    exact hk.spares (spares_revoked _ r success)

/-- One step of a query, which fails only while there is nothing to lose. -/
theorem kept_step (h : s.Tracked) (ha : s.harmless e) (ho : s.ofStatus e)
    (hs : machine.step s e = some t) : s.Kept t := by
  obtain ⟨e, around⟩ := e
  have h' : ({ s with around } : Application).Tracked := h.steady ⟨rfl, rfl, rfl, .inr rfl, id⟩
  have hv := vacant_of_harmless ha
  simp only [machine] at hs
  cases e with
  | refreshProfileStatus =>
    obtain rfl := Option.some.inj hs
    refine Kept.of_eq (kept_refreshProfileStatus h' fun hasked hw => hv ?_) rfl rfl id
    have hasked : s.asked around := hasked
    have hw : s.worker.isSome := hw
    simp [statusFails, hasked, hw]
  | setPageActive active =>
    obtain rfl := Option.some.inj hs
    cases active with
    | true =>
      have hp := h'.steady ((Steady.refl _).enroll (f := fun e => { e with pageActive := true })
        rfl rfl (.inr rfl))
      have hk := kept_refreshProfileStatus hp fun hasked hw => hv ?_
      · exact ⟨hk.embeddings, hk.count, hk.key, hk.state, hk.start, hk.capture⟩
      · have hasked : s.asked around := hasked
        have hw : s.worker.isSome := hw
        simp [statusFails, hasked, hw]
    | false => cases ho
  | cancelVerification =>
    obtain rfl := Option.some.inj hs
    exact Kept.of_eq (kept_cancelVerification h' ho) rfl rfl id
  | setVerificationPage active =>
    obtain rfl := Option.some.inj hs
    cases active with
    | true => cases ho
    | false =>
      have hp := h'.steady ((Steady.refl _).verifying fun v => { v with pageActive := false })
      exact Kept.of_eq (kept_cancelVerification hp ho) rfl rfl id
  | previewChanged streaming =>
    obtain rfl := Option.some.inj hs
    cases streaming with
    | true => cases ho
    | false =>
      simp only [ofStatus, cancelsVerification, cancelsEnrollment, Bool.not_false, Bool.true_and,
        Bool.and_eq_true, Bool.not_eq_true'] at ho
      have hn : ({ s with around, streaming := false } : Application).needsPreview = false := ho.1
      simp only [previewChanged, Bool.false_eq_true, ↓reduceIte, hn]
      have hp : ({ s with around, streaming := false } : Application).Tracked :=
        h.steady ⟨rfl, rfl, rfl, .inr rfl, id⟩
      exact Kept.of_eq (kept_cancelVerification hp ho.2) rfl rfl id
  | applicationChanged active =>
    obtain rfl := Option.some.inj hs
    cases active with
    | true => cases ho
    | false =>
      have hp := h'.steady ((Steady.refl _).enroll (f := fun e => { e with sessionTimer := false })
        rfl rfl (.inr rfl))
      have hk := kept_cancelVerification hp ho
      exact ⟨hk.embeddings, hk.count, hk.key, hk.state, hk.start, hk.capture⟩
  | walletFinished outcome =>
    simp only [handle] at hs
    split at hs
    · cases hs
    · obtain rfl := Option.some.inj hs
      cases outcome with
      | opened key =>
        refine Kept.of_eq (kept_finishKey h' ho fun hasks hw => hv ?_) rfl rfl id
        have hw : s.worker.isSome := hw
        simp only [statusFails, hw, Bool.and_true]
        exact hasks
      | failed =>
        refine Kept.of_eq (kept_finishKey h' ho fun hasks _ => ?_) rfl rfl id
        simp [KeyResult.asks] at hasks
      | refused =>
        refine Kept.of_eq (kept_finishKey h' ho fun hasks _ => ?_) rfl rfl id
        simp [KeyResult.asks] at hasks
  | workerFinished response =>
    obtain ⟨f, hf, rfl⟩ := Option.map_eq_some_iff.1 hs
    have hf : s.worker = some f := hf
    simp only [ofStatus, hf, Option.any_some, Bool.and_eq_true, decide_eq_true_eq] at ho
    refine Kept.of_eq (kept_workerFinished h' hf ho.1 ho.2 fun hzero hactive hr => hv ?_)
      rfl rfl id
    have hactive : f.generation = s.enrollment.activeGeneration := hactive
    have hr : f.cancelling = true ∨ s.refuses response = true := hr
    simp [statusFails, hf, ho.1, ho.2, hzero, ← hactive, hr]
  | _ => cases ho

/-- One step at which nothing of the enrollment fails keeps the samples. -/
theorem keeps_step (h : s.Tracked) (ha : s.harmless e) (hd : s.drops e = false)
    (hm : s.mayFail e = false) (hs : machine.step s e = some t) : s.Keeps t := by
  by_cases ho : s.ofStatus e
  · exact (kept_step h ha ho hs).keeps
  obtain ⟨e, around⟩ := e
  have hk : s.Keeps { s with around } := .refl s
  rw [Bool.not_eq_true] at ho
  simp only [machine] at hs
  cases e with
  | refreshProfileStatus => cases ho
  | setPageActive active =>
    cases active with
    | true => cases ho
    | false => cases hd
  | sessionTimer =>
    simp only [handle] at hs
    split at hs
    · cases hs
    · obtain rfl := Option.some.inj hs
      have hr : around.remaining = true := by simpa [drops, cancelsEnrollment] using hd
      rw [if_pos hr]
      exact hk
  | runAuthTargetOperation requiresProfile =>
    obtain rfl := Option.some.inj hs
    exact hk.trans (keeps_runAuthTargetOperation _ _)
  | authFinished success =>
    obtain rfl := Option.some.inj hs
    exact hk.trans (keeps_finishAuthTargetOperation _ _)
  | authReadback =>
    obtain rfl := Option.some.inj hs
    exact hk.trans (keeps_finishAuthReadback _)
  | verifyCurrentFrame =>
    obtain rfl := Option.some.inj hs
    rw [Keeps, enrollment_verifyCurrentFrame]
    exact hk
  | clearResult =>
    obtain rfl := Option.some.inj hs
    exact hk
  | cancelVerification =>
    obtain rfl := Option.some.inj hs
    exact keeps_cancelVerification (s := { s with around }) hm ho
  | setVerificationPage active =>
    obtain rfl := Option.some.inj hs
    cases active with
    | true => exact hk
    | false =>
      exact keeps_cancelVerification (s := ({ s with around } : Application).verifying _) hm ho
  | previewChanged streaming =>
    obtain rfl := Option.some.inj hs
    cases streaming with
    | true => exact hk
    | false =>
      have hn : s.needsPreview = false := by simpa [drops, cancelsEnrollment] using hd
      have ho : s.waitsFor .status = false := by
        simpa [ofStatus, cancelsVerification, cancelsEnrollment, hn] using ho
      have hn : ({ s with around, streaming := false } : Application).needsPreview = false := hn
      simp only [previewChanged, Bool.false_eq_true, ↓reduceIte, hn]
      exact keeps_cancelVerification (s := { s with around, streaming := false }) hm ho
  | applicationChanged active =>
    obtain rfl := Option.some.inj hs
    cases active with
    | true => exact hk
    | false =>
      let u := ({ s with around } : Application).enroll fun e => { e with sessionTimer := false }
      exact keeps_cancelVerification (s := u) hm ho
  | walletFinished outcome =>
    simp only [handle] at hs
    split at hs
    · cases hs
    · obtain rfl := Option.some.inj hs
      cases outcome with
      | opened key => exact keeps_finishKey (s := { s with around }) hm ho
      | failed => exact keeps_finishKey (s := { s with around }) hm ho
      | refused => exact keeps_finishKey (s := { s with around }) hm ho
  | workerFinished response =>
    obtain ⟨f, hf, rfl⟩ := Option.map_eq_some_iff.1 hs
    have hf : s.worker = some f := hf
    have howner : f.owner = .verification := by
      simp only [mayFail, ofStatus, hf, Option.any_some] at hm ho
      cases howner : f.owner with
      | enrollment =>
        -- The response is of the status or of another operation.
        by_cases hstatus : f.operation = .status
        · simp [howner, hstatus] at ho
        · simp [howner, hstatus] at hm
      | verification => rfl
    unfold workerFinished
    rw [howner]
    exact hk
  | startEnrollment => cases hd
  | discardLastSample => cases hd
  | cancel => cases hd
  | captureSample => cases hm
  | finishAndSave => cases hm
  | deleteProfile => cases hm
  | resetUnreadable => cases hm
  | revoked i success => cases hm

/-- In every run in which a query of the status fails only while there is nothing to
    lose: samples are dropped only by what is meant to drop them, or by an operation of
    the enrollment, a save, a delete or a reset that fails; and the query and its results
    leave the samples, the enrollment and a running capture alone. -/
theorem samples_of_reachable (h : (machine.restrict harmless).Reachable s) (ha : s.harmless e)
    (hs : machine.step s e = some t) :
    (s.drops e = false → s.Keeps t ∨ s.mayFail e ∧ t.Fails) ∧ (s.ofStatus e → s.Kept t) := by
  have htracked : s.Tracked :=
    h.inv_restrict (I := Tracked) tracked_init fun _ _ _ hs _ hstep => tracked_step hs hstep
  refine ⟨fun hd => ?_, fun ho => kept_step htracked ha ho hs⟩
  by_cases hm : s.mayFail e
  · rcases spares_step htracked hd hs with hk | hf
    · exact .inl hk
    · exact .inr ⟨hm, hf⟩
  · exact .inl (keeps_step htracked ha hd (Bool.not_eq_true _ ▸ hm) hs)

/-- The status is asked for after the first sample, and the wallet answers during the
    next capture. -/
def queryRun : List (Event × Around) :=
  sampleRun ++
    [(.refreshProfileStatus, { wallet := [.pending] }), (.captureSample, { frame := .good })]

/-- The wallet answers. -/
def answer : Event × Around := (.walletFinished (.opened (some walletKey)), {})

/-- A query that the wallet refuses during a capture keeps the sample. -/
theorem samples_of_reachable_refused :
    ∃ s t, (machine.restrict harmless).run {} queryRun = some s ∧
      machine.step s (.walletFinished .refused, {}) = some t ∧ s.enrollment.sampleCount = 1 ∧
      s.Keeps t ∧ s.Kept t := by
  let s := ((machine.restrict harmless).run {} queryRun).getD {}
  let t := (machine.step s (.walletFinished .refused, {})).getD {}
  have hs : (machine.restrict harmless).run {} queryRun = some s := by decide +kernel
  have ht : machine.step s (.walletFinished .refused, {}) = some t := by decide +kernel
  have h := samples_of_reachable (Machine.Reachable.init.run hs) (by decide +kernel) ht
  refine ⟨s, t, hs, ht, by decide +kernel, ?_, h.2 (by decide +kernel)⟩
  exact (h.1 (by decide +kernel)).resolve_right fun hf => absurd hf.1 (by decide +kernel)

/-- A query that the wallet answers during a capture drops the samples, ends the
    enrollment, and makes the response of the capture be ignored. -/
theorem samples_of_reachable_fails :
    ∃ s t u, machine.Reachable s ∧ machine.step s answer = some t ∧ s.ofStatus answer ∧
      s.enrollment.sampleCount = 1 ∧ s.enrollment.pendingOperation = .capture ∧
      t.enrollment.sampleCount = 0 ∧ t.enrollment.state = .failed ∧
      machine.step t (.workerFinished (.sample (List.replicate embeddingBytes 2)), {}) = some u ∧
      u.enrollment = t.enrollment := by
  let s := (machine.run {} queryRun).getD {}
  let t := (machine.step s answer).getD {}
  let u := (machine.step t
    (.workerFinished (.sample (List.replicate embeddingBytes 2)), {})).getD {}
  have hs : machine.run {} queryRun = some s := by decide +kernel
  exact ⟨s, t, u, Machine.Reachable.init.run hs, by decide +kernel⟩

end Enrollment

end KFaceAuth
