import KFaceAuth.Enrollment.AuthOperation
import KFaceAuth.Lib.History

/-!
# Changes of the authentication settings

What holds of the changes, whatever comes between their steps.

* `settings_of_reachable`: a change succeeds only after a readback that was started when
  its helper had exited with code 0, and that shows what was asked for (`Readback`); a
  helper is launched only when no other runs; and the session is busy only while the
  wallet, a helper or a timed readback is waited for.
-/

namespace KFaceAuth

namespace AuthOperation

open Enrollment History
open scoped List

/-! ## What the record says -/

/-- The helpers that run after an entry. -/
def Entry.runs (helpers : List Helper) : Entry → List Helper
  | .launched helper => helpers ++ [helper]
  | .ended helper _ _ => helpers.erase helper
  | _ => helpers

/-- The helpers that have neither finished nor reported an error. -/
def outstanding (history : List Entry) : List Helper := history.foldl Entry.runs []

/-- The generation of the query that an entry is about. -/
def Entry.query : Entry → Option ℕ
  | .asked generation | .status generation _ _ _ | .read generation _ _ => some generation
  | _ => none

/-- The query shows the mode of a target, and no other one. -/
def ShowsMode (history : List Entry) (query : ℕ) (target : Target) (mode : Mode) : Prop :=
  [.asked query, .read query target mode] <+ history ∧
    ∀ other, .read query target other ∈ history → other = mode

/-- The query shows the daemon and the system profile so, and not otherwise. -/
def ShowsStatus (history : List Entry) (query : ℕ) (daemon systemProfile : Readiness)
    (freshness : Freshness) : Prop :=
  [.asked query, .status query daemon systemProfile freshness] <+ history ∧
    ∀ d p f, .status query d p f ∈ history → d = daemon ∧ p = systemProfile ∧ f = freshness

/-- A change was read back: the query was started when the helper had exited with code 0,
    it is the last one, and it shows what the request asks for. -/
structure Readback (history : List Entry) (generation query : ℕ) (request : Request)
    (shown : Modes) : Prop where
  started : [.requested generation request shown, .ended (.operation generation) 0 true,
    .asked query] <+ history
  once : history.count (.asked query) = 1
  latest : ∀ e ∈ history, ∀ q ∈ e.query, q ≤ query
  modes : ∀ target, ShowsMode history query target ((request.expected shown).get target)
  profile : request.requiresProfile → ShowsStatus history query .available .available .current

/-- What an entry needs. -/
def Justified (before : List Entry) : Entry → Prop
  | .launched _ => outstanding before = []
  | .succeeded generation => ∃ query request shown, Readback before generation query request shown
  | _ => True

variable {history : List Entry} {e : Entry} {query : ℕ} {target : Target} {mode : Mode}
  {daemon systemProfile : Readiness} {freshness : Freshness}

theorem outstanding_concat : outstanding (history ++ [e]) = e.runs (outstanding history) := by
  rw [outstanding, List.foldl_append]
  rfl

theorem ShowsMode.concat (h : ShowsMode history query target mode)
    (he : ∀ other, e ≠ .read query target other) :
    ShowsMode (history ++ [e]) query target mode := by
  refine ⟨sublist_concat h.1, fun other hmem => h.2 other ?_⟩
  rcases List.mem_append.mp hmem with hmem | hmem
  · exact hmem
  · exact absurd (List.mem_singleton.mp hmem).symm (he other)

theorem ShowsStatus.concat (h : ShowsStatus history query daemon systemProfile freshness)
    (he : ∀ d p f, e ≠ .status query d p f) :
    ShowsStatus (history ++ [e]) query daemon systemProfile freshness := by
  refine ⟨sublist_concat h.1, fun d p f hmem => h.2 d p f ?_⟩
  rcases List.mem_append.mp hmem with hmem | hmem
  · exact hmem
  · exact absurd (List.mem_singleton.mp hmem).symm (he d p f)

theorem showsMode_new (hasked : .asked query ∈ history)
    (hnew : ∀ other, .read query target other ∉ history) (mode : Mode) :
    ShowsMode (history ++ [Entry.read query target mode]) query target mode := by
  refine ⟨pair_concat hasked, fun other hmem => ?_⟩
  rcases List.mem_append.mp hmem with hmem | hmem
  · exact absurd hmem (hnew other)
  · cases List.mem_singleton.mp hmem
    rfl

theorem showsStatus_new (hasked : .asked query ∈ history)
    (hnew : ∀ d p f, .status query d p f ∉ history) (daemon systemProfile : Readiness)
    (freshness : Freshness) :
    ShowsStatus (history ++ [Entry.status query daemon systemProfile freshness]) query daemon
      systemProfile freshness := by
  refine ⟨pair_concat hasked, fun d p f hmem => ?_⟩
  rcases List.mem_append.mp hmem with hmem | hmem
  · exact absurd hmem (hnew d p f)
  · cases List.mem_singleton.mp hmem
    exact ⟨rfl, rfl, rfl⟩

namespace Settings

/-! ## Invariants -/

/-- The record, the helpers and the queries belong together. The queries of `todo` are
    still to be started. -/
structure Core (todo : List Target) (s : Settings) : Prop where
  outstanding : outstanding s.history = s.helpers
  justified : Every Justified s.history
  success : s.result = .success → .succeeded s.operationGeneration ∈ s.history
  latest : ∀ e ∈ s.history, ∀ q ∈ e.query, q ≤ s.queryGeneration
  queries : ∀ query ∈ s.queries, query.generation ≤ s.queryGeneration
  nodup : s.queries.Nodup
  probed : s.probed → s.queries = [] ∧ todo = []
  remaining : s.probed = false → s.queriesRemaining =
    s.queries.countP (·.generation = s.queryGeneration) + todo.length
  todo : todo.Nodup ∧ ∀ target ∈ todo, ⟨s.queryGeneration, target⟩ ∉ s.queries
  probes : s.probed = false → s.probes = []

/-- Nothing is waited for but what the flag and the state of the change say. -/
def Phase (s : Settings) : Prop :=
  match s.operationState with
  | .idle => s.walletRequest = none ∧ s.readbackTimer = false ∧
    (s.systemAuthBusy = false ∧ s.helpers = [] ∧ s.mutationProcess = none ∨
      s.systemAuthBusy = true ∧
        ∃ process, s.helpers = [.revocation process] ∧ s.mutationProcess = some process)
  | .openingWallet => s.systemAuthBusy = true ∧ s.walletRequest = some s.operationGeneration ∧
    s.readbackTimer = false ∧ s.helpers = [] ∧ s.mutationProcess = none
  | .updating => s.systemAuthBusy = true ∧ s.walletRequest = none ∧
    s.readbackTimer = false ∧ s.helpers = [.operation s.operationGeneration] ∧
      s.mutationProcess = none
  | .checking => s.systemAuthBusy = true ∧ s.walletRequest = none ∧
    s.readbackTimer = true ∧ s.helpers = [] ∧ s.mutationProcess = none

/-- The change that is under way is the one of the request. -/
structure Operates (s : Settings) (request : Request) (shown : Modes) : Prop where
  requested : .requested s.operationGeneration request shown ∈ s.history
  expected : s.expected = request.expected shown
  requiresProfile : s.requiresProfile = request.requiresProfile
  requiresFreshness : s.requiresFreshness = request.requiresProfile

/-- The mode of the target is not read yet. -/
def Awaits (todo : List Target) (s : Settings) (target : Target) : Prop :=
  target ∈ todo ∨ ⟨s.queryGeneration, target⟩ ∈ s.queries ∨ s.probed ∧ s.queriesRemaining ≠ 0

/-- The change is read back: what has come of the last query is what is kept. -/
structure Reading (todo : List Target) (s : Settings) (request : Request) (shown : Modes) :
    Prop where
  started : [.requested s.operationGeneration request shown,
    .ended (.operation s.operationGeneration) 0 true, .asked s.queryGeneration] <+ s.history
  once : s.history.count (.asked s.queryGeneration) = 1
  awaited : ∀ target, s.Awaits todo target →
    ∀ mode, .read s.queryGeneration target mode ∉ s.history
  modes : ∀ target, ¬ s.Awaits todo target →
    ShowsMode s.history s.queryGeneration target (s.modes.get target)
  unknown : s.probed → s.queriesRemaining ≠ 0 →
    ∀ d p f, .status s.queryGeneration d p f ∉ s.history
  status : ¬ (s.probed ∧ s.queriesRemaining ≠ 0) →
    ShowsStatus s.history s.queryGeneration s.daemon s.systemProfile s.freshness

/-- What is known of the change that is under way. -/
def Working (todo : List Target) (s : Settings) : Prop :=
  match s.operationState with
  | .idle => True
  | .openingWallet | .updating => ∃ request shown, s.Operates request shown
  | .checking => ∃ request shown, s.Operates request shown ∧ s.Reading todo request shown

structure Pre (todo : List Target) (s : Settings) : Prop where
  core : s.Core todo
  phase : s.Phase
  working : s.Working todo

/-- A readback that is under way waits for an answer. -/
structure Inv (todo : List Target) (s : Settings) : Prop extends Pre todo s where
  waits : s.operationState = .checking → s.queriesRemaining ≠ 0

variable {todo : List Target} {s t : Settings} {helper : Helper}

theorem Core.of_eq (h : s.Core todo) (hhistory : t.history = s.history)
    (hhelpers : t.helpers = s.helpers) (hgeneration : t.queryGeneration = s.queryGeneration)
    (hremaining : t.queriesRemaining = s.queriesRemaining) (hqueries : t.queries = s.queries)
    (hprobed : t.probed = s.probed) (hprobes : t.probes = s.probes) (hresult : t.result = .success →
      s.result = .success ∧ t.operationGeneration = s.operationGeneration) : t.Core todo where
  outstanding := by rw [hhistory, hhelpers, h.outstanding]
  justified := by
    rw [hhistory]
    exact h.justified
  success hs := by
    rw [hhistory, (hresult hs).2]
    exact h.success (hresult hs).1
  latest := by
    rw [hhistory, hgeneration]
    exact h.latest
  queries := by
    rw [hqueries, hgeneration]
    exact h.queries
  nodup := by
    rw [hqueries]
    exact h.nodup
  probed := by
    rw [hprobed, hqueries]
    exact h.probed
  remaining := by
    rw [hprobed, hremaining, hqueries, hgeneration]
    exact h.remaining
  todo := by
    rw [hqueries, hgeneration]
    exact h.todo
  probes := by
    rw [hprobed, hprobes]
    exact h.probes

theorem mem_note : e ∈ (s.note e).history := List.mem_append_right _ (List.mem_singleton.mpr rfl)

theorem mem_note_of_mem {e' : Entry} (h : e' ∈ s.history) : e' ∈ (s.note e).history :=
  List.mem_append_left _ h

/-- An entry that is no news of a helper. -/
theorem Core.note (h : s.Core todo) (hj : Justified s.history e)
    (hruns : e.runs s.helpers = s.helpers) (hq : ∀ q ∈ e.query, q ≤ s.queryGeneration) :
    (s.note e).Core todo where
  outstanding := by
    rw [Settings.note, outstanding_concat, h.outstanding]
    exact hruns
  justified := every_concat.mpr ⟨h.justified, hj⟩
  success hs := mem_note_of_mem (h.success hs)
  latest e' he' := by
    rcases List.mem_append.mp he' with he' | he'
    · exact h.latest e' he'
    · rw [List.mem_singleton.mp he']
      exact hq
  queries := h.queries
  nodup := h.nodup
  probed := h.probed
  remaining := h.remaining
  todo := h.todo
  probes := h.probes

/-- A helper is launched, when none runs. -/
theorem Core.launched (h : s.Core todo) (helper : Helper) (hnone : s.helpers = []) :
    { s.note (.launched helper) with helpers := s.helpers ++ [helper] }.Core todo where
  outstanding := by
    change AuthOperation.outstanding (s.history ++ [_]) = _
    rw [outstanding_concat, h.outstanding]
    rfl
  justified := every_concat.mpr ⟨h.justified, h.outstanding.trans hnone⟩
  success hs := mem_note_of_mem (h.success hs)
  latest e' he' := by
    rcases List.mem_append.mp he' with he' | he'
    · exact h.latest e' he'
    · rw [List.mem_singleton.mp he']
      intro q hq
      cases hq
  queries := h.queries
  nodup := h.nodup
  probed := h.probed
  remaining := h.remaining
  todo := h.todo
  probes := h.probes

/-- A helper has ended. -/
theorem Core.ended (h : s.Core todo) (helper : Helper) (exitCode : ℤ) (normalExit : Bool) :
    ({ s with helpers := s.helpers.erase helper }.note
      (.ended helper exitCode normalExit)).Core todo where
  outstanding := by
    change AuthOperation.outstanding (s.history ++ [_]) = _
    rw [outstanding_concat, h.outstanding]
    rfl
  justified := every_concat.mpr ⟨h.justified, trivial⟩
  success hs := mem_note_of_mem (h.success hs)
  latest e' he' := by
    rcases List.mem_append.mp he' with he' | he'
    · exact h.latest e' he'
    · rw [List.mem_singleton.mp he']
      intro q hq
      cases hq
  queries := h.queries
  nodup := h.nodup
  probed := h.probed
  remaining := h.remaining
  todo := h.todo
  probes := h.probes

theorem Operates.note {request : Request} {shown : Modes} (h : s.Operates request shown) :
    (s.note e).Operates request shown :=
  ⟨mem_note_of_mem h.requested, h.expected, h.requiresProfile, h.requiresFreshness⟩

/-- What is known of a change, after something that keeps it. -/
theorem Working.map {todo' : List Target} (h : s.Working todo)
    (hstate : t.operationState = s.operationState)
    (ho : ∀ request shown, s.Operates request shown → t.Operates request shown)
    (hr : s.operationState = .checking → ∀ request shown, s.Reading todo request shown →
      t.Reading todo' request shown) : t.Working todo' := by
  unfold Working at h ⊢
  rw [hstate]
  split at h
  · trivial
  · obtain ⟨request, shown, h⟩ := h
    exact ⟨request, shown, ho request shown h⟩
  · obtain ⟨request, shown, h⟩ := h
    exact ⟨request, shown, ho request shown h⟩
  next hchecking =>
    obtain ⟨request, shown, h, h'⟩ := h
    exact ⟨request, shown, ho request shown h, hr hchecking request shown h'⟩

/-- Only a query that is open makes a change wait. -/
theorem Core.todo_of_remaining (h : s.Core todo) (hr : s.queriesRemaining = 0) : todo = [] := by
  cases hp : s.probed with
  | true => exact (h.probed hp).2
  | false =>
    have := h.remaining hp
    exact List.length_eq_zero_iff.mp (by omega)

/-- A session that is not busy has nothing under way. -/
theorem Phase.idle (h : s.Phase) (hb : s.systemAuthBusy = false) :
    s.operationState = .idle ∧ s.walletRequest = none ∧ s.readbackTimer = false ∧
      s.helpers = [] ∧ s.mutationProcess = none := by
  unfold Phase at h
  split at h
  next hstate =>
    rcases h.2.2 with hidle | hbusy
    · exact ⟨hstate, h.1, h.2.1, hidle.2⟩
    · rw [hb] at hbusy
      cases hbusy.1
  all_goals
    rw [hb] at h
    cases h.1

/-! ## Revocations -/

/-- What differs is neither a change nor read. -/
def Same (s t : Settings) : Prop :=
  ∃ waits around statusReady epoch,
    t = { s with waits, around, statusReady, profileMutationEpoch := epoch }

theorem Same.refl (s : Settings) : s.Same s := ⟨_, _, _, _, rfl⟩

theorem Same.trans {u : Settings} (h : s.Same t) (h' : t.Same u) : s.Same u := by
  obtain ⟨_, _, _, _, rfl⟩ := h
  obtain ⟨_, _, _, _, rfl⟩ := h'
  exact ⟨_, _, _, _, rfl⟩

theorem Operates.same {request : Request} {shown : Modes} (h : s.Operates request shown)
    (hs : s.Same t) : t.Operates request shown := by
  obtain ⟨_, _, _, _, rfl⟩ := hs
  exact ⟨h.1, h.2, h.3, h.4⟩

theorem Core.same (h : s.Core todo) (hs : s.Same t) : t.Core todo := by
  obtain ⟨_, _, _, _, rfl⟩ := hs
  exact h.of_eq rfl rfl rfl rfl rfl rfl rfl fun h => ⟨h, rfl⟩

theorem Pre.same (h : s.Pre todo) (hs : s.Same t) : t.Pre todo := by
  refine ⟨h.core.same hs, ?_, ?_⟩
  · obtain ⟨_, _, _, _, rfl⟩ := hs
    exact h.phase
  refine h.working.map ?_ (fun _ _ ho => ho.same hs) fun _ request shown hr => ?_
  · obtain ⟨_, _, _, _, rfl⟩ := hs
    rfl
  · obtain ⟨_, _, _, _, rfl⟩ := hs
    exact ⟨hr.1, hr.2, hr.3, hr.4, hr.5, hr.6⟩

theorem Inv.same (h : s.Inv todo) (hs : s.Same t) : t.Inv todo := by
  refine ⟨h.toPre.same hs, ?_⟩
  obtain ⟨_, _, _, _, rfl⟩ := hs
  exact h.waits

/-- While the session is busy no revocation starts. -/
theorem same_revokeSystemProfileThen (hb : s.systemAuthBusy = true) :
    s.Same s.revokeSystemProfileThen := by
  unfold revokeSystemProfileThen
  dsimp only
  split_ifs with hwait hunknown hunneeded hbusy
  · exact ⟨_, _, _, _, rfl⟩
  · exact ⟨_, _, _, _, rfl⟩
  · exact ⟨_, _, _, _, rfl⟩
  · exact ⟨_, _, _, _, rfl⟩
  · exact absurd (Bool.or_eq_true_iff.mpr (.inr hb)) hbusy

theorem same_endWait (hb : s.systemAuthBusy = true) (epoch : ℕ) (ready : Bool) :
    s.Same (s.endWait epoch ready) := by
  unfold endWait
  dsimp only
  split_ifs
  · exact ⟨_, _, _, _, rfl⟩
  · refine Same.trans ⟨_, _, _, _, rfl⟩ (same_revokeSystemProfileThen ?_)
    exact hb

/-- A property that the end of a wait keeps is kept by all of them. -/
theorem systemAuthChanged_rule {P : Settings → Prop} (hs : P s)
    (hend : ∀ s epoch, P s → P (s.endWait epoch true)) : P s.systemAuthChanged := by
  unfold systemAuthChanged
  generalize s.waits = waits
  induction waits generalizing s with
  | nil => exact hs
  | cons epoch waits ih =>
    rw [List.foldl_cons]
    split_ifs
    · exact ih (hend s epoch hs)
    · exact ih hs

theorem same_systemAuthChanged (hb : s.systemAuthBusy = true) : s.Same s.systemAuthChanged := by
  refine (systemAuthChanged_rule (P := fun t => s.Same t) (Same.refl s) ?_)
  intro t epoch ht
  refine ht.trans (same_endWait ?_ epoch true)
  obtain ⟨_, _, _, _, rfl⟩ := ht
  exact hb

/-- While queries are open nobody is told. -/
theorem systemAuthChanged_of_remaining (hr : s.queriesRemaining ≠ 0) :
    s.systemAuthChanged = s := by
  unfold systemAuthChanged
  generalize s.waits = waits
  induction waits with
  | nil => rfl
  | cons epoch waits ih =>
    rw [List.foldl_cons, if_neg hr]
    exact ih

/-- A revocation starts its helper when there is no other one. -/
theorem inv_startRevocation (h : s.Inv []) (hb : s.systemAuthBusy = false) (starts : Bool) :
    (s.startRevocation starts).Inv [] := by
  obtain ⟨hstate, hwallet, htimer, hhelpers, hmutation⟩ := h.phase.idle hb
  have hcore : { s with processes := s.processes + 1 }.Core [] :=
    h.core.of_eq rfl rfl rfl rfl rfl rfl rfl fun h => ⟨h, rfl⟩
  have hlaunched := hcore.launched (.revocation s.processes) hhelpers
  unfold startRevocation
  dsimp only
  split_ifs
  · refine ⟨⟨hlaunched.of_eq rfl rfl rfl rfl rfl rfl rfl fun h => ⟨h, rfl⟩, ?_, ?_⟩, ?_⟩
    · simp [Phase, Settings.note, hstate, hwallet, htimer, hhelpers]
    · simp only [Working, Settings.note, hstate]
    · intro hc
      exact absurd (hstate.symm.trans hc) (by decide)
  · have hended := hlaunched.ended (.revocation s.processes) (-1) false
    refine ⟨⟨hended.of_eq rfl ?_ rfl rfl rfl rfl rfl fun h => ⟨h, rfl⟩, ?_, ?_⟩, ?_⟩
    · simp [Settings.note, hhelpers]
    · simp [Phase, Settings.note, hstate, hwallet, htimer, hhelpers, hb]
    · simp only [Working, Settings.note, hstate]
    · intro hc
      exact absurd (hstate.symm.trans hc) (by decide)

theorem inv_revokeSystemProfileThen (h : s.Inv []) : s.revokeSystemProfileThen.Inv [] := by
  cases hb : s.systemAuthBusy with
  | true => exact h.same (same_revokeSystemProfileThen hb)
  | false =>
    unfold revokeSystemProfileThen
    dsimp only
    split_ifs
    · exact h.same ⟨_, _, _, _, rfl⟩
    · exact h.same ⟨_, _, _, _, rfl⟩
    · exact h.same ⟨_, _, _, _, rfl⟩
    · exact h.same ⟨_, _, _, _, rfl⟩
    · exact inv_startRevocation (s := s.answered) (h.same ⟨_, _, _, _, rfl⟩) hb _

theorem inv_endWait (h : s.Inv []) (epoch : ℕ) (ready : Bool) : (s.endWait epoch ready).Inv [] := by
  unfold endWait
  dsimp only
  split_ifs
  · exact h.same ⟨_, _, _, _, rfl⟩
  · exact inv_revokeSystemProfileThen (h.same ⟨_, _, _, _, rfl⟩)

theorem inv_systemAuthChanged (h : s.Inv todo) : s.systemAuthChanged.Inv todo := by
  by_cases hr : s.queriesRemaining = 0
  · obtain rfl := h.core.todo_of_remaining hr
    exact systemAuthChanged_rule (P := (Inv [])) h fun t epoch ht => inv_endWait ht epoch true
  · rwa [systemAuthChanged_of_remaining hr]

/-! ## Readbacks -/

/-- No generation is asked for when somebody is told. -/
theorem queryGeneration_systemAuthChanged (s : Settings) :
    s.systemAuthChanged.queryGeneration = s.queryGeneration := by
  refine systemAuthChanged_rule (P := fun t => t.queryGeneration = s.queryGeneration) rfl ?_
  intro t epoch ht
  unfold endWait revokeSystemProfileThen startRevocation
  dsimp only
  split_ifs <;> exact ht

theorem queryGeneration_finishAuthReadback (s : Settings) :
    s.finishAuthReadback.queryGeneration = s.queryGeneration := by
  unfold finishAuthReadback
  split
  · rfl
  · rw [queryGeneration_systemAuthChanged]
    dsimp only
    split_ifs <;> rfl

theorem queryGeneration_startPolicyQuery (s : Settings) (query : Query) :
    (s.startPolicyQuery query).queryGeneration = s.queryGeneration := by
  unfold startPolicyQuery finishQuery
  dsimp only
  split
  · rfl
  · split
    · rfl
    · rw [queryGeneration_systemAuthChanged, queryGeneration_finishAuthReadback]
      split_ifs <;> rfl

/-- When no query is open, every mode is read. -/
theorem Core.not_awaits (h : s.Core []) (hr : s.queriesRemaining = 0) (target : Target) :
    ¬ s.Awaits [] target := by
  rintro (hmem | hmem | ⟨-, hne⟩)
  · cases hmem
  · cases hp : s.probed with
    | true =>
      rw [(h.probed hp).1] at hmem
      cases hmem
    | false =>
      have hcount := h.remaining hp
      rw [hr, List.length_nil, Nat.add_zero, eq_comm, List.countP_eq_zero] at hcount
      exact hcount _ hmem (by simp)
  · exact hne hr

/-- What is verified was read back. -/
theorem readback_of_verified {request : Request} {shown : Modes} (h : s.Core [])
    (ho : s.Operates request shown) (hr : s.Reading [] request shown)
    (hrem : s.queriesRemaining = 0) (hv : s.verified) :
    Readback s.history s.operationGeneration s.queryGeneration request shown := by
  simp only [verified, Bool.and_eq_true, Bool.or_eq_true, Bool.not_eq_true',
    decide_eq_true_eq] at hv
  obtain ⟨⟨⟨hfresh, -⟩, hmodes⟩, hprofile⟩ := hv
  rw [ho.expected] at hmodes
  refine ⟨hr.started, hr.once, h.latest, fun target => ?_, fun hrequires => ?_⟩
  · rw [← hmodes]
    exact hr.modes target (h.not_awaits hrem target)
  · rw [ho.requiresFreshness, hrequires] at hfresh
    rw [ho.requiresProfile, hrequires] at hprofile
    have hstatus := hr.status fun hawaits => hawaits.2 hrem
    rw [hfresh.resolve_left Bool.noConfusion, (hprofile.resolve_left Bool.noConfusion).1,
      (hprofile.resolve_left Bool.noConfusion).2] at hstatus
    exact hstatus

theorem inv_finishAuthReadback (h : s.Pre todo) : s.finishAuthReadback.Inv todo := by
  unfold finishAuthReadback
  split
  next hnot => exact ⟨h, fun hc => hnot.resolve_left fun hne => hne hc⟩
  next hdone =>
    rw [not_or, not_not, not_not] at hdone
    obtain ⟨hstate, hrem⟩ := hdone
    obtain rfl := h.core.todo_of_remaining hrem
    have hphase := h.phase
    have hworking := h.working
    simp only [Phase, Working, hstate] at hphase hworking
    obtain ⟨-, hwallet, -, hhelpers, hmutation⟩ := hphase
    obtain ⟨request, shown, ho, hr⟩ := hworking
    refine inv_systemAuthChanged ⟨⟨?_, ?_, trivial⟩, fun hc => by cases hc⟩
    · -- the success is recorded, with what was read back
      split_ifs with hv
      · have hnoted := h.core.note (e := .succeeded s.operationGeneration)
          ⟨s.queryGeneration, request, shown, readback_of_verified h.core ho hr hrem hv⟩ rfl
          (fun q hq => by cases hq)
        exact { hnoted with success := fun _ => mem_note }
      · exact h.core.of_eq rfl rfl rfl rfl rfl rfl rfl fun hsuccess => by cases hsuccess
    · split_ifs
      · exact ⟨hwallet, rfl, .inl ⟨rfl, hhelpers, hmutation⟩⟩
      · exact ⟨hwallet, rfl, .inl ⟨rfl, hhelpers, hmutation⟩⟩

theorem Modes.get_set (modes : Modes) (target other : Target) (mode : Mode) :
    (modes.set target mode).get other = if other = target then mode else modes.get other := by
  cases target <;> cases other <;> rfl

/-- A probe has no queries. -/
theorem Pre.not_probed (h : s.Pre (target :: todo)) : s.probed = false := by
  cases hp : s.probed with
  | true => cases (h.core.probed hp).2
  | false => rfl

/-- The mode of a target is read. -/
theorem Pre.read (h : s.Pre (target :: todo)) (mode : Mode) :
    ({ s with
      modes := s.modes.set target mode
      queriesRemaining := s.queriesRemaining - 1 }.note
        (.read s.queryGeneration target mode)).Pre todo := by
  have hprobed : s.probed = false := h.not_probed
  have hnodup := List.nodup_cons.mp h.core.todo.1
  refine ⟨?_, h.phase, ?_⟩
  · have hcore : { s with
        modes := s.modes.set target mode
        queriesRemaining := s.queriesRemaining - 1 }.Core todo :=
      { outstanding := h.core.outstanding
        justified := h.core.justified
        success := h.core.success
        latest := h.core.latest
        queries := h.core.queries
        nodup := h.core.nodup
        probed := fun hp => absurd (hprobed.symm.trans hp) Bool.false_ne_true
        remaining := fun hp => by
          have hrem := h.core.remaining hp
          rw [List.length_cons] at hrem
          change s.queriesRemaining - 1 = _
          rw [hrem]
          rfl
        todo := ⟨hnodup.2, fun other hother => h.core.todo.2 other (.tail _ hother)⟩
        probes := h.core.probes }
    exact hcore.note trivial rfl fun q hq => by
      cases hq
      exact Nat.le_refl _
  · refine h.working.map rfl (fun request shown ho => ?_) fun _ request shown hr => ?_
    · exact ⟨mem_note_of_mem ho.1, ho.2, ho.3, ho.4⟩
    have hasked : .asked s.queryGeneration ∈ s.history := hr.started.subset (by simp)
    have hawaits : s.Awaits (target :: todo) target := .inl (.head _)
    refine ⟨sublist_concat hr.started, ?_, fun other hother m hmem => ?_,
      fun other hother => ?_, fun hp => absurd (hprobed.symm.trans hp) Bool.false_ne_true,
      fun _ => ?_⟩
    · change (s.history ++ [_]).count (Entry.asked s.queryGeneration) = 1
      rw [List.count_append, hr.once]
      rfl
    · -- a target that is still awaited is another one
      have hbefore : s.Awaits (target :: todo) other ∧ other ≠ target := by
        rcases hother with hother | hother | ⟨hp, -⟩
        · exact ⟨.inl (.tail _ hother), fun heq => hnodup.1 (heq ▸ hother)⟩
        · exact ⟨.inr (.inl hother), fun heq => h.core.todo.2 target (.head _) (heq ▸ hother)⟩
        · exact absurd (hprobed.symm.trans hp) Bool.false_ne_true
      rcases List.mem_append.mp hmem with hmem | hmem
      · exact hr.awaited other hbefore.1 m hmem
      · cases List.mem_singleton.mp hmem
        exact hbefore.2 rfl
    · change ShowsMode (s.history ++ [_]) s.queryGeneration other
        ((s.modes.set target mode).get other)
      rw [Modes.get_set]
      split_ifs with heq
      · subst heq
        exact showsMode_new hasked (hr.awaited other hawaits) mode
      · refine (hr.modes other fun hbefore => hother ?_).concat fun m hm => ?_
        · rcases hbefore with hbefore | hbefore | ⟨hp, -⟩
          · exact .inl ((List.mem_cons.mp hbefore).resolve_left heq)
          · exact .inr (.inl hbefore)
          · exact absurd (hprobed.symm.trans hp) Bool.false_ne_true
        · cases hm
          exact heq rfl
    · refine (hr.status fun hp => ?_).concat fun d p f hentry => by cases hentry
      exact absurd (hprobed.symm.trans hp.1) Bool.false_ne_true

/-- A query of the last generation ends. -/
theorem inv_finishQuery (h : s.Pre (target :: todo)) (mode : Mode) :
    (s.finishQuery ⟨s.queryGeneration, target⟩ mode).Inv todo := by
  unfold finishQuery
  rw [if_neg (not_not.mpr rfl)]
  refine inv_systemAuthChanged (inv_finishAuthReadback ?_)
  split_ifs
  · exact (h.read mode).same ⟨_, _, _, _, rfl⟩
  · exact h.read mode

/-- Other queries are open, and the same modes are awaited. -/
theorem Pre.queries {todo' : List Target} {queries : List Query} (h : s.Pre todo)
    (hcore : { s with queries }.Core todo')
    (hawaits : ∀ other, Awaits todo' { s with queries } other ↔ s.Awaits todo other) :
    { s with queries }.Pre todo' := by
  refine ⟨hcore, h.phase, h.working.map rfl (fun _ _ ho => ⟨ho.1, ho.2, ho.3, ho.4⟩) ?_⟩
  exact fun _ request shown hr =>
    ⟨hr.started, hr.once, fun other hother => hr.awaited other ((hawaits other).mp hother),
      fun other hother => hr.modes other fun hbefore => hother ((hawaits other).mpr hbefore),
      hr.unknown, hr.status⟩

/-- A query starts. -/
theorem Pre.start (h : s.Pre (target :: todo)) :
    { s with queries := s.queries ++ [Query.mk s.queryGeneration target] }.Pre todo := by
  have hprobed : s.probed = false := h.not_probed
  have hnodup := List.nodup_cons.mp h.core.todo.1
  have hnew : Query.mk s.queryGeneration target ∉ s.queries := h.core.todo.2 target (.head _)
  refine h.queries ?_ fun other => ?_
  · exact
      { outstanding := h.core.outstanding
        justified := h.core.justified
        success := h.core.success
        latest := h.core.latest
        queries := fun query hquery => by
          rcases List.mem_append.mp hquery with hquery | hquery
          · exact h.core.queries query hquery
          · obtain rfl := List.mem_singleton.mp hquery
            exact Nat.le_refl s.queryGeneration
        nodup := by
          refine List.nodup_append.mpr ⟨h.core.nodup, List.pairwise_singleton _ _, ?_⟩
          intro query hquery other hother heq
          exact hnew (List.mem_singleton.mp hother ▸ heq ▸ hquery)
        probed := fun hp => absurd (hprobed.symm.trans hp) Bool.false_ne_true
        remaining := fun hp => by
          rw [List.countP_append, h.core.remaining hp, List.length_cons]
          simp only [List.countP_singleton, decide_true, if_true]
          omega
        todo := by
          refine ⟨hnodup.2, fun other hother hmem => ?_⟩
          rcases List.mem_append.mp hmem with hmem | hmem
          · exact h.core.todo.2 other (.tail _ hother) hmem
          · cases List.mem_singleton.mp hmem
            exact hnodup.1 hother
        probes := h.core.probes }
  · -- the target is awaited as before
    simp only [Awaits, List.mem_append, List.mem_cons, List.not_mem_nil, or_false,
      Query.mk.injEq, true_and]
    tauto

/-- A query starts, or has ended already. -/
theorem pre_startPolicyQuery (h : s.Pre (target :: todo)) :
    (s.startPolicyQuery ⟨s.queryGeneration, target⟩).Pre todo := by
  have h' : s.answered.Pre (target :: todo) := h.same ⟨_, _, _, _, rfl⟩
  unfold startPolicyQuery
  dsimp only
  split
  · exact h'.start
  · exact (inv_finishQuery h' .unknown).toPre

/-! ## The settings are asked for -/

/-- The settings may be asked for: a change that is to be read back has its helper behind
    it. -/
structure Asking (s : Settings) : Prop where
  core : s.Core []
  phase : s.Phase
  working : s.operationState ≠ .checking → s.Working []
  exited : s.operationState = .checking → ∃ request shown, s.Operates request shown ∧
    [.requested s.operationGeneration request shown,
      .ended (.operation s.operationGeneration) 0 true] <+ s.history

theorem Inv.asking (h : s.Inv []) : s.Asking := by
  refine ⟨h.core, h.phase, fun _ => h.working, fun hstate => ?_⟩
  have hworking := h.working
  simp only [Working, hstate] at hworking
  obtain ⟨request, shown, ho, hr⟩ := hworking
  refine ⟨request, shown, ho, List.Sublist.trans ?_ hr.started⟩
  exact List.sublist_append_left _ [_]

/-- A new generation is asked for. -/
def ask (s : Settings) (remaining : ℕ) : Settings :=
  { s with
    queryGeneration := s.queryGeneration + 1
    queriesRemaining := remaining }.note (.asked (s.queryGeneration + 1))

/-- Nothing is read yet of a new generation. -/
theorem Core.unread (h : s.Core todo) (e : Entry) (hq : e.query = some (s.queryGeneration + 1)) :
    e ∉ s.history := by
  intro hmem
  have := h.latest e hmem _ hq
  omega

/-- The generation is a new one. -/
theorem Core.next (h : s.Core []) (todo : List Target) (remaining : ℕ) (hnodup : todo.Nodup)
    (hremaining : s.probed = false → remaining = todo.length) (hprobed : s.probed → todo = []) :
    { s with queryGeneration := s.queryGeneration + 1, queriesRemaining := remaining }.Core
      todo := by
  have hnew : ∀ query ∈ s.queries, query.generation ≠ s.queryGeneration + 1 := by
    intro query hquery
    have := h.queries query hquery
    omega
  exact
    { outstanding := h.outstanding
      justified := h.justified
      success := h.success
      latest := fun e he q hq => Nat.le_succ_of_le (h.latest e he q hq)
      queries := fun query hquery => Nat.le_succ_of_le (h.queries query hquery)
      nodup := h.nodup
      probed := fun hp => ⟨(h.probed hp).1, hprobed hp⟩
      remaining := fun hp => by
        have hzero : s.queries.countP (·.generation = s.queryGeneration + 1) = 0 := by
          rw [List.countP_eq_zero]
          intro query hquery
          simpa using hnew query hquery
        rw [hzero, Nat.zero_add]
        exact hremaining hp
      todo := ⟨hnodup, fun other _ hmem => hnew _ hmem rfl⟩
      probes := h.probes }

theorem Core.ask (h : s.Core []) (todo : List Target) (remaining : ℕ) (hnodup : todo.Nodup)
    (hremaining : s.probed = false → remaining = todo.length) (hprobed : s.probed → todo = []) :
    (s.ask remaining).Core todo := by
  refine (h.next todo remaining hnodup hremaining hprobed).note trivial rfl fun q hq => ?_
  cases hq
  exact Nat.le_refl _

theorem Operates.ask {request : Request} {shown : Modes} (h : s.Operates request shown)
    (remaining : ℕ) : (s.ask remaining).Operates request shown :=
  ⟨mem_note_of_mem h.1, h.2, h.3, h.4⟩

theorem count_ask (h : s.Core todo) (remaining : ℕ) :
    (s.ask remaining).history.count (.asked (s.queryGeneration + 1)) = 1 := by
  have hzero : s.history.count (.asked (s.queryGeneration + 1)) = 0 :=
    List.count_eq_zero.mpr (h.unread _ rfl)
  change (s.history ++ [_]).count (Entry.asked (s.queryGeneration + 1)) = 1
  rw [List.count_append, hzero, List.count_singleton_self]

/-- Nothing of the new generation is in the record but that it is asked for. -/
theorem unread_ask (h : s.Core todo) (remaining : ℕ) {e : Entry}
    (hq : e.query = some (s.queryGeneration + 1)) (hne : e ≠ .asked (s.queryGeneration + 1)) :
    e ∉ (s.ask remaining).history := by
  intro hmem
  rcases List.mem_append.mp hmem with hmem | hmem
  · exact h.unread e hq hmem
  · exact hne (List.mem_singleton.mp hmem)

/-- The probe is asked. -/
theorem inv_ask (h : s.Asking) (hp : s.probed = true)
    (hstate : s.operationState = .idle ∨ s.operationState = .checking) : (s.ask 1).Inv [] := by
  have hcore := h.core.ask [] 1 List.nodup_nil
    (fun hp' => absurd (hp'.symm.trans hp) Bool.false_ne_true) fun _ => rfl
  refine ⟨⟨hcore, h.phase, ?_⟩, fun _ => Nat.one_ne_zero⟩
  rcases hstate with hstate | hstate
  · exact (h.working (by rw [hstate]; decide)).map rfl (fun _ _ ho => ho.ask 1)
      fun hc => absurd (hstate.symm.trans hc) (by decide)
  · obtain ⟨request, shown, ho, hexited⟩ := h.exited hstate
    unfold Working
    change match s.operationState with
      | .idle => _ | .openingWallet => _ | .updating => _ | .checking => _
    rw [hstate]
    refine ⟨request, shown, ho.ask 1, hexited.append (List.Sublist.refl _), count_ask h.core 1,
      fun other _ m => ?_, fun other hother => ?_, fun _ _ d p f => ?_, fun hnot => ?_⟩
    · exact unread_ask h.core 1 rfl (by nofun)
    · exact absurd (.inr (.inr ⟨hp, Nat.one_ne_zero⟩)) hother
    · exact unread_ask h.core 1 rfl (by nofun)
    · exact absurd ⟨hp, Nat.one_ne_zero⟩ hnot

/-- What the probe says is kept. -/
theorem pre_applyAuthStatusSnapshot (h : s.Inv []) (hp : s.probed = true) (snapshot : Snapshot) :
    (s.applyAuthStatusSnapshot snapshot).Pre [] := by
  have hquery : ∀ q ∈ some s.queryGeneration, q ≤ s.queryGeneration := fun q hq => by
    cases hq
    exact Nat.le_refl _
  refine ⟨?_, h.phase, ?_⟩
  · unfold applyAuthStatusSnapshot
    refine Core.note (Core.note (Core.note ?_ trivial rfl hquery) trivial rfl hquery) trivial rfl
      hquery
    exact
      { outstanding := h.core.outstanding
        justified := h.core.justified
        success := h.core.success
        latest := h.core.latest
        queries := h.core.queries
        nodup := h.core.nodup
        probed := h.core.probed
        remaining := fun hp' => absurd (hp'.symm.trans hp) Bool.false_ne_true
        todo := h.core.todo
        probes := h.core.probes }
  · refine h.working.map rfl (fun request shown ho => ?_) fun hstate request shown hr => ?_
    · exact ⟨mem_note_of_mem (mem_note_of_mem (mem_note_of_mem ho.1)), ho.2, ho.3, ho.4⟩
    have hremaining := h.waits hstate
    have hasked : .asked s.queryGeneration ∈ s.history := hr.started.subset (by simp)
    have hunread : ∀ target mode, .read s.queryGeneration target mode ∉ s.history := by
      intro target mode
      exact hr.awaited target (.inr (.inr ⟨hp, hremaining⟩)) mode
    refine ⟨sublist_concat (sublist_concat (sublist_concat hr.started)), ?_, ?_, ?_,
      fun _ hne => absurd rfl hne, fun _ => ?_⟩
    · change (s.history ++ [_] ++ [_] ++ [_]).count (Entry.asked s.queryGeneration) = 1
      rw [List.count_append, List.count_append, List.count_append, hr.once]
      rfl
    · rintro target (hmem | hmem | ⟨-, hne⟩)
      · cases hmem
      · have hnone : (s.applyAuthStatusSnapshot snapshot).queries = [] := (h.core.probed hp).1
        rw [hnone] at hmem
        cases hmem
      · exact absurd rfl hne
    · intro target _
      change ShowsMode (s.history ++ [_] ++ [_] ++ [_]) s.queryGeneration target
        (snapshot.modes.get target)
      cases target with
      | sddm =>
        refine (showsMode_new (mem_note_of_mem hasked) (fun other hmem => ?_) _).concat (by nofun)
        rcases List.mem_append.mp hmem with hmem | hmem
        · exact hunread .sddm other hmem
        · cases List.mem_singleton.mp hmem
      | plasmaLock =>
        refine showsMode_new (mem_note_of_mem (mem_note_of_mem hasked)) (fun other hmem => ?_) _
        rcases List.mem_append.mp hmem with hmem | hmem
        · rcases List.mem_append.mp hmem with hmem | hmem
          · exact hunread .plasmaLock other hmem
          · cases List.mem_singleton.mp hmem
        · cases List.mem_singleton.mp hmem
    · exact ((showsStatus_new hasked (hr.unknown hp hremaining) _ _ _).concat (by nofun)).concat
        (by nofun)

theorem inv_finishProbe (h : s.Inv []) (hp : s.probed = true) (generation : ℕ)
    (snapshot : Snapshot) : (s.finishProbe generation snapshot).Inv [] := by
  unfold finishProbe
  split
  · exact h
  · exact inv_systemAuthChanged (inv_finishAuthReadback (pre_applyAuthStatusSnapshot h hp snapshot))

theorem Inv.probes (h : s.Inv todo) (hp : s.probed = true) (probes : List ℕ) :
    { s with probes }.Inv todo := by
  refine ⟨⟨?_, h.phase, ?_⟩, h.waits⟩
  · have hcore := h.core
    exact ⟨hcore.1, hcore.2, hcore.3, hcore.4, hcore.5, hcore.6, hcore.7, hcore.8, hcore.9,
      fun hp' => absurd (hp'.symm.trans hp) Bool.false_ne_true⟩
  · exact h.working.map rfl (fun _ _ ho => ⟨ho.1, ho.2, ho.3, ho.4⟩)
      fun _ _ _ hr => ⟨hr.1, hr.2, hr.3, hr.4, hr.5, hr.6⟩

theorem inv_probe (h : s.Asking) (hp : s.probed = true)
    (hstate : s.operationState = .idle ∨ s.operationState = .checking) : s.probe.Inv [] := by
  have hasked := ((inv_ask h hp hstate).probes hp (s.probes ++ [s.queryGeneration + 1])).same
    (t := { s.ask 1 with
      probes := s.probes ++ [s.queryGeneration + 1]
      around := s.around.tail
      statusReady := false }) ⟨_, _, _, _, rfl⟩
  unfold probe
  dsimp only
  split
  · exact hasked
  · exact inv_finishProbe hasked hp _ _

/-- The files and the daemon are read, and the policy is still to be. -/
theorem pre_readSystem (h : s.Asking) (hp : s.probed = false)
    (hstate : s.operationState = .idle ∨ s.operationState = .checking) (a : Around)
    (statusReady : Bool) :
    { s.readSystem a with statusReady, queriesRemaining := 2 }.Pre [.sddm, .plasmaLock] := by
  have hcore := h.core.ask [.sddm, .plasmaLock] 2 (by decide)
    (fun _ => rfl) fun hp' => absurd (hp.symm.trans hp') Bool.false_ne_true
  refine ⟨?_, h.phase, ?_⟩
  · have hnoted := hcore.note (e := .status (s.queryGeneration + 1) (s.readSystem a).daemon
      (s.readSystem a).systemProfile (s.readSystem a).freshness) trivial rfl fun q hq => by
        cases hq
        exact Nat.le_refl _
    exact hnoted.of_eq rfl rfl rfl rfl rfl rfl rfl fun hsuccess => ⟨hsuccess, rfl⟩
  unfold Working
  change match s.operationState with
    | .idle => _ | .openingWallet => _ | .updating => _ | .checking => _
  rcases hstate with hstate | hstate
  · rw [hstate]
    trivial
  · rw [hstate]
    obtain ⟨request, shown, ho, hexited⟩ := h.exited hstate
    have ho' := (ho.ask 2).note (e := .status (s.queryGeneration + 1)
      (s.readSystem a).daemon (s.readSystem a).systemProfile (s.readSystem a).freshness)
    refine ⟨request, shown, ⟨ho'.1, ho'.2, ho'.3, ho'.4⟩,
      sublist_concat (hexited.append (List.Sublist.refl _)), ?_, fun other _ m hmem => ?_,
      fun other hother => ?_, fun hp' => absurd (hp.symm.trans hp') Bool.false_ne_true,
      fun _ => ?_⟩
    · change ((s.ask 2).history ++ [_]).count (Entry.asked (s.queryGeneration + 1)) = 1
      rw [List.count_append, count_ask h.core 2]
      rfl
    · rcases List.mem_append.mp hmem with hmem | hmem
      · exact unread_ask h.core 2 rfl (by nofun) hmem
      · cases List.mem_singleton.mp hmem
    · refine absurd (.inl ?_) hother
      cases other with
      | sddm => exact .head _
      | plasmaLock => exact .tail _ (.head _)
    · exact showsStatus_new mem_note (fun d p f => unread_ask h.core 2 rfl (by nofun)) _ _ _

theorem inv_readStatus (h : s.Asking) (hp : s.probed = false)
    (hstate : s.operationState = .idle ∨ s.operationState = .checking) : s.readStatus.Inv [] := by
  have h' : s.answered.Asking :=
    ⟨h.core.same ⟨_, _, _, _, rfl⟩, h.phase, fun hne => (h.working hne).map rfl
      (fun _ _ ho => ho.same ⟨_, _, _, _, rfl⟩) fun hc => absurd hc hne, fun hc => by
      obtain ⟨request, shown, ho, hexited⟩ := h.exited hc
      exact ⟨request, shown, ho.same ⟨_, _, _, _, rfl⟩, hexited⟩⟩
  unfold readStatus
  refine inv_systemAuthChanged (inv_finishAuthReadback ?_)
  split
  · have hsddm := pre_startPolicyQuery (pre_readSystem h' hp hstate s.answer false)
    have hplasma := pre_startPolicyQuery hsddm
    rw [queryGeneration_startPolicyQuery] at hplasma
    exact hplasma
  · -- both modes are read at once
    have hread := ((pre_readSystem h' hp hstate s.answer
      (s.answered.readSystem s.answer).statusReady).read
        (s.answered.readSystem s.answer).modes.sddm).read
          (s.answered.readSystem s.answer).modes.plasmaLock
    exact hread

theorem inv_checkSystemAuthStatus (h : s.Asking) : s.checkSystemAuthStatus.Inv [] := by
  unfold checkSystemAuthStatus
  split
  next hbusy =>
    rw [Bool.and_eq_true, decide_eq_true_eq] at hbusy
    exact ⟨⟨h.core, h.phase, h.working hbusy.2⟩, fun hc => absurd hc hbusy.2⟩
  next hfree =>
    have hstate : s.operationState = .idle ∨ s.operationState = .checking := by
      cases hb : s.systemAuthBusy with
      | false => exact .inl (h.phase.idle hb).1
      | true =>
        rw [hb, Bool.true_and, decide_eq_true_eq, not_not] at hfree
        exact .inr hfree
    split
    next hp => exact inv_probe h hp hstate
    next hp => exact inv_readStatus h (Bool.not_eq_true _ ▸ hp) hstate

/-! ## Changes -/

/-- A change is under way, and nothing is waited for just now. -/
structure Starting (s : Settings) : Prop where
  core : s.Core []
  busy : s.systemAuthBusy = true
  wallet : s.walletRequest = none
  timer : s.readbackTimer = false
  helpers : s.helpers = []
  mutation : s.mutationProcess = none
  operates : ∃ request shown, s.Operates request shown

theorem Starting.same (h : s.Starting) (hs : s.Same t) : t.Starting := by
  obtain ⟨request, shown, ho⟩ := h.operates
  refine ⟨h.core.same hs, ?_, ?_, ?_, ?_, ?_, request, shown, ho.same hs⟩
  all_goals obtain ⟨_, _, _, _, rfl⟩ := hs
  · exact h.busy
  · exact h.wallet
  · exact h.timer
  · exact h.helpers
  · exact h.mutation

/-- The change ends without a readback. -/
theorem Starting.abandoned (h : s.Starting) {result : Result} (hresult : result ≠ .success) :
    ({ s with
      systemAuthBusy := false
      operationState := .idle
      result }.checkSystemAuthStatus.systemAuthChanged).Inv [] := by
  refine inv_systemAuthChanged (inv_checkSystemAuthStatus ⟨?_, ?_, fun _ => trivial, ?_⟩)
  · exact h.core.of_eq rfl rfl rfl rfl rfl rfl rfl fun hsuccess => absurd hsuccess hresult
  · exact ⟨h.wallet, h.timer, .inl ⟨rfl, h.helpers, h.mutation⟩⟩
  · exact fun hc => by cases hc

/-- The helper of the change has ended, with that exit code. -/
theorem inv_finishAuthTargetOperation (h : s.Starting) {exitCode : ℤ} {normalExit : Bool}
    (request : Request) (shown : Modes) (ho : s.Operates request shown)
    (hended : [.requested s.operationGeneration request shown,
      .ended (.operation s.operationGeneration) exitCode normalExit] <+ s.history) :
    (s.finishAuthTargetOperation exitCode normalExit).Inv [] := by
  unfold finishAuthTargetOperation
  split
  next hexit =>
    rw [Bool.and_eq_true, decide_eq_true_eq] at hexit
    rw [hexit.1, hexit.2] at hended
    refine inv_checkSystemAuthStatus ⟨?_, ?_, fun hne => absurd rfl hne, fun _ => ?_⟩
    · exact h.core.of_eq rfl rfl rfl rfl rfl rfl rfl fun hsuccess => ⟨hsuccess, rfl⟩
    · exact ⟨h.busy, h.wallet, rfl, h.helpers, h.mutation⟩
    · exact ⟨request, shown, ⟨ho.1, ho.2, ho.3, ho.4⟩, hended⟩
  · refine h.abandoned ?_
    split <;> exact Result.noConfusion

/-- A helper that ends at once was the only one. -/
theorem Core.failed (h : s.Core todo) (helper : Helper) (hnone : s.helpers = []) (exitCode : ℤ)
    (normalExit : Bool) :
    ((s.note (.launched helper)).note (.ended helper exitCode normalExit)).Core todo := by
  have hended := (h.launched helper hnone).ended helper exitCode normalExit
  refine hended.of_eq rfl ?_ rfl rfl rfl rfl rfl fun hsuccess => ⟨hsuccess, rfl⟩
  change s.helpers = (s.helpers ++ [helper]).erase helper
  rw [hnone, List.nil_append, List.erase_cons_head]

theorem inv_launch (h : s.Starting) : (s.launch s.operationGeneration).Inv [] := by
  have hupdating : { s with operationState := .updating }.Starting := by
    obtain ⟨request, shown, ho⟩ := h.operates
    exact ⟨h.core.of_eq rfl rfl rfl rfl rfl rfl rfl fun hs => ⟨hs, rfl⟩, h.busy, h.wallet,
      h.timer, h.helpers, h.mutation, request, shown, ⟨ho.1, ho.2, ho.3, ho.4⟩⟩
  have hsame := same_systemAuthChanged (s := { s with operationState := .updating }) h.busy
  have htold := hupdating.same hsame
  have hstate : ({ s with operationState := .updating }.systemAuthChanged).operationState =
      .updating := by
    obtain ⟨_, _, _, _, heq⟩ := hsame
    rw [heq]
  have hgeneration : ({ s with operationState := .updating }.systemAuthChanged).operationGeneration
      = s.operationGeneration := by
    obtain ⟨_, _, _, _, heq⟩ := hsame
    rw [heq]
  unfold launch
  rw [if_neg (not_not.mpr rfl)]
  generalize { s with operationState := .updating }.systemAuthChanged = u
    at htold hstate hgeneration ⊢
  have hu := htold.same (t := u.answered) ⟨_, _, _, _, rfl⟩
  obtain ⟨request, shown, ho⟩ := hu.operates
  rw [← hgeneration]
  dsimp only
  split
  · refine ⟨⟨?_, ?_, ?_⟩, fun hc => ?_⟩
    · exact hu.core.launched _ hu.helpers
    · simp only [Phase, Settings.note, hstate, answered]
      exact ⟨hu.busy, hu.wallet, hu.timer, by rw [htold.helpers]; rfl, hu.mutation⟩
    · simp only [Working, Settings.note, hstate, answered]
      exact ⟨request, shown, ho.note.1, ho.2, ho.3, ho.4⟩
    · exact absurd (hstate.symm.trans hc) (by decide)
  next exitCode normalExit _ =>
    have hcore := hu.core.failed (.operation u.operationGeneration) hu.helpers exitCode normalExit
    unfold completeOperation
    rw [if_pos ⟨rfl, hstate⟩]
    refine inv_finishAuthTargetOperation ⟨hcore, hu.busy, hu.wallet, hu.timer, hu.helpers,
      hu.mutation, request, shown, ?_⟩ request shown ?_ ?_
    · exact ho.note.note
    · exact ho.note.note
    · exact pair_concat (mem_note_of_mem ho.requested)

theorem inv_completeWallet (h : s.Starting) (result : KeyResult) :
    (s.completeWallet s.operationGeneration result).Inv [] := by
  unfold completeWallet
  rw [if_neg (not_not.mpr rfl)]
  split
  · exact h.abandoned Result.noConfusion
  · exact inv_launch h

theorem inv_requestKey (h : s.Starting) (hstate : s.operationState = .openingWallet) :
    (s.requestKey s.operationGeneration).Inv [] := by
  have h' : s.answered.Starting := h.same ⟨_, _, _, _, rfl⟩
  obtain ⟨request, shown, ho⟩ := h'.operates
  unfold requestKey
  dsimp only
  split
  · exact inv_completeWallet h' _
  · split
    · refine ⟨⟨?_, ?_, ?_⟩, fun hc => absurd (hstate.symm.trans hc) (by decide)⟩
      · exact h'.core.of_eq rfl rfl rfl rfl rfl rfl rfl fun hs => ⟨hs, rfl⟩
      · simp only [Phase, hstate, answered]
        exact ⟨h.busy, trivial, h.timer, h.helpers, h.mutation⟩
      · simp only [Working, hstate, answered]
        exact ⟨request, shown, ho.1, ho.2, ho.3, ho.4⟩
    · exact inv_completeWallet h' _

theorem inv_runAuthTargetOperation (h : s.Inv []) (request : Request) :
    (s.runAuthTargetOperation request).Inv [] := by
  have h' : s.answered.Inv [] := h.same ⟨_, _, _, _, rfl⟩
  unfold runAuthTargetOperation
  dsimp only
  split
  · exact h'
  next hfree =>
    simp only [Bool.or_eq_true, not_or, Bool.not_eq_true] at hfree
    obtain ⟨hstate, hwallet, htimer, hhelpers, hmutation⟩ := h'.phase.idle hfree.1.1.1
    split
    · exact h'
    split
    · refine inv_systemAuthChanged ⟨⟨?_, h'.phase, ?_⟩, h'.waits⟩
      · exact h'.core.of_eq rfl rfl rfl rfl rfl rfl rfl fun hs => by cases hs
      · simp only [Working, hstate]
    -- the change is under way, and then the others are told
    · generalize hu : Settings.note _ (.requested _ request s.answered.modes) = u
      have hstarting : u.Starting := by
        have hcore : { s.answered with
            expected := request.expected s.answered.modes
            requiresProfile := request.requiresProfile
            requiresFreshness := request.requiresProfile
            systemAuthBusy := true
            result := .none
            operationState := if request.requiresProfile then .openingWallet else .updating
            operationGeneration := s.answered.operationGeneration + 1 }.Core [] :=
          h'.core.of_eq rfl rfl rfl rfl rfl rfl rfl fun hs => by cases hs
        rw [← hu]
        refine ⟨hcore.note trivial rfl ?_, rfl, hwallet, htimer, hhelpers, hmutation, request,
          s.answered.modes, mem_note, rfl, rfl, rfl⟩
        exact fun q hq => by cases hq
      have hsame := same_systemAuthChanged hstarting.busy
      have htold := hstarting.same hsame
      have hgeneration : u.systemAuthChanged.operationGeneration =
          s.answered.operationGeneration + 1 := by
        obtain ⟨_, _, _, _, heq⟩ := hsame
        rw [heq, ← hu]
        rfl
      have hopening : u.systemAuthChanged.operationState =
          if request.requiresProfile then .openingWallet else .updating := by
        obtain ⟨_, _, _, _, heq⟩ := hsame
        rw [heq, ← hu]
        rfl
      rw [← hgeneration]
      split
      next hrequires =>
        rw [if_pos hrequires] at hopening
        exact inv_requestKey htold hopening
      · exact inv_launch htold

/-! ## Every run -/

theorem inv_completeRevocation {process : ℕ} (h : s.Core []) (hstate : s.operationState = .idle)
    (hwallet : s.walletRequest = none) (htimer : s.readbackTimer = false)
    (hhelpers : s.helpers = []) (hmutation : s.mutationProcess = some process) (success : Bool) :
    (s.completeRevocation process success).Inv [] := by
  unfold completeRevocation
  rw [if_neg (not_not.mpr hmutation)]
  dsimp only
  split
  · refine inv_checkSystemAuthStatus ⟨?_, ?_, fun _ => ?_, fun hc => ?_⟩
    · exact h.of_eq rfl rfl rfl rfl rfl rfl rfl fun hs => ⟨hs, rfl⟩
    · simp [Phase, hstate, hwallet, htimer, hhelpers]
    · simp only [Working, hstate]
    · exact absurd (hstate.symm.trans hc) (by decide)
  · refine ⟨⟨?_, ?_, ?_⟩, fun hc => absurd (hstate.symm.trans hc) (by decide)⟩
    · exact h.of_eq rfl rfl rfl rfl rfl rfl rfl fun hs => ⟨hs, rfl⟩
    · simp [Phase, hstate, hwallet, htimer, hhelpers]
    · simp only [Working, hstate]

theorem inv_helperEnded (h : s.Inv []) (hmem : helper ∈ s.helpers) (exitCode : ℤ)
    (normalExit : Bool) : (s.helperEnded helper exitCode normalExit).Inv [] := by
  have hcore := h.core.ended helper exitCode normalExit
  have hphase := h.phase
  have hworking := h.working
  unfold helperEnded
  unfold Phase at hphase
  unfold Working at hworking
  split at hphase
  next hstate =>
    rcases hphase.2.2 with hidle | ⟨-, process, hhelpers, hmutation⟩
    · rw [hidle.2.1] at hmem
      cases hmem
    · rw [hhelpers] at hmem
      cases List.mem_singleton.mp hmem
      refine inv_completeRevocation hcore hstate hphase.1 hphase.2.1 ?_ hmutation _
      change s.helpers.erase _ = []
      rw [hhelpers, List.erase_cons_head]
  next hstate =>
    rw [hphase.2.2.2.1] at hmem
    cases hmem
  next hstate =>
    obtain ⟨hbusy, hwallet, htimer, hhelpers, hmutation⟩ := hphase
    rw [hhelpers] at hmem
    cases List.mem_singleton.mp hmem
    rw [hstate] at hworking
    obtain ⟨request, shown, ho⟩ := hworking
    dsimp only
    unfold completeOperation
    rw [if_pos ⟨rfl, hstate⟩]
    have hnone : s.helpers.erase (.operation s.operationGeneration) = [] := by
      rw [hhelpers, List.erase_cons_head]
    have ho' : ({ s with helpers := s.helpers.erase (.operation s.operationGeneration) }.note
        (.ended (.operation s.operationGeneration) exitCode normalExit)).Operates request shown :=
      ⟨mem_note_of_mem ho.1, ho.2, ho.3, ho.4⟩
    exact inv_finishAuthTargetOperation ⟨hcore, hbusy, hwallet, htimer, hnone, hmutation, request,
      shown, ho'⟩ request shown ho' (pair_concat ho.requested)
  next hstate =>
    rw [hphase.2.2.2.1] at hmem
    cases hmem

theorem inv_readbackTimeout (h : s.Inv []) (htimer : s.readbackTimer = true) :
    s.readbackTimeout.Inv [] := by
  have hphase := h.phase
  have hstate : s.operationState = .checking := by
    unfold Phase at hphase
    split at hphase
    · rw [hphase.2.1] at htimer
      cases htimer
    · rw [hphase.2.2.1] at htimer
      cases htimer
    · rw [hphase.2.2.1] at htimer
      cases htimer
    · assumption
  simp only [Phase, hstate] at hphase
  obtain ⟨-, hwallet, -, hhelpers, hmutation⟩ := hphase
  have hcore := h.core.next [] 0 List.nodup_nil (fun _ => rfl) fun _ => rfl
  unfold readbackTimeout
  dsimp only
  rw [if_neg (not_not.mpr hstate)]
  refine inv_systemAuthChanged ⟨⟨?_, ?_, trivial⟩, fun hc => by cases hc⟩
  · exact hcore.of_eq rfl rfl rfl rfl rfl rfl rfl fun hs => by cases hs
  · exact ⟨hwallet, rfl, .inl ⟨rfl, hhelpers, hmutation⟩⟩

theorem inv_walletFinished (h : s.Inv []) (result : KeyResult) :
    (s.walletFinished result).Inv [] := by
  unfold walletFinished
  split
  · exact h
  next generation hrequest =>
    have hphase := h.phase
    have hworking := h.working
    unfold Phase at hphase
    split at hphase
    next hstate =>
      rw [hphase.1] at hrequest
      cases hrequest
    next hstate =>
      obtain ⟨hbusy, hwallet, htimer, hhelpers, hmutation⟩ := hphase
      rw [hwallet] at hrequest
      cases hrequest
      simp only [Working, hstate] at hworking
      obtain ⟨request, shown, ho⟩ := hworking
      refine inv_completeWallet (s := { s with walletRequest := none }) ⟨?_, hbusy, rfl, htimer,
        hhelpers, hmutation, request, shown, ho.1, ho.2, ho.3, ho.4⟩ result
      exact h.core.of_eq rfl rfl rfl rfl rfl rfl rfl fun hs => ⟨hs, rfl⟩
    next hstate =>
      rw [hphase.2.1] at hrequest
      cases hrequest
    next hstate =>
      rw [hphase.2.1] at hrequest
      cases hrequest

/-- A query that ends is no longer open; if it is of the last generation, its mode is still to
    be read. -/
theorem inv_queryFinished {query : Query} (h : s.Inv []) (hmem : query ∈ s.queries) (mode : Mode) :
    ({ s with queries := s.queries.erase query }.finishQuery query mode).Inv [] := by
  have hprobed : s.probed = false := by
    cases hp : s.probed with
    | true =>
      rw [(h.core.probed hp).1] at hmem
      cases hmem
    | false => rfl
  have hgone : ∀ other, other ∈ s.queries.erase query ↔ other ≠ query ∧ other ∈ s.queries :=
    fun other => h.core.nodup.mem_erase_iff
  have hcount := (List.perm_cons_erase hmem).countP_eq (·.generation = s.queryGeneration)
  rw [List.countP_cons] at hcount
  obtain ⟨generation, target⟩ := query
  by_cases hlast : generation = s.queryGeneration
  · subst hlast
    refine inv_finishQuery (s := { s with queries := s.queries.erase ⟨s.queryGeneration, target⟩ })
      (h.toPre.queries ?_ fun other => ?_) mode
    · exact
        { outstanding := h.core.outstanding
          justified := h.core.justified
          success := h.core.success
          latest := h.core.latest
          queries := fun other hother => h.core.queries other (List.mem_of_mem_erase hother)
          nodup := h.core.nodup.erase _
          probed := fun hp => absurd (hprobed.symm.trans hp) Bool.false_ne_true
          remaining := fun hp => by
            rw [h.core.remaining hp, hcount]
            simp
          todo := ⟨List.pairwise_singleton _ _, fun other hother hin => by
            rw [List.mem_singleton.mp hother] at hin
            exact ((hgone _).mp hin).1 rfl⟩
          probes := h.core.probes }
    · simp only [Awaits, hgone, List.mem_singleton, List.not_mem_nil, false_or, ne_eq,
        Query.mk.injEq, true_and]
      constructor
      · rintro (rfl | ⟨-, hin⟩ | hawaits)
        · exact .inl hmem
        · exact .inl hin
        · exact .inr hawaits
      · rintro (hin | hawaits)
        · by_cases heq : other = target
          · exact .inl heq
          · exact .inr (.inl ⟨heq, hin⟩)
        · exact .inr (.inr hawaits)
  · unfold finishQuery
    rw [if_pos hlast]
    refine ⟨h.toPre.queries ?_ fun other => ?_, h.waits⟩
    · exact
        { outstanding := h.core.outstanding
          justified := h.core.justified
          success := h.core.success
          latest := h.core.latest
          queries := fun other hother => h.core.queries other (List.mem_of_mem_erase hother)
          nodup := h.core.nodup.erase _
          probed := fun hp => absurd (hprobed.symm.trans hp) Bool.false_ne_true
          remaining := fun hp => by
            rw [h.core.remaining hp, hcount]
            simp [hlast]
          todo := ⟨List.nodup_nil, fun other hother => by cases hother⟩
          probes := h.core.probes }
    · simp only [Awaits, hgone, ne_eq, Query.mk.injEq, not_and_of_not_left _ (Ne.symm hlast),
        not_false_eq_true, true_and]

theorem inv_handle {e : Event} (h : s.Inv []) (hs : s.handle e = some t) : t.Inv [] := by
  cases e with
  | request request =>
    cases hs
    exact inv_runAuthTargetOperation h request
  | checkSystemAuthStatus =>
    cases hs
    exact inv_checkSystemAuthStatus h.asking
  | revokeSystemProfile =>
    cases hs
    exact inv_revokeSystemProfileThen h
  | cancel =>
    cases hs
    exact inv_walletFinished (h.same ⟨_, _, _, _, rfl⟩) _
  | profileChanged =>
    cases hs
    exact inv_systemAuthChanged h
  | walletFinished result =>
    simp only [handle] at hs
    split at hs
    · cases hs
    · cases hs
      exact inv_walletFinished h result
  | helperEnded helper exitCode normalExit =>
    simp only [handle] at hs
    split at hs
    · cases hs
    next hmem =>
      cases hs
      exact inv_helperEnded h (not_not.mp hmem) exitCode normalExit
  | queryFinished query output =>
    simp only [handle] at hs
    split at hs
    · cases hs
    next hmem =>
      cases hs
      exact inv_queryFinished h (not_not.mp hmem) _
  | probeFinished generation snapshot =>
    simp only [handle] at hs
    split at hs
    · cases hs
    next hmem =>
      cases hs
      refine inv_finishProbe h ?_ generation snapshot
      by_contra hp
      rw [h.core.probes (Bool.not_eq_true _ ▸ hp)] at hmem
      exact hmem List.not_mem_nil
  | readbackTimeout =>
    simp only [handle] at hs
    split at hs
    · cases hs
    next htimer =>
      cases hs
      exact inv_readbackTimeout h (by simpa using htimer)
  | waitTimeout epoch =>
    simp only [handle] at hs
    split at hs
    · cases hs
    · cases hs
      exact inv_endWait h epoch false

theorem inv_init (probed : Bool) : ({ probed } : Settings).Inv [] := by
  refine ⟨⟨?_, ⟨rfl, rfl, .inl ⟨rfl, rfl, rfl⟩⟩, trivial⟩, fun hc => by cases hc⟩
  exact
    { outstanding := rfl
      justified := every_nil
      success := fun hs => by cases hs
      latest := fun e he => by cases he
      queries := fun query hquery => by cases hquery
      nodup := List.nodup_nil
      probed := fun _ => ⟨rfl, rfl⟩
      remaining := fun _ => rfl
      todo := ⟨List.nodup_nil, fun target htarget => by cases htarget⟩
      probes := fun _ => rfl }

theorem inv_of_reachable {probed : Bool} (h : (machine probed).Reachable s) : s.Inv [] := by
  refine h.inv (inv_init probed) fun s e t hs hstep => ?_
  exact inv_handle (hs.same (t := { s with around := e.2 }) ⟨_, _, _, _, rfl⟩) hstep

/-- What a session that is busy waits for. -/
theorem Phase.waits (h : s.Phase) (hb : s.systemAuthBusy = true) :
    s.walletRequest = some s.operationGeneration ∨
      s.helpers = [.operation s.operationGeneration] ∨
      (∃ process, s.helpers = [.revocation process] ∧ s.mutationProcess = some process) ∨
      s.operationState = .checking ∧ s.readbackTimer = true := by
  unfold Phase at h
  split at h
  · rcases h.2.2 with ⟨hfree, -⟩ | ⟨-, process, hrevocation⟩
    · rw [hfree] at hb
      cases hb
    · exact .inr (.inr (.inl ⟨process, hrevocation⟩))
  · exact .inl h.2.1
  · exact .inr (.inl h.2.2.2.1)
  next hstate => exact .inr (.inr (.inr ⟨hstate, h.2.2.1⟩))

/-- A change succeeds only after a readback that was started when its helper had exited
    with code 0, and that shows what was asked for; a helper is launched only when every
    other one has finished or reported an error; and a session that is busy waits for the
    wallet, a helper or a readback with a timer. -/
theorem settings_of_reachable {probed : Bool} (h : (machine probed).Reachable s) :
    (∀ before generation after, s.history = before ++ .succeeded generation :: after →
      ∃ query request shown, Readback before generation query request shown) ∧
    (s.result = .success → .succeeded s.operationGeneration ∈ s.history) ∧
    (∀ before helper after, s.history = before ++ .launched helper :: after →
      AuthOperation.outstanding before = []) ∧
    (s.systemAuthBusy = true →
      s.walletRequest = some s.operationGeneration ∨
        s.helpers = [.operation s.operationGeneration] ∨
        (∃ process, s.helpers = [.revocation process] ∧ s.mutationProcess = some process) ∨
        s.operationState = .checking ∧ s.readbackTimer = true) := by
  have hinv := inv_of_reachable h
  refine ⟨fun before generation after heq => ?_, hinv.core.success,
    fun before helper after heq => ?_, hinv.phase.waits⟩
  · exact hinv.core.justified before (.succeeded generation) after heq
  · exact hinv.core.justified before (.launched helper) after heq

/-- What is read when the authentication is installed. -/
def installed : Around where
  profileReady := true
  helper := true
  policyReader := true
  pamModule64 := true
  plasmaApi := .available
  daemon := some ⟨true, true, true⟩
  freshness := .current
  starts := true

/-- What the reader of the policy prints. -/
def printed (mode : Mode) : Option (List UInt8 × Bool) :=
  some (Text.encodeUtf8 ("mode=" ++ mode.text ++ "\n").toList, true)

/-- The lock screen is turned on; the settings are read once more meanwhile, and an answer
    comes late. -/
def enableRun : List (Event × List Around) :=
  [(.checkSystemAuthStatus, [installed, installed, installed]),
    (.queryFinished ⟨1, .sddm⟩ (printed .off), []),
    (.queryFinished ⟨1, .plasmaLock⟩ (printed .off), []),
    (.request (.mode .plasmaLock .manual), [installed, {}]),
    (.walletFinished ⟨.available, List.replicate 32 7⟩, [installed]),
    (.helperEnded (.operation 1) 0 true, [installed, installed, installed]),
    (.queryFinished ⟨2, .sddm⟩ (printed .off), []),
    (.checkSystemAuthStatus, [installed, installed, installed]),
    (.queryFinished ⟨2, .plasmaLock⟩ (printed .off), []),
    (.queryFinished ⟨3, .plasmaLock⟩ (printed .manual), []),
    (.queryFinished ⟨3, .sddm⟩ (printed .off), [])]

theorem settings_enableRun : ∃ s, (machine false).run (machine false).init enableRun = some s ∧
    s.result = .success ∧ ∃ before after, s.history = before ++ .succeeded 1 :: after ∧
      ∃ query request shown, Readback before 1 query request shown := by
  have hrun : ((machine false).run (machine false).init enableRun).any
      (fun s => s.result = .success && s.operationGeneration = 1) := by
    decide +kernel
  obtain ⟨s, hs, hend⟩ := (Option.any_eq_true _ _).mp hrun
  rw [Bool.and_eq_true, decide_eq_true_eq, decide_eq_true_eq] at hend
  have h := settings_of_reachable (Machine.Reachable.init.run hs)
  have hmem := h.2.1 hend.1
  rw [hend.2] at hmem
  obtain ⟨before, after, heq⟩ := List.append_of_mem hmem
  exact ⟨s, hs, hend.1, before, after, heq, h.1 before 1 after heq⟩

end Settings

end AuthOperation

end KFaceAuth
