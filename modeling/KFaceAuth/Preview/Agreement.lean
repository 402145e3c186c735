import KFaceAuth.Preview.Conversation

/-!
# The session accepts what the worker sends

A conversation goes through phases: it is quiet, or a preview is starting,
streaming or stopping (`Phase`). A record is expected in some of them and leads
to another (`Phase.next`). The invariant of the runs without a crossing is that
the records on their way are all expected, one after the other, and lead to a
phase that fits to the camera and to the commands on their way (`Settled`).

* `Inv.step`: every step without a crossing keeps the invariant;
* `accepts_of_reachable`: so the session accepts every record.
-/

namespace KFaceAuth

namespace Preview

/-! ## Phases -/

inductive Phase
  | quiet
  | starting
  | streaming
  | stopping
  deriving DecidableEq, Repr

/-- The phase that a session is in. -/
def State.phase : State → Phase
  | idle | discovering | ready | failed => .quiet
  | starting => .starting
  | streaming => .streaming
  | stopping => .stopping

section

variable (decode : List UInt8 → Option (ℤ × ℤ))

/-- A frame within the bounds, in the shared memory or decoded to its size. -/
def Frame.good (f : Frame) : Prop :=
  (0 < f.width ∧ f.width ≤ maxWidth) ∧ (0 < f.height ∧ f.height ≤ maxHeight) ∧ 0 ≤ f.dropped ∧
    (f.shm ∨ ∃ j, f.jpeg = some j ∧ j ≠ [] ∧ j.length ≤ maxJpegBytes ∧
      decode j = some (f.width, f.height))

/-- The records that a session expects in a phase, and the phase after them. -/
inductive Phase.Next (s : Session) : Phase → Body → Phase → Prop
  | devices {p : Phase} {ds : List Device} (h : Session.validDevices ds) : Next s p (.devices ds) p
  | started : Next s .starting (.started maxPreviewSeconds) .streaming
  | budget {p : Phase} {deadlineMs : ℤ} (hp : p = .streaming ∨ p = .stopping)
      (h : s.enrollmentBudgetGranted) (hd : deadlineMs = s.deadlineMs) : Next s p (.budget deadlineMs) p
  | frame {p : Phase} {f : Frame} (hp : p = .streaming ∨ p = .stopping) (h : f.good decode)
      (ha : f.shm → s.attached) : Next s p (.frame f) p
  | stopped {p : Phase} {reason : String} {wasActive : Bool}
      (hp : p = .streaming ∨ p = .stopping) : Next s p (.stopped reason wasActive) .quiet
  | error {p : Phase} {code : ErrorCode} (hp : p = .starting ∨ p = .streaming)
      (h : code.allowed) (hc : code ≠ .protocolError) : Next s p (.error code) .quiet

/-- Records that are expected one after the other, and the phase after them. -/
inductive Phase.Leads (s : Session) : Phase → List Body → Phase → Prop
  | nil {p : Phase} : Leads s p [] p
  | cons {p q r : Phase} {b : Body} {bs : List Body} (h : p.Next decode s b q)
      (hs : Leads s q bs r) : Leads s p (b :: bs) r

end

section

variable {decode : List UInt8 → Option (ℤ × ℤ)} {s s' : Session} {p q r : Phase} {b : Body}
  {bs cs : List Body}

theorem Phase.Leads.append (h : p.Leads decode s bs q) (hs : q.Leads decode s cs r) :
    p.Leads decode s (bs ++ cs) r := by
  induction h with
  | nil => exact hs
  | cons hb _ ih => exact .cons hb (ih hs)

theorem Phase.Leads.snoc (h : p.Leads decode s bs q) (hb : q.Next decode s b r) :
    p.Leads decode s (bs ++ [b]) r :=
  h.append (.cons hb .nil)

/-- Lists of devices are expected in every phase. -/
theorem Phase.Leads.devices (h : ∀ b ∈ bs, ∃ ds, b = .devices ds ∧ Session.validDevices ds) :
    p.Leads decode s bs p := by
  induction bs with
  | nil => exact .nil
  | cons b bs ih =>
    obtain ⟨ds, rfl, hds⟩ := h b List.mem_cons_self
    exact .cons (.devices hds) (ih fun b hb => h b (List.mem_cons_of_mem _ hb))

/-- In a quiet phase only lists of devices are expected. -/
theorem Phase.Leads.of_quiet (h : Phase.quiet.Leads decode s bs q) :
    q = .quiet ∧ ∀ b ∈ bs, ∃ ds, b = .devices ds ∧ Session.validDevices ds := by
  generalize hp : Phase.quiet = p at h
  induction h with
  | nil => exact ⟨rfl, fun _ hb => absurd hb List.not_mem_nil⟩
  | cons hb _ ih =>
    cases hb with
    | devices hds =>
      obtain ⟨hq, hall⟩ := ih hp
      refine ⟨hq, fun b hb => ?_⟩
      rcases List.mem_cons.mp hb with rfl | hb
      · exact ⟨_, rfl, hds⟩
      · exact hall b hb
    | started => cases hp
    | budget h | frame h | stopped h | error h => rcases h with rfl | rfl <;> cases hp

/-- Records are expected by every session with the same data. -/
theorem Phase.Leads.congr (h : p.Leads decode s bs q) (hd : s'.deadlineMs = s.deadlineMs)
    (hg : s'.enrollmentBudgetGranted = s.enrollmentBudgetGranted) (ha : s'.attached = s.attached) :
    p.Leads decode s' bs q := by
  induction h with
  | nil => exact .nil
  | cons hb _ ih =>
    refine .cons ?_ ih
    cases hb with
    | devices hds => exact .devices hds
    | started => exact .started
    | budget hp h hdeadline => exact .budget hp (hg ▸ h) (hdeadline.trans hd.symm)
    | frame hp h hattached => exact .frame hp h fun hshm => ha ▸ hattached hshm
    | stopped hp => exact .stopped hp
    | error hp h hc => exact .error hp h hc

/-- A preview that streams goes on or ends. -/
theorem Phase.Leads.of_streaming (h : Phase.streaming.Leads decode s bs q) :
    q = .streaming ∨ q = .quiet := by
  generalize hp : Phase.streaming = p at h
  induction h with
  | nil => exact .inl rfl
  | cons hb hs ih =>
    cases hb with
    | devices | budget | frame => exact ih hp
    | started => cases hp
    | stopped | error => exact .inr hs.of_quiet.1

/-- No budget is on its way before one was granted, so that it may be granted now. -/
theorem Phase.Leads.grant (h : p.Leads decode s bs q) (hg : s.enrollmentBudgetGranted = false)
    (ha : s'.attached = s.attached) : p.Leads decode s' bs q := by
  induction h with
  | nil => exact .nil
  | cons hb _ ih =>
    refine .cons ?_ ih
    cases hb with
    | devices hds => exact .devices hds
    | started => exact .started
    | budget hp h hdeadline => exact absurd h (by simp [hg])
    | frame hp h hattached => exact .frame hp h fun hshm => ha ▸ hattached hshm
    | stopped hp => exact .stopped hp
    | error hp h hc => exact .error hp h hc

/-- Without a record that is unexpected then, a preview may be stopped. -/
theorem Phase.Leads.stop (h : p.Leads decode s bs q) (hp : p = .starting ∨ p = .streaming)
    (hbs : ∀ b ∈ bs, b.unexpected = false) (hd : s'.deadlineMs = s.deadlineMs)
    (hg : s'.enrollmentBudgetGranted = s.enrollmentBudgetGranted) :
    q = p ∧ Phase.stopping.Leads decode s' bs .stopping := by
  induction h with
  | nil => exact ⟨rfl, .nil⟩
  | cons hb _ ih =>
    have hrest := fun b hb => hbs b (List.mem_cons_of_mem _ hb)
    have hfirst := hbs _ List.mem_cons_self
    cases hb with
    | devices hds => exact ⟨(ih hp hrest).1, .cons (.devices hds) (ih hp hrest).2⟩
    | budget hp' h hdeadline =>
      exact ⟨(ih hp hrest).1,
        .cons (.budget (.inr rfl) (hg ▸ h) (hdeadline.trans hd.symm)) (ih hp hrest).2⟩
    | @frame _ f hp' h hattached =>
      have hshm : f.shm = false := hfirst
      exact ⟨(ih hp hrest).1, .cons (.frame (.inr rfl) h (by simp [hshm])) (ih hp hrest).2⟩
    | started | stopped | error => cases hfirst

end

/-- The phase that the records on their way lead to fits to the commands on
    their way and to the camera. -/
inductive Settled : Phase → List CommandBody → Camera → Prop
  | quiet : Settled .quiet [] .closed
  | asked {device : String} {deadlineMs : ℤ} : Settled .starting [.start device deadlineMs] .closed
  | opened : Settled .starting [] .opened
  /-- The error of a camera that could not be opened was dropped. -/
  | refused : Settled .starting [] .closed
  | live : Settled .streaming [] .active
  | enrolling {deadlineMs : ℤ} : Settled .streaming [.enrollment deadlineMs] .active
  /-- The record of the end of the preview was dropped. -/
  | ended : Settled .streaming [] .closed
  | recalled {device : String} {deadlineMs : ℤ} :
      Settled .stopping [.start device deadlineMs, .stop] .closed
  | stopEnrolling {deadlineMs : ℤ} : Settled .stopping [.enrollment deadlineMs, .stop] .active
  | stopping {camera : Camera} : Settled .stopping [.stop] camera
  /-- The answer to `stop` was dropped. -/
  | released : Settled .stopping [] .closed

section

variable {p : Phase} {orders : List CommandBody} {camera : Camera}

theorem Settled.of_quiet (h : Settled .quiet orders camera) : orders = [] ∧ camera = .closed := by
  cases h
  exact ⟨rfl, rfl⟩

/-- The camera becomes active: the preview streams, unless it is to be stopped. -/
theorem Settled.started (h : Settled p orders .opened) :
    (.stop ∉ orders ∧ p = .starting ∧ Settled .streaming orders .active) ∨
      (.stop ∈ orders ∧ Settled p orders .active) := by
  cases h with
  | opened => exact .inl ⟨List.not_mem_nil, rfl, .live⟩
  | stopping => exact .inr ⟨List.mem_singleton.mpr rfl, .stopping⟩

/-- The preview ends on the side of the worker. -/
theorem Settled.closes (h : Settled p orders camera) (hcamera : camera ≠ .closed)
    (henrollment : ∀ deadlineMs, .enrollment deadlineMs ∉ orders) :
    Settled p orders .closed ∧ (.stop ∉ orders → orders = [] ∧
      (p = .streaming ∨ p = .starting ∧ camera = .opened)) := by
  cases h with
  | quiet | asked | refused | ended | recalled | released => exact absurd rfl hcamera
  | opened => exact ⟨.refused, fun _ => ⟨rfl, .inr ⟨rfl, rfl⟩⟩⟩
  | live => exact ⟨.ended, fun _ => ⟨rfl, .inl rfl⟩⟩
  | enrolling | stopEnrolling => exact absurd List.mem_cons_self (henrollment _)
  | stopping => exact ⟨.stopping, fun h => absurd (List.mem_singleton.mpr rfl) h⟩

theorem Settled.of_streaming (h : Settled .streaming orders .active)
    (henrollment : ∀ deadlineMs, .enrollment deadlineMs ∉ orders) : orders = [] := by
  cases h with
  | live => rfl
  | enrolling => exact absurd List.mem_cons_self (henrollment _)

/-- Frames are expected while the camera is active. -/
theorem Settled.frames (h : Settled p orders .active) : p = .streaming ∨ p = .stopping := by
  cases h with
  | live | enrolling => exact .inl rfl
  | stopEnrolling | stopping => exact .inr rfl

/-- The worker is to start a preview. -/
theorem Settled.start {device : String} {deadlineMs : ℤ}
    (h : Settled p (.start device deadlineMs :: orders) camera) :
    camera = .closed ∧ Settled p orders .opened ∧ Settled p orders .closed ∧
      (.stop ∉ orders → orders = [] ∧ p = .starting) := by
  cases h with
  | asked => exact ⟨rfl, .opened, .refused, fun _ => ⟨rfl, rfl⟩⟩
  | recalled => exact ⟨rfl, .stopping, .stopping, fun h => absurd (List.mem_singleton.mpr rfl) h⟩

/-- The worker is to grant a budget. -/
theorem Settled.enrollment {deadlineMs : ℤ}
    (h : Settled p (.enrollment deadlineMs :: orders) camera) :
    camera = .active ∧ Settled p orders .active ∧ (p = .streaming ∨ p = .stopping) ∧
      ∀ d, .enrollment d ∉ orders := by
  cases h with
  | enrolling => exact ⟨rfl, .live, .inl rfl, fun _ => List.not_mem_nil⟩
  | stopEnrolling => exact ⟨rfl, .stopping, .inr rfl, fun _ => by simp⟩

/-- The worker is to stop. -/
theorem Settled.stop (h : Settled p (.stop :: orders) camera) : p = .stopping ∧ orders = [] := by
  cases h
  exact ⟨rfl, rfl⟩

/-- The session stops a preview. -/
theorem Settled.stops (h : Settled p orders camera) (hp : p = .starting ∨ p = .streaming) :
    Settled .stopping (orders ++ [CommandBody.stop]) camera := by
  cases h with
  | quiet | recalled | stopEnrolling | stopping | released => rcases hp with hp | hp <;> cases hp
  | asked => exact .recalled
  | opened | refused | live | ended => exact .stopping
  | enrolling => exact .stopEnrolling

end

/-! ## What the session accepts -/

/-- The session shows no broken protocol, and its devices are valid. -/
structure SessionOk (s : Session) : Prop where
  expectedExit : s.expectedExit = false
  errorCode : s.errorCode ≠ some .protocolError
  devices : Session.validDevices s.devices
  pending : ∀ ds, s.pendingDevices = some ds → Session.validDevices ds
  detached : s.state = .stopping → s.attached = false

/-- What records do not change. -/
structure Session.Same (s s' : Session) : Prop where
  process : s'.process = s.process
  sessionId : s'.sessionId = s.sessionId
  nextCommandSequence : s'.nextCommandSequence = s.nextCommandSequence
  deadlineMs : s'.deadlineMs = s.deadlineMs
  granted : s'.enrollmentBudgetGranted = s.enrollmentBudgetGranted
  attached : s'.attached = s.attached

section

variable {decode : List UInt8 → Option (ℤ × ℤ)} {s : Session}

theorem SessionOk.setState (h : SessionOk s) {state : State}
    (hstate : state = .stopping → s.attached = false) : SessionOk (s.setState state) := by
  refine ⟨h.expectedExit, ?_, h.devices, h.pending, hstate⟩
  unfold Session.setState
  simp only
  split
  · exact h.errorCode
  · exact fun h => by cases h

theorem SessionOk.fail (h : SessionOk s) {code : ErrorCode} (hc : code ≠ .protocolError) :
    SessionOk (s.fail code) :=
  ⟨h.expectedExit, fun h => hc (Option.some.inj h), h.devices, h.pending, by rintro ⟨⟩⟩

theorem SessionOk.selectedDevice (h : SessionOk s) {device : Device}
    (hdevice : s.selectedDevice = some device) : device.token ≠ "" ∧ qsize device.token ≤ 64 := by
  obtain ⟨index, -, hindex⟩ := Option.bind_eq_some_iff.mp hdevice
  have hvalid := h.devices
  simp only [Session.validDevices, Bool.and_eq_true, List.all_eq_true, decide_eq_true_eq] at hvalid
  obtain ⟨⟨hne, hsize⟩, -⟩ := hvalid.2 device (List.mem_of_getElem? hindex)
  exact ⟨hne, hsize⟩

/-- Valid devices are accepted, and kept until a preview ends. -/
theorem handleDevices_spec (h : SessionOk s) {ds : List Device} (hds : Session.validDevices ds) :
    (s.handleDevices ds).2 = true ∧ SessionOk (s.handleDevices ds).1 ∧
      s.Same (s.handleDevices ds).1 ∧ (s.handleDevices ds).1.state.phase = s.state.phase := by
  unfold Session.handleDevices
  rw [hds, if_neg (by decide)]
  split
  · exact ⟨rfl, ⟨h.expectedExit, h.errorCode, h.devices, fun _ hp => Option.some.inj hp ▸ hds,
      h.detached⟩,
      ⟨rfl, rfl, rfl, rfl, rfl, rfl⟩, rfl⟩
  next hstate =>
  have hquiet : s.state.phase = .quiet := by
    cases hs : s.state <;> simp_all [State.phase]
  simp only
  split
  · exact ⟨rfl, ⟨h.expectedExit, by rintro ⟨⟩, hds, h.pending, by rintro ⟨⟩⟩, ⟨rfl, rfl, rfl, rfl, rfl, rfl⟩,
      hquiet.symm⟩
  · exact ⟨rfl, ⟨h.expectedExit, by rintro ⟨⟩, hds, h.pending, by rintro ⟨⟩⟩, ⟨rfl, rfl, rfl, rfl, rfl, rfl⟩,
      hquiet.symm⟩

/-- A good frame is shown. -/
theorem handleFrame_of_good {f : Frame} (hstate : s.state = .streaming ∨ s.state = .stopping)
    (hgood : f.good decode) (hattached : f.shm → s.attached) : s.handleFrame decode f = true := by
  obtain ⟨⟨hw, hw'⟩, ⟨hh, hh'⟩, hdropped, hpicture⟩ := hgood
  have hshows : s.showsFrame decode f = true := by
    rcases hpicture with hshm | ⟨j, hj, hne, hlen, hdecode⟩
    · simp [Session.showsFrame, hshm, hattached hshm]
    · simp [Session.showsFrame, hj, hne, hlen, hdecode]
  simp [Session.handleFrame, hstate, hw, hw', hh, hh', hdropped, hshows]

/-- A record that is expected is accepted. -/
theorem handleRecord_of_next (h : SessionOk s) {record : Record} {q : Phase}
    (hprotocol : record.protocol = version) (hsession : record.session = s.sessionId)
    (hpos : 0 < record.sequence) (horder : s.lastSequence < record.sequence)
    (hnext : s.state.phase.Next decode s record.body q) :
    (s.handleRecord decode record).2 = true ∧ SessionOk (s.handleRecord decode record).1 ∧
      s.Same (s.handleRecord decode record).1 ∧
      (s.handleRecord decode record).1.state.phase = q := by
  have hread : ¬ (record.protocol ≠ version ∨ record.session ≠ s.sessionId ∨ record.sequence ≤ 0 ∨
      record.sequence ≤ s.lastSequence) := by
    rintro (h | h | h | h)
    · exact h hprotocol
    · exact h hsession
    · omega
    · omega
  have hnew : SessionOk { s with lastSequence := record.sequence } :=
    ⟨h.expectedExit, h.errorCode, h.devices, h.pending, h.detached⟩
  have hsame : s.Same { s with lastSequence := record.sequence } := ⟨rfl, rfl, rfl, rfl, rfl, rfl⟩
  have hphase : ∀ {p : Phase}, s.state.phase = p → p = .streaming ∨ p = .stopping →
      s.state = .streaming ∨ s.state = .stopping := by
    rintro p hp (rfl | rfl)
    · exact .inl (by cases hs : s.state <;> simp_all [State.phase])
    · exact .inr (by cases hs : s.state <;> simp_all [State.phase])
  unfold Session.handleRecord
  rw [if_neg hread]
  generalize hbody : record.body = body at hnext
  generalize hp : s.state.phase = p at hnext
  cases hnext with
  | devices hds =>
    obtain ⟨haccept, hok, hsame', hstate⟩ := handleDevices_spec hnew hds
    exact ⟨haccept, hok, ⟨hsame'.process, hsame'.sessionId, hsame'.nextCommandSequence,
      hsame'.deadlineMs, hsame'.granted, hsame'.attached⟩, hstate.trans hp⟩
  | started =>
    have hstate : s.state = .starting := by
      cases hs : s.state <;> simp_all [State.phase]
    simp only
    rw [if_neg (by simp [hstate])]
    exact ⟨rfl, hnew.setState (by rintro ⟨⟩), ⟨rfl, rfl, rfl, rfl, rfl, rfl⟩, rfl⟩
  | budget hp' hgranted hd =>
    -- The budget is the one that the session asked for, and changes nothing.
    refine ⟨?_, hnew, hsame, hp⟩
    simp only [hgranted, hd, decide_true, Bool.and_true, Bool.or_eq_true, decide_eq_true_eq]
    exact hphase hp hp'
  | frame hp' hgood hattached =>
    exact ⟨handleFrame_of_good (hphase hp hp') hgood hattached, hnew, hsame, hp⟩
  | stopped hp' =>
    simp only
    rw [if_neg (by rcases hphase hp hp' with h | h <;> simp [h])]
    split
    next ds hpending =>
      -- The devices that came during the preview are put in place now.
      have hready : SessionOk { ({ s with lastSequence := record.sequence }).setState .ready with
          pendingDevices := none } :=
        ⟨h.expectedExit, by rintro ⟨⟩, h.devices, by rintro ds ⟨⟩, by rintro ⟨⟩⟩
      obtain ⟨haccept, hok, hsame', hstate⟩ := handleDevices_spec hready (h.pending ds hpending)
      exact ⟨haccept, hok, ⟨hsame'.process, hsame'.sessionId, hsame'.nextCommandSequence,
        hsame'.deadlineMs, hsame'.granted, hsame'.attached⟩, hstate⟩
    · exact ⟨rfl, hnew.setState (by rintro ⟨⟩), ⟨rfl, rfl, rfl, rfl, rfl, rfl⟩, rfl⟩
  | error hp' hallowed hcode =>
    simp only
    rw [if_pos hallowed]
    exact ⟨rfl, hnew.fail hcode, ⟨rfl, rfl, rfl, rfl, rfl, rfl⟩, rfl⟩

end

/-! ## What the worker keeps -/

/-- The keys that every record has. -/
structure Header (id : String) (r : Record) : Prop where
  protocol : r.protocol = version
  session : r.session = id
  sequence : 0 < r.sequence

/-- The state of a worker fits to its camera, and its records are those of the
    session `id`. -/
structure WorkerOk (decode : List UInt8 → Option (ℤ × ℤ)) (id : String) (w : Worker) : Prop where
  sessionId : w.sessionId = "" ∨ w.sessionId = id
  inProgress : w.previewInProgress = true ↔ w.camera ≠ .closed
  limit : w.previewLimit = true → w.camera = .active
  attached : w.attached = true → w.camera ≠ .closed
  identified : w.camera ≠ .closed → w.sessionId ≠ ""
  control : ∀ r ∈ w.controlQueue, Header id r
  frame : ∀ r, w.pendingFrame = some r → Header id r ∧ w.camera = .active ∧
    ∃ f, r.body = .frame f ∧ f.good decode ∧ (f.shm → w.attached)
  sequence : 0 ≤ w.sequence
  lastCommandSequence : 0 ≤ w.lastCommandSequence

/-- The records that are queued, but for a frame. -/
def Worker.queued (w : Worker) : List Body := w.controlQueue.map (·.body)

/-- What a discovery does not change. -/
structure Worker.Same (w w' : Worker) : Prop where
  sessionId : w'.sessionId = w.sessionId
  lastCommandSequence : w'.lastCommandSequence = w.lastCommandSequence
  camera : w'.camera = w.camera
  attached : w'.attached = w.attached
  granted : w'.enrollmentBudgetGranted = w.enrollmentBudgetGranted

section

variable {decode : List UInt8 → Option (ℤ × ℤ)} {id : String} {w : Worker} {found : List Device}

theorem WorkerOk.sessionId_eq (h : WorkerOk decode id w) (hcamera : w.camera ≠ .closed) :
    w.sessionId = id :=
  h.sessionId.resolve_left (h.identified hcamera)

theorem WorkerOk.header (h : WorkerOk decode id w) (hid : w.sessionId = id) (body : Body) :
    Header id (w.baseRecord body) :=
  ⟨rfl, hid, Int.lt_add_one_of_le h.sequence⟩

theorem queued_queueControl (w : Worker) (body : Body) :
    (w.queueControl body).queued =
      w.queued ++ if w.controlQueue.length < maxControlRecords then [body] else [] := by
  unfold Worker.queued Worker.queueControl
  simp only
  split
  · rw [List.map_append]
    rfl
  · rw [List.append_nil]

theorem WorkerOk.queueControl (h : WorkerOk decode id w) (hid : w.sessionId = id) (body : Body) :
    WorkerOk decode id (w.queueControl body) := by
  refine ⟨h.sessionId, h.inProgress, h.limit, h.attached, h.identified, ?_, h.frame,
    Int.le_add_one h.sequence, h.lastCommandSequence⟩
  intro r hr
  simp only [Worker.queueControl] at hr
  split at hr
  · rcases List.mem_append.mp hr with hr | hr
    · exact h.control r hr
    · rw [List.mem_singleton.mp hr]
      exact h.header hid body
  · exact h.control r hr

theorem WorkerOk.release (h : WorkerOk decode id w) : WorkerOk decode id w.release :=
  ⟨h.sessionId, by simp [Worker.release], by rintro ⟨⟩, by rintro ⟨⟩, fun hc => absurd rfl hc,
    h.control, by rintro r ⟨⟩, h.sequence, h.lastCommandSequence⟩

/-- A discovery queues at most a list of devices. -/
theorem WorkerOk.discover (h : WorkerOk decode id w) (hfound : Session.validDevices found) :
    WorkerOk decode id (w.discover found) ∧ w.Same (w.discover found) ∧
      ∃ bs, (w.discover found).queued = w.queued ++ bs ∧
        ∀ b ∈ bs, ∃ ds, b = .devices ds ∧ Session.validDevices ds := by
  unfold Worker.discover
  split
  · exact ⟨⟨h.sessionId, h.inProgress, h.limit, h.attached, h.identified, h.control, h.frame,
      h.sequence, h.lastCommandSequence⟩, ⟨rfl, rfl, rfl, rfl, rfl⟩, [], (List.append_nil _).symm,
      fun _ hb => absurd hb List.not_mem_nil⟩
  next hidle =>
  rw [not_or] at hidle
  have hclosed : w.camera = .closed := by
    by_contra hopen
    exact hidle.2 (h.inProgress.mpr hopen)
  have hok : WorkerOk decode id { w with discoveryPending := false, camera := .closed } :=
    ⟨h.sessionId, by simpa [hclosed] using h.inProgress, by simpa [hclosed] using h.limit,
      by simpa [hclosed] using h.attached, fun hc => absurd rfl hc, h.control,
      by simpa [hclosed] using h.frame, h.sequence, h.lastCommandSequence⟩
  refine ⟨hok.queueControl (h.sessionId.resolve_left hidle.1) _,
    ⟨rfl, rfl, hclosed.symm, rfl, rfl⟩, _, queued_queueControl _ _, fun b hb => ?_⟩
  split at hb
  · exact ⟨found, List.mem_singleton.mp hb, hfound⟩
  · exact absurd hb List.not_mem_nil

theorem WorkerOk.discoverPending (h : WorkerOk decode id w) (hfound : Session.validDevices found) :
    WorkerOk decode id (w.discoverPending found) ∧ w.Same (w.discoverPending found) ∧
      ∃ bs, (w.discoverPending found).queued = w.queued ++ bs ∧
        ∀ b ∈ bs, ∃ ds, b = .devices ds ∧ Session.validDevices ds := by
  unfold Worker.discoverPending
  split
  · exact h.discover hfound
  · exact ⟨h, ⟨rfl, rfl, rfl, rfl, rfl⟩, [], (List.append_nil _).symm,
      fun _ hb => absurd hb List.not_mem_nil⟩

/-- A record, and then the discovery that was left for later. -/
theorem WorkerOk.report (h : WorkerOk decode id w) (hid : w.sessionId = id)
    (hfound : Session.validDevices found) (body : Body) :
    WorkerOk decode id ((w.queueControl body).discoverPending found) ∧
      w.Same ((w.queueControl body).discoverPending found) ∧
      ∃ bs, ((w.queueControl body).discoverPending found).queued =
          (w.queued ++ if w.controlQueue.length < maxControlRecords then [body] else []) ++ bs ∧
        ∀ b ∈ bs, ∃ ds, b = .devices ds ∧ Session.validDevices ds := by
  obtain ⟨hok, hsame, bs, hqueued, hbs⟩ := (h.queueControl hid body).discoverPending hfound
  rw [queued_queueControl] at hqueued
  exact ⟨hok, ⟨hsame.sessionId, hsame.lastCommandSequence, hsame.camera, hsame.attached,
    hsame.granted⟩, bs, hqueued, hbs⟩

end

/-! ## The invariant -/

/-- Commands with the numbers after `n` up to `m`. -/
def Numbered : ℤ → List Command → ℤ → Prop
  | n, [], m => n = m
  | n, c :: cs, m => c.sequence = n + 1 ∧ Numbered (n + 1) cs m

theorem Numbered.snoc {n m : ℤ} {cs : List Command} (h : Numbered n cs m) {c : Command}
    (hc : c.sequence = m + 1) : Numbered n (cs ++ [c]) (m + 1) := by
  induction cs generalizing n with
  | nil =>
    obtain rfl : n = m := h
    exact ⟨hc, rfl⟩
  | cons d cs ih => exact ⟨h.1, ih h.2⟩

/-- The session and its worker know each other. -/
structure Link (s : System) : Prop where
  fresh : s.session.process ≠ .running → s.worker = {} ∧ s.commands = [] ∧ s.records = []
  identified : s.session.process = .notRunning ∨
    (s.session.sessionId ≠ "" ∧ qsize s.session.sessionId ≤ 64)
  commands : ∀ c ∈ s.commands, c.protocol = version ∧ c.session = s.session.sessionId
  numbered : Numbered s.worker.lastCommandSequence s.commands s.session.nextCommandSequence
  records : ∀ r ∈ s.records, Header s.session.sessionId r

/-- The session and its worker agree on the shared memory, the budget and the deadlines. -/
structure Terms (s : Session) (w : Worker) (orders : List CommandBody) (now : ℤ) : Prop where
  attached : w.attached = true → s.attached = true ∨ .stop ∈ orders
  granted : w.camera ≠ .closed → w.enrollmentBudgetGranted = true →
    s.enrollmentBudgetGranted = true
  starts : ∀ device deadlineMs, .start device deadlineMs ∈ orders →
    device ≠ "" ∧ qsize device ≤ 64 ∧ deadlineMs ≤ now + maxPreviewSeconds * 1000
  enrollments : ∀ deadlineMs, .enrollment deadlineMs ∈ orders →
    s.enrollmentBudgetGranted = true ∧ deadlineMs = s.deadlineMs ∧
      w.enrollmentBudgetGranted = false ∧ deadlineMs ≤ now + maxEnrollmentSeconds * 1000

/-- The records on their way are expected, and what follows fits to the worker. -/
def Agrees (decode : List UInt8 → Option (ℤ × ℤ)) (s : System) : Prop :=
  ∃ p, s.session.state.phase.Leads decode s.session s.coming p ∧
    Settled p s.orders s.worker.camera

structure Inv (decode : List UInt8 → Option (ℤ × ℤ)) (s : System) : Prop where
  session : SessionOk s.session
  worker : WorkerOk decode s.session.sessionId s.worker
  link : Link s
  terms : Terms s.session s.worker s.orders s.now
  agrees : Agrees decode s

section

variable {decode : List UInt8 → Option (ℤ × ℤ)} {s : System}

theorem inv_init : Inv decode {} where
  session := ⟨rfl, by rintro ⟨⟩, by decide, by rintro ds ⟨⟩, by rintro ⟨⟩⟩
  worker := ⟨.inl rfl, by simp, by rintro ⟨⟩, by rintro ⟨⟩, fun h => absurd rfl h,
    fun _ h => absurd h List.not_mem_nil, by rintro r ⟨⟩, Int.le_refl 0, Int.le_refl 0⟩
  link := ⟨fun _ => ⟨rfl, rfl, rfl⟩, .inl rfl, fun _ h => absurd h List.not_mem_nil, rfl,
    fun _ h => absurd h List.not_mem_nil⟩
  terms := ⟨by rintro ⟨⟩, fun h => absurd rfl h, fun _ _ h => absurd h List.not_mem_nil,
    fun _ h => absurd h List.not_mem_nil⟩
  agrees := ⟨.quiet, .nil, .quiet⟩

theorem coming_eq (s : System) : s.coming = s.records.map (·.body) ++ s.worker.queued := by
  rw [System.coming, List.map_append]
  rfl

/-! ### Events of the application -/

theorem orders_sends (s : System) (r : Session × List Command) :
    (s.sends r).orders = s.orders ++ ordersOf r.2 := by
  rw [System.orders, System.sends, ordersOf, List.map_append, List.filter_append]
  rfl

theorem sends_nil (s : System) (t : Session) : s.sends (t, []) = { s with session := t } := by
  rw [System.sends, List.append_nil]

/-- Commands are sent to a worker that runs. -/
theorem sendCommand_eq {t : Session} (body : CommandBody) (h : t.process = .running) :
    t.sendCommand body = ({ t with nextCommandSequence := t.nextCommandSequence + 1 },
      [⟨version, t.sessionId, t.nextCommandSequence + 1, body⟩]) :=
  if_pos h

theorem sendCommand_eq_self {t : Session} (body : CommandBody) (h : t.process ≠ .running) :
    t.sendCommand body = (t, []) :=
  if_neg h

/-- A command does not break what the session and the worker know of each other. -/
theorem Link.sends (h : Link s) {t : Session} (hprocess : t.process = s.session.process)
    (hid : t.sessionId = s.session.sessionId)
    (hnext : t.nextCommandSequence = s.session.nextCommandSequence) (body : CommandBody) :
    Link (s.sends (t.sendCommand body)) := by
  by_cases hrunning : t.process = .running
  · rw [sendCommand_eq body hrunning]
    refine ⟨fun hne => absurd hrunning hne, ?_, ?_, ?_, ?_⟩
    · exact (hprocess ▸ hid ▸ h.identified)
    · intro c hc
      rcases List.mem_append.mp hc with hc | hc
      · exact ⟨(h.commands c hc).1, (h.commands c hc).2.trans hid.symm⟩
      · rw [List.mem_singleton.mp hc]
        exact ⟨rfl, rfl⟩
    · have hnumbered := h.numbered
      rw [← hnext] at hnumbered
      exact hnumbered.snoc rfl
    · intro r hr
      have hheader := h.records r hr
      exact ⟨hheader.protocol, hheader.session.trans hid.symm, hheader.sequence⟩
  · rw [sendCommand_eq_self body hrunning]
    obtain ⟨hworker, hcommands, hrecords⟩ := h.fresh (hprocess ▸ hrunning)
    refine ⟨fun _ => ⟨hworker, by simp [System.sends, hcommands], hrecords⟩,
      hprocess ▸ hid ▸ h.identified, ?_, ?_, ?_⟩
    · simp [System.sends, hcommands]
    · have hnumbered := h.numbered
      rw [← hnext] at hnumbered
      simpa [System.sends] using hnumbered
    · simp [System.sends, hrecords]

theorem Link.same (h : Link s) {t : Session} (hsame : s.session.Same t) :
    Link { s with session := t } where
  fresh hne := h.fresh (hsame.process ▸ hne)
  identified := hsame.process ▸ hsame.sessionId ▸ h.identified
  commands := hsame.sessionId ▸ h.commands
  numbered := hsame.nextCommandSequence ▸ h.numbered
  records := hsame.sessionId ▸ h.records

theorem Terms.same {t t' : Session} {w : Worker} {orders : List CommandBody} {now : ℤ}
    (h : Terms t w orders now) (ha : t'.attached = t.attached)
    (hg : t'.enrollmentBudgetGranted = t.enrollmentBudgetGranted)
    (hd : t'.deadlineMs = t.deadlineMs) : Terms t' w orders now where
  attached := ha ▸ h.attached
  granted := hg ▸ h.granted
  starts := h.starts
  enrollments := hg ▸ hd ▸ h.enrollments

/-- A change of the session that keeps its phase and what it agreed on. -/
theorem Inv.session_same (h : Inv decode s) {t : Session} (ht : SessionOk t)
    (hsame : s.session.Same t) (hphase : t.state.phase = s.session.state.phase) :
    Inv decode { s with session := t } where
  session := ht
  worker := hsame.sessionId ▸ h.worker
  link := h.link.same hsame
  terms := h.terms.same hsame.attached hsame.granted hsame.deadlineMs
  agrees := by
    obtain ⟨p, hleads, hsettled⟩ := h.agrees
    exact ⟨p, hphase ▸ hleads.congr hsame.deadlineMs hsame.granted hsame.attached, hsettled⟩

/-- What a command changes: nothing in the session but the number of commands. -/
theorem sendCommand_spec (t : Session) (body : CommandBody) :
    ∃ n, (t.sendCommand body).1 = { t with nextCommandSequence := n } ∧
      ((t.process = .running ∧ (t.sendCommand body).2.map (·.body) = [body]) ∨
        (t.process ≠ .running ∧ (t.sendCommand body).2 = [])) := by
  by_cases hrunning : t.process = .running
  · rw [sendCommand_eq body hrunning]
    exact ⟨_, rfl, .inl ⟨hrunning, rfl⟩⟩
  · rw [sendCommand_eq_self body hrunning]
    exact ⟨_, rfl, .inr ⟨hrunning, rfl⟩⟩

theorem sendCommand_process (t : Session) (body : CommandBody) :
    (t.sendCommand body).1.process = t.process := by
  obtain ⟨n, hn, -⟩ := sendCommand_spec t body
  rw [hn]

/-- The session asks for the devices. -/
theorem Inv.sendDiscover (h : Inv decode s) :
    Inv decode (s.sends (s.session.sendCommand .discover)) := by
  have hlink := h.link.sends rfl rfl rfl .discover
  have horders : (s.sends (s.session.sendCommand .discover)).orders = s.orders := by
    rw [orders_sends]
    obtain ⟨n, -, ⟨-, hbodies⟩ | ⟨-, hnone⟩⟩ := sendCommand_spec s.session .discover
    · rw [ordersOf, hbodies]
      exact List.append_nil _
    · rw [hnone]
      exact List.append_nil _
  obtain ⟨n, hsession, -⟩ := sendCommand_spec s.session .discover
  obtain ⟨p, hleads, hsettled⟩ := h.agrees
  have hs : (s.sends (s.session.sendCommand .discover)).session =
      { s.session with nextCommandSequence := n } := hsession
  refine ⟨?_, ?_, hlink, ?_, p, ?_, horders ▸ hsettled⟩
  · rw [hs]
    exact ⟨h.session.expectedExit, h.session.errorCode, h.session.devices, h.session.pending,
      h.session.detached⟩
  · rw [hs]
    exact h.worker
  · rw [hs, horders]
    exact h.terms.same rfl rfl rfl
  · rw [hs]
    exact hleads.congr rfl rfl rfl

/-- The session changes and sends a command; nothing is on its way to a worker
    that does not run yet. -/
theorem Inv.sends (h : Inv decode s) {t : Session} {body : CommandBody} {p : Phase}
    (hbody : body ≠ .discover) (hprocess : t.process = s.session.process)
    (hid : t.sessionId = s.session.sessionId)
    (hnext : t.nextCommandSequence = s.session.nextCommandSequence) (ht : SessionOk t)
    (hterms : Terms t s.worker (s.orders ++ [body]) s.now)
    (hleads : t.state.phase.Leads decode t s.coming p)
    (hsettled : Settled p (s.orders ++ [body]) s.worker.camera) (hfresh : Settled p [] .closed) :
    Inv decode (s.sends (t.sendCommand body)) := by
  have hlink := h.link.sends hprocess hid hnext body
  obtain ⟨n, hsession, hcases⟩ := sendCommand_spec t body
  have hs : (s.sends (t.sendCommand body)).session = { t with nextCommandSequence := n } := hsession
  have hok : SessionOk { t with nextCommandSequence := n } :=
    ⟨ht.expectedExit, ht.errorCode, ht.devices, ht.pending, ht.detached⟩
  refine ⟨hs ▸ hok, hs ▸ hid ▸ h.worker, hlink, ?_, p, hs ▸ hleads.congr rfl rfl rfl, ?_⟩
  all_goals
    rw [orders_sends]
    rcases hcases with ⟨-, hbodies⟩ | ⟨hne, hnone⟩
  · rw [ordersOf, hbodies, List.filter_cons_of_pos (by simpa using hbody), hs]
    exact hterms.same rfl rfl rfl
  · obtain ⟨hworker, hcommands, -⟩ := h.link.fresh (hprocess ▸ hne)
    have horders : s.orders = [] := by rw [System.orders, hcommands]; rfl
    rw [hnone, horders]
    refine ⟨fun ha => ?_, fun hc => ?_, fun _ _ hm => absurd hm List.not_mem_nil,
      fun _ hm => absurd hm List.not_mem_nil⟩
    · rw [System.sends, hworker] at ha
      cases ha
    · rw [System.sends, hworker] at hc
      exact absurd rfl hc
  · rw [ordersOf, hbodies, List.filter_cons_of_pos (by simpa using hbody)]
    exact hsettled
  · obtain ⟨hworker, hcommands, -⟩ := h.link.fresh (hprocess ▸ hne)
    have horders : s.orders = [] := by rw [System.orders, hcommands]; rfl
    rw [hnone, horders, System.sends, hworker]
    exact hfresh

/-- The session starts a preview. -/
theorem Inv.startPreview (h : Inv decode s) (created : Bool) :
    Inv decode (s.sends (s.session.startPreview s.now created)) := by
  unfold Session.startPreview
  split
  next device hstate hdevice =>
    obtain ⟨p, hleads, hsettled⟩ := h.agrees
    rw [hstate] at hleads
    obtain ⟨rfl, hdevices⟩ := hleads.of_quiet
    obtain ⟨horders, hcamera⟩ := hsettled.of_quiet
    have htoken := h.session.selectedDevice hdevice
    have hnew : SessionOk { s.session with
        deadlineMs := s.now + maxPreviewSeconds * 1000
        enrollmentBudgetGranted := false
        attached := if s.session.sessionId = "" then s.session.attached else created } :=
      ⟨h.session.expectedExit, h.session.errorCode, h.session.devices, h.session.pending,
        by simp [hstate]⟩
    refine h.sends (by simp) rfl rfl rfl (hnew.setState (by rintro ⟨⟩)) ?_
      (Phase.Leads.devices hdevices) ?_ .refused
    · rw [horders]
      refine ⟨fun ha => absurd hcamera (h.worker.attached ha), fun hc => absurd hcamera hc, ?_, ?_⟩
      · intro d deadlineMs hm
        obtain ⟨rfl, rfl⟩ : d = device.token ∧ deadlineMs = s.now + maxPreviewSeconds * 1000 := by
          simpa using hm
        exact ⟨htoken.1, htoken.2, Int.le_refl _⟩
      · intro d hm
        simp at hm
    · rw [horders, hcamera]
      exact .asked
  · simpa [System.sends] using h

/-- The session stops a preview while nothing unexpected is on its way. -/
theorem Inv.stopPreview (h : Inv decode s) (hstop : s.mayStop) :
    Inv decode (s.sends s.session.stopPreview) := by
  obtain ⟨p, hleads, hsettled⟩ := h.agrees
  unfold Session.stopPreview
  simp only
  split
  next hstate =>
    -- Nothing is sent: the session stops already, or there is no preview.
    by_cases hstopping : s.session.state = .stopping
    · have heq : { s.session with attached := false } = s.session := by
        rw [← h.session.detached hstopping]
      rw [heq]
      simpa [System.sends] using h
    · have hquiet : s.session.state.phase = .quiet := by
        cases hs : s.session.state <;> simp_all [State.phase]
      rw [hquiet] at hleads
      obtain ⟨rfl, hdevices⟩ := hleads.of_quiet
      obtain ⟨-, hcamera⟩ := hsettled.of_quiet
      rw [sends_nil]
      refine ⟨⟨h.session.expectedExit, h.session.errorCode, h.session.devices, h.session.pending,
          fun _ => rfl⟩, h.worker, ⟨h.link.fresh, h.link.identified, h.link.commands,
          h.link.numbered, h.link.records⟩, ⟨fun ha => absurd hcamera (h.worker.attached ha),
          h.terms.granted, h.terms.starts, h.terms.enrollments⟩, .quiet, ?_, hsettled⟩
      rw [hquiet]
      exact .devices hdevices
  next hstate =>
  have hphase : s.session.state.phase = .starting ∨ s.session.state.phase = .streaming := by
    cases hs : s.session.state <;> simp_all [State.phase]
  -- Nothing is on its way that a stopping session would refuse.
  have hexpected : ∀ b ∈ s.coming, b.unexpected = false := by
    rw [System.mayStop, Bool.or_eq_true, Bool.and_eq_true, decide_eq_true_eq, decide_eq_true_eq]
      at hstop
    simpa using hstop.resolve_left hstate
  have hstops : p = s.session.state.phase ∧ Phase.stopping.Leads decode
      ({ s.session with attached := false }.setState .stopping) s.coming .stopping :=
    hleads.stop hphase hexpected rfl rfl
  obtain ⟨rfl, hstopped⟩ := hstops
  have hnew : SessionOk { s.session with attached := false } :=
    ⟨h.session.expectedExit, h.session.errorCode, h.session.devices, h.session.pending,
      fun _ => rfl⟩
  refine h.sends (by simp) rfl rfl rfl (hnew.setState fun _ => rfl) ?_ hstopped
    (hsettled.stops hphase) .released
  refine ⟨fun _ => .inr (by simp), h.terms.granted, ?_, ?_⟩
  · intro d deadlineMs hm
    exact h.terms.starts d deadlineMs (by simpa using hm)
  · intro d hm
    exact h.terms.enrollments d (by simpa using hm)

/-- The session asks for a budget while the camera is active. -/
theorem Inv.beginEnrollmentBudget (h : Inv decode s)
    (hactive : undisturbed s .beginEnrollmentBudget) :
    Inv decode (s.sends (s.session.beginEnrollmentBudget s.now)) := by
  obtain ⟨p, hleads, hsettled⟩ := h.agrees
  unfold Session.beginEnrollmentBudget
  split
  · simpa [System.sends] using h
  next hguard =>
  simp only [not_or, not_not, Bool.not_eq_true, Int.not_le] at hguard
  obtain ⟨hstate, hgranted, hdeadline⟩ := hguard
  have hcamera : s.worker.camera = .active := by
    simpa [undisturbed, hstate, hgranted, Int.not_le.mpr hdeadline] using hactive
  rw [hstate] at hleads
  rw [hcamera] at hsettled
  -- The worker has carried out every order, so the next one meets an active camera.
  have horders : p = .streaming ∧ s.orders = [] := by
    rcases hleads.of_streaming with rfl | rfl
    · refine ⟨rfl, hsettled.of_streaming fun d hm => ?_⟩
      exact absurd (h.terms.enrollments d hm).1 (by simp [hgranted])
    · cases hsettled.of_quiet.2
  obtain ⟨rfl, horders⟩ := horders
  have hnew : SessionOk { s.session with
      enrollmentBudgetGranted := true
      deadlineMs := s.now + maxEnrollmentSeconds * 1000 } :=
    ⟨h.session.expectedExit, h.session.errorCode, h.session.devices, h.session.pending,
      h.session.detached⟩
  refine h.sends (by simp) rfl rfl rfl hnew ?_ (hstate ▸ hleads.grant hgranted rfl) ?_ .ended
  · rw [horders]
    refine ⟨fun ha => ?_, fun _ _ => rfl, fun _ _ hm => by simp at hm, fun d hm => ?_⟩
    · exact (h.terms.attached ha).imp_right fun hm => by simp [horders] at hm
    · obtain rfl : d = s.now + maxEnrollmentSeconds * 1000 := by simpa using hm
      refine ⟨rfl, rfl, ?_, Int.le_refl _⟩
      by_contra hworker
      rw [Bool.not_eq_false] at hworker
      exact absurd (h.terms.granted (by simp [hcamera]) hworker) (by simp [hgranted])
  · rw [horders, hcamera]
    exact .enrolling

theorem Inv.countdown (h : Inv decode s) (hstop : undisturbed s .countdown) :
    Inv decode (s.sends (s.session.countdown s.now)) := by
  unfold Session.countdown
  split
  next hzero =>
    have hlate : ¬ s.now < s.session.deadlineMs := by
      intro hlt
      rw [Int.tdiv_eq_ediv_of_nonneg (by omega)] at hzero
      omega
    exact h.stopPreview (by simpa [undisturbed, hlate] using hstop)
  · rw [sends_nil]
    exact h

theorem Inv.applicationInactive (h : Inv decode s) (hstop : s.mayStop) :
    Inv decode (s.sends s.session.applicationInactive) := by
  unfold Session.applicationInactive
  split
  · exact h.stopPreview hstop
  · rw [sends_nil]
    exact h

/-- A worker is started. -/
theorem Inv.startWorker (h : Inv decode s) {uuid : String} (huuid : uuid ≠ "" ∧ qsize uuid ≤ 64) :
    Inv decode { s.restarted with session := { s.session with errorCode := none }.startWorker uuid }
    where
  session := ⟨rfl, by rintro ⟨⟩, h.session.devices, by rintro ds ⟨⟩, by rintro ⟨⟩⟩
  worker := ⟨.inl rfl, by simp [System.restarted], by rintro ⟨⟩, by rintro ⟨⟩,
    fun h => absurd rfl h, fun _ h => absurd h List.not_mem_nil, by rintro r ⟨⟩, Int.le_refl 0,
    Int.le_refl 0⟩
  link := ⟨fun _ => ⟨rfl, rfl, rfl⟩, .inr huuid, fun _ h => absurd h List.not_mem_nil, rfl,
    fun _ h => absurd h List.not_mem_nil⟩
  terms := ⟨by rintro ⟨⟩, fun h => absurd rfl h, fun _ _ h => absurd h List.not_mem_nil,
    fun _ h => absurd h List.not_mem_nil⟩
  agrees := ⟨.quiet, .nil, .quiet⟩

/-- The session asks for the devices, or starts a worker if there is none. -/
theorem refreshDevices_eq {t : Session} (hexit : t.expectedExit = false) (uuid : String) :
    (∃ u, SessionOk t → SessionOk u ∧ t.Same u ∧ u.state.phase = t.state.phase ∧
      t.refreshDevices uuid = u.sendCommand .discover) ∨
    (t.process = .notRunning ∧
      t.refreshDevices uuid = ({ t with errorCode := none }.startWorker uuid, [])) := by
  unfold Session.refreshDevices
  by_cases hbusy : t.state = .starting ∨ t.state = .streaming ∨ t.state = .stopping
  · exact .inl ⟨t, fun h => ⟨h, ⟨rfl, rfl, rfl, rfl, rfl, rfl⟩, rfl, if_pos hbusy⟩⟩
  · rw [if_neg hbusy]
    by_cases hnone : t.process = .notRunning
    · exact .inr ⟨hnone, if_pos (.inl hnone)⟩
    · have hquiet : t.state.phase = .quiet := by
        cases hs : t.state <;> simp_all [State.phase]
      refine .inl ⟨{ t with errorCode := none }.setState .discovering, fun h => ?_⟩
      refine ⟨⟨h.expectedExit, by rintro ⟨⟩, h.devices, h.pending, by rintro ⟨⟩⟩,
        ⟨rfl, rfl, rfl, rfl, rfl, rfl⟩, hquiet.symm, if_neg ?_⟩
      simp [hnone, hexit]

theorem Inv.refreshDevices (h : Inv decode s) {uuid : String} {s' : System}
    (hstep : step decode s (.refreshDevices uuid) = some s') : Inv decode s' := by
  simp only [step] at hstep
  split at hstep
  next huuid =>
    rcases refreshDevices_eq h.session.expectedExit uuid with ⟨u, hu⟩ | ⟨hnone, heq⟩
    · obtain ⟨hok, hsame, hphase, heq⟩ := hu h.session
      rw [heq, sendCommand_process, hsame.process, if_neg fun hp => hp.2 hp.1] at hstep
      cases hstep
      exact (h.session_same hok hsame hphase).sendDiscover
    · rw [heq, if_pos ⟨rfl, by simp [hnone]⟩] at hstep
      cases hstep
      rw [sends_nil]
      exact h.startWorker huuid
  · cases hstep

/-- The process of the worker has started. -/
theorem Inv.processStarted (h : Inv decode s) (hprocess : s.session.process = .starting) :
    Inv decode (s.sends s.session.processStarted) := by
  have hid := h.link.identified.resolve_left (by simp [hprocess])
  have hrunning : Inv decode { s with session := { s.session with process := .running } } :=
    ⟨⟨h.session.expectedExit, h.session.errorCode, h.session.devices, h.session.pending,
      h.session.detached⟩, h.worker, ⟨fun hne => absurd rfl hne, .inr hid, h.link.commands,
      h.link.numbered, h.link.records⟩, h.terms.same rfl rfl rfl, by
        obtain ⟨p, hleads, hsettled⟩ := h.agrees
        exact ⟨p, hleads.congr rfl rfl rfl, hsettled⟩⟩
  exact hrunning.sendDiscover

/-- The session reads a record. -/
theorem Inv.receiveRecord (h : Inv decode s) {record : Record} {records : List Record}
    (hrecords : s.records = record :: records) (horder : s.session.lastSequence < record.sequence) :
    (s.session.handleRecord decode record).2 = true ∧
      (s.session.processRecord decode record).process = .running ∧
      Inv decode { s with session := s.session.processRecord decode record, records } := by
  have hrunning : s.session.process = .running := by
    by_contra hne
    exact absurd (h.link.fresh hne).2.2 (by simp [hrecords])
  have hheader := h.link.records record (by simp [hrecords])
  obtain ⟨p, hleads, hsettled⟩ := h.agrees
  have hcoming : s.coming = record.body :: (records ++ s.worker.controlQueue).map (·.body) := by
    rw [System.coming, hrecords]
    rfl
  rw [hcoming] at hleads
  -- The first record on its way is the one that is received.
  cases hleads with
  | cons hnext hrest =>
  obtain ⟨haccept, hok, hsame, hphase⟩ := handleRecord_of_next h.session hheader.protocol
    hheader.session hheader.sequence horder hnext
  have hprocess : s.session.processRecord decode record =
      (s.session.handleRecord decode record).1 := by
    rw [Session.processRecord]
    split
    next heq => rw [heq]
    next heq => rw [heq] at haccept; cases haccept
  have hlink := h.link.same hsame
  rw [hprocess]
  refine ⟨haccept, hsame.process.trans hrunning, hok, hsame.sessionId ▸ h.worker, ?_,
    h.terms.same hsame.attached hsame.granted hsame.deadlineMs, p, ?_, hsettled⟩
  · refine ⟨fun hne => ?_, hlink.identified, hlink.commands, hlink.numbered, fun r hr => ?_⟩
    · exact absurd (hlink.fresh hne).2.2 (by simp [hrecords])
    · exact hlink.records r (by simp [hrecords, hr])
  · rw [hphase]
    exact hrest.congr hsame.deadlineMs hsame.granted hsame.attached

/-! ### Events of the worker -/

/-- The worker changes, and may have handled a command. -/
theorem Inv.worker_step (h : Inv decode s) {w : Worker} {commands : List Command}
    (hrunning : s.session.process = .running) (hw : WorkerOk decode s.session.sessionId w)
    (hcommands : ∀ c ∈ commands, c ∈ s.commands)
    (hnumbered : Numbered w.lastCommandSequence commands s.session.nextCommandSequence)
    (hterms : Terms s.session w (ordersOf commands) s.now)
    (hagrees : ∃ p, s.session.state.phase.Leads decode s.session
        (s.records.map (·.body) ++ w.queued) p ∧
      Settled p (ordersOf commands) w.camera) :
    Inv decode { s with worker := w, commands } where
  session := h.session
  worker := hw
  link := ⟨fun hne => absurd hrunning hne, h.link.identified,
    fun c hc => h.link.commands c (hcommands c hc), hnumbered, h.link.records⟩
  terms := hterms
  agrees := by
    obtain ⟨p, hleads, hsettled⟩ := hagrees
    exact ⟨p, by rwa [coming_eq], hsettled⟩

/-- A record that the worker queues is expected, or dropped without harm. -/
theorem leads_report {p : Phase} {w : Worker} {body : Body} {bs : List Body}
    {orders : List CommandBody}
    (hleads : s.session.state.phase.Leads decode s.session s.coming p)
    (hqueued : w.queued =
      (s.worker.queued ++ if s.worker.controlQueue.length < maxControlRecords then [body] else []) ++ bs)
    (hbs : ∀ b ∈ bs, ∃ ds, b = .devices ds ∧ Session.validDevices ds)
    (hroom : s.controlFull = false →
      ∃ q, p.Next decode s.session body q ∧ Settled q orders w.camera)
    (hfull : s.controlFull = true → Settled p orders w.camera) :
    ∃ q, s.session.state.phase.Leads decode s.session (s.records.map (·.body) ++ w.queued) q ∧
      Settled q orders w.camera := by
  rw [coming_eq] at hleads
  rw [hqueued, ← List.append_assoc, ← List.append_assoc]
  split
  next hlt =>
    obtain ⟨q, hnext, hsettled⟩ := hroom (by simpa [System.controlFull] using hlt)
    exact ⟨q, (hleads.snoc hnext).append (.devices hbs), hsettled⟩
  next hge =>
    rw [List.append_nil]
    exact ⟨p, hleads.append (.devices hbs), hfull (by simpa [System.controlFull] using hge)⟩

/-- A worker with an open camera runs. -/
theorem Link.running (h : Link s) (hcamera : s.worker.camera ≠ .closed) :
    s.session.process = .running := by
  by_contra hne
  rw [(h.fresh hne).1] at hcamera
  exact hcamera rfl

theorem Inv.cameraStarted (h : Inv decode s) (hcamera : s.worker.camera = .opened)
    (hcross : undisturbed s .cameraStarted) :
    Inv decode { s with worker := s.worker.started } := by
  have hopen : s.worker.camera ≠ .closed := by simp [hcamera]
  have hactive : WorkerOk decode s.session.sessionId { s.worker with camera := .active } :=
    ⟨h.worker.sessionId, by simp [h.worker.inProgress, hcamera], fun _ => rfl,
      fun _ => by rintro ⟨⟩, fun _ => h.worker.identified hopen, h.worker.control,
      fun r hr => absurd (h.worker.frame r hr).2.1 (by simp [hcamera]), h.worker.sequence,
      h.worker.lastCommandSequence⟩
  have hqueued := hactive.queueControl (h.worker.sessionId_eq hopen) (.started maxPreviewSeconds)
  have hok : WorkerOk decode s.session.sessionId s.worker.started :=
    ⟨hqueued.sessionId, hqueued.inProgress, fun _ => rfl, hqueued.attached, hqueued.identified,
      hqueued.control, hqueued.frame, hqueued.sequence, hqueued.lastCommandSequence⟩
  obtain ⟨p, hleads, hsettled⟩ := h.agrees
  refine h.worker_step (h.link.running hopen) hok (fun _ hc => hc) h.link.numbered
    ⟨h.terms.attached, fun _ => h.terms.granted hopen, h.terms.starts, h.terms.enrollments⟩ ?_
  rw [hcamera] at hsettled
  have hcross : s.stopOnItsWay = s.controlFull := by simpa [undisturbed] using hcross
  have hbodies : s.worker.started.queued = (s.worker.queued ++
      if s.worker.controlQueue.length < maxControlRecords then [.started maxPreviewSeconds]
      else []) ++ [] := by
    rw [List.append_nil]
    exact queued_queueControl _ _
  refine leads_report hleads hbodies (fun _ hb => absurd hb List.not_mem_nil)
    (fun hroom => ?_) (fun hfull => ?_)
  · rcases hsettled.started with ⟨-, rfl, hnew⟩ | ⟨hstop, -⟩
    · exact ⟨.streaming, .started, hnew⟩
    · rw [hroom] at hcross
      exact absurd hstop (by simpa [System.stopOnItsWay] using hcross)
  · rcases hsettled.started with ⟨hstop, -, -⟩ | ⟨-, hnew⟩
    · rw [hfull] at hcross
      exact absurd (by simpa [System.stopOnItsWay] using hcross) hstop
    · exact hnew

/-- The worker releases the camera on its own and says so. -/
theorem Inv.closes (h : Inv decode s) (hcamera : s.worker.camera ≠ .closed) {body : Body}
    {found : List Device} (hfound : Session.validDevices found)
    (hcross : (!s.expectsStopped && !s.enrollmentOnItsWay) = true)
    (hbody : ∀ p, p = .streaming ∨ p = .starting ∧ s.worker.camera = .opened →
      Phase.Next decode s.session p body .quiet) :
    Inv decode { s with
      worker := (s.worker.release.queueControl body).discoverPending found } := by
  obtain ⟨hok, hsame, bs, hqueued, hbs⟩ := h.worker.release.report
    (h.worker.sessionId_eq hcamera) hfound body
  have hclosed : ((s.worker.release.queueControl body).discoverPending found).camera = .closed :=
    hsame.camera
  obtain ⟨p, hleads, hsettled⟩ := h.agrees
  rw [Bool.and_eq_true, Bool.not_eq_true', Bool.not_eq_true'] at hcross
  have hnone : ∀ deadlineMs, .enrollment deadlineMs ∉ s.orders := by
    intro d hm
    have hall := List.any_eq_false.mp hcross.2 _ hm
    exact hall rfl
  obtain ⟨hends, hquiet⟩ := hsettled.closes hcamera hnone
  refine h.worker_step (h.link.running hcamera) hok (fun _ hc => hc) ?_ ?_
    (leads_report hleads hqueued hbs (fun hroom => ?_) fun _ => ?_)
  · rw [hsame.lastCommandSequence]
    exact h.link.numbered
  · refine ⟨?_, fun hc => absurd hclosed hc, h.terms.starts, ?_⟩
    · rw [hsame.attached]
      rintro ⟨⟩
    · rw [hsame.granted]
      exact h.terms.enrollments
  · have hstop : .stop ∉ s.orders := by
      intro hm
      simp [System.expectsStopped, System.stopOnItsWay, hm, hroom] at hcross
    obtain ⟨horders, hp⟩ := hquiet hstop
    refine ⟨.quiet, hbody p hp, ?_⟩
    change Settled .quiet s.orders _
    rw [hclosed, horders]
    exact .quiet
  · rw [hclosed]
    exact hends

theorem Inv.cameraFailed (h : Inv decode s) (hcamera : s.worker.camera ≠ .closed)
    {found : List Device} (hfound : Session.validDevices found)
    (hcross : undisturbed s (.cameraFailed found)) :
    Inv decode { s with worker := s.worker.failed found } := by
  refine h.closes hcamera hfound hcross fun p hp => .error ?_ rfl (by rintro ⟨⟩)
  exact hp.symm.imp_left And.left

theorem Inv.previewLimit (h : Inv decode s) (hlimit : s.worker.previewLimit = true)
    {found : List Device} (hfound : Session.validDevices found)
    (hcross : undisturbed s (.previewLimit found)) :
    Inv decode { s with worker := s.worker.stopPreview "time-limit" found } := by
  have hactive := h.worker.limit hlimit
  refine h.closes (by simp [hactive]) hfound hcross fun p hp => .stopped (.inl ?_)
  rcases hp with hp | ⟨-, hopened⟩
  · exact hp
  · rw [hactive] at hopened
    cases hopened

theorem Inv.deviceListChanged (h : Inv decode s) (hrunning : s.session.process = .running)
    {found : List Device} (hfound : Session.validDevices found) :
    Inv decode { s with worker := s.worker.discover found } := by
  obtain ⟨hok, hsame, bs, hqueued, hbs⟩ := h.worker.discover hfound
  obtain ⟨p, hleads, hsettled⟩ := h.agrees
  refine h.worker_step hrunning hok (fun _ hc => hc) ?_ ?_ ⟨p, ?_, ?_⟩
  · rw [hsame.lastCommandSequence]
    exact h.link.numbered
  · exact ⟨hsame.attached ▸ h.terms.attached, hsame.camera ▸ hsame.granted ▸ h.terms.granted,
      h.terms.starts, hsame.granted ▸ h.terms.enrollments⟩
  · rw [coming_eq] at hleads
    rw [hqueued, ← List.append_assoc]
    exact hleads.append (.devices hbs)
  · rw [hsame.camera]
    exact hsettled

theorem Inv.frameReady (h : Inv decode s) (hactive : s.worker.camera = .active) {frame : Frame}
    {jpeg : List UInt8} (hgood : wellFormedFrame decode frame jpeg) :
    Inv decode { s with worker := s.worker.frameReady frame jpeg } := by
  have hopen : s.worker.camera ≠ .closed := by simp [hactive]
  simp only [wellFormedFrame, Bool.and_eq_true, Bool.or_eq_true, decide_eq_true_eq] at hgood
  obtain ⟨⟨⟨⟨hw, hw'⟩, hh⟩, hh'⟩, hjpeg⟩ := hgood
  -- Only the frame that waits is replaced.
  have hqueue : ∀ f : Frame, (∀ d : ℕ, ({ f with dropped := d } : Frame).good decode) →
      (f.shm → s.worker.attached = true) → Inv decode { s with worker := s.worker.queueFrame f } := by
    intro f hf hshm
    obtain ⟨p, hleads, hsettled⟩ := h.agrees
    refine h.worker_step (h.link.running hopen) ?_ (fun _ hc => hc) h.link.numbered
      ⟨h.terms.attached, h.terms.granted, h.terms.starts, h.terms.enrollments⟩
      ⟨p, by rwa [coming_eq] at hleads, hsettled⟩
    refine ⟨h.worker.sessionId, h.worker.inProgress, h.worker.limit, h.worker.attached,
      h.worker.identified, h.worker.control, ?_, Int.le_add_one h.worker.sequence,
      h.worker.lastCommandSequence⟩
    intro r hr
    cases hr
    exact ⟨h.worker.header (h.worker.sessionId_eq hopen) _, hactive, _, rfl, hf _, hshm⟩
  unfold Worker.frameReady
  split
  next hattached =>
    exact hqueue _ (fun d => ⟨⟨hw, hw'⟩, ⟨hh, hh'⟩, Int.natCast_nonneg d, .inl rfl⟩)
      fun _ => hattached
  · split
    · exact h
    next hne =>
      obtain ⟨hlen, hdecode⟩ := hjpeg.resolve_left hne
      exact hqueue _ (fun d => ⟨⟨hw, hw'⟩, ⟨hh, hh'⟩, Int.natCast_nonneg d,
        .inr ⟨jpeg, rfl, hne, hlen, hdecode⟩⟩) (by rintro ⟨⟩)

/-- A control record is written first, and then the frame. -/
theorem flushOutput_cases {w w' : Worker} {record : Record}
    (h : w.flushOutput = some (w', record)) :
    (∃ queue, w.controlQueue = record :: queue ∧ w' = { w with controlQueue := queue }) ∨
      (w.controlQueue = [] ∧ w.pendingFrame = some record ∧ w' = { w with pendingFrame := none }) := by
  unfold Worker.flushOutput at h
  rcases hcontrol : w.controlQueue with _ | ⟨r, queue⟩
  · rcases hframe : w.pendingFrame with _ | r
    · rw [hcontrol, hframe] at h
      cases h
    · rw [hcontrol, hframe] at h
      cases h
      exact .inr ⟨rfl, rfl, rfl⟩
  · rw [hcontrol] at h
    cases h
    exact .inl ⟨queue, rfl, rfl⟩

/-- The worker writes a record. -/
theorem Inv.flushOutput (h : Inv decode s) {w : Worker} {record : Record}
    (hflush : s.worker.flushOutput = some (w, record)) (hcross : undisturbed s .flushOutput) :
    Inv decode { s with worker := w, records := s.records ++ [record] } := by
  obtain ⟨p, hleads, hsettled⟩ := h.agrees
  have hrunning : s.session.process = .running := by
    by_contra hne
    rw [(h.link.fresh hne).1] at hflush
    cases hflush
  have hlink : Header s.session.sessionId record → ∀ r ∈ s.records ++ [record],
      Header s.session.sessionId r := by
    intro hheader r hr
    rcases List.mem_append.mp hr with hr | hr
    · exact h.link.records r hr
    · rw [List.mem_singleton.mp hr]
      exact hheader
  rcases flushOutput_cases hflush with ⟨queue, hcontrol, rfl⟩ | ⟨hcontrol, hframe, rfl⟩
  · -- A control record moves from the queue to the pipe: the same is on its way.
    have hheader := h.worker.control record (by simp [hcontrol])
    refine ⟨h.session, ⟨h.worker.sessionId, h.worker.inProgress, h.worker.limit,
      h.worker.attached, h.worker.identified, ?_, h.worker.frame, h.worker.sequence,
      h.worker.lastCommandSequence⟩, ⟨fun hne => absurd hrunning hne, h.link.identified,
      h.link.commands, h.link.numbered, hlink hheader⟩, ⟨h.terms.attached, h.terms.granted,
      h.terms.starts, h.terms.enrollments⟩, p, ?_, hsettled⟩
    · intro r hr
      exact h.worker.control r (by simp [hcontrol, hr])
    · have hcoming : System.coming { s with
          worker := { s.worker with controlQueue := queue }
          records := s.records ++ [record] } = s.coming := by
        simp [System.coming, hcontrol]
      rw [hcoming]
      exact hleads
  · -- A frame is new on its way, and the queue before it is empty.
    obtain ⟨hheader, hactive, f, hbody, hgood, hshm⟩ := h.worker.frame record hframe
    rw [hactive] at hsettled
    -- The frame is in the shared memory, which the session has mapped unless a stop is on its way.
    have hattached : f.shm → s.session.attached := by
      intro hf
      refine (h.terms.attached (hshm hf)).resolve_right fun hstop => ?_
      simp [undisturbed, System.stopOnItsWay, hstop, hcontrol, hframe, hbody, Body.unexpected, hf]
        at hcross
    refine ⟨h.session, ⟨h.worker.sessionId, h.worker.inProgress, h.worker.limit,
      h.worker.attached, h.worker.identified, h.worker.control, by rintro r ⟨⟩, h.worker.sequence,
      h.worker.lastCommandSequence⟩, ⟨fun hne => absurd hrunning hne, h.link.identified,
      h.link.commands, h.link.numbered, hlink hheader⟩, ⟨h.terms.attached, h.terms.granted,
      h.terms.starts, h.terms.enrollments⟩, p, ?_, ?_⟩
    · have hcoming : System.coming { s with
          worker := { s.worker with pendingFrame := none }
          records := s.records ++ [record] } = s.coming ++ [Body.frame f] := by
        simp [System.coming, hcontrol, hbody]
      rw [hcoming]
      exact hleads.snoc (.frame hsettled.frames hgood hattached)
    · change Settled p s.orders s.worker.camera
      rwa [hactive]

/-- A command of the session is in order for its worker. -/
theorem handleCommand_eq {w : Worker} {id : String} {now : ℤ} {command : Command}
    (around : Surroundings) (hid : id ≠ "" ∧ qsize id ≤ 64) (hprotocol : command.protocol = version)
    (hsession : command.session = id) (hsequence : command.sequence = w.lastCommandSequence + 1)
    (hlast : 0 ≤ w.lastCommandSequence) (hw : w.sessionId = "" ∨ w.sessionId = id) :
    w.handleCommand now command around =
      { w with sessionId := id, lastCommandSequence := command.sequence }.perform now command.body
        around := by
  have hnamed : (if w.sessionId = "" then { w with sessionId := command.session } else w) =
      { w with sessionId := id } := by
    rcases hw with hw | hw
    · rw [if_pos hw, hsession]
    · rw [if_neg (hw ▸ hid.1), ← hw]
  unfold Worker.handleCommand
  rw [if_neg]
  · dsimp only
    rw [hnamed, if_neg (not_not.mpr hsession)]
  · rintro (h | h | h | h | h)
    · exact h hprotocol
    · exact hid.1 (hsession ▸ h)
    · rw [hsession] at h
      omega
    · omega
    · omega

/-- The worker, as `w`, has taken a command from the pipe. -/
structure Taken (decode : List UInt8 → Option (ℤ × ℤ)) (s : System) (w : Worker)
    (body : CommandBody) (commands : List Command) : Prop where
  running : s.session.process = .running
  ok : WorkerOk decode s.session.sessionId w
  named : w.sessionId = s.session.sessionId
  camera : w.camera = s.worker.camera
  control : w.controlQueue = s.worker.controlQueue
  attached : w.attached = s.worker.attached
  granted : w.enrollmentBudgetGranted = s.worker.enrollmentBudgetGranted
  deadlineMs : w.deadlineMs = s.worker.deadlineMs
  mem : ∀ c ∈ commands, c ∈ s.commands
  numbered : Numbered w.lastCommandSequence commands s.session.nextCommandSequence
  orders : s.orders = [body].filter (· ≠ .discover) ++
    ordersOf commands

section

variable {w : Worker} {commands : List Command} {around : Surroundings}

theorem Taken.orders_eq {body : CommandBody} (h : Taken decode s w body commands)
    (hne : body ≠ .discover) : s.orders = body :: ordersOf commands := by
  rw [h.orders, List.filter_cons_of_pos (by simpa using hne)]
  rfl

theorem Inv.performs_discover (h : Inv decode s) (ht : Taken decode s w .discover commands)
    (hfound : Session.validDevices around.found) :
    Inv decode { s with worker := w.discover around.found, commands } := by
  obtain ⟨p, hleads, hsettled⟩ := h.agrees
  obtain ⟨hok, hsame, bs, hqueued, hbs⟩ := ht.ok.discover hfound
  have horders : ordersOf commands = s.orders := ht.orders.symm
  refine h.worker_step ht.running hok ht.mem (hsame.lastCommandSequence ▸ ht.numbered) ?_ ⟨p, ?_, ?_⟩
  · rw [horders]
    refine ⟨?_, ?_, h.terms.starts, ?_⟩
    · rw [hsame.attached, ht.attached]
      exact h.terms.attached
    · rw [hsame.camera, hsame.granted, ht.camera, ht.granted]
      exact h.terms.granted
    · rw [hsame.granted, ht.granted]
      exact h.terms.enrollments
  · rw [coming_eq, Worker.queued, ← ht.control] at hleads
    rw [hqueued, ← List.append_assoc]
    exact hleads.append (.devices hbs)
  · rw [hsame.camera, horders, ht.camera]
    exact hsettled

/-- The worker ends a preview, or does not begin it, and says so. -/
theorem Inv.performs_report (h : Inv decode s) {body : CommandBody} {report : Body} {v : Worker}
    {p : Phase} (ht : Taken decode s w body commands) (hfound : Session.validDevices around.found)
    (hv : WorkerOk decode s.session.sessionId v) (hid : v.sessionId = s.session.sessionId)
    (hlast : v.lastCommandSequence = w.lastCommandSequence)
    (hcontrol : v.controlQueue = s.worker.controlQueue) (hclosed : v.camera = .closed)
    (hattached : v.attached = false)
    (hgranted : v.enrollmentBudgetGranted = true → s.worker.enrollmentBudgetGranted = true)
    (hleads : s.session.state.phase.Leads decode s.session s.coming p)
    (hroom : s.controlFull = false → ∃ q, p.Next decode s.session report q ∧
      Settled q (ordersOf commands) .closed)
    (hfull : s.controlFull = true →
      Settled p (ordersOf commands) .closed) :
    Inv decode { s with
      worker := (v.queueControl report).discoverPending around.found, commands } := by
  obtain ⟨hok, hsame, bs, hqueued, hbs⟩ := hv.report hid hfound report
  have hcamera := hsame.camera.trans hclosed
  have hsub : ∀ c ∈ ordersOf commands, c ∈ s.orders := by
    intro c hc
    rw [ht.orders]
    exact List.mem_append_right _ hc
  refine h.worker_step ht.running hok ht.mem ?_ ?_ ?_
  · rw [hsame.lastCommandSequence, hlast]
    exact ht.numbered
  · refine ⟨?_, fun hc => absurd hcamera hc, ?_, ?_⟩
    · rw [hsame.attached, hattached]
      rintro ⟨⟩
    · exact fun device deadlineMs hm => h.terms.starts device deadlineMs (hsub _ hm)
    · intro deadlineMs hm
      obtain ⟨hg, hd, hw, hmax⟩ := h.terms.enrollments deadlineMs (hsub _ hm)
      refine ⟨hg, hd, ?_, hmax⟩
      rw [hsame.granted]
      by_contra hne
      rw [Bool.not_eq_false] at hne
      exact absurd (hgranted hne) (by simp [hw])
  · rw [Worker.queued, Worker.queued, hcontrol] at hqueued
    exact leads_report hleads hqueued hbs (hcamera ▸ hroom) (hcamera ▸ hfull)

theorem Inv.performs_stop (h : Inv decode s) (ht : Taken decode s w .stop commands)
    (hfound : Session.validDevices around.found) :
    Inv decode { s with worker := w.stopPreview "requested" around.found, commands } := by
  obtain ⟨p, hleads, hsettled⟩ := h.agrees
  rw [ht.orders_eq (by rintro ⟨⟩)] at hsettled
  obtain ⟨rfl, horders⟩ := hsettled.stop
  refine h.performs_report ht hfound ht.ok.release ht.named rfl ht.control rfl rfl
    (fun hg => ht.granted ▸ hg) hleads (fun _ => ⟨.quiet, .stopped (.inr rfl), ?_⟩) fun _ => ?_
  · rw [horders]
    exact .quiet
  · rw [horders]
    exact .released

theorem CameraError.code_spec (error : CameraError) :
    error.code.allowed = true ∧ error.code ≠ .protocolError := by
  cases error <;> decide

theorem Inv.performs_start (h : Inv decode s) {device : String} {deadlineMs : ℤ}
    (ht : Taken decode s w (.start device deadlineMs) commands)
    (hfound : Session.validDevices around.found) (hnow : s.now < deadlineMs)
    (hcross : around.refused.isNone = true ∨ s.expectsStopped = false)
    (hattach : around.attach = true → s.session.attached = true)
    (hid : s.session.sessionId ≠ "") :
    Inv decode { s with worker := w.perform s.now (.start device deadlineMs) around, commands } := by
  obtain ⟨p, hleads, hsettled⟩ := h.agrees
  have horders := ht.orders_eq (by rintro ⟨⟩)
  rw [horders] at hsettled
  obtain ⟨hclosed, hopened, hrefused, hquiet⟩ := hsettled.start
  have hcamera := ht.camera.trans hclosed
  obtain ⟨hne, hsize, hmax⟩ := h.terms.starts device deadlineMs (by simp [horders])
  have hidle : w.previewInProgress = false := by
    by_contra hin
    exact absurd hcamera (ht.ok.inProgress.mp (by simpa using hin))
  have hlimit : w.previewLimit = false := by
    by_contra hon
    exact absurd (ht.ok.limit (by simpa using hon)) (by simp [hcamera])
  have hnamed : w.sessionId ≠ "" := ht.named ▸ hid
  simp only [Worker.perform]
  rw [if_pos ⟨by simp [validDeadline, hnow, hmax], hne, hsize⟩, Worker.startPreview,
    if_neg (by simp [hidle])]
  rcases hopen : around.refused with _ | error
  · -- The camera is open.
    simp only [if_neg hnamed]
    refine h.worker_step ht.running ⟨ht.ok.sessionId, by simp, by simp [hlimit],
      fun _ => by rintro ⟨⟩, fun _ => hnamed, ht.ok.control, by rintro r ⟨⟩, ht.ok.sequence,
      ht.ok.lastCommandSequence⟩ ht.mem ht.numbered
      ⟨fun ha => .inl (hattach ha), fun _ => by rintro ⟨⟩, ?_, ?_⟩ ⟨p, ?_, hopened⟩
    · exact fun d t hm => h.terms.starts d t (by simp [horders, hm])
    · intro t hm
      obtain ⟨hg, hd, -, hbound⟩ := h.terms.enrollments t (by simp [horders, hm])
      exact ⟨hg, hd, rfl, hbound⟩
    · rw [coming_eq, Worker.queued, ← ht.control] at hleads
      exact hleads
  · -- The camera could not be opened.
    simp only
    obtain ⟨hallowed, hcode⟩ := error.code_spec
    have hstop : s.expectsStopped = false := hcross.resolve_left (by simp [hopen])
    refine h.performs_report ht hfound ⟨ht.ok.sessionId, by simp, by simp [hlimit], by rintro ⟨⟩,
      fun hc => absurd rfl hc, ht.ok.control, by rintro r ⟨⟩, ht.ok.sequence,
      ht.ok.lastCommandSequence⟩ ht.named rfl ht.control rfl rfl (by rintro ⟨⟩) hleads
      (fun hroom => ?_) fun _ => hrefused
    -- The error is no answer to a stop, for none is on its way.
    have hnone : .stop ∉ ordersOf commands := by
      intro hm
      simp [System.expectsStopped, System.stopOnItsWay, horders, hm, hroom] at hstop
    obtain ⟨hempty, rfl⟩ := hquiet hnone
    refine ⟨.quiet, .error (.inl rfl) hallowed hcode, ?_⟩
    rw [hempty]
    exact .quiet

theorem Inv.performs_enrollment (h : Inv decode s) {deadlineMs : ℤ}
    (ht : Taken decode s w (.enrollment deadlineMs) commands) (hnow : s.now < deadlineMs)
    (hlate : s.now < s.worker.deadlineMs) :
    Inv decode { s with worker := w.perform s.now (.enrollment deadlineMs) around, commands } := by
  obtain ⟨p, hleads, hsettled⟩ := h.agrees
  have horders := ht.orders_eq (by rintro ⟨⟩)
  rw [horders] at hsettled
  obtain ⟨hactive, hgoes, hp, hlast⟩ := hsettled.enrollment
  have hcamera := ht.camera.trans hactive
  obtain ⟨hgranted, hdeadline, hworker, hmax⟩ := h.terms.enrollments deadlineMs (by simp [horders])
  simp only [Worker.perform]
  rw [if_pos ⟨hcamera, by simp [ht.granted, hworker], by rw [ht.deadlineMs]; exact hlate,
    by simp [validDeadline, hnow, hmax]⟩]
  have hok : WorkerOk decode s.session.sessionId { w with
      enrollmentBudgetGranted := true, deadlineMs, previewLimit := true } :=
    ⟨ht.ok.sessionId, ht.ok.inProgress, fun _ => hcamera, ht.ok.attached, ht.ok.identified,
      ht.ok.control, ht.ok.frame, ht.ok.sequence, ht.ok.lastCommandSequence⟩
  have hbodies : ({ w with enrollmentBudgetGranted := true, deadlineMs, previewLimit := true }
      |>.queueControl (.budget deadlineMs)).queued = (s.worker.queued ++
        if s.worker.controlQueue.length < maxControlRecords then [.budget deadlineMs] else []) ++
      [] := by
    rw [queued_queueControl, List.append_nil]
    simp only [Worker.queued, ht.control]
  refine h.worker_step ht.running (hok.queueControl ht.named _) ht.mem ht.numbered
    ⟨fun ha => ?_, fun _ _ => hgranted, ?_, fun d hm => absurd hm (hlast d)⟩ ?_
  · refine (h.terms.attached (ht.attached ▸ ha)).imp_right fun hstop => ?_
    simpa [horders] using hstop
  · exact fun d t hm => h.terms.starts d t (by simp [horders, hm])
  · refine leads_report hleads hbodies (fun _ hb => absurd hb List.not_mem_nil)
      (fun _ => ⟨p, .budget hp hgranted hdeadline, ?_⟩) fun _ => ?_
    · exact hcamera ▸ hgoes
    · exact hcamera ▸ hgoes

end

/-- The worker handles a command. -/
theorem Inv.receiveCommand (h : Inv decode s) {around : Surroundings} {command : Command}
    {commands : List Command} (hfound : Session.validDevices around.found)
    (hcommands : s.commands = command :: commands)
    (hcross : undisturbed s (.receiveCommand around))
    (hattach : around.attach = true → s.session.attached = true) :
    Inv decode { s with worker := s.worker.handleCommand s.now command around, commands } := by
  have hrunning : s.session.process = .running := by
    by_contra hne
    have hnone := (h.link.fresh hne).2.1
    rw [hcommands] at hnone
    cases hnone
  have hid := h.link.identified.resolve_left (by simp [hrunning])
  obtain ⟨hprotocol, hsession⟩ := h.link.commands command (by simp [hcommands])
  have hlast := h.worker.lastCommandSequence
  have hnumbered := h.link.numbered
  rw [hcommands] at hnumbered
  obtain ⟨hsequence, hrest⟩ := hnumbered
  rw [handleCommand_eq around hid hprotocol hsession hsequence hlast h.worker.sessionId]
  have hpos : 0 ≤ command.sequence := by omega
  have ht : Taken decode s { s.worker with
      sessionId := s.session.sessionId, lastCommandSequence := command.sequence } command.body
      commands := by
    refine ⟨hrunning, ⟨.inr rfl, h.worker.inProgress, h.worker.limit, h.worker.attached,
      fun _ => hid.1, h.worker.control, h.worker.frame, h.worker.sequence, hpos⟩, rfl, rfl, rfl, rfl,
      rfl, rfl, fun c hc => by simp [hcommands, hc], hsequence ▸ hrest, ?_⟩
    rw [System.orders, hcommands, ordersOf, ordersOf, ← List.filter_append]
    rfl
  simp only [undisturbed, hcommands] at hcross
  rcases hbody : command.body with _ | ⟨device, deadlineMs⟩ | deadlineMs | _
  · exact h.performs_discover (hbody ▸ ht) hfound
  · simp only [hbody, Bool.and_eq_true, decide_eq_true_eq, Bool.or_eq_true, Bool.not_eq_true']
      at hcross
    exact h.performs_start (hbody ▸ ht) hfound hcross.1 hcross.2 hattach hid.1
  · simp only [hbody, Bool.and_eq_true, decide_eq_true_eq] at hcross
    exact h.performs_enrollment (hbody ▸ ht) hcross.1 hcross.2
  · exact h.performs_stop (hbody ▸ ht) hfound

/-! ### All events -/

/-- A step without a crossing keeps the invariant. -/
theorem Inv.step (h : Inv decode s) {event : Event} {s' : System}
    (hcross : undisturbed s event) (horder : inOrder s event)
    (hstep : step decode s event = some s') : Inv decode s' := by
  cases event with
  | refreshDevices uuid => exact h.refreshDevices hstep
  | processStarted =>
    simp only [Preview.step] at hstep
    split at hstep
    next hprocess => cases hstep; exact h.processStarted hprocess
    · cases hstep
  | setSelectedDeviceIndex index =>
    cases hstep
    exact h.session_same ⟨h.session.expectedExit, h.session.errorCode, h.session.devices,
      h.session.pending, h.session.detached⟩ ⟨rfl, rfl, rfl, rfl, rfl, rfl⟩ rfl
  | startPreview created => cases hstep; exact h.startPreview _
  | stopPreview => cases hstep; exact h.stopPreview hcross
  | beginEnrollmentBudget => cases hstep; exact h.beginEnrollmentBudget hcross
  | countdown =>
    simp only [Preview.step] at hstep
    split at hstep
    · cases hstep; exact h.countdown hcross
    · cases hstep
  | applicationInactive => cases hstep; exact h.applicationInactive hcross
  | receiveRecord =>
    simp only [Preview.step] at hstep
    split at hstep
    · cases hstep
    next record records hrecords =>
      have hnext : s.session.lastSequence < record.sequence := by
        simpa [inOrder, hrecords] using horder
      obtain ⟨-, hrunning, hinv⟩ := h.receiveRecord hrecords hnext
      rw [if_neg (by simp [hrunning])] at hstep
      cases hstep
      exact hinv
  | receiveCommand around =>
    simp only [Preview.step] at hstep
    split at hstep
    next hfound =>
      split at hstep
      · cases hstep
      next command commands hcommands =>
        cases hstep
        exact h.receiveCommand hfound hcommands hcross fun ha => by
          simpa using (Bool.and_eq_true _ _ ▸ ha).2
    · cases hstep
  | cameraStarted =>
    simp only [Preview.step] at hstep
    split at hstep
    next hcamera => cases hstep; exact h.cameraStarted hcamera hcross
    · cases hstep
  | frameReady frame jpeg =>
    simp only [Preview.step] at hstep
    split at hstep
    next hframe => cases hstep; exact h.frameReady hframe.1 hframe.2
    · cases hstep
  | cameraFailed found =>
    simp only [Preview.step] at hstep
    split at hstep
    next hcamera => cases hstep; exact h.cameraFailed hcamera.1 hcamera.2 hcross
    · cases hstep
  | deviceListChanged found =>
    simp only [Preview.step] at hstep
    split at hstep
    next hfound => cases hstep; exact h.deviceListChanged hfound.1 hfound.2
    · cases hstep
  | previewLimit found =>
    simp only [Preview.step] at hstep
    split at hstep
    next hlimit => cases hstep; exact h.previewLimit hlimit.1 hlimit.2 hcross
    · cases hstep
  | flushOutput =>
    simp only [Preview.step] at hstep
    split at hstep
    · cases hstep
    next hflush => cases hstep; exact h.flushOutput hflush hcross
  | tick milliseconds =>
    cases hstep
    refine ⟨h.session, h.worker, ⟨h.link.fresh, h.link.identified, h.link.commands,
      h.link.numbered, h.link.records⟩, ⟨h.terms.attached, h.terms.granted, ?_, ?_⟩, h.agrees⟩
    · intro device deadlineMs hm
      obtain ⟨hne, hsize, hmax⟩ := h.terms.starts device deadlineMs hm
      exact ⟨hne, hsize, by simp only; omega⟩
    · intro deadlineMs hm
      obtain ⟨hg, hd, hw, hmax⟩ := h.terms.enrollments deadlineMs hm
      exact ⟨hg, hd, hw, by simp only; omega⟩

/-- In every state of a run without a crossing the session accepts the next
    record, has not shown a broken protocol and has not killed its worker. -/
theorem accepts_of_reachable
    (h : ((machine decode).restrict fun s e => undisturbed s e && inOrder s e).Reachable s) :
    (∀ record records, s.records = record :: records →
        s.session.lastSequence < record.sequence →
        (s.session.handleRecord decode record).2 = true) ∧
      s.session.errorCode ≠ some .protocolError ∧ s.session.expectedExit = false := by
  have hinv : Inv decode s := by
    refine h.inv_restrict inv_init fun s event s' hs hp hstep => ?_
    rw [Bool.and_eq_true] at hp
    exact hs.step hp.1 hp.2 hstep
  exact ⟨fun record records hrecords horder => (hinv.receiveRecord hrecords horder).1,
    hinv.session.errorCode, hinv.session.expectedExit⟩

end

/-! ## Runs -/

/-- A camera, found and opened. -/
def oneCamera : Surroundings := ⟨[⟨"c1", "Camera", .rgb⟩], none, true⟩

/-- A preview of the camera that is found is started. -/
def startsPreview : List Event :=
  [.refreshDevices "session", .processStarted, .receiveCommand oneCamera, .flushOutput,
    .receiveRecord, .startPreview true, .receiveCommand oneCamera, .cameraStarted]

/-- A frame is shown, and then the preview is stopped. -/
def showsAndStops : List Event :=
  startsPreview ++ ([.flushOutput, .receiveRecord,
    .frameReady ⟨false, none, none, 640, 480, .rgb, 0⟩ [], .flushOutput, .receiveRecord,
    .stopPreview, .receiveCommand oneCamera, .flushOutput] : List Event)

theorem accepts_of_reachable_stopped :
    ∃ s record, ((machine fun _ => none).restrict fun s e => undisturbed s e && inOrder s e).run {}
        showsAndStops = some s ∧
      s.records = [record] ∧ record.body = .stopped "requested" true ∧
      (s.session.handleRecord (fun _ => none) record).2 = true := by
  obtain ⟨s, hs⟩ : ∃ s, ((machine fun _ => none).restrict fun s e =>
      undisturbed s e && inOrder s e).run {} showsAndStops = some s := ⟨_, rfl⟩
  have hrecords : (((machine fun _ => none).restrict fun s e => undisturbed s e && inOrder s e).run {}
      showsAndStops).map (fun s => (s.records, decide (s.session.lastSequence < 4))) =
      some ([⟨version, "session", 4, .stopped "requested" true⟩], true) := rfl
  rw [hs, Option.map_some, Option.some_inj, Prod.mk.injEq, decide_eq_true_eq] at hrecords
  obtain ⟨haccepts, -, -⟩ := accepts_of_reachable (Machine.Reachable.init.run hs)
  exact ⟨s, _, hs, hrecords.1, rfl, haccepts _ [] hrecords.1 hrecords.2⟩

/-- The session stops the preview when `started` is on its way, and takes the
    worker for broken. -/
theorem refuses_started_after_stop :
    ∃ s, (machine fun _ => none).run {} (startsPreview ++ [Event.stopPreview, Event.flushOutput]) = some s ∧
      (s.records.map (·.body) = [.started maxPreviewSeconds] ∧
        s.records.all (s.session.lastSequence < ·.sequence) = true ∧
        (s.records.all fun record => (s.session.handleRecord (fun _ => none) record).2) = false) ∧
      ((machine fun _ => none).step s .receiveRecord).map
        (fun s => (s.session.state, s.session.errorCode, s.session.process)) =
        some (.failed, some .protocolError, .notRunning) :=
  ⟨_, rfl, ⟨rfl, rfl, rfl⟩, rfl⟩

end Preview

end KFaceAuth
