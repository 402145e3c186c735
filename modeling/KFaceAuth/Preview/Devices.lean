import KFaceAuth.Lib.Machine
import KFaceAuth.Preview.Session

/-!
# The cameras that the session offers

A session shows the list of the cameras of its worker, and keeps which of them
was chosen. A list that comes during a preview is parked until the preview is
over. The session is run here against any records at all (`View.machine`), with
what it was told and what was chosen recorded beside it.

* `devices_of_reachable`: when the session is ready, it shows the list of the
  last valid record, and no record is applied twice or after a newer one, if the
  session does not fail while a list is parked and its worker goes on;
* `selection_of_reachable`: the selected camera is the one that was chosen, and
  no other camera is ever started.
-/

namespace KFaceAuth

namespace Preview

/-! ## Failures of the session -/

namespace Session

/-- `setSelectedDeviceIndex`, of any index. -/
def setSelectedIndex (s : Session) (index : ℤ) : Session :=
  if index < 0 then { s with selectedDeviceIndex := none }
  else s.setSelectedDeviceIndex index.toNat

/-- The session fails and ends its worker: a timer has run out, the stream is
    broken, or a command could not be written. -/
def abort (s : Session) (code : ErrorCode) : Session := (s.fail code).terminateWorker

/-- `QProcess::errorOccurred`. -/
def processError (s : Session) : Session :=
  if s.expectedExit then s else s.fail .workerCrashed

/-- `QProcess::finished`. -/
def processFinished (s : Session) : Session :=
  let s' := { s with process := .notRunning }
  if !s.expectedExit ∧ s.state ≠ .failed then s'.fail .workerCrashed else s'

/-- `handleRecord` gets to the body of the record. -/
def Announces (s : Session) (record : Record) : Prop :=
  record.protocol = version ∧ record.session = s.sessionId ∧ 0 < record.sequence ∧
    s.lastSequence < record.sequence

instance (s : Session) (record : Record) : Decidable (s.Announces record) := by
  unfold Announces
  infer_instance

/-- A preview is starting, running or ending. -/
def InPreview (s : Session) : Prop :=
  s.state = .starting ∨ s.state = .streaming ∨ s.state = .stopping

instance (s : Session) : Decidable s.InPreview := by
  unfold InPreview
  infer_instance

/-- `refreshDevices` starts a new worker. -/
def Restarts (s : Session) : Prop := ¬ s.InPreview ∧ (s.process = .notRunning ∨ s.expectedExit)

instance (s : Session) : Decidable s.Restarts := by
  unfold Restarts
  infer_instance

end Session

/-! ## The session under observation -/

/-- A session, with what it was told and what was chosen. -/
structure View where
  session : Session := {}
  /-- The workers started so far. -/
  workers : ℕ := 0
  /-- The list of the last valid record of the current worker. -/
  received : Option (List Device) := none
  /-- The worker and the sequence number of the parked record. -/
  parked : ℕ × ℤ := (0, 0)
  /-- The records whose list was put in place, in this order. -/
  applied : List (ℕ × ℤ) := []
  /-- The cameras of the very first discovery. -/
  first : Option (List Device) := none
  /-- The token that was last selected explicitly. -/
  explicit : Option String := none
  /-- The commands sent, each with the token that was chosen then. -/
  sent : List (Command × Option String) := []
  deriving DecidableEq, Repr

namespace View

inductive Event
  | refreshDevices (uuid : String)
  | processStarted
  | setSelectedDeviceIndex (index : ℤ)
  | startPreview (now : ℤ) (created : Bool)
  | stopPreview
  | beginEnrollmentBudget (now : ℤ)
  | countdown (now : ℤ)
  | applicationInactive
  | record (record : Record)
  | abort (code : ErrorCode)
  | processError
  | processFinished

/-- The token of the only camera of the very first discovery. -/
def onlyFirst (v : View) : Option String :=
  match v.first with
  | some [device] => some device.token
  | _ => none

/-- The token that was last selected explicitly, or else that of the only
    camera of the very first discovery. -/
def chosen (v : View) : Option String := v.explicit.or v.onlyFirst

/-- The session has done something, and sent commands. -/
def sends (v : View) (r : Session × List Command) : View :=
  { v with session := r.1, sent := v.sent ++ r.2.map (·, v.chosen) }

/-- The token at an index of the list that is shown, if there is a camera at it. -/
def tokenAt (v : View) (index : ℤ) : Option String :=
  if index < 0 then none else v.session.devices[index.toNat]?.map (·.token)

/-- `setSelectedDeviceIndex`; the camera at the index is the one that was asked for,
    and there is none at an index out of range. -/
def select (v : View) (index : ℤ) : View :=
  { v with session := v.session.setSelectedIndex index, explicit := (v.tokenAt index).or v.explicit }

/-- The list of a record is put in place. -/
def applies (v : View) (id : ℕ × ℤ) (devices : List Device) : View :=
  { v with applied := v.applied ++ [id], first := v.first.or (some devices) }

/-- What a record tells. -/
def notes (v : View) (record : Record) : View :=
  if v.session.Announces record then
    match record.body with
    | .devices devices =>
      if !Session.validDevices devices then v
      else if v.session.InPreview then
        { v with received := some devices, parked := (v.workers, record.sequence) }
      else { v with received := some devices }.applies (v.workers, record.sequence) devices
    | .stopped _ _ =>
      if v.session.state ≠ .stopping ∧ v.session.state ≠ .streaming then v
      else
        match v.session.pendingDevices with
        | some devices =>
          if Session.validDevices devices then v.applies v.parked devices else v
        | none => v
    | _ => v
  else v

section

variable (decode : List UInt8 → Option (ℤ × ℤ))

/-- An event. Records are read from a worker that is not being ended. -/
def step (v : View) : Event → Option View
  | .refreshDevices uuid =>
    let r := v.session.refreshDevices uuid
    if v.session.Restarts then
      some { v.sends r with workers := v.workers + 1, received := none }
    else some (v.sends r)
  | .processStarted =>
    if v.session.process = .starting then some (v.sends v.session.processStarted) else none
  | .setSelectedDeviceIndex index => some (v.select index)
  | .startPreview now created => some (v.sends (v.session.startPreview now created))
  | .stopPreview => some (v.sends v.session.stopPreview)
  | .beginEnrollmentBudget now => some (v.sends (v.session.beginEnrollmentBudget now))
  | .countdown now => some (v.sends (v.session.countdown now))
  | .applicationInactive => some (v.sends v.session.applicationInactive)
  | .record record =>
    if v.session.process = .notRunning then none
    else some { v.notes record with session := v.session.processRecord decode record }
  | .abort code => some { v with session := v.session.abort code }
  | .processError => some { v with session := v.session.processError }
  | .processFinished => some { v with session := v.session.processFinished }

/-- A session, in any order of events. -/
def machine : Machine View Event := ⟨{}, step decode⟩

end

end View

/-! ## What the operations leave alone -/

namespace Session

variable {s s' : Session}

/-- A camera may be started, or one is in use. -/
def Settled (s : Session) : Prop := s.state = .ready ∨ s.InPreview

/-- An operation has not touched the cameras, and has not brought the session
    to where it may be only by a record. -/
structure Quiet (s s' : Session) : Prop where
  devices : s'.devices = s.devices
  pending : s'.pendingDevices = s.pendingDevices
  sequence : s'.lastSequence = s.lastSequence
  initial : s'.initialDiscovery = s.initialDiscovery
  selected : s'.selectedDeviceIndex = s.selectedDeviceIndex
  settled : s'.Settled → s.Settled
  process : s'.process ≠ .notRunning ↔ s.process ≠ .notRunning
  expected : s'.expectedExit = s.expectedExit

theorem Quiet.refl (s : Session) : Quiet s s := ⟨rfl, rfl, rfl, rfl, rfl, id, Iff.rfl, rfl⟩

theorem Quiet.trans {t : Session} (h : Quiet s s') (h' : Quiet s' t) : Quiet s t :=
  ⟨h'.devices.trans h.devices, h'.pending.trans h.pending, h'.sequence.trans h.sequence,
    h'.initial.trans h.initial, h'.selected.trans h.selected, fun ht => h.settled (h'.settled ht),
    h'.process.trans h.process, h'.expected.trans h.expected⟩

theorem quiet_sendCommand (s : Session) (body : CommandBody) : Quiet s (s.sendCommand body).1 := by
  rw [sendCommand]
  split_ifs
  · exact ⟨rfl, rfl, rfl, rfl, rfl, id, Iff.rfl, rfl⟩
  · exact .refl s

theorem inPreview_sendCommand (body : CommandBody) :
    (s.sendCommand body).1.InPreview ↔ s.InPreview := by
  rw [sendCommand]
  split_ifs <;> rfl

theorem quiet_stopPreview (s : Session) : Quiet s s.stopPreview.1 := by
  rw [stopPreview]
  split_ifs with h
  · exact ⟨rfl, rfl, rfl, rfl, rfl, id, Iff.rfl, rfl⟩
  · refine Quiet.trans ?_ (quiet_sendCommand _ _)
    refine ⟨rfl, rfl, rfl, rfl, rfl, fun _ => ?_, Iff.rfl, rfl⟩
    by_cases hs : s.state = .starting
    · exact .inr (.inl hs)
    · exact .inr (.inr (.inl (not_not.1 fun h' => h ⟨hs, h'⟩)))

theorem inPreview_stopPreview (h : s.InPreview) : s.stopPreview.1.InPreview := by
  rw [stopPreview]
  split_ifs
  · exact h
  · exact (inPreview_sendCommand _).2 (.inr (.inr rfl))

theorem quiet_startPreview (s : Session) (now : ℤ) (created : Bool) :
    Quiet s (s.startPreview now created).1 := by
  rw [startPreview]
  split
  · next h _ =>
    refine Quiet.trans ?_ (quiet_sendCommand _ _)
    exact ⟨rfl, rfl, rfl, rfl, rfl, fun _ => .inl h, Iff.rfl, rfl⟩
  · exact .refl s

theorem inPreview_startPreview {now : ℤ} {created : Bool} (h : s.InPreview) :
    (s.startPreview now created).1.InPreview := by
  rw [startPreview]
  split
  · exact (inPreview_sendCommand _).2 (.inl rfl)
  · exact h

theorem quiet_beginEnrollmentBudget (s : Session) (now : ℤ) :
    Quiet s (s.beginEnrollmentBudget now).1 := by
  rw [beginEnrollmentBudget]
  split_ifs
  · exact .refl s
  · refine Quiet.trans ?_ (quiet_sendCommand _ _)
    exact ⟨rfl, rfl, rfl, rfl, rfl, id, Iff.rfl, rfl⟩

theorem inPreview_beginEnrollmentBudget {now : ℤ} (h : s.InPreview) :
    (s.beginEnrollmentBudget now).1.InPreview := by
  rw [beginEnrollmentBudget]
  split_ifs
  · exact h
  · exact (inPreview_sendCommand _).2 h

theorem quiet_fail (s : Session) (code : ErrorCode) : Quiet s (s.fail code) :=
  ⟨rfl, rfl, rfl, rfl, rfl, fun h => by simp [fail, Settled, InPreview] at h, Iff.rfl, rfl⟩

theorem quiet_countdown (s : Session) (now : ℤ) : Quiet s (s.countdown now).1 := by
  rw [countdown]
  split_ifs
  · exact quiet_stopPreview s
  · exact .refl s

theorem inPreview_countdown {now : ℤ} (h : s.InPreview) : (s.countdown now).1.InPreview := by
  rw [countdown]
  split_ifs
  · exact inPreview_stopPreview h
  · exact h

theorem quiet_applicationInactive (s : Session) : Quiet s s.applicationInactive.1 := by
  rw [applicationInactive]
  split_ifs
  · exact quiet_stopPreview s
  · exact .refl s

theorem inPreview_applicationInactive (h : s.InPreview) : s.applicationInactive.1.InPreview := by
  rw [applicationInactive]
  split_ifs
  · exact inPreview_stopPreview h
  · exact h

theorem refreshDevices_of_restarts {uuid : String} (h : s.Restarts) :
    s.refreshDevices uuid = ({ s with errorCode := none }.startWorker uuid, []) := by
  have hp := h.1
  rw [InPreview] at hp
  unfold refreshDevices
  rw [if_neg hp]
  exact if_pos h.2

theorem quiet_refreshDevices {uuid : String} (h : ¬ s.Restarts) :
    Quiet s (s.refreshDevices uuid).1 := by
  unfold refreshDevices
  by_cases hp : s.InPreview
  · rw [if_pos (by exact hp)]
    exact quiet_sendCommand _ _
  have hr : ¬ (s.process = .notRunning ∨ s.expectedExit) := fun hr => h ⟨hp, hr⟩
  rw [if_neg (by exact hp)]
  dsimp only
  rw [if_neg hr]
  refine Quiet.trans ?_ (quiet_sendCommand _ _)
  refine ⟨rfl, rfl, rfl, rfl, rfl, fun hs => ?_, Iff.rfl, rfl⟩
  simp [Settled, InPreview, setState] at hs

theorem inPreview_refreshDevices {uuid : String} (h : s.InPreview) :
    (s.refreshDevices uuid).1.InPreview := by
  have hp := h
  rw [InPreview] at hp
  rw [refreshDevices, if_pos hp]
  exact (inPreview_sendCommand _).2 h

theorem quiet_processStarted (h : s.process = .starting) : Quiet s s.processStarted.1 := by
  refine Quiet.trans ?_ (quiet_sendCommand _ _)
  refine ⟨rfl, rfl, rfl, rfl, rfl, id, ?_, rfl⟩
  rw [h]
  simp

/-- What a selection does: it takes an index of the list, and nothing otherwise. -/
theorem setSelectedIndex_eq (s : Session) (index : ℤ) :
    ∃ i, (∀ k, i = some k → k < s.devices.length ∧ index = k) ∧
      s.setSelectedIndex index = { s with selectedDeviceIndex := i } := by
  unfold setSelectedIndex setSelectedDeviceIndex
  by_cases h : index < 0
  · refine ⟨none, fun _ hk => (by cases hk), ?_⟩
    rw [if_pos h]
  by_cases hi : index.toNat < s.devices.length
  · refine ⟨some index.toNat, fun k hk => ?_, ?_⟩
    · cases hk
      exact ⟨hi, (Int.toNat_of_nonneg (Int.not_lt.1 h)).symm⟩
    · rw [if_neg h, if_pos hi]
  · refine ⟨none, fun _ hk => (by cases hk), ?_⟩
    rw [if_neg h, if_neg hi]

/-- The index that is selected in a new list. -/
def preferredIndex (s : Session) (devices : List Device) : Option ℕ :=
  if s.initialDiscovery ∧ devices.length = 1 then some 0
  else if (s.selectedDevice.map (·.token)).getD "" = "" then none
  else devices.findIdx? (·.token = (s.selectedDevice.map (·.token)).getD "")

/-- What a valid list does, during no preview. -/
theorem handleDevices_eq {devices : List Device} (hv : validDevices devices) (hp : ¬ s.InPreview) :
    ∃ state code, (state = .ready ∨ state = .failed) ∧ s.handleDevices devices =
      ({ s with devices, initialDiscovery := false, selectedDeviceIndex := s.preferredIndex devices,
                errorCode := code, state }, true) := by
  rw [InPreview] at hp
  by_cases hd : devices = []
  · refine ⟨.failed, some .noCamera, .inr rfl, ?_⟩
    unfold handleDevices
    rw [if_neg (by simp [hv]), if_neg hp, if_pos hd]
    rfl
  · refine ⟨.ready, none, .inl rfl, ?_⟩
    unfold handleDevices
    rw [if_neg (by simp [hv]), if_neg hp, if_neg hd]
    rfl

theorem handleDevices_of_not_valid {devices : List Device} (hv : ¬ validDevices devices) :
    s.handleDevices devices = (s, false) := by
  rw [handleDevices, if_pos (by simpa using hv)]

theorem handleDevices_of_inPreview {devices : List Device} (hv : validDevices devices)
    (hp : s.InPreview) :
    s.handleDevices devices = ({ s with pendingDevices := some devices }, true) := by
  rw [InPreview] at hp
  unfold handleDevices
  rw [if_neg (by simp [hv]), if_pos hp]

theorem processRecord_of_not_announces {decode : List UInt8 → Option (ℤ × ℤ)} {record : Record}
    (h : ¬ s.Announces record) : s.processRecord decode record = s.abort .protocolError := by
  have hfalse : record.protocol ≠ version ∨ record.session ≠ s.sessionId ∨ record.sequence ≤ 0 ∨
      record.sequence ≤ s.lastSequence := by
    by_contra hc
    simp only [not_or, not_not, Int.not_le] at hc
    exact h hc
  rw [processRecord, handleRecord, if_pos hfalse]
  rfl

theorem Announces.accepted {record : Record} (h : s.Announces record) :
    ¬ (record.protocol ≠ version ∨ record.session ≠ s.sessionId ∨ record.sequence ≤ 0 ∨
      record.sequence ≤ s.lastSequence) := by
  obtain ⟨h₁, h₂, h₃, h₄⟩ := h
  rintro (h | h | h | h)
  · exact h h₁
  · exact h h₂
  · omega
  · omega

end Session

/-! ## The list of cameras -/

namespace View

variable {decode : List UInt8 → Option (ℤ × ℤ)} {v : View}

/-- An earlier worker, or an earlier record of the same worker. -/
def Before (a b : ℕ × ℤ) : Prop := a.1 < b.1 ∨ a.1 = b.1 ∧ a.2 < b.2

/-- The record has been read. -/
def Known (v : View) (a : ℕ × ℤ) : Prop :=
  a.1 < v.workers ∨ a.1 = v.workers ∧ a.2 ≤ v.session.lastSequence

/-- What holds of the lists of cameras. -/
structure Listed (v : View) : Prop where
  /-- A list is parked during a preview only, unless the worker is gone. -/
  pending : v.session.pendingDevices.isSome → v.session.InPreview ∨ v.session.process = .notRunning
  valid : ∀ devices, v.session.pendingDevices = some devices → Session.validDevices devices
  parked : ∀ devices, v.session.process ≠ .notRunning → v.session.pendingDevices = some devices →
    v.received = some devices ∧ v.Known v.parked ∧ ∀ a ∈ v.applied, Before a v.parked
  shown : v.session.process ≠ .notRunning → v.session.pendingDevices = none →
    v.session.Settled → v.received = some v.session.devices
  running : v.session.Settled → v.session.process ≠ .notRunning
  exits : v.session.expectedExit → v.session.process = .notRunning
  order : v.applied.Pairwise Before
  known : ∀ a ∈ v.applied, v.Known a

theorem before_of_known {a : ℕ × ℤ} {sequence : ℤ} (h : v.Known a)
    (hs : v.session.lastSequence < sequence) : Before a (v.workers, sequence) :=
  h.imp_right fun h => ⟨h.1, Int.lt_of_le_of_lt h.2 hs⟩

/-- An operation that does not touch the cameras and does not leave a preview. -/
theorem Listed.quiet (h : v.Listed) {s' : Session} {sent : List (Command × Option String)}
    (hq : v.session.Quiet s')
    (hp : v.session.pendingDevices.isSome → v.session.InPreview → s'.InPreview) :
    { v with session := s', sent }.Listed where
  pending hs := by
    have hsome : v.session.pendingDevices.isSome := by
      rw [← hq.pending]
      exact hs
    rcases h.pending hsome with hi | hn
    · exact .inl (hp hsome hi)
    · exact .inr (not_not.1 fun hn' => hq.process.1 hn' hn)
  valid devices hd := h.valid devices (hq.pending.symm.trans hd)
  parked devices hn hd := by
    obtain ⟨hr, hk, ha⟩ := h.parked devices (hq.process.1 hn) (hq.pending.symm.trans hd)
    refine ⟨hr, ?_, ha⟩
    rw [Known]
    rw [hq.sequence]
    exact hk
  shown hn hd hs := by
    have := h.shown (hq.process.1 hn) (hq.pending.symm.trans hd) (hq.settled hs)
    rw [hq.devices]
    exact this
  running hs := hq.process.2 (h.running (hq.settled hs))
  exits he := by
    have := h.exits (hq.expected.symm.trans he)
    exact not_not.1 fun hn => hq.process.1 hn this
  order := h.order
  known a ha := by
    rw [Known]
    rw [hq.sequence]
    exact h.known a ha

/-- The worker is gone. -/
theorem Listed.gone (h : v.Listed) {s' : Session} (hn : s'.process = .notRunning)
    (hs : ¬ s'.Settled) (hl : s'.lastSequence = v.session.lastSequence)
    (hp : s'.pendingDevices = v.session.pendingDevices) : { v with session := s' }.Listed where
  pending _ := .inr hn
  valid devices hd := h.valid devices (hp.symm.trans hd)
  parked _ hn' := absurd hn hn'
  shown hn' := absurd hn hn'
  running hs' := absurd hs' hs
  exits _ := hn
  order := h.order
  known a ha := by
    rw [Known]
    rw [hl]
    exact h.known a ha

/-- A record with a larger number has been read. -/
theorem Listed.read (h : v.Listed) {sequence : ℤ} (hs : v.session.lastSequence < sequence) :
    { v with session := { v.session with lastSequence := sequence } }.Listed := by
  have hknown : ∀ a, v.Known a →
      { v with session := { v.session with lastSequence := sequence } }.Known a := fun a ha =>
    ha.imp_right fun ha => ⟨ha.1, Int.le_of_lt (Int.lt_of_le_of_lt ha.2 hs)⟩
  refine ⟨h.pending, h.valid, fun devices hn hd => ?_, h.shown, h.running, h.exits, h.order,
    fun a ha => hknown a (h.known a ha)⟩
  obtain ⟨hr, hk, ha⟩ := h.parked devices hn hd
  exact ⟨hr, hknown _ hk, ha⟩

/-- The session ends its worker. -/
theorem Listed.abort (h : v.Listed) (code : ErrorCode) :
    { v with session := v.session.abort code }.Listed :=
  h.gone rfl (fun hs => by simp [Session.abort, Session.fail, Session.terminateWorker,
    Session.Settled, Session.InPreview] at hs) rfl rfl

/-- A list that is put in place, during no preview. -/
theorem listed_handleDevices {devices : List Device} {id : ℕ × ℤ}
    (hreceived : v.received = some devices) (horder : v.applied.Pairwise Before)
    (hknown : ∀ a ∈ v.applied, v.Known a) (hp : ¬ v.session.InPreview)
    (hpending : v.session.pendingDevices = none) (hrunning : v.session.process ≠ .notRunning)
    (hexits : v.session.expectedExit → v.session.process = .notRunning)
    (hid : v.Known id) (happlied : ∀ a ∈ v.applied, Before a id)
    (hvalid : Session.validDevices devices) {s' : Session} {ok : Bool}
    (heq : v.session.handleDevices devices = (s', ok)) :
    ok ∧ { v.applies id devices with session := s' }.Listed := by
  obtain ⟨state, code, hstate, hd⟩ := Session.handleDevices_eq hvalid hp
  cases heq.symm.trans hd
  have hknown' : ∀ a ∈ v.applied ++ [id], v.Known a := by
    intro a ha
    rcases List.mem_append.1 ha with ha | ha
    · exact hknown a ha
    · rw [List.mem_singleton.1 ha]
      exact hid
  have horder' : (v.applied ++ [id]).Pairwise Before := by
    refine List.pairwise_append.2 ⟨horder, List.pairwise_singleton _ _, fun a ha b hb => ?_⟩
    rw [List.mem_singleton.1 hb]
    exact happlied a ha
  have hnone : ∀ {devices'}, v.session.pendingDevices ≠ some devices' := by simp [hpending]
  refine ⟨rfl, fun hs => ?_, fun _ hd => absurd hd hnone, fun _ _ hd => absurd hd hnone,
    fun _ _ _ => hreceived, fun _ => hrunning, hexits, horder', hknown'⟩
  exact absurd hpending (by simpa [Option.isSome_iff_ne_none] using hs)

theorem notes_of_not_announces {record : Record} (h : ¬ v.session.Announces record) :
    v.notes record = v := if_neg h

/-- A record that has no list in it, and does not put one in place. -/
theorem Listed.record_quiet (h : v.Listed) {record : Record} (hr : v.session.Announces record)
    {s' : Session} {ok : Bool} (heq : v.session.handleRecord decode record = (s', ok))
    (hq : { v.session with lastSequence := record.sequence }.Quiet s')
    (hp : v.session.pendingDevices.isSome → v.session.InPreview → s'.InPreview) :
    { v with session := v.session.processRecord decode record }.Listed := by
  have hread : { v with session := s' }.Listed := (h.read hr.2.2.2).quiet hq hp
  rw [Session.processRecord, heq]
  cases ok with
  | true => exact hread
  | false => exact hread.abort .protocolError

/-- The session may fail at the event, and its worker goes on. -/
def keepsWorker : Event → Bool
  | .record record => match record.body with
    | .error _ => true
    | _ => false
  | .processError => true
  | _ => false

/-- The session does not fail while a list is parked and the worker goes on. -/
def undisturbed (v : View) (e : Event) : Bool := v.session.pendingDevices = none || !keepsWorker e

/-- One case for each kind of record. -/
theorem Listed.record (h : v.Listed) (hn : v.session.process ≠ .notRunning) {record : Record}
    (hu : v.undisturbed (.record record)) :
    { v.notes record with session := v.session.processRecord decode record }.Listed := by
  by_cases hr : v.session.Announces record
  swap
  · -- A record that is out of order ends the worker.
    rw [notes_of_not_announces hr, Session.processRecord_of_not_announces hr]
    exact h.abort .protocolError
  have hread := h.read hr.2.2.2
  rw [notes, if_pos hr]
  obtain ⟨s', ok, hs⟩ : ∃ s' ok, v.session.handleRecord decode record = (s', ok) := ⟨_, _, rfl⟩
  have heq := hs
  rw [Session.handleRecord, if_neg hr.accepted] at heq
  cases hb : record.body with
  | devices devices =>
    simp only [hb] at heq ⊢
    by_cases hv : Session.validDevices devices
    swap
    · rw [if_pos (by simpa using hv)]
      rw [Session.handleDevices_of_not_valid hv] at heq
      cases heq
      exact h.record_quiet hr hs (.refl _) fun _ hp => hp
    rw [if_neg (by simp [hv])]
    by_cases hp : v.session.InPreview
    · -- the list is parked, and is newer than every list in place
      rw [if_pos hp]
      rw [Session.handleDevices_of_inPreview
        (s := { v.session with lastSequence := record.sequence }) hv hp] at heq
      rw [Session.processRecord, hs]
      cases heq
      refine ⟨fun _ => .inl hp, fun _ hd => ?_, fun _ _ hd => ?_, fun _ hd => ?_, h.running, h.exits,
        h.order, hread.known⟩
      · cases hd
        exact hv
      · cases hd
        exact ⟨rfl, .inr ⟨rfl, Int.le_refl _⟩, fun a ha => before_of_known (h.known a ha) hr.2.2.2⟩
      · cases hd
    · -- The list is put in place; no other one is parked outside of a preview.
      rw [if_neg hp]
      have hnone : v.session.pendingDevices = none := by
        by_contra hs
        rcases h.pending (Option.isSome_iff_ne_none.2 hs) with hp' | hn'
        · exact hp hp'
        · exact hn hn'
      have hbefore : ∀ a ∈ v.applied, Before a (v.workers, record.sequence) :=
        fun a ha => before_of_known (h.known a ha) hr.2.2.2
      obtain ⟨hok, hlisted⟩ := listed_handleDevices (v := { v with
        received := some devices, session := { v.session with lastSequence := record.sequence } })
        rfl h.order hread.known hp hnone hn h.exits (.inr ⟨rfl, Int.le_refl _⟩) hbefore hv heq
      rw [Session.processRecord, hs, hok]
      exact hlisted
  | started seconds =>
    simp only [hb] at heq ⊢
    split_ifs at heq with hc
    · cases heq
      exact h.record_quiet hr hs (.refl _) fun _ hp => hp
    · cases heq
      refine h.record_quiet hr hs ?_ fun _ _ => .inr (.inl rfl)
      exact ⟨rfl, rfl, rfl, rfl, rfl, fun _ => .inr (.inl (not_not.1 (not_or.1 hc).1)), Iff.rfl, rfl⟩
  | budget deadlineMs =>
    simp only [hb] at heq ⊢
    cases heq
    exact h.record_quiet hr hs (.refl _) fun _ hp => hp
  | frame frame =>
    simp only [hb] at heq ⊢
    cases heq
    exact h.record_quiet hr hs (.refl _) fun _ hp => hp
  | stopped reason wasActive =>
    simp only [hb] at heq ⊢
    by_cases hstate : v.session.state ≠ .stopping ∧ v.session.state ≠ .streaming
    · rw [if_pos hstate] at heq ⊢
      cases heq
      exact h.record_quiet hr hs (.refl _) fun _ hp => hp
    rw [if_neg hstate] at heq ⊢
    have hpreview : v.session.InPreview := by
      by_cases hs : v.session.state = .stopping
      · exact .inr (.inr hs)
      · exact .inr (.inl (not_not.1 fun h' => hstate ⟨hs, h'⟩))
    cases hd : v.session.pendingDevices with
    | none =>
      simp only [Session.setState, hd] at heq ⊢
      cases heq
      refine h.record_quiet hr hs ?_ fun hsome => ?_
      · exact ⟨rfl, hd.symm, rfl, rfl, rfl, fun _ => .inr hpreview, Iff.rfl, rfl⟩
      · rw [hd] at hsome
        cases hsome
    | some devices =>
      -- the parked list is put in place now
      simp only [Session.setState, hd] at heq ⊢
      obtain ⟨hreceived, hparked, hbefore⟩ := h.parked devices hn hd
      obtain ⟨-, hknown, -⟩ := hread.parked devices hn hd
      obtain ⟨hok, hlisted⟩ := listed_handleDevices (v := { v with session := { v.session with
        lastSequence := record.sequence, state := .ready, errorCode := none, pendingDevices := none } })
        hreceived h.order hread.known (by simp [Session.InPreview]) rfl hn h.exits hknown hbefore
        (h.valid devices hd) heq
      rw [if_pos (h.valid devices hd), Session.processRecord, hs, hok]
      exact hlisted
  | error code =>
    -- An error ends the preview, and a list that is parked would stay so.
    have hnone : v.session.pendingDevices = none := by
      simpa [undisturbed, keepsWorker, hb] using hu
    simp only [hb] at heq ⊢
    split_ifs at heq
    · cases heq
      refine h.record_quiet hr hs (Session.quiet_fail _ _) fun hsome => ?_
      rw [hnone] at hsome
      cases hsome
    · cases heq
      exact h.record_quiet hr hs (.refl _) fun _ hp => hp
  | malformed =>
    simp only [hb] at heq ⊢
    cases heq
    exact h.record_quiet hr hs (.refl _) fun _ hp => hp

/-- A new worker has told nothing. -/
theorem Listed.restart (h : v.Listed) (uuid : String) {sent : List (Command × Option String)} :
    { v with session := { v.session with errorCode := none }.startWorker uuid, sent,
             workers := v.workers + 1, received := none }.Listed where
  pending hs := by cases hs
  valid _ hd := by cases hd
  parked _ _ hd := by cases hd
  shown _ _ hs := by simp [Session.startWorker, Session.setState, Session.Settled,
    Session.InPreview] at hs
  running _ := by simp [Session.startWorker, Session.setState]
  exits he := by cases he
  order := h.order
  known a ha := by
    refine .inl ?_
    rcases h.known a ha with hk | hk
    · exact Nat.lt_succ_of_lt hk
    · exact Nat.lt_succ_of_le (Nat.le_of_eq hk.1)

theorem listed_init : ({} : View).Listed where
  pending hs := by cases hs
  valid _ hd := by cases hd
  parked _ _ hd := by cases hd
  shown hn := absurd rfl hn
  running hs := by simp [Session.Settled, Session.InPreview] at hs
  exits _ := rfl
  order := .nil
  known _ ha := absurd ha List.not_mem_nil

theorem Listed.step (h : v.Listed) {e : Event} {v' : View} (hu : v.undisturbed e)
    (hs : step decode v e = some v') : v'.Listed := by
  cases e with
  | refreshDevices uuid =>
    simp only [View.step] at hs
    split_ifs at hs with hr
    · cases hs
      rw [Session.refreshDevices_of_restarts hr]
      exact h.restart uuid
    · cases hs
      exact h.quiet (Session.quiet_refreshDevices hr) fun _ => Session.inPreview_refreshDevices
  | processStarted =>
    simp only [View.step] at hs
    split_ifs at hs with hr
    cases hs
    exact h.quiet (Session.quiet_processStarted hr)
      fun _ hp => (Session.inPreview_sendCommand _).2 hp
  | setSelectedDeviceIndex index =>
    cases hs
    obtain ⟨i, -, heq⟩ := v.session.setSelectedIndex_eq index
    rw [select, heq]
    exact ⟨h.pending, h.valid, h.parked, h.shown, h.running, h.exits, h.order, h.known⟩
  | startPreview now created =>
    cases hs
    exact h.quiet (Session.quiet_startPreview _ _ _) fun _ => Session.inPreview_startPreview
  | stopPreview =>
    cases hs
    exact h.quiet (Session.quiet_stopPreview _) fun _ => Session.inPreview_stopPreview
  | beginEnrollmentBudget now =>
    cases hs
    exact h.quiet (Session.quiet_beginEnrollmentBudget _ _)
      fun _ => Session.inPreview_beginEnrollmentBudget
  | countdown now =>
    cases hs
    exact h.quiet (Session.quiet_countdown _ _) fun _ => Session.inPreview_countdown
  | applicationInactive =>
    cases hs
    exact h.quiet (Session.quiet_applicationInactive _)
      fun _ => Session.inPreview_applicationInactive
  | record record =>
    simp only [View.step] at hs
    split_ifs at hs with hn
    cases hs
    exact h.record hn hu
  | abort code =>
    cases hs
    exact h.abort code
  | processError =>
    have hnone : v.session.pendingDevices = none := by
      simpa [undisturbed, keepsWorker] using hu
    cases hs
    unfold Session.processError
    split_ifs
    · exact h
    · refine h.quiet (Session.quiet_fail _ _) fun hsome => ?_
      rw [hnone] at hsome
      cases hsome
  | processFinished =>
    cases hs
    unfold Session.processFinished
    split_ifs with hc
    · refine h.gone rfl (fun hs => ?_) rfl rfl
      simp [Session.fail, Session.Settled, Session.InPreview] at hs
    · refine h.gone rfl (fun hs => hc ⟨?_, fun hf => ?_⟩) rfl rfl
      · rw [Bool.not_eq_true']
        exact Bool.eq_false_iff.2 fun he => h.running hs (h.exits he)
      · simp [hf, Session.Settled, Session.InPreview] at hs

/-- When the session is ready, it shows the list of the last valid record of its
    worker; no list is put in place twice, or after a newer one. This is so in
    every run in which the session does not fail, with its worker going on,
    while a list is parked. -/
theorem devices_of_reachable (decode : List UInt8 → Option (ℤ × ℤ)) (v : View)
    (h : ((machine decode).restrict undisturbed).Reachable v) :
    (v.session.state = .ready → v.received = some v.session.devices) ∧
      v.applied.Pairwise Before := by
  have hlisted : v.Listed :=
    h.inv_restrict listed_init fun _ _ _ hv hu hs => Listed.step hv hu hs
  refine ⟨fun hr => ?_, hlisted.order⟩
  have hsettled : v.session.Settled := .inl hr
  refine hlisted.shown (hlisted.running hsettled) ?_ hsettled
  by_contra hp
  rcases hlisted.pending (Option.isSome_iff_ne_none.2 hp) with hi | hn
  · simp [Session.InPreview, hr] at hi
  · exact hlisted.running hsettled hn

def camera (token : String) : Device := ⟨token, "Camera", .rgb⟩

/-- The records of the worker of the session `"u"`. -/
def told (sequence : ℤ) (body : Body) : Event := .record ⟨version, "u", sequence, body⟩

/-- A preview during which the list changes. -/
def deferredRun : List Event :=
  [.refreshDevices "u", .processStarted, told 1 (.devices [camera "a"]), .startPreview 0 false,
    told 2 (.devices [camera "b", camera "a"]), told 3 (.started maxPreviewSeconds), .stopPreview,
    told 4 (.stopped "requested" true)]

/-- The list that came during the preview is shown after it. -/
theorem devices_of_reachable_deferredRun :
    ∃ v, ((machine fun _ => none).restrict undisturbed).Reachable v ∧ v.session.state = .ready ∧
      v.session.devices = [camera "b", camera "a"] ∧ v.received = some v.session.devices := by
  obtain ⟨v, hv⟩ : ∃ v, ((machine fun _ => none).restrict undisturbed).run {} deferredRun = some v :=
    ⟨_, rfl⟩
  have hreachable := Machine.Reachable.init.run hv
  have hready : v.session.state = .ready ∧ v.session.devices = [camera "b", camera "a"] := by
    cases hv
    decide +kernel
  exact ⟨v, hreachable, hready.1, hready.2, (devices_of_reachable _ v hreachable).1 hready.1⟩

/-- A list is parked while the session fails, and is put in place after a
    newer one, at the end of the next preview. -/
def staleRun : List Event :=
  [.refreshDevices "u", .processStarted, told 1 (.devices [camera "a"]), .startPreview 0 false,
    told 2 (.devices [camera "a", camera "b"]), told 3 (.error .cameraBusy), .refreshDevices "u",
    told 4 (.devices [camera "c"]), .setSelectedDeviceIndex 0, .startPreview 0 false,
    told 5 (.started maxPreviewSeconds), .stopPreview, told 6 (.stopped "requested" true)]

theorem devices_of_reachable_fails :
    ∃ v, (machine fun _ => none).Reachable v ∧ v.session.state = .ready ∧
      v.received = some [camera "c"] ∧ v.session.devices = [camera "a", camera "b"] ∧
      v.applied = [(1, 1), (1, 4), (1, 2)] := by
  obtain ⟨v, hv⟩ : ∃ v, (machine fun _ => none).run {} staleRun = some v := ⟨_, rfl⟩
  refine ⟨v, Machine.Reachable.init.run hv, ?_⟩
  cases hv
  decide +kernel

end View

/-! ## The selected camera -/

namespace Session

variable {s : Session}

theorem body_of_sendCommand {body : CommandBody} {c : Command}
    (h : c ∈ (s.sendCommand body).2) : c.body = body := by
  rw [sendCommand] at h
  split_ifs at h
  · rw [List.mem_singleton.1 h]
  · exact absurd h List.not_mem_nil

/-- Only `startPreview` sends a command to start a camera, the selected one. -/
def StartsSelected (s : Session) (commands : List Command) : Prop :=
  ∀ c ∈ commands, ∀ token deadlineMs, c.body = .start token deadlineMs →
    ∃ device, s.selectedDevice = some device ∧ device.token = token

theorem startsSelected_sendCommand {body : CommandBody} {s' : Session}
    (h : ∀ token deadlineMs, body ≠ .start token deadlineMs) :
    s.StartsSelected (s'.sendCommand body).2 := by
  intro c hc token deadlineMs hb
  rw [body_of_sendCommand hc] at hb
  exact absurd hb (h token deadlineMs)

theorem startsSelected_nil : s.StartsSelected [] := fun _ hc => absurd hc List.not_mem_nil

theorem startsSelected_startPreview {now : ℤ} {created : Bool} :
    s.StartsSelected (s.startPreview now created).2 := by
  rw [startPreview]
  split
  · next device _ hd =>
    intro c hc token deadlineMs hb
    rw [body_of_sendCommand hc] at hb
    cases hb
    exact ⟨device, hd, rfl⟩
  · exact startsSelected_nil

theorem startsSelected_stopPreview : s.StartsSelected s.stopPreview.2 := by
  rw [stopPreview]
  split_ifs
  · exact startsSelected_nil
  · exact startsSelected_sendCommand (by simp)

theorem startsSelected_refreshDevices {uuid : String} :
    s.StartsSelected (s.refreshDevices uuid).2 := by
  by_cases h : s.Restarts
  · rw [refreshDevices_of_restarts h]
    exact startsSelected_nil
  unfold refreshDevices
  by_cases hp : s.InPreview
  · rw [if_pos (by exact hp)]
    exact startsSelected_sendCommand (by simp)
  · rw [if_neg (by exact hp)]
    dsimp only
    rw [if_neg fun hr => h ⟨hp, hr⟩]
    exact startsSelected_sendCommand (by simp)

theorem startsSelected_beginEnrollmentBudget {now : ℤ} :
    s.StartsSelected (s.beginEnrollmentBudget now).2 := by
  rw [beginEnrollmentBudget]
  split_ifs
  · exact startsSelected_nil
  · exact startsSelected_sendCommand (by simp)

theorem startsSelected_countdown {now : ℤ} : s.StartsSelected (s.countdown now).2 := by
  rw [countdown]
  split_ifs
  · exact startsSelected_stopPreview
  · exact startsSelected_nil

theorem startsSelected_applicationInactive : s.StartsSelected s.applicationInactive.2 := by
  rw [applicationInactive]
  split_ifs
  · exact startsSelected_stopPreview
  · exact startsSelected_nil

end Session

namespace View

variable {decode : List UInt8 → Option (ℤ × ℤ)} {v : View}

/-- What holds of the selection. -/
structure Picked (v : View) : Prop where
  initial : v.session.initialDiscovery = v.first.isNone
  empty : v.first = none → v.session.devices = [] ∧ v.explicit = none
  bounded : ∀ i, v.session.selectedDeviceIndex = some i → i < v.session.devices.length
  picked : ∀ device, v.session.selectedDevice = some device → v.chosen = some device.token
  sent : ∀ x ∈ v.sent, ∀ token deadlineMs, x.1.body = .start token deadlineMs → x.2 = some token

theorem selectedDevice_congr {s s' : Session} (hd : s'.devices = s.devices)
    (hs : s'.selectedDeviceIndex = s.selectedDeviceIndex) :
    s'.selectedDevice = s.selectedDevice := by
  rw [Session.selectedDevice, Session.selectedDevice, hd, hs]

theorem Picked.same (h : v.Picked) {s' : Session} (hd : s'.devices = v.session.devices)
    (hi : s'.initialDiscovery = v.session.initialDiscovery)
    (hs : s'.selectedDeviceIndex = v.session.selectedDeviceIndex) :
    { v with session := s' }.Picked where
  initial := hi.trans h.initial
  empty hf := ⟨hd.trans (h.empty hf).1, (h.empty hf).2⟩
  bounded i hi := by
    rw [hd]
    exact h.bounded i (hs.symm.trans hi)
  picked device hdev := by
    have := h.picked device ((selectedDevice_congr hd hs).symm.trans hdev)
    exact this
  sent := h.sent

/-- An operation that does not touch the cameras, and the commands it sends. -/
theorem Picked.sends (h : v.Picked) {r : Session × List Command} (hq : v.session.Quiet r.1)
    (hc : v.session.StartsSelected r.2) : (v.sends r).Picked := by
  have hsame := h.same hq.devices hq.initial hq.selected
  refine ⟨hsame.initial, hsame.empty, hsame.bounded, hsame.picked, fun x hx => ?_⟩
  rcases List.mem_append.1 hx with hx | hx
  · exact h.sent x hx
  · intro token deadlineMs hb
    obtain ⟨c, hcmem, rfl⟩ := List.mem_map.1 hx
    obtain ⟨device, hdev, rfl⟩ := hc c hcmem token deadlineMs hb
    exact h.picked device hdev

theorem preferredIndex_spec {s : Session} {devices : List Device} {i : ℕ}
    (h : s.preferredIndex devices = some i) :
    (s.initialDiscovery ∧ devices.length = 1 ∧ i = 0) ∨ ∃ device device',
      s.selectedDevice = some device ∧ devices[i]? = some device' ∧ device'.token = device.token := by
  rw [Session.preferredIndex] at h
  split_ifs at h with h₁ h₂
  · exact .inl ⟨h₁.1, h₁.2, (Option.some.inj h).symm⟩
  · cases hs : s.selectedDevice with
    | none => simp [hs] at h₂
    | some device =>
      obtain ⟨hi, ht, -⟩ := List.findIdx?_eq_some_iff_getElem.1 h
      refine .inr ⟨device, devices[i], rfl, List.getElem?_eq_getElem hi, ?_⟩
      simpa [hs] using ht

/-- A list that is put in place keeps the selection on the camera that was chosen. -/
theorem Picked.handleDevices (h : v.Picked) {devices : List Device} {i : ℕ × ℤ} {s s' : Session}
    {ok : Bool} (heq : s.handleDevices devices = (s', ok)) (hd : s.devices = v.session.devices)
    (hi : s.initialDiscovery = v.session.initialDiscovery)
    (hs : s.selectedDeviceIndex = v.session.selectedDeviceIndex) (hp : ¬ s.InPreview)
    (hvalid : Session.validDevices devices) :
    ok ∧ { v.applies i devices with session := s' }.Picked := by
  obtain ⟨state, code, -, hd'⟩ := Session.handleDevices_eq hvalid hp
  cases heq.symm.trans hd'
  have hsame := h.same hd hi hs
  have hfirst : ∀ f : Option (List Device), (f.or (some devices)).isNone = false := by
    intro f
    cases f <;> rfl
  refine ⟨rfl, (hfirst v.first).symm, fun hf => ?_, fun i hi => ?_, fun device hdev => ?_, h.sent⟩
  · have hor : v.first.or (some devices) = none := hf
    have := hfirst v.first
    rw [hor] at this
    cases this
  · rcases preferredIndex_spec hi with ⟨-, hlen, rfl⟩ | ⟨_, _, -, hget, -⟩
    · rw [hlen]
      exact Nat.one_pos
    · exact (List.getElem?_eq_some_iff.1 hget).1
  · obtain ⟨i, hi, hget⟩ := Option.bind_eq_some_iff.1 hdev
    rcases preferredIndex_spec hi with ⟨hinit, hlen, rfl⟩ | ⟨old, new, hold, hnew, htoken⟩
    · -- nothing was ever selected before the very first discovery
      have hnone : v.first = none := by
        have := h.initial
        rw [← ‹s.initialDiscovery = v.session.initialDiscovery›, hinit] at this
        exact Option.isNone_iff_eq_none.1 this.symm
      obtain ⟨only, rfl⟩ := List.length_eq_one_iff.1 hlen
      cases hget
      simp [chosen, onlyFirst, applies, hnone, (h.empty hnone).2]
    · -- The camera of the same token is selected again.
      cases hnew.symm.trans hget
      have hchosen : v.chosen = some old.token := hsame.picked old hold
      rw [htoken, ← hchosen]
      cases hf : v.first with
      | none => simp [chosen, onlyFirst, hf, (h.empty hf).2] at hchosen
      | some devices => simp [chosen, onlyFirst, applies, hf]

/-- A record that leaves the cameras as they are. -/
theorem Picked.record_same (h : v.Picked) {record : Record} {s' : Session} {ok : Bool}
    (heq : v.session.handleRecord decode record = (s', ok)) (hd : s'.devices = v.session.devices)
    (hi : s'.initialDiscovery = v.session.initialDiscovery)
    (hs : s'.selectedDeviceIndex = v.session.selectedDeviceIndex) :
    { v with session := v.session.processRecord decode record }.Picked := by
  rw [Session.processRecord, heq]
  cases ok with
  | true => exact h.same hd hi hs
  | false => exact h.same hd hi hs

theorem Picked.record (h : v.Picked) (record : Record) :
    { v.notes record with session := v.session.processRecord decode record }.Picked := by
  by_cases hr : v.session.Announces record
  swap
  · rw [notes_of_not_announces hr, Session.processRecord_of_not_announces hr]
    exact h.same rfl rfl rfl
  rw [notes, if_pos hr]
  obtain ⟨s', ok, hs⟩ : ∃ s' ok, v.session.handleRecord decode record = (s', ok) := ⟨_, _, rfl⟩
  have heq := hs
  rw [Session.handleRecord, if_neg hr.accepted] at heq
  cases hb : record.body with
  | devices devices =>
    simp only [hb] at heq ⊢
    by_cases hv : Session.validDevices devices
    swap
    · rw [if_pos (by simpa using hv)]
      rw [Session.handleDevices_of_not_valid hv] at heq
      cases heq
      exact h.record_same hs rfl rfl rfl
    rw [if_neg (by simp [hv])]
    by_cases hp : v.session.InPreview
    · -- A list that is parked selects nothing yet.
      rw [if_pos hp]
      rw [Session.handleDevices_of_inPreview
        (s := { v.session with lastSequence := record.sequence }) hv hp] at heq
      cases heq
      have := h.record_same hs rfl rfl rfl
      exact ⟨this.initial, this.empty, this.bounded, this.picked, this.sent⟩
    · rw [if_neg hp]
      obtain ⟨hok, hpicked⟩ := h.handleDevices (i := (v.workers, record.sequence)) heq rfl rfl
        rfl hp hv
      rw [Session.processRecord, hs, hok]
      exact ⟨hpicked.initial, hpicked.empty, hpicked.bounded, hpicked.picked, hpicked.sent⟩
  | started seconds =>
    simp only [hb] at heq ⊢
    split_ifs at heq <;> (cases heq; exact h.record_same hs rfl rfl rfl)
  | budget deadlineMs =>
    simp only [hb] at heq ⊢
    cases heq
    exact h.record_same hs rfl rfl rfl
  | frame frame =>
    simp only [hb] at heq ⊢
    cases heq
    exact h.record_same hs rfl rfl rfl
  | stopped reason wasActive =>
    simp only [hb] at heq ⊢
    by_cases hstate : v.session.state ≠ .stopping ∧ v.session.state ≠ .streaming
    · rw [if_pos hstate] at heq ⊢
      cases heq
      exact h.record_same hs rfl rfl rfl
    rw [if_neg hstate] at heq ⊢
    cases hd : v.session.pendingDevices with
    | none =>
      simp only [Session.setState, hd] at heq ⊢
      cases heq
      exact h.record_same hs rfl rfl rfl
    | some devices =>
      simp only [Session.setState, hd] at heq ⊢
      by_cases hv : Session.validDevices devices
      · rw [if_pos hv]
        obtain ⟨hok, hpicked⟩ := h.handleDevices (i := v.parked) heq rfl rfl rfl
          (by simp [Session.InPreview]) hv
        rw [Session.processRecord, hs, hok]
        exact hpicked
      · rw [if_neg hv]
        rw [Session.handleDevices_of_not_valid hv] at heq
        cases heq
        exact h.record_same hs rfl rfl rfl
  | error code =>
    simp only [hb] at heq ⊢
    split_ifs at heq <;> (cases heq; exact h.record_same hs rfl rfl rfl)
  | malformed =>
    simp only [hb] at heq ⊢
    cases heq
    exact h.record_same hs rfl rfl rfl

theorem picked_init : ({} : View).Picked where
  initial := rfl
  empty _ := ⟨rfl, rfl⟩
  bounded _ hi := by cases hi
  picked _ hd := by cases hd
  sent _ hx := absurd hx List.not_mem_nil

theorem Picked.select (h : v.Picked) (index : ℤ) : (v.select index).Picked := by
  obtain ⟨i, hi, heq⟩ := v.session.setSelectedIndex_eq index
  rw [View.select, heq]
  refine ⟨h.initial, fun hf => ⟨(h.empty hf).1, ?_⟩, fun k hk => (hi k hk).1, fun device hd => ?_,
    h.sent⟩
  · -- there is nothing to select before the very first discovery
    have hnone : v.tokenAt index = none := by simp [tokenAt, (h.empty hf).1]
    rw [hnone, (h.empty hf).2]
    rfl
  · -- the camera at the index that was asked for
    obtain ⟨k, hk, hget⟩ := Option.bind_eq_some_iff.1 hd
    have hget' : v.session.devices[k]? = some device := hget
    obtain ⟨-, rfl⟩ := hi k hk
    have htoken : v.tokenAt k = some device.token := by
      rw [tokenAt, if_neg (Int.not_lt.2 (Int.natCast_nonneg k)), Int.toNat_natCast, hget']
      rfl
    simp only [chosen, htoken, Option.some_or]

theorem Picked.step (h : v.Picked) {e : Event} {v' : View} (hs : step decode v e = some v') :
    v'.Picked := by
  cases e with
  | refreshDevices uuid =>
    simp only [View.step] at hs
    split_ifs at hs with hr
    · cases hs
      rw [Session.refreshDevices_of_restarts hr]
      refine ⟨h.initial, h.empty, fun _ hi => (by cases hi),
        fun _ hd => (by cases hd), ?_⟩
      simpa [View.sends] using h.sent
    · cases hs
      exact h.sends (Session.quiet_refreshDevices hr) Session.startsSelected_refreshDevices
  | processStarted =>
    simp only [View.step] at hs
    split_ifs at hs with hr
    cases hs
    exact h.sends (Session.quiet_processStarted hr) (Session.startsSelected_sendCommand (by simp))
  | setSelectedDeviceIndex index =>
    cases hs
    exact h.select index
  | startPreview now created =>
    cases hs
    exact h.sends (Session.quiet_startPreview _ _ _) Session.startsSelected_startPreview
  | stopPreview =>
    cases hs
    exact h.sends (Session.quiet_stopPreview _) Session.startsSelected_stopPreview
  | beginEnrollmentBudget now =>
    cases hs
    exact h.sends (Session.quiet_beginEnrollmentBudget _ _)
      Session.startsSelected_beginEnrollmentBudget
  | countdown now =>
    cases hs
    exact h.sends (Session.quiet_countdown _ _) Session.startsSelected_countdown
  | applicationInactive =>
    cases hs
    exact h.sends (Session.quiet_applicationInactive _) Session.startsSelected_applicationInactive
  | record record =>
    simp only [View.step] at hs
    split_ifs at hs
    cases hs
    exact h.record record
  | abort code =>
    cases hs
    exact h.same rfl rfl rfl
  | processError =>
    cases hs
    unfold Session.processError
    split_ifs <;> exact h.same rfl rfl rfl
  | processFinished =>
    cases hs
    unfold Session.processFinished
    split_ifs <;> exact h.same rfl rfl rfl

/-- A selected index denotes a camera that has the token which was last selected
    explicitly, or else that of the only camera of the very first discovery; and
    every command to start a camera was sent for the token that was chosen then. -/
theorem selection_of_reachable (decode : List UInt8 → Option (ℤ × ℤ)) (v : View)
    (h : (machine decode).Reachable v) :
    (∀ i, v.session.selectedDeviceIndex = some i → ∃ device, v.session.devices[i]? = some device ∧
      v.chosen = some device.token) ∧
    ∀ x ∈ v.sent, ∀ token deadlineMs, x.1.body = .start token deadlineMs → x.2 = some token := by
  have hpicked : v.Picked := h.inv picked_init fun _ _ _ hv hs => Picked.step hv hs
  refine ⟨fun i hi => ?_, hpicked.sent⟩
  have hget := List.getElem?_eq_getElem (hpicked.bounded i hi)
  refine ⟨_, hget, hpicked.picked _ ?_⟩
  rw [Session.selectedDevice, hi]
  exact hget

/-- The list comes in another order during a preview, and a camera is selected before
    and after. -/
def selectedRun : List Event :=
  [.refreshDevices "u", .processStarted, told 1 (.devices [camera "a", camera "b"]),
    .setSelectedDeviceIndex 1, .startPreview 0 false,
    told 2 (.devices [camera "b", camera "c", camera "a"]), told 3 (.started maxPreviewSeconds),
    .stopPreview, told 4 (.stopped "requested" true), .startPreview 0 false, .stopPreview,
    told 5 (.stopped "requested" true), .setSelectedDeviceIndex 2, .setSelectedDeviceIndex 7,
    .setSelectedDeviceIndex 2, .startPreview 0 false]

theorem selection_of_reachable_selectedRun :
    ∃ v, (machine fun _ => none).run {} selectedRun = some v ∧
      v.explicit = some "a" ∧ v.session.selectedDeviceIndex = some 2 ∧
      (∃ device, v.session.devices[2]? = some device ∧ v.chosen = some device.token) ∧
      ∀ x ∈ v.sent, ∀ token deadlineMs, x.1.body = .start token deadlineMs → x.2 = some token := by
  obtain ⟨v, hv⟩ : ∃ v, (machine fun _ => none).run {} selectedRun = some v := ⟨_, rfl⟩
  have hselected : v.explicit = some "a" ∧ v.session.selectedDeviceIndex = some 2 := by
    cases hv
    decide +kernel
  obtain ⟨hdenotes, hsent⟩ := selection_of_reachable _ v (Machine.Reachable.init.run hv)
  exact ⟨v, hv, hselected.1, hselected.2, hdenotes 2 hselected.2, hsent⟩

end View

end Preview

end KFaceAuth
