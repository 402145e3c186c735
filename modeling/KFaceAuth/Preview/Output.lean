import KFaceAuth.Lib.Machine
import KFaceAuth.Preview.Worker

/-!
# The output of the worker

The worker writes its records to a pipe that takes as much as it likes: a record
may be written in parts, and the rest of them waits. A record has its number from
when it is made, but control records overtake a frame that waits.

* `sequences_of_reachable`: the numbers of the records that are written increase in
  the runs where no control record is made while a frame waits.
-/

namespace KFaceAuth

namespace Preview

/-- What `write` answers: it takes some bytes, at least one; or none for now; or it
    fails. -/
inductive Reply
  | accepted (more : ℕ)
  | again
  | error
  deriving DecidableEq, Repr

/-- The worker and its output. -/
structure Output where
  worker : Worker := {}
  /-- The record that is being written, and how many of its bytes are left. -/
  currentOutput : Option (Record × ℕ) := none
  /-- The records that are completely written. -/
  written : List Record := []
  /-- What the next writes are answered, and `EAGAIN` from then on. -/
  answers : List Reply := []
  quit : Bool := false
  deriving DecidableEq, Repr

/-- What `startPreview` leaves when the camera is refused. -/
def Worker.unstarted (w : Worker) (deadlineMs : ℤ) : Worker :=
  { w with
    deadlineMs
    enrollmentBudgetGranted := false
    droppedFrames := 0
    pendingFrame := none
    previewInProgress := false
    camera := .closed
    attached := false }

namespace Output

section

variable (size : Record → ℕ)

/-! ## Writing -/

/-- The next record to write. -/
def pick (o : Output) : Output :=
  match o.currentOutput with
  | some _ => o
  | none =>
    match o.worker.flushOutput with
    | none => o
    | some (worker, record) => { o with worker, currentOutput := some (record, size record) }

/-- The bytes that a write takes. -/
def accept (o : Output) (record : Record) (left bytes : ℕ) : Output :=
  if left ≤ bytes then { o with currentOutput := none, written := o.written ++ [record] }
  else { o with currentOutput := some (record, left - bytes) }

/-- The loop of `flushOutput`. -/
def flushAnswered (o : Output) : List Reply → Output
  | [] => { o.pick size with answers := [] }
  | reply :: answers =>
    let o := o.pick size
    match o.currentOutput with
    | none => { o with answers := reply :: answers }
    | some (record, left) =>
      match reply with
      | .accepted more => (o.accept record left (more + 1)).flushAnswered answers
      | .again => { o with answers }
      | .error => { o with answers, worker := { o.worker with camera := .closed }, quit := true }

/-- `flushOutput`. -/
def flushOutput (o : Output) : Output := o.flushAnswered size o.answers

/-- A part of a handler, which makes at most one record: a new record ends in
    `flushOutput`. -/
def run (o : Output) (f : Worker → Worker) : Output :=
  let o' := { o with worker := f o.worker }
  if o'.worker.sequence = o.worker.sequence then o' else o'.flushOutput size

/-! ## Handlers that make two records -/

/-- `startPreview`. -/
def startPreview (o : Output) (deadlineMs : ℤ) (around : Surroundings) : Output :=
  match o.worker.previewInProgress, around.refused with
  | false, some error =>
    (o.run size fun w => (w.unstarted deadlineMs).sendError error.code).run size
      (·.discoverPending around.found)
  | _, _ => o.run size (·.startPreview deadlineMs around)

/-- `stopPreview`. -/
def stopPreview (o : Output) (reason : String) (found : List Device) : Output :=
  (o.run size fun w => w.release.queueControl (.stopped reason (w.camera = .active))).run size
    (·.discoverPending found)

/-- The camera fails. -/
def failed (o : Output) (found : List Device) : Output :=
  (o.run size fun w => w.release.sendError .cameraUnavailable).run size (·.discoverPending found)

/-! ## Commands -/

/-- What `handleCommand` does at a command that is in order. -/
def perform (o : Output) (now : ℤ) (body : CommandBody) (around : Surroundings) : Output :=
  match body with
  | .start device deadlineMs =>
    if validDeadline now deadlineMs maxPreviewSeconds ∧ device ≠ "" ∧ qsize device ≤ 64 then
      o.startPreview size deadlineMs around
    else o.run size (·.sendError .protocolError)
  | .stop => o.stopPreview size "requested" around.found
  | .discover => o.run size (·.perform now .discover around)
  | .enrollment deadlineMs => o.run size (·.perform now (.enrollment deadlineMs) around)

end

end Output

/-- The checks of `handleCommand`. -/
def Worker.accepts (w : Worker) (command : Command) : Bool :=
  command.protocol = version && command.session ≠ "" && qsize command.session ≤ 64 &&
    0 < command.sequence && w.lastCommandSequence < command.sequence &&
    (w.sessionId = "" || command.session = w.sessionId)

namespace Output

variable (size : Record → ℕ)

/-- `handleCommand`. -/
def handleCommand (o : Output) (now : ℤ) (command : Command) (around : Surroundings) : Output :=
  if o.worker.accepts command then
    { o with
      worker := { o.worker with
        sessionId := command.session
        lastCommandSequence := command.sequence } }.perform size now command.body around
  else o.run size (·.handleCommand now command around)

end Output

/-- What happens to the worker. -/
inductive OutputEvent
  | command (now : ℤ) (command : Command) (around : Surroundings)
  | protocolError
  | started
  | frameReady (frame : Frame) (jpeg : List UInt8)
  | failed (found : List Device)
  | deviceListChanged (found : List Device)
  | previewLimit (found : List Device)
  | writable

/-- An event and what the writes are answered meanwhile. Frames come from a camera
    that is open. -/
def Output.step (size : Record → ℕ) (o : Output) (e : OutputEvent × List Reply) : Option Output :=
  let o := { o with answers := e.2 }
  if o.quit then none
  else
    match e.1 with
    | .command now command around => some (o.handleCommand size now command around)
    | .protocolError => some (o.run size (·.sendError .protocolError))
    | .started => if o.worker.camera ≠ .closed then some (o.run size Worker.started) else none
    | .frameReady frame jpeg =>
      if o.worker.camera ≠ .closed then some (o.run size (·.frameReady frame jpeg)) else none
    | .failed found => if o.worker.camera ≠ .closed then some (o.failed size found) else none
    | .deviceListChanged found => some (o.run size (·.discover found))
    | .previewLimit found =>
      if o.worker.previewLimit then some (o.stopPreview size "time-limit" found) else none
    | .writable => some (o.flushOutput size)

/-- The worker, in any order of events and with any answers of the pipe. -/
def output (size : Record → ℕ) : Machine Output (OutputEvent × List Reply) :=
  ⟨{}, Output.step size⟩

/-! ## Records in the order of writing -/

/-- The records that wait, in the order in which they will be written. -/
def Worker.waiting (w : Worker) : List Record := w.controlQueue ++ w.pendingFrame.toList

namespace Output

/-- The records that are written, and those that will be. -/
def records (o : Output) : List Record :=
  o.written ++ ((o.currentOutput.map Prod.fst).toList ++ o.worker.waiting)

variable {size : Record → ℕ} {o : Output}

/-- What writing leaves as it is. -/
structure Writes (o o' : Output) : Prop where
  records : o'.records = o.records
  sequence : o'.worker.sequence = o.worker.sequence
  previewInProgress : o'.worker.previewInProgress = o.worker.previewInProgress
  sessionId : o'.worker.sessionId = o.worker.sessionId
  pendingFrame : o'.worker.pendingFrame.isSome → o.worker.pendingFrame.isSome
  camera : o'.worker.camera ≠ .closed → o.worker.camera ≠ .closed

theorem Writes.refl (o : Output) : Writes o o :=
  ⟨rfl, rfl, rfl, rfl, id, id⟩

theorem Writes.trans {a b c : Output} (hab : Writes a b) (hbc : Writes b c) : Writes a c where
  records := hbc.records.trans hab.records
  sequence := hbc.sequence.trans hab.sequence
  previewInProgress := hbc.previewInProgress.trans hab.previewInProgress
  sessionId := hbc.sessionId.trans hab.sessionId
  pendingFrame h := hab.pendingFrame (hbc.pendingFrame h)
  camera h := hab.camera (hbc.camera h)

theorem writes_pick : Writes o (o.pick size) := by
  unfold pick
  split
  · exact .refl o
  · rename_i hcurrent
    split
    · exact .refl o
    · rename_i worker record hflush
      unfold Worker.flushOutput at hflush
      split at hflush
      · rename_i first controlQueue hqueue
        obtain ⟨rfl, rfl⟩ := Prod.mk.inj (Option.some.inj hflush)
        refine ⟨?_, rfl, rfl, rfl, id, id⟩
        simp [records, Worker.waiting, hcurrent, hqueue]
      · rename_i frame hqueue hframe
        obtain ⟨rfl, rfl⟩ := Prod.mk.inj (Option.some.inj hflush)
        refine ⟨?_, rfl, rfl, rfl, by simp, id⟩
        simp [records, Worker.waiting, hcurrent, hqueue, hframe]
      · cases hflush

theorem writes_accept {record : Record} {left : ℕ} (h : o.currentOutput = some (record, left))
    (bytes : ℕ) : Writes o (o.accept record left bytes) := by
  unfold accept
  split
  · refine ⟨?_, rfl, rfl, rfl, id, id⟩
    simp [records, h]
  · refine ⟨?_, rfl, rfl, rfl, id, id⟩
    simp [records, h]

theorem writes_flushAnswered (answers : List Reply) : Writes o (o.flushAnswered size answers) := by
  induction answers generalizing o with
  | nil => exact writes_pick.trans ⟨rfl, rfl, rfl, rfl, id, id⟩
  | cons reply answers ih =>
    have hpick : Writes o (o.pick size) := writes_pick
    rw [flushAnswered]
    split
    · exact hpick.trans ⟨rfl, rfl, rfl, rfl, id, id⟩
    · rename_i record left hcurrent
      cases reply with
      | accepted more => exact (hpick.trans (writes_accept hcurrent _)).trans ih
      | again => exact hpick.trans ⟨rfl, rfl, rfl, rfl, id, id⟩
      | error => exact hpick.trans ⟨rfl, rfl, rfl, rfl, id, fun h => absurd rfl h⟩

theorem writes_flushOutput : Writes o (o.flushOutput size) := writes_flushAnswered _

end Output

/-! ## Parts of handlers -/

namespace Worker

/-- Frames wait, and the camera is open, only during a preview. -/
structure InPreview (w : Worker) : Prop where
  frame : w.pendingFrame.isSome → w.previewInProgress
  camera : w.camera ≠ .closed → w.previewInProgress

/-- At most one record is made, and it comes last. -/
inductive Follows (w w' : Worker) : Prop
  | keeps (hseq : w.sequence ≤ w'.sequence) (h : w'.waiting.Sublist w.waiting)
  | adds (kept : List Record) (record : Record) (hseq : w'.sequence = w.sequence + 1)
      (hrecord : record.sequence = w.sequence + 1) (h : w'.waiting = kept ++ [record])
      (hkept : kept.Sublist w.waiting)

variable {w v : Worker}

/-- No frame waits that the next control record overtakes. -/
def Free (w : Worker) : Prop :=
  w.pendingFrame = none ∨ maxControlRecords ≤ w.controlQueue.length

instance (w : Worker) : Decidable w.Free := inferInstanceAs (Decidable (_ ∨ _))

theorem follows_queueControl (hwaiting : v.waiting.Sublist w.waiting)
    (hseq : v.sequence = w.sequence) (hfree : v.Free) (body : Body) :
    Follows w (v.queueControl body) := by
  by_cases hroom : v.controlQueue.length < maxControlRecords
  · have hframe : v.pendingFrame = none := by
      rcases hfree with hframe | hfull
      · exact hframe
      · omega
    refine .adds v.waiting (v.baseRecord body) ?_ ?_ ?_ hwaiting
    · exact congrArg (· + 1) hseq
    · exact congrArg (· + 1) hseq
    · simp [queueControl, waiting, hroom, hframe]
  · refine .keeps ?_ ?_
    · exact hseq ▸ Int.le_of_lt (Int.lt_succ _)
    · simpa [queueControl, waiting, hroom] using hwaiting

theorem follows_queueFrame (frame : Frame) : Follows w (w.queueFrame frame) :=
  .adds w.controlQueue _ rfl rfl rfl (List.sublist_append_left _ _)

theorem Follows.congr {w' w'' : Worker} (h : Follows w w') (hseq : w''.sequence = w'.sequence)
    (hwaiting : w''.waiting = w'.waiting) : Follows w w'' := by
  rcases h with ⟨hle, hsub⟩ | ⟨kept, record, hnext, hrecord, hadds, hkept⟩
  · exact .keeps (hseq ▸ hle) (hwaiting ▸ hsub)
  · exact .adds kept record (hseq.trans hnext) hrecord (hwaiting.trans hadds) hkept

theorem follows_started (hfree : w.Free) : Follows w w.started := by
  have hqueue : Follows w ({ w with camera := .active }.queueControl (.started maxPreviewSeconds)) := by
    refine follows_queueControl ?_ ?_ ?_ _
    · exact List.Sublist.refl _
    · rfl
    · exact hfree
  exact hqueue.congr rfl rfl

theorem follows_frameReady (frame : Frame) (jpeg : List UInt8) :
    Follows w (w.frameReady frame jpeg) := by
  unfold frameReady
  split
  · exact follows_queueFrame _
  · split
    · exact .keeps (Int.le_refl _) (List.Sublist.refl _)
    · exact follows_queueFrame _

theorem inPreview_frameReady (h : w.previewInProgress) (frame : Frame) (jpeg : List UInt8) :
    (w.frameReady frame jpeg).InPreview := by
  unfold frameReady
  split
  · exact ⟨fun _ => h, fun _ => h⟩
  · split
    · exact ⟨fun _ => h, fun _ => h⟩
    · exact ⟨fun _ => h, fun _ => h⟩

theorem waiting_release : w.release.waiting.Sublist w.waiting := by
  rw [waiting, waiting, release, Option.toList_none, List.append_nil]
  exact List.sublist_append_left _ _

theorem follows_discover (hw : w.InPreview) (found : List Device) :
    Follows w (w.discover found) := by
  unfold discover
  split
  · exact .keeps (Int.le_refl _) (List.Sublist.refl _)
  · rename_i hready
    rw [not_or] at hready
    have hframe : w.pendingFrame = none :=
      Option.not_isSome_iff_eq_none.1 fun hframe => hready.2 (hw.frame hframe)
    refine follows_queueControl ?_ ?_ (.inl ?_) _
    · exact List.Sublist.refl _
    · rfl
    · exact hframe

theorem inPreview_discover (hw : w.InPreview) (found : List Device) :
    (w.discover found).InPreview := by
  unfold discover
  split
  · exact ⟨hw.frame, hw.camera⟩
  · exact ⟨hw.frame, fun h => absurd rfl h⟩

theorem follows_discoverPending (hw : w.InPreview) (found : List Device) :
    Follows w (w.discoverPending found) := by
  unfold discoverPending
  split
  · exact follows_discover hw found
  · exact .keeps (Int.le_refl _) (List.Sublist.refl _)

theorem inPreview_discoverPending (hw : w.InPreview) (found : List Device) :
    (w.discoverPending found).InPreview := by
  unfold discoverPending
  split
  · exact inPreview_discover hw found
  · exact hw

end Worker

namespace Output

variable {size : Record → ℕ} {o : Output}

/-- The numbers of the records increase in the order of writing. -/
structure Orderly (o : Output) : Prop where
  increasing : (o.records.map Record.sequence).Pairwise (· < ·)
  le_sequence : ∀ r ∈ o.records, r.sequence ≤ o.worker.sequence
  inPreview : o.worker.InPreview

theorem Orderly.writes {o' : Output} (h : Orderly o) (hw : Writes o o') : Orderly o' where
  increasing := hw.records ▸ h.increasing
  le_sequence := by
    rw [hw.records, hw.sequence]
    exact h.le_sequence
  inPreview :=
    ⟨fun hf => hw.previewInProgress ▸ h.inPreview.frame (hw.pendingFrame hf),
      fun hc => hw.previewInProgress ▸ h.inPreview.camera (hw.camera hc)⟩

/-- A part of a handler before its output. -/
theorem Orderly.worker {w : Worker} (h : Orderly o) (hf : Worker.Follows o.worker w)
    (hw : w.InPreview) : Orderly { o with worker := w } := by
  have hrecords : ({ o with worker := w } : Output).records =
      o.written ++ ((o.currentOutput.map Prod.fst).toList ++ w.waiting) := rfl
  have hold : o.records = o.written ++ ((o.currentOutput.map Prod.fst).toList ++ o.worker.waiting) :=
    rfl
  rcases hf with ⟨hseq, hsub⟩ | ⟨kept, record, hseq, hrecord, hwaiting, hkept⟩
  · -- Records are taken out, and the others keep their order.
    have hsub' : ({ o with worker := w } : Output).records.Sublist o.records := by
      rw [hrecords, hold]
      exact (List.Sublist.refl _).append ((List.Sublist.refl _).append hsub)
    exact ⟨h.increasing.sublist (hsub'.map _),
      fun r hr => Int.le_trans (h.le_sequence r (hsub'.subset hr)) hseq, hw⟩
  · -- One record comes in, at the end, with the number after all others.
    have hsub' :
        (o.written ++ ((o.currentOutput.map Prod.fst).toList ++ kept)).Sublist o.records := by
      rw [hold]
      exact (List.Sublist.refl _).append ((List.Sublist.refl _).append hkept)
    have hnew : ({ o with worker := w } : Output).records =
        o.written ++ ((o.currentOutput.map Prod.fst).toList ++ kept) ++ [record] := by
      rw [hrecords, hwaiting, List.append_assoc, List.append_assoc]
    refine ⟨?_, ?_, hw⟩
    · rw [hnew, List.map_append, List.pairwise_append]
      refine ⟨h.increasing.sublist (hsub'.map _), List.pairwise_singleton _ _, ?_⟩
      intro n hn m hm
      obtain ⟨r, hr, rfl⟩ := List.mem_map.1 hn
      obtain rfl := List.mem_singleton.1 hm
      rw [hrecord]
      exact Int.lt_add_one_of_le (h.le_sequence r (hsub'.subset hr))
    · intro r hr
      rw [hnew] at hr
      show r.sequence ≤ w.sequence
      rw [hseq]
      rcases List.mem_append.1 hr with hr | hr
      · exact Int.le_trans (h.le_sequence r (hsub'.subset hr)) (Int.le_of_lt (Int.lt_succ _))
      · obtain rfl := List.mem_singleton.1 hr
        exact Int.le_of_eq hrecord

theorem Orderly.run {f : Worker → Worker} (h : Orderly o)
    (hf : Worker.Follows o.worker (f o.worker)) (hw : (f o.worker).InPreview) :
    Orderly (o.run size f) := by
  unfold Output.run
  dsimp only
  split
  · exact h.worker hf hw
  · exact (h.worker hf hw).writes writes_flushOutput

/-! ## Handlers -/

/-- The frame is dropped, and then a control record and the devices follow. -/
theorem Orderly.dropped (h : Orderly o) {g : Worker → Worker}
    (hwaiting : (g o.worker).waiting.Sublist o.worker.waiting)
    (hseq : (g o.worker).sequence = o.worker.sequence)
    (hframe : (g o.worker).pendingFrame = none) (hcamera : (g o.worker).camera = .closed)
    (body : Worker → Body) (found : List Device) :
    Orderly ((o.run size fun w => (g w).queueControl (body w)).run size
      (·.discoverPending found)) := by
  have hfirst : Orderly (o.run size fun w => (g w).queueControl (body w)) := by
    refine h.run (Worker.follows_queueControl hwaiting hseq (.inl hframe) _) ⟨?_, ?_⟩
    · intro hsome
      exact absurd hsome (by simp [Worker.queueControl, hframe])
    · exact fun hopen => absurd hcamera hopen
  exact hfirst.run (Worker.follows_discoverPending hfirst.inPreview _)
    (Worker.inPreview_discoverPending hfirst.inPreview _)

theorem Orderly.stopPreview (h : Orderly o) (reason : String) (found : List Device) :
    Orderly (o.stopPreview size reason found) :=
  h.dropped Worker.waiting_release rfl rfl rfl _ found

theorem Orderly.failed (h : Orderly o) (found : List Device) : Orderly (o.failed size found) :=
  h.dropped Worker.waiting_release rfl rfl rfl _ found

/-- A control record is made while no frame waits. -/
theorem Orderly.control (h : Orderly o) {f : Worker → Worker} {v : Worker} {body : Body}
    (heq : f o.worker = v.queueControl body) (hwaiting : v.waiting = o.worker.waiting)
    (hseq : v.sequence = o.worker.sequence) (hfree : v.Free) (hv : v.InPreview) :
    Orderly (o.run size f) := by
  refine h.run ?_ ?_
  · rw [heq]
    exact Worker.follows_queueControl (hwaiting ▸ List.Sublist.refl _) hseq hfree _
  · rw [heq]
    exact ⟨hv.frame, hv.camera⟩

theorem Orderly.sendError (h : Orderly o) (hfree : o.worker.Free) (code : ErrorCode) :
    Orderly (o.run size (·.sendError code)) :=
  h.control rfl rfl rfl hfree h.inPreview

theorem Orderly.discover (h : Orderly o) (found : List Device) :
    Orderly (o.run size (·.discover found)) :=
  h.run (Worker.follows_discover h.inPreview found) (Worker.inPreview_discover h.inPreview found)

theorem Orderly.startPreview (h : Orderly o) (hfree : o.worker.Free) (deadlineMs : ℤ)
    (around : Surroundings) : Orderly (o.startPreview size deadlineMs around) := by
  unfold Output.startPreview
  split
  · exact h.dropped (g := (·.unstarted deadlineMs)) Worker.waiting_release rfl rfl rfl _ _
  · rename_i hcases
    by_cases hbusy : o.worker.previewInProgress
    · exact h.control (if_pos hbusy) rfl rfl hfree h.inPreview
    · rcases hrefused : around.refused with _ | error
      · have hsub := (Worker.waiting_release : o.worker.release.waiting.Sublist _)
        refine h.run ?_ ?_
        · unfold Worker.startPreview
          rw [if_neg hbusy, hrefused]
          exact .keeps (Int.le_refl _) hsub
        · unfold Worker.startPreview
          rw [if_neg hbusy, hrefused]
          exact ⟨fun _ => rfl, fun _ => rfl⟩
      · exact absurd hrefused (hcases error (Bool.eq_false_iff.2 hbusy))

theorem Orderly.enrollment (h : Orderly o) (hfree : o.worker.Free) (now deadlineMs : ℤ)
    (around : Surroundings) :
    Orderly (o.run size (·.perform now (.enrollment deadlineMs) around)) := by
  by_cases hgranted : o.worker.camera = .active ∧ !o.worker.enrollmentBudgetGranted ∧
      now < o.worker.deadlineMs ∧ validDeadline now deadlineMs maxEnrollmentSeconds
  · exact h.control (if_pos hgranted) rfl rfl hfree ⟨h.inPreview.frame, h.inPreview.camera⟩
  · exact h.control (if_neg hgranted) rfl rfl hfree h.inPreview

theorem Orderly.perform (h : Orderly o) (now : ℤ) {body : CommandBody}
    (hfree : body = .discover ∨ body = .stop ∨ o.worker.Free) (around : Surroundings) :
    Orderly (o.perform size now body around) := by
  unfold Output.perform
  cases body with
  | discover => exact h.discover around.found
  | stop => exact h.stopPreview _ _
  | start device deadlineMs =>
    have hfree : o.worker.Free := by simpa using hfree
    dsimp only
    split
    · exact h.startPreview hfree _ _
    · exact h.sendError hfree _
  | enrollment deadlineMs => exact h.enrollment (by simpa using hfree) now deadlineMs around

/-- A command that is not in order is answered by an error. -/
theorem handleCommand_of_not_accepts {w : Worker} {command : Command}
    (h : ¬ w.accepts command) (now : ℤ) (around : Surroundings) :
    ∃ sessionId, w.handleCommand now command around =
      { w with sessionId }.sendError .protocolError := by
  unfold Worker.handleCommand
  split
  · split
    · exact ⟨_, rfl⟩
    · exact ⟨w.sessionId, rfl⟩
  · rename_i hheader
    have hother : w.sessionId ≠ "" ∧ command.session ≠ w.sessionId := by
      simp only [Worker.accepts, Bool.and_eq_true, Bool.or_eq_true, decide_eq_true_eq] at h
      simp only [not_or, not_not, Int.not_le, Nat.not_lt] at hheader
      obtain ⟨hversion, hsession, hlength, hpositive, hnext⟩ := hheader
      rw [← not_or]
      exact fun hsame => h ⟨⟨⟨⟨⟨hversion, hsession⟩, hlength⟩, hpositive⟩, hnext⟩, hsame⟩
    rw [if_neg hother.1]
    exact ⟨w.sessionId, if_pos hother.2⟩

theorem Orderly.handleCommand (h : Orderly o) (now : ℤ) {command : Command}
    (hfree : o.worker.Free ∨
      o.worker.accepts command ∧ (command.body = .discover ∨ command.body = .stop))
    (around : Surroundings) : Orderly (o.handleCommand size now command around) := by
  unfold Output.handleCommand
  split
  · have hnamed := h.worker (w := { o.worker with
      sessionId := command.session
      lastCommandSequence := command.sequence }) (.keeps (Int.le_refl _) (List.Sublist.refl _))
      ⟨h.inPreview.frame, h.inPreview.camera⟩
    refine hnamed.perform now ?_ around
    rcases hfree with hfree | ⟨-, hbody | hbody⟩
    · exact .inr (.inr hfree)
    · exact .inl hbody
    · exact .inr (.inl hbody)
  · rename_i hreject
    have hfree : o.worker.Free := hfree.resolve_right fun h => hreject h.1
    obtain ⟨sessionId, heq⟩ := handleCommand_of_not_accepts hreject now around
    exact h.control heq rfl rfl hfree ⟨h.inPreview.frame, h.inPreview.camera⟩

/-! ## Runs -/

/-- The event makes no control record that overtakes a frame: none waits, or the
    record is dropped, or the frame is. -/
def inTurn (o : Output) (e : OutputEvent × List Reply) : Bool :=
  match e.1 with
  | .command _ command _ =>
    o.worker.Free ||
      (o.worker.accepts command && (command.body = .discover || command.body = .stop))
  | .protocolError | .started => o.worker.Free
  | .frameReady _ _ | .failed _ | .deviceListChanged _ | .previewLimit _ | .writable => true

theorem Orderly.answers (h : Orderly o) (answers : List Reply) : Orderly { o with answers } :=
  ⟨h.increasing, h.le_sequence, h.inPreview⟩

theorem Orderly.step (h : Orderly o) {e : OutputEvent × List Reply} (he : o.inTurn e)
    {o' : Output} (hstep : o.step size e = some o') : Orderly o' := by
  obtain ⟨e, answers⟩ := e
  have h := h.answers answers
  unfold Output.step at hstep
  dsimp only at hstep
  split at hstep
  · cases hstep
  · cases e with
    | command now command around =>
      obtain rfl := Option.some.inj hstep
      refine h.handleCommand now ?_ around
      simpa [inTurn] using he
    | protocolError =>
      obtain rfl := Option.some.inj hstep
      exact h.sendError (of_decide_eq_true he) _
    | started =>
      obtain ⟨hcamera, heq⟩ := Option.ite_none_right_eq_some.1 hstep
      obtain rfl := Option.some.inj heq
      have hin := h.inPreview.camera hcamera
      exact h.run (Worker.follows_started (of_decide_eq_true he)) ⟨fun _ => hin, fun _ => hin⟩
    | frameReady frame jpeg =>
      obtain ⟨hcamera, heq⟩ := Option.ite_none_right_eq_some.1 hstep
      obtain rfl := Option.some.inj heq
      exact h.run (Worker.follows_frameReady frame jpeg)
        (Worker.inPreview_frameReady (h.inPreview.camera hcamera) frame jpeg)
    | failed found =>
      obtain ⟨-, heq⟩ := Option.ite_none_right_eq_some.1 hstep
      obtain rfl := Option.some.inj heq
      exact h.failed found
    | deviceListChanged found =>
      obtain rfl := Option.some.inj hstep
      exact h.discover found
    | previewLimit found =>
      obtain ⟨-, heq⟩ := Option.ite_none_right_eq_some.1 hstep
      obtain rfl := Option.some.inj heq
      exact h.stopPreview _ found
    | writable =>
      obtain rfl := Option.some.inj hstep
      exact h.writes writes_flushOutput

end Output

/-- In the runs where every control record is made in turn, the records are written in
    the order of their numbers. -/
theorem sequences_of_reachable {size : Record → ℕ} {o : Output}
    (h : ((output size).restrict Output.inTurn).Reachable o) :
    (o.written.map Record.sequence).Pairwise (· < ·) := by
  have horderly : o.Orderly := by
    refine h.inv_restrict ⟨List.Pairwise.nil, by simp [output, Output.records, Worker.waiting],
      ⟨by simp [output], by simp [output]⟩⟩ ?_
    exact fun o e o' ho he hstep => ho.step he hstep
  have hsub : o.written.Sublist o.records := List.sublist_append_left _ _
  exact horderly.increasing.sublist (hsub.map _)

/-! ### A frame that waits -/

/-- Frames of a thousand bytes. -/
def recordSize (record : Record) : ℕ :=
  match record.body with
  | .frame _ => 1000
  | _ => 100

def asked (sequence : ℤ) (body : CommandBody) : OutputEvent :=
  .command 0 ⟨version, "s", sequence, body⟩ ⟨[], none, false⟩

def pictured : OutputEvent := .frameReady ⟨false, none, none, 4, 4, .rgb, 0⟩ [0xff, 0xd8]

/-- A preview starts; of its first frame a part is written, and the second one waits. -/
def blockedRun : List (OutputEvent × List Reply) :=
  [(asked 1 .discover, [.accepted 99]), (asked 2 (.start "a" 60000), []),
    (.started, [.accepted 99]), (pictured, [.accepted 9]), (pictured, [])]

/-- The pipe takes everything that waits. -/
def drained : OutputEvent × List Reply :=
  (.writable, [.accepted 989, .accepted 999, .accepted 999])

theorem sequences_of_reachable_blockedRun :
    ∃ o, ((output recordSize).restrict Output.inTurn).Reachable o ∧
      o.written.map Record.sequence = [1, 2, 3, 4] ∧
      (o.written.map Record.sequence).Pairwise (· < ·) := by
  obtain ⟨o, ho⟩ : ∃ o, ((output recordSize).restrict Output.inTurn).run {}
      (blockedRun ++ [drained]) = some o := ⟨_, rfl⟩
  have hreachable := Machine.Reachable.init.run ho
  have hwritten : o.written.map Record.sequence = [1, 2, 3, 4] := by
    cases ho
    decide +kernel
  exact ⟨o, hreachable, hwritten, sequences_of_reachable hreachable⟩

/-- The answer to an enrollment overtakes the frame that waits. -/
theorem sequences_of_reachable_fails :
    ∃ o, (output recordSize).Reachable o ∧
      o.written.map Record.sequence = [1, 2, 3, 5, 4] ∧
      ¬ (o.written.map Record.sequence).Pairwise (· < ·) := by
  obtain ⟨o, ho⟩ : ∃ o, (output recordSize).run {}
      (blockedRun ++ [(asked 3 (.enrollment 300000), []), drained]) = some o := ⟨_, rfl⟩
  have hwritten : o.written.map Record.sequence = [1, 2, 3, 5, 4] := by
    cases ho
    decide +kernel
  refine ⟨o, Machine.Reachable.init.run ho, hwritten, ?_⟩
  rw [hwritten]
  decide

end Preview

end KFaceAuth
