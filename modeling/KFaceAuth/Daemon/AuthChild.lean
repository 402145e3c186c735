import KFaceAuth.Daemon.RateLimiter
import KFaceAuth.Lib.Machine

/-!
# The slot of the authentication worker

The daemon runs one authentication worker at a time: the process is kept in a
slot behind a lock (`auth_child`), which the requests and the accept loop only
ever try to take. A request that has the lock keeps it until it returns.

Any number of requests, the accept loop and the worker processes are one
machine (`AuthChild.machine`). The loop of a request over the answers of its
worker is `Supervisor`. A worker that was killed exits in its own time.

* `AuthChild.inv_of_reachable`: a worker that was not reaped is in the slot, or
  held by the request that has the lock;
* `AuthChild.records_of_step`: the rate limiter gets an attempt of a user at exactly
  the steps after which a request of the user calls `spawn_auth_worker`;
* `AuthChild.oneWorker_of_reachable`: what follows for whole runs.
-/

namespace KFaceAuth

/-! ## The shared state -/

/-- A worker process: running, exited, or waited for. -/
inductive WorkerState
  | running
  | exited
  | reaped
  deriving DecidableEq, Repr

/-- What the lock guards, and the rate limiter. The workers are all that were
    ever spawned. The attempts recorded and the calls of `spawn_auth_worker`
    (with the request that makes it) are kept, latest first. -/
structure AuthShared where
  slot : Option ℕ
  workers : List WorkerState
  limiter : AuthRateLimiter
  recorded : List UInt32
  spawns : List (ℕ × UInt32)

namespace AuthShared

/-- `Child::try_wait`, with its reply: it reaps a worker that has exited. -/
def tryWait (s : AuthShared) (worker : ℕ) : WaitReply → Option AuthShared
  | .exited _ =>
    if s.workers[worker]? = some .exited then
      some { s with workers := s.workers.set worker .reaped }
    else none
  | .running => if s.workers[worker]? = some .running then some s else none
  | .failed => some s

/-- A `try_wait` that empties the slot if the worker has exited. -/
def tryWaitSlot (s : AuthShared) (worker : ℕ) (reply : WaitReply) : Option AuthShared :=
  (s.tryWait worker reply).map fun s =>
    match reply with
    | .exited _ => { s with slot := none }
    | _ => s

/-- The workers that a request has spawned, by the user they are for. -/
def spawnsOf (s : AuthShared) (r : ℕ) : List UInt32 :=
  (s.spawns.filter fun call => call.1 = r).map Prod.snd

/-- A worker that exists and has not been reaped. -/
def Unreaped (s : AuthShared) (worker : ℕ) : Prop :=
  s.workers[worker]? = some .running ∨ s.workers[worker]? = some .exited

end AuthShared

/-! ## A request -/

/-- What `supervise_auth_worker` is about to do. -/
inductive AuthPhase
  /-- `try_lock`. -/
  | lock
  /-- `try_wait` of the worker in the slot, if there is one. -/
  | look
  | deadline
  | allow
  | spawn
  /-- Writing the request to the worker it has spawned. -/
  | write (worker : ℕ)
  /-- Putting the worker into the slot, then returning if the write failed. -/
  | register (worker : ℕ) (written : Bool)
  | nonblocking
  | supervise (s : Supervisor)
  | returned (status : UInt8)

namespace AuthPhase

/-- The request has the lock. -/
def locked : AuthPhase → Bool
  | lock | returned _ => false
  | _ => true

/-- The worker in a variable of the request. -/
def child : AuthPhase → Option ℕ
  | write worker | register worker _ => some worker
  | _ => none

/-- The request has found the slot empty, and not yet filled it. -/
def vacant : AuthPhase → Bool
  | deadline | allow | spawn | write _ | register _ _ => true
  | _ => false

theorem vacant_of_child (phase : AuthPhase) {worker : ℕ} (h : phase.child = some worker) :
    phase.vacant = true := by
  cases phase with
  | write | register => rfl
  | _ => cases h

end AuthPhase

/-- A request that reaches `supervise_auth_worker`, with a client to cancel it
    or without. -/
structure AuthRequest where
  uid : UInt32
  client : Bool
  phase : AuthPhase

/-- The answer to the call a request is at. -/
inductive RequestReply
  | look (reply : WaitReply)
  | deadline (expired : Bool)
  | allow (now : ℤ)
  | spawn (ok : Bool)
  | write (ok : Bool)
  | register
  | nonblocking (ok : Bool)
  | supervise (e : Event)

/-- What a request that has the lock does with an answer. -/
def AuthRequest.step (req : AuthRequest) (r : ℕ) (s : AuthShared) :
    RequestReply → Option (AuthPhase × AuthShared)
  | .look reply =>
    match req.phase with
    | .look =>
      match s.slot with
      | none => some (.deadline, s)
      | some worker =>
        (s.tryWaitSlot worker reply).map fun s =>
          match reply with
          | .exited _ => (.deadline, s)
          | _ => (.returned statusDeviceBusy, s)
    | _ => none
  | .deadline expired =>
    match req.phase with
    | .deadline => some (if expired then .returned statusTimeout else .allow, s)
    | _ => none
  | .allow now =>
    match req.phase with
    | .allow =>
      match s.limiter.allowAt req.uid now with
      | (false, limiter) => some (.returned statusRateLimited, { s with limiter })
      | (true, limiter) => some (.spawn, { s with limiter, recorded := req.uid :: s.recorded })
    | _ => none
  | .spawn ok =>
    match req.phase with
    | .spawn =>
      let s := { s with spawns := (r, req.uid) :: s.spawns }
      some <|
        if ok then (.write s.workers.length, { s with workers := s.workers ++ [WorkerState.running] })
        else (.returned statusInternalError, s)
    | _ => none
  | .write ok =>
    match req.phase with
    | .write worker => some (.register worker ok, s)
    | _ => none
  | .register =>
    match req.phase with
    | .register worker written =>
      some (if written then .nonblocking else .returned statusInternalError,
        { s with slot := some worker })
    | _ => none
  | .nonblocking ok =>
    match req.phase with
    | .nonblocking =>
      some (if ok then .supervise (.start req.client) else .returned statusInternalError, s)
    | _ => none
  | .supervise e =>
    match req.phase with
    | .supervise sup =>
      (sup.step req.client e).bind fun sup =>
        (match e with
          | .wait reply => s.slot.bind fun worker => s.tryWaitSlot worker reply
          | _ => some s).map fun s =>
            match sup.phase with
            | .returned status => (.returned status, s)
            | _ => (.supervise sup, s)
    | _ => none

/-! ## The machine -/

/-- What the accept loop is about to do. The last part is after its end. -/
inductive LoopPhase
  /-- `reap_auth_child`, of the accept loop or `final`, after its end. -/
  | reap (final : Bool)
  /-- `reap_auth_child`, with the lock. -/
  | reaping (final : Bool)
  | accept
  /-- Waiting for the threads to end. -/
  | joining
  /-- `lock`, to kill the worker in the slot. -/
  | kill
  | killing
  /-- Checking whether the slot is empty. -/
  | check
  | ended
  deriving DecidableEq

namespace LoopPhase

/-- The loop has the lock. -/
def locked : LoopPhase → Bool
  | reaping _ | killing => true
  | _ => false

/-- Where the loop goes on after `reap_auth_child`. -/
def reaped (final : Bool) : LoopPhase := if final then check else accept

/-- The threads may still start a request. -/
def admits : LoopPhase → Bool
  | reap false | reaping false | accept | joining => true
  | _ => false

end LoopPhase

inductive Holder
  | request (r : ℕ)
  | loop
  deriving DecidableEq

/-- The requests, each with what it is about to do, the accept loop, and who
    has the lock. -/
structure AuthChild where
  requests : List AuthRequest
  loop : LoopPhase
  lock : Option Holder
  shared : AuthShared

namespace AuthChild

inductive Event
  /-- A request reaches `supervise_auth_worker`. -/
  | arrive (uid : UInt32) (client : Bool)
  | tryLock (r : ℕ)
  | reply (r : ℕ) (reply : RequestReply)
  /-- A worker exits. -/
  | exit (worker : ℕ)
  /-- The attempts of a request that has returned success are cleared. -/
  | clear (r : ℕ)
  /-- `reap_auth_child`: `try_lock`. -/
  | reapLock
  /-- `reap_auth_child`: `try_wait`, if there is a worker in the slot. -/
  | reapWait (reply : WaitReply)
  /-- The accept loop goes round. -/
  | accept
  /-- The accept loop ends. -/
  | shutdown
  /-- The threads have ended. -/
  | join
  | kill
  | killed
  | check
  /-- The time to reap the worker after the end is over. -/
  | giveUp

/-- The requests after one of them goes on. -/
def setPhase (s : AuthChild) (r : ℕ) (req : AuthRequest) (phase : AuthPhase) : AuthChild :=
  { s with requests := s.requests.set r { req with phase } }

def step (s : AuthChild) : Event → Option AuthChild
  | .arrive uid client =>
    if s.loop.admits then some { s with requests := s.requests ++ [⟨uid, client, .lock⟩] } else none
  | .tryLock r => do
    let req ← s.requests[r]?
    match req.phase with
    | .lock =>
      if s.lock.isSome then some (s.setPhase r req (.returned statusDeviceBusy))
      else some { s.setPhase r req .look with lock := some (.request r) }
    | _ => none
  | .reply r reply => do
    let req ← s.requests[r]?
    let (phase, shared) ← req.step r s.shared reply
    some { s.setPhase r req phase with
      lock := if phase.locked then s.lock else none
      shared := shared }
  | .exit worker =>
    if s.shared.workers[worker]? = some .running then
      some { s with shared :=
        { s.shared with workers := s.shared.workers.set worker .exited } }
    else none
  | .clear r => do
    let req ← s.requests[r]?
    match req.phase with
    | .returned status =>
      if status = statusSuccess then
        some { s with shared := { s.shared with limiter := s.shared.limiter.clear req.uid } }
      else none
    | _ => none
  | .reapLock =>
    match s.loop with
    | .reap final =>
      if s.lock.isSome then some { s with loop := .reaped final }
      else some { s with loop := .reaping final, lock := some .loop }
    | _ => none
  | .reapWait reply =>
    match s.loop with
    | .reaping final =>
      (match s.shared.slot with
        | none => some s.shared
        | some worker => s.shared.tryWaitSlot worker reply).map fun shared =>
          { s with loop := .reaped final, lock := none, shared := shared }
    | _ => none
  | .accept => if s.loop = .accept then some { s with loop := .reap false } else none
  | .shutdown => if s.loop = .accept then some { s with loop := .joining } else none
  | .join =>
    if s.loop = .joining ∧ s.requests.all fun req =>
        match req.phase with
        | .returned _ => true
        | _ => false then
      some { s with loop := .kill }
    else none
  | .kill =>
    if s.loop = .kill ∧ s.lock = none then some { s with loop := .killing, lock := some .loop }
    else none
  | .killed =>
    if s.loop = .killing then some { s with loop := .reap true, lock := none } else none
  | .check =>
    if s.loop = .check ∧ s.lock = none then
      some { s with loop := if s.shared.slot = none then .ended else .reap true }
    else none
  | .giveUp => if s.loop = .reap true then some { s with loop := .ended } else none

/-- The machine, when the accept loop starts. -/
def machine : Machine AuthChild Event where
  init := ⟨[], .reap false, none, none, [], ∅, [], []⟩
  step := step

end AuthChild

/-! ## The worker and the lock -/

namespace AuthShared

variable {s s' : AuthShared} {w : ℕ} {reply : WaitReply}

/-- A `try_wait` reaps a worker that has exited, or changes nothing. -/
theorem tryWaitSlot_cases (h : s.tryWaitSlot w reply = some s') :
    (∃ b, reply = .exited b ∧ s.workers[w]? = some .exited ∧
      s' = { s with slot := none, workers := s.workers.set w .reaped }) ∨
    ((∀ b, reply ≠ .exited b) ∧ s' = s) := by
  cases reply with
  | exited b =>
    simp only [tryWaitSlot, tryWait] at h
    split_ifs at h with hw
    · cases h
      exact .inl ⟨b, rfl, hw, rfl⟩
    · cases h
  | running =>
    simp only [tryWaitSlot, tryWait] at h
    split_ifs at h
    · cases h
      exact .inr ⟨fun b => nofun, rfl⟩
    · cases h
  | failed =>
    cases h
    exact .inr ⟨fun b => nofun, rfl⟩

/-- Reaping a worker leaves the others. -/
theorem unreaped_reap (hw : w < s.workers.length) (slot : Option ℕ) (i : ℕ) :
    ({ s with slot := slot, workers := s.workers.set w .reaped } : AuthShared).Unreaped i ↔
      s.Unreaped i ∧ i ≠ w := by
  unfold Unreaped
  simp only [List.getElem?_set]
  by_cases hi : w = i
  · subst hi
    simp [hw]
  · simp [hi, Ne.symm hi]

/-- A new worker is one more that is not reaped. -/
theorem unreaped_spawn (i : ℕ) :
    ({ s with workers := s.workers ++ [WorkerState.running] } : AuthShared).Unreaped i ↔
      s.Unreaped i ∨ i = s.workers.length := by
  unfold Unreaped
  simp only [List.getElem?_append]
  by_cases hi : i < s.workers.length
  · simp [hi, hi.ne]
  · rw [if_neg hi, List.getElem?_eq_none (Nat.not_lt.mp hi)]
    by_cases he : i = s.workers.length
    · simp [he]
    · have hpos : 0 < i - s.workers.length := by omega
      obtain ⟨n, hn⟩ := Nat.exists_eq_succ_of_ne_zero hpos.ne'
      simp [he, hn]

/-- A worker that exits is still to be reaped. -/
theorem unreaped_exit (hw : s.workers[w]? = some .running) (i : ℕ) :
    ({ s with workers := s.workers.set w .exited } : AuthShared).Unreaped i ↔ s.Unreaped i := by
  have hlen : w < s.workers.length := (List.getElem?_eq_some_iff.mp hw).1
  unfold Unreaped
  simp only [List.getElem?_set]
  by_cases hi : w = i
  · subst hi
    rw [if_pos rfl, if_pos hlen, hw]
    simp
  · simp [hi]

end AuthShared

namespace AuthRequest

/-- The attempt that was recorded before the call of `spawn_auth_worker`. -/
def pending (req : AuthRequest) : List UInt32 :=
  match req.phase with
  | .spawn => [req.uid]
  | _ => []

/-- What holds of the shared state while `req` has the lock. -/
structure Owned (req : AuthRequest) (s : AuthShared) : Prop where
  worker : ∀ i, s.Unreaped i ↔ s.slot = some i ∨ req.phase.child = some i
  vacant : req.phase.vacant → s.slot = none
  attempts : s.recorded = req.pending ++ s.spawns.map Prod.snd

/-- Nobody, for when no request has the lock. -/
def nobody : AuthRequest := ⟨0, false, .lock⟩

variable {req req' : AuthRequest} {r : ℕ} {s s' : AuthShared} {phase : AuthPhase}
  {reply : RequestReply}

theorem Owned.congr (h : Owned req s) (hchild : req'.phase.child = req.phase.child)
    (hvacant : req'.phase.vacant = req.phase.vacant) (hpending : req'.pending = req.pending) :
    Owned req' s :=
  ⟨by rw [hchild]; exact h.worker, by rw [hvacant]; exact h.vacant,
    by rw [hpending]; exact h.attempts⟩

/-- Emptying the slot of a worker that has exited. -/
theorem Owned.reap {w : ℕ} (h : Owned req s) (hchild : req.phase.child = none)
    (hslot : s.slot = some w) (hw : s.workers[w]? = some .exited) :
    Owned req { s with slot := none, workers := s.workers.set w .reaped } := by
  refine ⟨fun i => ?_, fun _ => rfl, h.attempts⟩
  rw [AuthShared.unreaped_reap (List.getElem?_eq_some_iff.mp hw).1, h.worker, hslot, hchild]
  simp only [Option.some.injEq, reduceCtorEq, or_false, iff_false, not_and, not_not]
  exact Eq.symm

/-- A request that has the lock keeps what holds of the shared state. -/
theorem Owned.step (h : Owned req s) (hs : req.step r s reply = some (phase, s')) :
    Owned { req with phase } s' := by
  obtain ⟨uid, client, p⟩ := req
  cases reply with
  | look reply =>
    cases p with
    | look =>
      simp only [AuthRequest.step] at hs
      split at hs
      · next hslot =>
        cases hs
        exact ⟨h.worker, fun _ => hslot, h.attempts⟩
      next w hslot =>
      obtain ⟨s₁, hwait, hphase⟩ := Option.map_eq_some_iff.mp hs
      rcases AuthShared.tryWaitSlot_cases hwait with ⟨b, rfl, hw, rfl⟩ | ⟨hrunning, rfl⟩
      · cases hphase
        have hreap := h.reap rfl hslot hw
        exact ⟨hreap.worker, fun _ => rfl, hreap.attempts⟩
      · split at hphase
        · exact absurd rfl (hrunning _)
        · cases hphase
          exact h.congr rfl rfl rfl
    | _ => cases hs
  | deadline expired =>
    cases p with
    | deadline =>
      cases hs
      cases expired
      · exact h.congr rfl rfl rfl
      · exact ⟨h.worker, nofun, h.attempts⟩
    | _ => cases hs
  | allow now =>
    cases p with
    | allow =>
      simp only [AuthRequest.step] at hs
      split at hs
      · cases hs
        exact ⟨h.worker, nofun, h.attempts⟩
      · cases hs
        exact ⟨h.worker, h.vacant, congrArg (uid :: ·) h.attempts⟩
    | _ => cases hs
  | spawn ok =>
    cases p with
    | spawn =>
      have hslot : s.slot = none := h.vacant rfl
      cases ok
      · cases hs
        exact ⟨h.worker, nofun, h.attempts⟩
      · cases hs
        refine ⟨fun i => ?_, fun _ => hslot, h.attempts⟩
        refine (AuthShared.unreaped_spawn i).trans (or_congr ?_ ?_)
        · refine (h.worker i).trans ⟨fun hi => ?_, Or.inl⟩
          exact hi.resolve_right nofun
        · rw [AuthPhase.child, Option.some.injEq, eq_comm]
    | _ => cases hs
  | write ok =>
    cases p with
    | write w =>
      cases hs
      exact h.congr rfl rfl rfl
    | _ => cases hs
  | register =>
    cases p with
    | register w written =>
      have hslot : s.slot = none := h.vacant rfl
      cases hs
      have hworker : ∀ i, s.Unreaped i ↔ some w = some i := fun i => by
        refine (h.worker i).trans ?_
        rw [hslot]
        exact or_iff_right nofun
      cases written
      · exact ⟨fun i => (hworker i).trans (or_iff_left nofun).symm, nofun, h.attempts⟩
      · exact ⟨fun i => (hworker i).trans (or_iff_left nofun).symm, nofun, h.attempts⟩
    | _ => cases hs
  | nonblocking ok =>
    cases p with
    | nonblocking =>
      cases hs
      cases ok
      · exact h.congr rfl rfl rfl
      · exact h.congr rfl rfl rfl
    | _ => cases hs
  | supervise e =>
    cases p with
    | supervise sup =>
      obtain ⟨sup', -, hs⟩ := Option.bind_eq_some_iff.mp hs
      obtain ⟨s₁, hwait, hphase⟩ := Option.map_eq_some_iff.mp hs
      have hkept : Owned ⟨uid, client, .supervise sup⟩ s₁ := by
        split at hwait
        · obtain ⟨w, hslot, hwait⟩ := Option.bind_eq_some_iff.mp hwait
          rcases AuthShared.tryWaitSlot_cases hwait with ⟨b, rfl, hw, rfl⟩ | ⟨-, rfl⟩
          · exact h.reap rfl hslot hw
          · exact h
        · cases hwait
          exact h
      split at hphase
      · cases hphase
        exact hkept.congr rfl rfl rfl
      · cases hphase
        exact hkept.congr rfl rfl rfl
    | _ => cases hs

/-- Only a request that has the lock goes on with an answer. -/
theorem locked_of_step (hs : req.step r s reply = some (phase, s')) : req.phase.locked := by
  obtain ⟨uid, client, p⟩ := req
  cases p with
  | lock => cases reply <;> cases hs
  | returned status => cases reply <;> cases hs
  | _ => rfl

end AuthRequest

namespace AuthChild

open AuthRequest

variable {s s' : AuthChild} {r : ℕ} {req : AuthRequest}

/-- The request that has the lock. -/
def holder (s : AuthChild) : AuthRequest :=
  match s.lock with
  | some (.request r) => s.requests[r]?.getD nobody
  | _ => nobody

/-- Who has the lock knows it, and the worker is in the slot or with the request
    that has the lock. -/
structure Inv (s : AuthChild) : Prop where
  request : ∀ r req, s.requests[r]? = some req →
    (req.phase.locked = true ↔ s.lock = some (.request r))
  present : ∀ r, s.lock = some (.request r) → r < s.requests.length
  loop : s.loop.locked = true ↔ s.lock = some .loop
  owned : Owned s.holder s.shared

theorem holder_of_lock (hr : s.requests[r]? = some req) (h : s.lock = some (.request r)) :
    s.holder = req := by
  unfold holder
  rw [h]
  simp only [hr, Option.getD_some]

theorem holder_of_free (h : ∀ r, s.lock ≠ some (.request r)) : s.holder = nobody := by
  unfold holder
  split
  · next r hr => exact absurd hr (h r)
  · rfl

theorem Inv.holder_cases (h : Inv s) :
    (∃ r req, s.lock = some (.request r) ∧ s.requests[r]? = some req ∧ s.holder = req) ∨
      s.holder = nobody := by
  by_cases hreq : ∃ r, s.lock = some (.request r)
  · obtain ⟨r, hlock⟩ := hreq
    have hr := List.getElem?_eq_getElem (h.present r hlock)
    exact .inl ⟨r, _, hlock, hr, holder_of_lock hr hlock⟩
  · rw [not_exists] at hreq
    exact .inr (holder_of_free hreq)

/-- The requests other than the one that goes on. -/
theorem getElem?_setPhase {phase : AuthPhase} {q : ℕ} {req' : AuthRequest}
    (h : (s.setPhase r req phase).requests[q]? = some req') :
    (q = r ∧ req' = { req with phase }) ∨ (q ≠ r ∧ s.requests[q]? = some req') := by
  simp only [setPhase, List.getElem?_set] at h
  by_cases hq : r = q
  · rw [if_pos hq] at h
    split_ifs at h
    exact .inl ⟨hq.symm, (Option.some.inj h).symm⟩
  · rw [if_neg hq] at h
    exact .inr ⟨Ne.symm hq, h⟩

theorem length_setPhase (s : AuthChild) (r : ℕ) (req : AuthRequest) (phase : AuthPhase) :
    (s.setPhase r req phase).requests.length = s.requests.length := List.length_set

/-- A step that leaves the requests and the shared state alone. -/
theorem Inv.setLoop (h : Inv s) {loop : LoopPhase} {lock : Option Holder}
    (hlock : ∀ r, lock = some (.request r) ↔ s.lock = some (.request r))
    (hloop : loop.locked = true ↔ lock = some .loop) : Inv { s with loop, lock } := by
  refine ⟨fun r req hr => (h.request r req hr).trans (hlock r).symm,
    fun r hr => h.present r ((hlock r).mp hr), hloop, ?_⟩
  have hholder : holder { s with loop, lock } = s.holder := by
    by_cases hreq : ∃ r, s.lock = some (.request r)
    · obtain ⟨r, hr⟩ := hreq
      unfold holder
      simp only [hr, (hlock r).mpr hr]
    · rw [not_exists] at hreq
      rw [holder_of_free hreq, holder_of_free fun r hr => hreq r ((hlock r).mp hr)]
  rw [hholder]
  exact h.owned

/-- A step of the accept loop that does without the lock. -/
theorem Inv.goOn (h : Inv s) {loop : LoopPhase} (hloop : loop.locked = s.loop.locked) :
    Inv { s with loop } :=
  h.setLoop (fun _ => Iff.rfl) (by rw [hloop]; exact h.loop)

/-- The accept loop takes the lock. -/
theorem Inv.takeLock (h : Inv s) {loop : LoopPhase} (hlock : s.lock = none)
    (hloop : loop.locked = true) : Inv { s with loop, lock := some .loop } :=
  h.setLoop (fun _ => by rw [hlock]; exact iff_of_false nofun nofun)
    (iff_of_true hloop rfl)

/-- The accept loop leaves the lock. -/
theorem Inv.leaveLock (h : Inv s) {loop : LoopPhase} (hlock : s.loop.locked = true)
    (hloop : loop.locked = false) : Inv { s with loop, lock := none } := by
  refine h.setLoop (fun _ => ?_) (by rw [hloop]; exact iff_of_false nofun nofun)
  rw [h.loop.mp hlock]
  exact iff_of_false nofun nofun

/-- A step that only changes what the lock guards. -/
theorem Inv.setShared (h : Inv s) {shared : AuthShared} (hs : Owned s.holder shared) :
    Inv { s with shared } :=
  ⟨h.request, h.present, h.loop, hs⟩

/-- A step of a request: it takes the lock, keeps it, leaves it or does without. -/
theorem Inv.setPhase (h : Inv s) (hr : s.requests[r]? = some req) {phase : AuthPhase}
    {lock : Option Holder} {shared : AuthShared}
    (hmine : phase.locked = true ↔ lock = some (.request r))
    (hothers : ∀ q, q ≠ r → (lock = some (.request q) ↔ s.lock = some (.request q)))
    (hloop : lock = some .loop ↔ s.lock = some .loop)
    (howned : Owned (holder { s.setPhase r req phase with lock, shared }) shared) :
    Inv { s.setPhase r req phase with lock, shared } := by
  refine ⟨fun q req' hq => ?_, fun q hq => ?_, h.loop.trans hloop.symm, howned⟩
  · rcases getElem?_setPhase hq with ⟨rfl, rfl⟩ | ⟨hne, hq⟩
    · exact hmine
    · exact (h.request q req' hq).trans (hothers q hne).symm
  · refine Nat.lt_of_lt_of_eq ?_ (length_setPhase s r req phase).symm
    by_cases hqr : q = r
    · rw [hqr]
      exact (List.getElem?_eq_some_iff.mp hr).1
    · exact h.present q ((hothers q hqr).mp hq)

/-- The holder is the request that goes on. -/
theorem holder_setPhase {phase : AuthPhase} {shared : AuthShared}
    (hr : s.requests[r]? = some req) :
    holder { s.setPhase r req phase with lock := some (.request r), shared } =
      { req with phase } := by
  refine holder_of_lock ?_ rfl
  exact List.getElem?_set_self (List.getElem?_eq_some_iff.mp hr).1

/-- A request tries to take the lock. -/
theorem Inv.tryLock (h : Inv s) (hs : s.step (.tryLock r) = some s') : Inv s' := by
  obtain ⟨req, hr, hs⟩ := Option.bind_eq_some_iff.mp hs
  split at hs
  · next hphase =>
    have hfree : s.lock ≠ some (.request r) := fun hlock => by
      have := (h.request r req hr).mpr hlock
      rw [hphase] at this
      cases this
    split_ifs at hs with hlock
    · cases hs
      show Inv { s.setPhase r req (.returned statusDeviceBusy) with
        lock := s.lock, shared := s.shared }
      refine h.setPhase hr ⟨nofun, fun hl => absurd hl hfree⟩ (fun q _ => Iff.rfl) Iff.rfl ?_
      have hholder : (s.setPhase r req (.returned statusDeviceBusy)).holder = s.holder := by
        unfold holder AuthChild.setPhase
        rcases hl : s.lock with _ | q | _
        · rfl
        · have hne : r ≠ q := fun he => hfree (he ▸ hl)
          simp only [List.getElem?_set_ne hne]
        · rfl
      show Owned (s.setPhase r req (.returned statusDeviceBusy)).holder s.shared
      rw [hholder]
      exact h.owned
    · rw [Bool.not_eq_true, Option.isSome_eq_false_iff, Option.isNone_iff_eq_none] at hlock
      cases hs
      show Inv { s.setPhase r req .look with lock := some (.request r), shared := s.shared }
      refine h.setPhase hr ⟨fun _ => rfl, fun _ => rfl⟩ (fun q hq => ?_) ?_ ?_
      · rw [hlock]
        refine iff_of_false (fun hl => hq ?_) nofun
        cases hl
        rfl
      · rw [hlock]
        exact iff_of_false nofun nofun
      · rw [holder_setPhase hr]
        have howned := h.owned
        rw [holder_of_free (fun q => by rw [hlock]; nofun)] at howned
        exact howned.congr rfl rfl rfl
  · cases hs

/-- A request that has the lock goes on. -/
theorem Inv.reply {reply : RequestReply} (h : Inv s) (hs : s.step (.reply r reply) = some s') :
    Inv s' := by
  obtain ⟨req, hr, hs⟩ := Option.bind_eq_some_iff.mp hs
  obtain ⟨⟨phase, shared⟩, hstep, hs⟩ := Option.bind_eq_some_iff.mp hs
  cases hs
  have hlock : s.lock = some (.request r) := (h.request r req hr).mp (locked_of_step hstep)
  have howned : Owned { req with phase } shared := by
    refine Owned.step ?_ hstep
    rw [← holder_of_lock hr hlock]
    exact h.owned
  have hothers : ∀ q, q ≠ r → s.lock ≠ some (.request q) := fun q hq hl => by
    rw [hlock] at hl
    cases hl
    exact hq rfl
  by_cases hp : phase.locked = true
  · rw [if_pos hp, hlock]
    refine h.setPhase hr ⟨fun _ => rfl, fun _ => hp⟩ (fun q _ => by rw [hlock]) (by rw [hlock]) ?_
    rw [holder_setPhase hr]
    exact howned
  · rw [if_neg hp]
    refine h.setPhase hr ⟨fun hl => absurd hl hp, nofun⟩
      (fun q hq => iff_of_false nofun (hothers q hq)) (by rw [hlock]; exact iff_of_false nofun nofun)
      ?_
    rw [holder_of_free (fun q hq => by cases hq)]
    -- Without the lock, nothing is held.
    rcases phase with _ | _ | _ | _ | _ | _ | _ | _ | _ | status
    all_goals first
      | exact absurd rfl hp
      | exact howned.congr rfl rfl rfl

/-- The accept loop waits for the worker in the slot. -/
theorem Inv.reapWait {reply : WaitReply} (h : Inv s) (hs : s.step (.reapWait reply) = some s') :
    Inv s' := by
  simp only [AuthChild.step] at hs
  split at hs
  · next final hloop =>
    obtain ⟨shared, hshared, hs⟩ := Option.map_eq_some_iff.mp hs
    cases hs
    have hlock : s.lock = some .loop := h.loop.mp (by rw [hloop]; rfl)
    have hfree : ∀ q, s.lock ≠ some (.request q) := fun q => by
      rw [hlock]
      nofun
    have howned := h.owned
    rw [holder_of_free hfree] at howned
    have hkept : Owned nobody shared := by
      split at hshared
      · cases hshared
        exact howned
      · next w hslot =>
        rcases AuthShared.tryWaitSlot_cases hshared with ⟨b, rfl, hw, rfl⟩ | ⟨-, rfl⟩
        · exact howned.reap rfl hslot hw
        · exact howned
    have hshared' : Inv { s with shared } := h.setShared (by rwa [holder_of_free hfree])
    exact hshared'.leaveLock (by rw [hloop]; rfl) (by cases final <;> rfl)
  · cases hs

/-- A request reaches `supervise_auth_worker`. -/
theorem Inv.arrive (h : Inv s) (uid : UInt32) (client : Bool) :
    Inv { s with requests := s.requests ++ [⟨uid, client, .lock⟩] } := by
  have hold : ∀ q, q < s.requests.length →
      (s.requests ++ [⟨uid, client, .lock⟩])[q]? = s.requests[q]? :=
    fun q hq => List.getElem?_append_left hq
  refine ⟨fun q req hq => ?_, fun q hq => ?_, h.loop, ?_⟩
  · by_cases hlt : q < s.requests.length
    · exact h.request q req ((hold q hlt).symm.trans hq)
    · have hnew : req = ⟨uid, client, .lock⟩ := by
        simp only [List.getElem?_append_right (Nat.not_lt.mp hlt)] at hq
        exact List.mem_singleton.mp (List.mem_of_getElem? hq)
      rw [hnew]
      exact iff_of_false nofun fun hl => hlt (h.present q hl)
  · have := h.present q hq
    rw [List.length_append]
    omega
  · have hholder : holder { s with requests := s.requests ++ [⟨uid, client, .lock⟩] } =
        s.holder := by
      unfold holder
      rcases hl : s.lock with _ | q | _
      · rfl
      · simp only [hold q (h.present q hl)]
      · rfl
    rw [hholder]
    exact h.owned

/-- Every step keeps the invariant. -/
theorem Inv.step {e : Event} (h : Inv s) (hs : s.step e = some s') : Inv s' := by
  cases e with
  | arrive uid client =>
    simp only [AuthChild.step] at hs
    split_ifs at hs
    cases hs
    exact h.arrive uid client
  | tryLock r => exact h.tryLock hs
  | reply r reply => exact h.reply hs
  | exit w =>
    simp only [AuthChild.step] at hs
    split_ifs at hs with hw
    cases hs
    exact h.setShared ⟨fun i => (AuthShared.unreaped_exit hw i).trans (h.owned.worker i),
      h.owned.vacant, h.owned.attempts⟩
  | clear r =>
    obtain ⟨req, -, hs⟩ := Option.bind_eq_some_iff.mp hs
    split at hs
    · split_ifs at hs
      cases hs
      exact h.setShared ⟨h.owned.worker, h.owned.vacant, h.owned.attempts⟩
    · cases hs
  | reapLock =>
    simp only [AuthChild.step] at hs
    split at hs
    · next final hloop =>
      split_ifs at hs with hlock
      · cases hs
        exact h.goOn (by rw [hloop]; cases final <;> rfl)
      · rw [Bool.not_eq_true, Option.isSome_eq_false_iff, Option.isNone_iff_eq_none] at hlock
        cases hs
        exact h.takeLock hlock rfl
    · cases hs
  | reapWait reply => exact h.reapWait hs
  | accept =>
    simp only [AuthChild.step] at hs
    split_ifs at hs with hloop
    cases hs
    exact h.goOn (by rw [hloop]; rfl)
  | shutdown =>
    simp only [AuthChild.step] at hs
    split_ifs at hs with hloop
    cases hs
    exact h.goOn (by rw [hloop]; rfl)
  | join =>
    simp only [AuthChild.step] at hs
    split_ifs at hs with hloop
    cases hs
    exact h.goOn (by rw [hloop.1]; rfl)
  | kill =>
    simp only [AuthChild.step] at hs
    split_ifs at hs with hloop
    cases hs
    exact h.takeLock hloop.2 rfl
  | killed =>
    simp only [AuthChild.step] at hs
    split_ifs at hs with hloop
    cases hs
    exact h.leaveLock (by rw [hloop]; rfl) rfl
  | check =>
    simp only [AuthChild.step] at hs
    split_ifs at hs with hloop
    · cases hs
      exact h.goOn (by rw [hloop.1]; rfl)
    · cases hs
      exact h.goOn (by rw [hloop.1]; rfl)
  | giveUp =>
    simp only [AuthChild.step] at hs
    split_ifs at hs with hloop
    cases hs
    exact h.goOn (by rw [hloop]; rfl)

theorem inv_of_reachable (h : machine.Reachable s) : Inv s := by
  refine h.inv ⟨nofun, nofun, iff_of_false nofun nofun, fun i => ?_, fun _ => rfl, rfl⟩
    fun _ _ _ hinv hs => hinv.step hs
  exact iff_of_false nofun nofun

/-! ## Requests while a worker runs -/

/-- The workers only ever exit and are reaped. -/
def Ages (ws ws' : List WorkerState) : Prop :=
  ∀ (i : ℕ) (p : WorkerState), ws[i]? = some p →
    ∃ p', ws'[i]? = some p' ∧ (p' = .running → p = .running)

theorem Ages.refl (ws : List WorkerState) : Ages ws ws := fun _ p h => ⟨p, h, id⟩

theorem Ages.set (ws : List WorkerState) {w : ℕ} {p : WorkerState} (hp : p ≠ .running) :
    Ages ws (ws.set w p) := by
  intro i q hq
  by_cases hi : w = i
  · subst hi
    exact ⟨p, List.getElem?_set_self (List.getElem?_eq_some_iff.mp hq).1, fun h => absurd h hp⟩
  · exact ⟨q, by rwa [List.getElem?_set_ne hi], id⟩

theorem Ages.append (ws : List WorkerState) (p : WorkerState) : Ages ws (ws ++ [p]) :=
  fun i q hq => ⟨q, by rwa [List.getElem?_append_left (List.getElem?_eq_some_iff.mp hq).1], id⟩

/-- What waiting for the process in the slot leaves as it is. -/
structure Waits (a a' : AuthShared) : Prop where
  workers : Ages a.workers a'.workers
  limiter : a'.limiter = a.limiter
  recorded : a'.recorded = a.recorded
  spawns : a'.spawns = a.spawns

theorem Waits.refl (a : AuthShared) : Waits a a := ⟨.refl _, rfl, rfl, rfl⟩

theorem waits_of_tryWaitSlot {a a' : AuthShared} {w : ℕ} {reply : WaitReply}
    (h : a.tryWaitSlot w reply = some a') : Waits a a' := by
  rcases AuthShared.tryWaitSlot_cases h with ⟨b, -, -, rfl⟩ | ⟨-, rfl⟩
  · exact ⟨Ages.set _ nofun, rfl, rfl, rfl⟩
  · exact .refl _

/-- What a request does to the workers, the limiter and the records: `allow_at` and
    `spawn_auth_worker` change them, and all else at most waits. -/
theorem step_shared {a a' : AuthShared} {reply : RequestReply} {phase : AuthPhase}
    (hs : req.step r a reply = some (phase, a')) :
    (∃ now ok limiter, reply = .allow now ∧ req.phase = .allow ∧
      a.limiter.allowAt req.uid now = (ok, limiter) ∧
      phase = (if ok then .spawn else .returned statusRateLimited) ∧
      a' = { a with
        limiter, recorded := if ok then req.uid :: a.recorded else a.recorded }) ∨
    (∃ ok, reply = .spawn ok ∧ req.phase = .spawn ∧ phase ≠ .spawn ∧
      a' = { a with
        spawns := (r, req.uid) :: a.spawns
        workers := if ok then a.workers ++ [WorkerState.running] else a.workers }) ∨
    (req.phase ≠ .spawn ∧ phase ≠ .spawn ∧ Waits a a') := by
  obtain ⟨uid, client, p⟩ := req
  cases reply with
  | look reply =>
    cases p with
    | look =>
      simp only [AuthRequest.step] at hs
      split at hs
      · cases hs
        exact .inr (.inr ⟨by simp, by simp, .refl _⟩)
      obtain ⟨a₁, hwait, hphase⟩ := Option.map_eq_some_iff.mp hs
      have hwaits := waits_of_tryWaitSlot hwait
      split at hphase
      · cases hphase
        exact .inr (.inr ⟨by simp, by simp, hwaits⟩)
      · cases hphase
        exact .inr (.inr ⟨by simp, by simp, hwaits⟩)
    | _ => cases hs
  | deadline expired =>
    cases p with
    | deadline =>
      cases hs
      exact .inr (.inr ⟨by simp, by cases expired <;> simp, .refl _⟩)
    | _ => cases hs
  | allow now =>
    cases p with
    | allow =>
      simp only [AuthRequest.step] at hs
      split at hs
      · next limiter hlimiter =>
        cases hs
        exact .inl ⟨now, false, limiter, rfl, rfl, hlimiter, rfl, rfl⟩
      · next limiter hlimiter =>
        cases hs
        exact .inl ⟨now, true, limiter, rfl, rfl, hlimiter, rfl, rfl⟩
    | _ => cases hs
  | spawn ok =>
    cases p with
    | spawn =>
      cases ok
      · cases hs
        exact .inr (.inl ⟨false, rfl, rfl, by simp, rfl⟩)
      · cases hs
        exact .inr (.inl ⟨true, rfl, rfl, by simp, rfl⟩)
    | _ => cases hs
  | write ok =>
    cases p with
    | write w =>
      cases hs
      exact .inr (.inr ⟨by simp, by simp, .refl _⟩)
    | _ => cases hs
  | register =>
    cases p with
    | register w written =>
      cases hs
      exact .inr (.inr ⟨by simp, by cases written <;> simp, .refl _, rfl, rfl, rfl⟩)
    | _ => cases hs
  | nonblocking ok =>
    cases p with
    | nonblocking =>
      cases hs
      exact .inr (.inr ⟨by simp, by cases ok <;> simp, .refl _⟩)
    | _ => cases hs
  | supervise e =>
    cases p with
    | supervise sup =>
      obtain ⟨sup', -, hs⟩ := Option.bind_eq_some_iff.mp hs
      obtain ⟨a₁, hwait, hphase⟩ := Option.map_eq_some_iff.mp hs
      have hwaits : Waits a a₁ := by
        split at hwait
        · obtain ⟨w, -, hwait⟩ := Option.bind_eq_some_iff.mp hwait
          exact waits_of_tryWaitSlot hwait
        · cases hwait
          exact .refl _
      split at hphase
      · cases hphase
        exact .inr (.inr ⟨by simp, by simp, hwaits⟩)
      · cases hphase
        exact .inr (.inr ⟨by simp, by simp, hwaits⟩)
    | _ => cases hs

theorem step_workers {a a' : AuthShared} {reply : RequestReply} {phase : AuthPhase}
    (hs : req.step r a reply = some (phase, a')) : Ages a.workers a'.workers := by
  rcases step_shared hs with
    ⟨now, ok, limiter, -, -, -, -, rfl⟩ | ⟨ok, -, -, -, rfl⟩ | ⟨-, -, hwaits⟩
  · exact .refl _
  · cases ok
    · exact .refl _
    · exact .append _ _
  · exact hwaits.workers

/-- A request that is about to call `spawn_auth_worker` does nothing else, and no other
    request calls it. -/
theorem step_spawn {a a' : AuthShared} {reply : RequestReply} {phase : AuthPhase}
    (hs : req.step r a reply = some (phase, a')) :
    (∃ ok, reply = .spawn ok ∧ req.phase = .spawn ∧ phase ≠ .spawn ∧
      a'.spawns = (r, req.uid) :: a.spawns) ∨
    (req.phase ≠ .spawn ∧ a'.spawns = a.spawns) := by
  rcases step_shared hs with
    ⟨now, ok, limiter, -, hallow, -, -, rfl⟩ | ⟨ok, hreply, hspawn, hphase, rfl⟩ | ⟨hphase, -, hwaits⟩
  · exact .inr ⟨by simp [hallow], rfl⟩
  · exact .inl ⟨ok, hreply, hspawn, hphase, rfl⟩
  · exact .inr ⟨hphase, hwaits.spawns⟩

/-- A request that finds a worker running in the slot. -/
theorem step_look {a a' : AuthShared} {reply : RequestReply} {phase : AuthPhase} {i : ℕ}
    (hlook : req.phase = .look) (hslot : a.slot = some i) (hw : a.workers[i]? = some .running)
    (hs : req.step r a reply = some (phase, a')) :
    phase = .returned statusDeviceBusy ∧ a' = a := by
  obtain ⟨uid, client, p⟩ := req
  cases hlook
  cases reply with
  | look reply =>
    simp only [AuthRequest.step, hslot] at hs
    obtain ⟨a₁, hwait, hphase⟩ := Option.map_eq_some_iff.mp hs
    rcases AuthShared.tryWaitSlot_cases hwait with ⟨b, -, hexited, -⟩ | ⟨hrunning, rfl⟩
    · rw [hw] at hexited
      cases hexited
    · split at hphase
      · exact absurd rfl (hrunning _)
      · cases hphase
        exact ⟨rfl, rfl⟩
  | _ => cases hs

/-- The steps of a request of its own. -/
def Event.own (r : ℕ) : Event → ℕ
  | .tryLock q | .reply q _ => if q = r then 1 else 0
  | _ => 0

/-- What a step does to the workers, and to a request that does not take it. -/
theorem step_others {e : Event} (hs : s.step e = some s') :
    Ages s.shared.workers s'.shared.workers ∧
      ∀ r req, s.requests[r]? = some req → e.own r = 0 →
        s'.requests[r]? = some req ∧ s'.shared.spawnsOf r = s.shared.spawnsOf r := by
  cases e with
  | arrive uid client =>
    simp only [AuthChild.step] at hs
    split_ifs at hs
    cases hs
    refine ⟨Ages.refl _, fun r req hr _ => ⟨?_, rfl⟩⟩
    rwa [List.getElem?_append_left (List.getElem?_eq_some_iff.mp hr).1]
  | tryLock q =>
    obtain ⟨req, -, hs⟩ := Option.bind_eq_some_iff.mp hs
    split at hs
    · have hne : ∀ r, Event.own r (.tryLock q) = 0 → q ≠ r := fun r h he => by
        rw [Event.own, if_pos he] at h
        cases h
      split_ifs at hs
      · cases hs
        exact ⟨Ages.refl _, fun r _ hr h => ⟨by rwa [← List.getElem?_set_ne (hne r h)] at hr, rfl⟩⟩
      · cases hs
        exact ⟨Ages.refl _, fun r _ hr h => ⟨by rwa [← List.getElem?_set_ne (hne r h)] at hr, rfl⟩⟩
    · cases hs
  | reply q reply =>
    obtain ⟨req, -, hs⟩ := Option.bind_eq_some_iff.mp hs
    obtain ⟨⟨phase, shared⟩, hstep, hs⟩ := Option.bind_eq_some_iff.mp hs
    cases hs
    refine ⟨step_workers hstep, fun r req' hr h => ?_⟩
    have hne : q ≠ r := fun he => by
      rw [Event.own, if_pos he] at h
      cases h
    refine ⟨by rwa [← List.getElem?_set_ne hne] at hr, ?_⟩
    rcases step_spawn hstep with ⟨ok, -, -, -, hspawns⟩ | ⟨-, hspawns⟩
    · rw [AuthShared.spawnsOf, hspawns, List.filter_cons_of_neg]
      · rfl
      · simpa using hne
    · simp only [AuthShared.spawnsOf, hspawns]
  | exit w =>
    simp only [AuthChild.step] at hs
    split_ifs at hs
    cases hs
    exact ⟨Ages.set _ nofun, fun _ _ hr _ => ⟨hr, rfl⟩⟩
  | clear q =>
    obtain ⟨req, -, hs⟩ := Option.bind_eq_some_iff.mp hs
    split at hs
    · split_ifs at hs
      cases hs
      exact ⟨Ages.refl _, fun _ _ hr _ => ⟨hr, rfl⟩⟩
    · cases hs
  | reapLock =>
    simp only [AuthChild.step] at hs
    split at hs
    · split_ifs at hs
      · cases hs
        exact ⟨Ages.refl _, fun _ _ hr _ => ⟨hr, rfl⟩⟩
      · cases hs
        exact ⟨Ages.refl _, fun _ _ hr _ => ⟨hr, rfl⟩⟩
    · cases hs
  | reapWait reply =>
    simp only [AuthChild.step] at hs
    split at hs
    · obtain ⟨shared, hshared, hs⟩ := Option.map_eq_some_iff.mp hs
      cases hs
      split at hshared
      · cases hshared
        exact ⟨Ages.refl _, fun _ _ hr _ => ⟨hr, rfl⟩⟩
      · have hwaits := waits_of_tryWaitSlot hshared
        exact ⟨hwaits.workers, fun _ _ hr _ =>
          ⟨hr, by rw [AuthShared.spawnsOf, hwaits.spawns]; rfl⟩⟩
    · cases hs
  | _ =>
    simp only [AuthChild.step] at hs
    split_ifs at hs
    all_goals
      cases hs
      exact ⟨Ages.refl _, fun _ _ hr _ => ⟨hr, rfl⟩⟩

/-! ## The attempts that are recorded -/

/-- The attempts after a request goes on: one more if it is about to call
    `spawn_auth_worker`, and otherwise no new ones. -/
theorem step_limiter {a a' : AuthShared} {reply : RequestReply} {phase : AuthPhase}
    (hs : req.step r a reply = some (phase, a')) :
    (∃ now, reply = .allow now ∧ req.phase = .allow ∧ phase = .spawn ∧
      a'.recorded = req.uid :: a.recorded ∧ ∀ uid, a'.limiter.times uid =
        (a.limiter.retain now).times uid ++ if uid = req.uid then [now] else []) ∨
    (phase ≠ .spawn ∧ a'.recorded = a.recorded ∧
      ∀ uid, (a'.limiter.times uid).Sublist (a.limiter.times uid)) := by
  rcases step_shared hs with
    ⟨now, ok, limiter, rfl, hallow, hlimiter, rfl, rfl⟩ | ⟨ok, -, -, hphase, rfl⟩ | ⟨-, hphase, hwaits⟩
  · have htimes : ∀ uid, (a.limiter.allowAt req.uid now).2.times uid =
        (a.limiter.retain now).times uid ++
          if uid = req.uid ∧ (a.limiter.allowAt req.uid now).1 then [now] else [] :=
      fun _ => AuthRateLimiter.times_allowAt
    simp only [hlimiter] at htimes
    cases ok with
    | false =>
      -- the attempt is refused: the limiter only forgets
      refine .inr ⟨by simp, rfl, fun uid => ?_⟩
      rw [htimes uid, AuthRateLimiter.times_retain, if_neg (by simp), List.append_nil]
      exact List.filter_sublist
    | true => exact .inl ⟨now, rfl, hallow, rfl, rfl, fun uid => by simpa using htimes uid⟩
  · exact .inr ⟨hphase, rfl, fun _ => .refl _⟩
  · exact .inr ⟨hphase, hwaits.recorded, fun _ => by rw [hwaits.limiter]⟩

/-- What a step does to the attempts of the users and to the calls of
    `spawn_auth_worker`. -/
structure Records (s : AuthChild) (e : Event) (s' : AuthChild) : Prop where
  /-- The limiter gets an attempt of the user of the request that is then about to call
      `spawn_auth_worker`, with the time of the step, or no attempt, and then no other
      request gets there. -/
  attempt :
    (∃ r req now, e = .reply r (.allow now) ∧ s.requests[r]? = some req ∧ req.phase = .allow ∧
      s'.requests[r]? = some { req with phase := .spawn } ∧
      s'.shared.recorded = req.uid :: s.shared.recorded ∧
      ∀ uid, s'.shared.limiter.times uid =
        (s.shared.limiter.retain now).times uid ++ if uid = req.uid then [now] else []) ∨
    ((∀ (r : ℕ) (req : AuthRequest), s'.requests[r]? = some req → req.phase = .spawn →
        s.requests[r]? = some req) ∧
      s'.shared.recorded = s.shared.recorded ∧
      ∀ uid, (s'.shared.limiter.times uid).Sublist (s.shared.limiter.times uid))
  /-- Such a request calls `spawn_auth_worker`, or waits to. -/
  call :
    (∃ r req ok, e = .reply r (.spawn ok) ∧ s.requests[r]? = some req ∧ req.phase = .spawn ∧
      (∃ phase, s'.requests[r]? = some { req with phase } ∧ phase ≠ .spawn) ∧
      s'.shared.spawns = (r, req.uid) :: s.shared.spawns) ∨
    ((∀ (r : ℕ) (req : AuthRequest), s.requests[r]? = some req → req.phase = .spawn →
        s'.requests[r]? = some req) ∧
      s'.shared.spawns = s.shared.spawns)

/-- A step that lets no request go on with an answer. -/
theorem records_of_same {e : Event}
    (hnew : ∀ (r : ℕ) (req : AuthRequest), s'.requests[r]? = some req → req.phase = .spawn →
        s.requests[r]? = some req)
    (hold : ∀ (r : ℕ) (req : AuthRequest), s.requests[r]? = some req → req.phase = .spawn →
        s'.requests[r]? = some req)
    (hrecorded : s'.shared.recorded = s.shared.recorded)
    (hspawns : s'.shared.spawns = s.shared.spawns)
    (hlimiter : ∀ uid, (s'.shared.limiter.times uid).Sublist (s.shared.limiter.times uid)) :
    Records s e s' :=
  ⟨.inr ⟨hnew, hrecorded, hlimiter⟩, .inr ⟨hold, hspawns⟩⟩

/-- A step that leaves the requests and the limiter alone. -/
theorem records_of_eq {e : Event} (hrequests : s'.requests = s.requests)
    (hrecorded : s'.shared.recorded = s.shared.recorded)
    (hspawns : s'.shared.spawns = s.shared.spawns)
    (hlimiter : s'.shared.limiter = s.shared.limiter) : Records s e s' :=
  records_of_same (fun _ _ h _ => hrequests ▸ h) (fun _ _ h _ => hrequests.symm ▸ h) hrecorded
    hspawns fun _ => by rw [hlimiter]

/-- A request that goes on, to a phase that is not `spawn` and from one that is not. -/
theorem records_of_setPhase {e : Event} {phase : AuthPhase} {lock : Option Holder}
    (hr : s.requests[r]? = some req) (hbefore : req.phase ≠ .spawn) (hafter : phase ≠ .spawn) :
    Records s e { s.setPhase r req phase with lock } := by
  refine records_of_same (fun q req' hq hspawn => ?_) (fun q req' hq hspawn => ?_) rfl rfl
    fun _ => .refl _
  · rcases getElem?_setPhase hq with ⟨rfl, rfl⟩ | ⟨-, hq⟩
    · exact absurd hspawn hafter
    · exact hq
  · have hne : r ≠ q := by
      rintro rfl
      rw [hr] at hq
      cases hq
      exact hbefore hspawn
    exact (List.getElem?_set_ne hne).trans hq

/-- A request that goes on with an answer. -/
theorem records_of_reply {reply : RequestReply} (hs : s.step (.reply r reply) = some s') :
    Records s (.reply r reply) s' := by
  obtain ⟨req, hr, hs⟩ := Option.bind_eq_some_iff.mp hs
  obtain ⟨⟨phase, shared⟩, hstep, hs⟩ := Option.bind_eq_some_iff.mp hs
  cases hs
  have hset : (s.setPhase r req phase).requests[r]? = some { req with phase } :=
    List.getElem?_set_self (List.getElem?_eq_some_iff.mp hr).1
  have hothers : ∀ q, r ≠ q → (s.setPhase r req phase).requests[q]? = s.requests[q]? :=
    fun q hne => List.getElem?_set_ne hne
  constructor
  · rcases step_limiter hstep with
      ⟨now, rfl, hallow, rfl, hrecorded, htimes⟩ | ⟨hphase, hrecorded, htimes⟩
    · exact .inl ⟨r, req, now, rfl, hr, hallow, hset, hrecorded, htimes⟩
    · refine .inr ⟨fun q req' hq hspawn => ?_, hrecorded, htimes⟩
      rcases getElem?_setPhase hq with ⟨rfl, rfl⟩ | ⟨-, hq⟩
      · exact absurd hspawn hphase
      · exact hq
  · rcases step_spawn hstep with ⟨ok, rfl, hspawn, hphase, hspawns⟩ | ⟨hphase, hspawns⟩
    · exact .inl ⟨r, req, ok, rfl, hr, hspawn, ⟨phase, hset, hphase⟩, hspawns⟩
    · refine .inr ⟨fun q req' hq hspawn => ?_, hspawns⟩
      have hne : r ≠ q := by
        rintro rfl
        rw [hr] at hq
        cases hq
        exact hphase hspawn
      exact (hothers q hne).trans hq

/-- An attempt is recorded at exactly the steps after which a request calls
    `spawn_auth_worker`. -/
theorem records_of_step {e : Event} (hs : s.step e = some s') : Records s e s' := by
  cases e with
  | arrive uid client =>
    simp only [AuthChild.step] at hs
    split_ifs at hs
    cases hs
    refine records_of_same (fun q req hq hspawn => ?_) (fun q req hq _ => ?_) rfl rfl
      fun _ => .refl _
    · by_cases hlt : q < s.requests.length
      · exact (List.getElem?_append_left hlt).symm.trans hq
      · -- the request that arrives has not got there
        simp only [List.getElem?_append_right (Nat.not_lt.mp hlt)] at hq
        rw [List.mem_singleton.mp (List.mem_of_getElem? hq)] at hspawn
        cases hspawn
    · exact (List.getElem?_append_left (List.getElem?_eq_some_iff.mp hq).1).trans hq
  | tryLock r =>
    obtain ⟨req, hr, hs⟩ := Option.bind_eq_some_iff.mp hs
    split at hs
    · next hphase =>
      have hbefore : req.phase ≠ .spawn := by simp [hphase]
      split_ifs at hs
      · cases hs
        show Records s _ { s.setPhase r req (.returned statusDeviceBusy) with lock := s.lock }
        exact records_of_setPhase hr hbefore (by simp)
      · cases hs
        exact records_of_setPhase hr hbefore (by simp)
    · cases hs
  | reply r reply => exact records_of_reply hs
  | clear r =>
    obtain ⟨req, -, hs⟩ := Option.bind_eq_some_iff.mp hs
    split at hs
    · split_ifs at hs
      cases hs
      refine records_of_same (fun _ _ h _ => h) (fun _ _ h _ => h) rfl rfl fun uid => ?_
      rw [AuthRateLimiter.times_clear]
      split_ifs
      · exact List.nil_sublist _
      · exact .refl _
    · cases hs
  | reapLock =>
    simp only [AuthChild.step] at hs
    split at hs
    · split_ifs at hs
      · cases hs
        exact records_of_eq rfl rfl rfl rfl
      · cases hs
        exact records_of_eq rfl rfl rfl rfl
    · cases hs
  | reapWait reply =>
    simp only [AuthChild.step] at hs
    split at hs
    · obtain ⟨shared, hshared, hs⟩ := Option.map_eq_some_iff.mp hs
      cases hs
      split at hshared
      · cases hshared
        exact records_of_eq rfl rfl rfl rfl
      · have hwaits := waits_of_tryWaitSlot hshared
        exact records_of_eq rfl hwaits.recorded hwaits.spawns hwaits.limiter
    · cases hs
  | _ =>
    simp only [AuthChild.step] at hs
    split_ifs at hs
    all_goals
      cases hs
      exact records_of_eq rfl rfl rfl rfl

/-! ## One worker -/

/-- Where a request is after `n` steps of its own, while another worker runs. -/
def Turned (n : ℕ) (phase : AuthPhase) : Prop :=
  (n = 0 ∧ phase = .lock) ∨ (n = 1 ∧ phase = .look) ∨ phase = .returned statusDeviceBusy

/-- A request is turned away by a worker that runs. -/
theorem Inv.turned {e : Event} {i n : ℕ} (h : Inv s) (hs : s.step e = some s')
    (hw : s.shared.workers[i]? = some .running) (hr : s.requests[r]? = some req)
    (hn : Turned n req.phase) :
    ∃ req', s'.requests[r]? = some req' ∧ Turned (n + e.own r) req'.phase ∧
      s'.shared.spawnsOf r = s.shared.spawnsOf r := by
  by_cases hown : e.own r = 0
  · obtain ⟨hr', hspawns⟩ := (step_others hs).2 r req hr hown
    exact ⟨req, hr', by rwa [hown], hspawns⟩
  have hset : ∀ phase, (s.setPhase r req phase).requests[r]? = some { req with phase } :=
    fun phase => List.getElem?_set_self (List.getElem?_eq_some_iff.mp hr).1
  cases e with
  | tryLock q =>
    have hq : q = r := by
      by_contra hne
      exact hown (if_neg hne)
    subst hq
    simp only [AuthChild.step, hr, Option.bind_eq_bind, Option.bind_some] at hs
    split at hs
    · next hphase =>
      have hzero : n = 0 := by
        rcases hn with ⟨rfl, -⟩ | ⟨-, hlook⟩ | hret
        · rfl
        · rw [hphase] at hlook
          cases hlook
        · rw [hphase] at hret
          cases hret
      split_ifs at hs
      · cases hs
        exact ⟨_, hset _, .inr (.inr rfl), rfl⟩
      · cases hs
        refine ⟨_, hset .look, .inr (.inl ⟨?_, rfl⟩), rfl⟩
        rw [hzero, Event.own, if_pos rfl]
    · cases hs
  | reply q reply =>
    have hq : q = r := by
      by_contra hne
      exact hown (if_neg hne)
    subst hq
    obtain ⟨req', hreq', hs⟩ := Option.bind_eq_some_iff.mp hs
    rw [hr] at hreq'
    cases hreq'
    obtain ⟨⟨phase, shared⟩, hstep, hs⟩ := Option.bind_eq_some_iff.mp hs
    cases hs
    have hlocked := locked_of_step hstep
    have hlook : req.phase = .look := by
      rcases hn with ⟨-, hlock⟩ | ⟨-, hlook⟩ | hret
      · rw [hlock] at hlocked
        cases hlocked
      · exact hlook
      · rw [hret] at hlocked
        cases hlocked
    -- The worker that runs is in the slot, as this request holds none.
    have hslot : s.shared.slot = some i := by
      have howned := h.owned
      rw [holder_of_lock hr ((h.request q req hr).mp hlocked)] at howned
      refine ((howned.worker i).mp (.inl hw)).resolve_right ?_
      rw [hlook]
      nofun
    obtain ⟨hphase, hshared⟩ := step_look hlook hslot hw hstep
    exact ⟨_, hset phase, .inr (.inr hphase), by rw [hshared]⟩
  | _ => exact absurd rfl hown

theorem ages_of_run {es : List Event} (hrun : machine.run s es = some s') :
    Ages s.shared.workers s'.shared.workers := by
  induction es generalizing s with
  | nil =>
    cases hrun
    exact Ages.refl _
  | cons e es ih =>
    obtain ⟨t, ht, hrun⟩ := Option.bind_eq_some_iff.mp hrun
    intro i p hp
    obtain ⟨p₁, hp₁, hrun₁⟩ := (step_others ht).1 i p hp
    obtain ⟨p₂, hp₂, hrun₂⟩ := ih hrun i p₁ hp₁
    exact ⟨p₂, hp₂, fun h => hrun₁ (hrun₂ h)⟩

/-- A worker that runs was running before. -/
theorem running_of_run {es : List Event} {i : ℕ} (hrun : machine.run s es = some s')
    (hi : i < s.shared.workers.length) (hw : s'.shared.workers[i]? = some .running) :
    s.shared.workers[i]? = some .running := by
  obtain ⟨p, hp⟩ : ∃ p, s.shared.workers[i]? = some p := ⟨_, List.getElem?_eq_getElem hi⟩
  obtain ⟨p', hp', hback⟩ := ages_of_run hrun i p hp
  rw [hw] at hp'
  cases hp'
  rw [hp, hback rfl]

/-- The same along a run, as long as the worker runs. -/
theorem turned_of_run {es : List Event} {i n : ℕ} (h : machine.Reachable s)
    (hrun : machine.run s es = some s') (hi : i < s.shared.workers.length)
    (hw : s'.shared.workers[i]? = some .running) (hr : s.requests[r]? = some req)
    (hn : Turned n req.phase) :
    ∃ req', s'.requests[r]? = some req' ∧ Turned (n + (es.map (Event.own r)).sum) req'.phase ∧
      s'.shared.spawnsOf r = s.shared.spawnsOf r := by
  have hnow := running_of_run hrun hi hw
  induction es generalizing s req n with
  | nil =>
    cases hrun
    exact ⟨req, hr, hn, rfl⟩
  | cons e es ih =>
    obtain ⟨t, ht, hrun⟩ := Option.bind_eq_some_iff.mp hrun
    obtain ⟨req₁, hr₁, hn₁, hspawns₁⟩ := (inv_of_reachable h).turned ht hnow hr hn
    have hi₁ : i < t.shared.workers.length := by
      obtain ⟨p, hp, -⟩ := (step_others ht).1 i _ hnow
      exact (List.getElem?_eq_some_iff.mp hp).1
    obtain ⟨req', hr', hn', hspawns'⟩ := ih (h.step e ht) hrun hi₁ hr₁ hn₁
      (running_of_run hrun hi₁ hw)
    refine ⟨req', hr', ?_, hspawns'.trans hspawns₁⟩
    rwa [List.map_cons, List.sum_cons, ← Nat.add_assoc]

/-- There is one worker at most, in the slot or with the request that has the
    lock. While it runs, other requests return that the device is busy after at
    most two steps, without spawning. The limiter gets an attempt of a user at
    exactly the steps after which a request of the user calls `spawn_auth_worker`;
    and over the whole run, the attempts it got are those calls, and the one of the
    request that is about to make its call. -/
theorem oneWorker_of_reachable (h : machine.Reachable s) :
    (∀ i j, s.shared.Unreaped i → s.shared.Unreaped j → i = j) ∧
    (∀ i, s.shared.Unreaped i → s.shared.slot = some i ∨
      ∃ r req, s.lock = some (.request r) ∧ s.requests[r]? = some req ∧
        req.phase.child = some i) ∧
    (∀ (i r : ℕ) req, s.shared.workers[i]? = some .running → s.requests[r]? = some req →
      req.phase = .lock → ∀ es s', machine.run s es = some s' →
      s'.shared.workers[i]? = some .running →
      ∃ req', s'.requests[r]? = some req' ∧
        (((es.map (Event.own r)).sum = 0 ∧ req'.phase = .lock) ∨
          ((es.map (Event.own r)).sum = 1 ∧ req'.phase = .look) ∨
          req'.phase = .returned statusDeviceBusy) ∧
        s'.shared.spawnsOf r = s.shared.spawnsOf r) ∧
    (∀ e s', s.step e = some s' → Records s e s') ∧
    ∃ pending, s.shared.recorded = pending ++ s.shared.spawns.map Prod.snd ∧
      (pending = [] ∨ ∃ r req, s.lock = some (.request r) ∧ s.requests[r]? = some req ∧
        req.phase = .spawn ∧ pending = [req.uid]) := by
  have hinv := inv_of_reachable h
  have howned := hinv.owned
  refine ⟨fun i j hi hj => ?_, fun i hi => ?_, fun i r req hw hr hlock es s' hrun hw' => ?_,
    fun _ _ => records_of_step, ?_⟩
  · -- A request that holds a worker has found the slot empty.
    have hvacant : ∀ k, s.holder.phase.child = some k → s.shared.slot = none := fun k hk =>
      howned.vacant (s.holder.phase.vacant_of_child hk)
    rcases (howned.worker i).mp hi with hi | hi
    · rcases (howned.worker j).mp hj with hj | hj
      · exact Option.some.inj (hi.symm.trans hj)
      · rw [hvacant j hj] at hi
        cases hi
    · rcases (howned.worker j).mp hj with hj | hj
      · rw [hvacant i hi] at hj
        cases hj
      · exact Option.some.inj (hi.symm.trans hj)
  · refine ((howned.worker i).mp hi).imp_right fun hchild => ?_
    rcases hinv.holder_cases with ⟨r, req, hlock, hr, hholder⟩ | hnobody
    · exact ⟨r, req, hlock, hr, by rwa [← hholder]⟩
    · rw [hnobody] at hchild
      cases hchild
  · have hi := (List.getElem?_eq_some_iff.mp hw).1
    obtain ⟨req', hr', hn, hspawns⟩ := turned_of_run h hrun hi hw' hr (.inl ⟨rfl, hlock⟩)
    rw [Nat.zero_add] at hn
    exact ⟨req', hr', hn, hspawns⟩
  · refine ⟨s.holder.pending, howned.attempts, ?_⟩
    rcases hinv.holder_cases with ⟨r, req, hlock, hr, hholder⟩ | hnobody
    · rw [hholder]
      by_cases hspawn : req.phase = .spawn
      · refine .inr ⟨r, req, hlock, hr, hspawn, ?_⟩
        rw [pending, hspawn]
      · refine .inl ?_
        unfold pending
        split
        · next hphase => exact absurd hphase hspawn
        · rfl
    · rw [hnobody]
      exact .inl rfl

/-- Two requests of one user: the worker of the first runs when the second
    arrives. The first one is allowed after four steps. -/
def twoRequests : List Event :=
  [.arrive 1000 true, .tryLock 0, .reply 0 (.look .failed), .reply 0 (.deadline false),
    .reply 0 (.allow 5), .reply 0 (.spawn true), .reply 0 (.write false), .reply 0 .register,
    .arrive 1000 true]

theorem oneWorker_of_reachable_twoRequests : ∃ s s' t t' : AuthChild,
    machine.run machine.init twoRequests = some s ∧
    machine.run s [.tryLock 1, .reply 1 (.look .running)] = some s' ∧
    s.shared.workers = [.running] ∧ s'.shared.spawnsOf 1 = s.shared.spawnsOf 1 ∧
    (∃ req', s'.requests[1]? = some req' ∧
      ((2 = 0 ∧ req'.phase = .lock) ∨ (2 = 1 ∧ req'.phase = .look) ∨
        req'.phase = .returned statusDeviceBusy)) ∧
    machine.run machine.init (twoRequests.take 4) = some t ∧
    t.step (.reply 0 (.allow 5)) = some t' ∧ Records t (.reply 0 (.allow 5)) t' ∧
    t'.shared.limiter.times 1000 = [5] := by
  obtain ⟨⟨requests, loop, lock, slot, workers, limiter, recorded, spawns⟩, hs⟩ :
      ∃ s, machine.run machine.init twoRequests = some s := ⟨_, rfl⟩
  have hstate : (machine.run machine.init twoRequests).map
      (fun s => (s.requests, s.lock, s.shared.slot, s.shared.workers)) =
      some ([⟨1000, true, .returned statusInternalError⟩, ⟨1000, true, .lock⟩], none, some 0,
        [.running]) := rfl
  rw [hs] at hstate
  cases hstate
  obtain ⟨-, -, hturned, -⟩ := oneWorker_of_reachable (Machine.Reachable.init.run hs)
  obtain ⟨req', hr', hphase, hspawns⟩ :=
    hturned 0 1 _ rfl rfl rfl [.tryLock 1, .reply 1 (.look .running)] _ rfl rfl
  obtain ⟨t, ht⟩ : ∃ t, machine.run machine.init (twoRequests.take 4) = some t := ⟨_, rfl⟩
  have htimes : (t.step (.reply 0 (.allow 5))).map (fun s => s.shared.limiter.times 1000) =
      some [5] := by
    cases ht
    decide +kernel
  obtain ⟨t', ht', htimes'⟩ := Option.map_eq_some_iff.mp htimes
  obtain ⟨-, -, -, hrecords, -⟩ := oneWorker_of_reachable (Machine.Reachable.init.run ht)
  exact ⟨_, _, t, t', hs, rfl, rfl, hspawns, ⟨req', hr', hphase⟩, ht, ht', hrecords _ _ ht',
    htimes'⟩

end AuthChild

end KFaceAuth
