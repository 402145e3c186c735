import KFaceAuth.Lib.Machine
import Mathlib.Algebra.BigOperators.Group.List.Lemmas
import Mathlib.Algebra.Order.Group.Nat
import Mathlib.Algebra.GroupWithZero.Nat
import Mathlib.Data.List.Dedup
import Mathlib.Data.List.ReduceOption
import Std.Data.ExtTreeMap

/-!
# The connections of the daemon

A connection is admitted with a permit, which is counted for the user it comes
from (`IngressState`) and released by its destructor. The accept loop puts the
job, with its permit, into a channel, from which a pool of threads takes it.

The threads and the accept loop are one machine (`Ingress.machine`). A thread
whose job panics ends, and drops its permit; without threads, the channel is
disconnected, and the jobs in it are dropped. Dropping a permit whose count is
zero would be a panic inside the lock, which then stays poisoned.

* `Ingress.counted_of_reachable`: the permits that exist are counted exactly,
  within the limits, and there is always room in the channel for a job that has
  a permit.
-/

namespace KFaceAuth

open Std

def maxActiveConnections : ℕ := 4
def maxConnectionsPerPeerUid : ℕ := 2

/-- `IngressState`: the connections of each user, behind a lock. -/
structure IngressState where
  activeByUid : ExtTreeMap UInt32 ℕ
  poisoned : Bool

namespace IngressState

/-- The sum of all counts. -/
def total (s : IngressState) : ℕ := (s.activeByUid.toList.map Prod.snd).sum

/-- The count of a user. -/
def peerCount (s : IngressState) (uid : UInt32) : ℕ := s.activeByUid[uid]?.getD 0

/-- `try_acquire`. -/
def tryAcquire (s : IngressState) (peerUid : UInt32) : Option IngressState :=
  if s.poisoned then none
  else if s.total ≥ maxActiveConnections ∨ s.peerCount peerUid ≥ maxConnectionsPerPeerUid then none
  else some { s with activeByUid := s.activeByUid.insert peerUid (s.peerCount peerUid + 1) }

/-- The destructor of a permit. -/
def dropPermit (s : IngressState) (peerUid : UInt32) : IngressState :=
  if s.poisoned then s
  else
    match s.activeByUid[peerUid]? with
    | none => s
    | some 0 => { s with poisoned := true }
    | some 1 => { s with activeByUid := s.activeByUid.erase peerUid }
    | some (count + 1) => { s with activeByUid := s.activeByUid.insert peerUid count }

/-! ## Counting permits -/

/-- The counts are those of the permits `ps`. -/
structure Counted (s : IngressState) (ps : List UInt32) : Prop where
  sound : s.poisoned = false
  get : ∀ uid, s.activeByUid[uid]? = if ps.count uid = 0 then none else some (ps.count uid)

variable {s s' : IngressState} {ps qs : List UInt32} {uid : UInt32}

theorem Counted.perm (h : s.Counted ps) (hp : ps.Perm qs) : s.Counted qs :=
  ⟨h.sound, fun uid => by rw [h.get, hp.count_eq]⟩

theorem Counted.peerCount (h : s.Counted ps) (uid : UInt32) :
    s.peerCount uid = ps.count uid := by
  rw [IngressState.peerCount, h.get]
  split_ifs with h0
  · exact h0.symm
  · rfl

/-- The users with an entry are those with a permit. -/
theorem Counted.perm_keys (h : s.Counted ps) :
    (s.activeByUid.toList.map Prod.fst).Perm ps.dedup := by
  have hnodup : (s.activeByUid.toList.map Prod.fst).Nodup := by
    rw [ExtTreeMap.map_fst_toList_eq_keys]
    exact ExtTreeMap.nodup_keys
  refine (List.perm_ext_iff_of_nodup hnodup ps.nodup_dedup).2 fun uid => ?_
  rw [ExtTreeMap.map_fst_toList_eq_keys, ExtTreeMap.mem_keys, List.mem_dedup,
    ← ExtTreeMap.isSome_getElem?_iff_mem, h.get]
  split_ifs with h0
  · simpa using List.count_eq_zero.1 h0
  · simpa using List.count_pos_iff.1 (Nat.pos_of_ne_zero h0)

theorem Counted.total (h : s.Counted ps) : s.total = ps.length := by
  have hsnd : s.activeByUid.toList.map Prod.snd =
      (s.activeByUid.toList.map Prod.fst).map fun uid => ps.count uid := by
    rw [List.map_map]
    refine List.map_congr_left fun e he => ?_
    have := ExtTreeMap.mem_toList_iff_getElem?_eq_some.1 he
    rw [h.get] at this
    split_ifs at this
    exact (Option.some.inj this).symm
  rw [IngressState.total, hsnd, (h.perm_keys.map _).sum_eq, List.sum_map_count_dedup_eq_length]

theorem Counted.tryAcquire (h : s.Counted ps) (hs : s.tryAcquire uid = some s') :
    s'.Counted (uid :: ps) ∧ ps.length < maxActiveConnections ∧
      ps.count uid < maxConnectionsPerPeerUid := by
  unfold IngressState.tryAcquire at hs
  rw [h.sound, h.total, h.peerCount] at hs
  rw [if_neg Bool.false_ne_true] at hs
  split_ifs at hs with hl
  obtain rfl := Option.some.inj hs
  rw [not_or, Nat.not_le, Nat.not_le] at hl
  refine ⟨⟨rfl, fun u => ?_⟩, hl⟩
  rw [ExtTreeMap.getElem?_insert]
  by_cases hu : uid = u
  · subst hu
    simp
  · simp [hu, h.get]

/-- A connection is refused only at one of the limits. -/
theorem Counted.of_refused (h : s.Counted ps) (hs : s.tryAcquire uid = none) :
    maxActiveConnections ≤ ps.length ∨ maxConnectionsPerPeerUid ≤ ps.count uid := by
  unfold IngressState.tryAcquire at hs
  rw [h.sound, h.total, h.peerCount] at hs
  rw [if_neg Bool.false_ne_true] at hs
  split_ifs at hs with hl
  exact hl

theorem Counted.dropPermit (h : s.Counted ps) (hu : uid ∈ ps) :
    (s.dropPermit uid).Counted (ps.erase uid) := by
  have hpos : 0 < ps.count uid := List.count_pos_iff.2 hu
  have hget := h.get uid
  rw [if_neg hpos.ne'] at hget
  obtain ⟨n, hn⟩ : ∃ n, ps.count uid = n + 1 := ⟨_, (Nat.succ_pred_eq_of_pos hpos).symm⟩
  have hcount : ∀ u, (ps.erase uid).count u = if uid = u then n else ps.count u := by
    intro u
    by_cases hu : uid = u
    · subst hu
      rw [if_pos rfl, List.count_erase_self, hn, Nat.add_sub_cancel]
    · rw [if_neg hu, List.count_erase_of_ne (Ne.symm hu)]
  unfold IngressState.dropPermit
  rw [h.sound, hget, hn, if_neg Bool.false_ne_true]
  cases n with
  | zero =>
    refine ⟨rfl, fun u => ?_⟩
    simp only [ExtTreeMap.getElem?_erase, hcount]
    by_cases hu : uid = u
    · simp [hu]
    · simp [hu, h.get]
  | succ n =>
    refine ⟨rfl, fun u => ?_⟩
    simp only [ExtTreeMap.getElem?_insert, hcount]
    by_cases hu : uid = u
    · simp [hu]
    · simp [hu, h.get]

end IngressState

/-- What the accept loop is about to do. -/
inductive AcceptPhase
  | accept
  /-- `try_send` of a job. -/
  | send (peerUid : UInt32)
  /-- Dropping the permit of a job that was not sent. -/
  | drop (peerUid : UInt32)
  | ended
  deriving DecidableEq

/-- The accept loop, the channel and the threads, each with the job it has.
    Jobs are named by the user they come from. -/
structure Ingress where
  state : IngressState
  loop : AcceptPhase
  channel : List UInt32
  threads : List (Option UInt32)

namespace Ingress

inductive Event
  /-- A connection is accepted. -/
  | accept (peerUid : UInt32)
  /-- `try_send`. -/
  | send
  /-- The permit of a job that was not sent is dropped. -/
  | drop
  /-- The accept loop ends. -/
  | shutdown
  /-- A thread takes a job. -/
  | take (thread : ℕ)
  /-- A thread is done with its job. -/
  | finish (thread : ℕ)
  /-- The job of a thread panics. -/
  | panic (thread : ℕ)
  /-- A job is dropped with the channel. -/
  | discard

/-- The reply to `try_send`. -/
inductive Sent
  | ok
  | full
  | disconnected
  deriving DecidableEq

def trySend (s : Ingress) : Sent :=
  if s.threads = [] then .disconnected
  else if s.channel.length ≥ maxActiveConnections then .full
  else .ok

def step (s : Ingress) : Event → Option Ingress
  | .accept peerUid =>
    if s.loop = .accept then
      match s.state.tryAcquire peerUid with
      | none => some s
      | some state => some { s with state, loop := .send peerUid }
    else none
  | .send =>
    match s.loop with
    | .send peerUid =>
      match s.trySend with
      | .ok => some { s with loop := .accept, channel := s.channel ++ [peerUid] }
      | .full | .disconnected => some { s with loop := .drop peerUid }
    | _ => none
  | .drop =>
    match s.loop with
    | .drop peerUid => some { s with state := s.state.dropPermit peerUid, loop := .accept }
    | _ => none
  | .shutdown => if s.loop = .accept then some { s with loop := .ended } else none
  | .take thread =>
    match s.channel, s.threads[thread]? with
    | peerUid :: channel, some none =>
      some { s with channel, threads := s.threads.set thread (some peerUid) }
    | _, _ => none
  | .finish thread =>
    match s.threads[thread]? with
    | some (some peerUid) =>
      some { s with
        state := s.state.dropPermit peerUid
        threads := s.threads.set thread none }
    | _ => none
  | .panic thread =>
    match s.threads[thread]? with
    | some (some peerUid) =>
      some { s with
        state := s.state.dropPermit peerUid
        threads := s.threads.eraseIdx thread }
    | _ => none
  | .discard =>
    match s.channel with
    | peerUid :: channel =>
      if s.threads = [] then some { s with state := s.state.dropPermit peerUid, channel } else none
    | [] => none

/-- The daemon when it starts. -/
def machine : Machine Ingress Event where
  init := ⟨⟨∅, false⟩, .accept, [], List.replicate maxActiveConnections none⟩
  step := step

/-- The permit in the hands of the accept loop. -/
def loopPermits : AcceptPhase → List UInt32
  | .send peerUid | .drop peerUid => [peerUid]
  | .accept | .ended => []

/-- The permits that exist. -/
def permits (s : Ingress) : List UInt32 :=
  loopPermits s.loop ++ s.channel ++ s.threads.reduceOption

/-! ## The invariant -/

/-- The permits that exist are counted, within the limits. -/
structure Inv (s : Ingress) : Prop where
  counted : s.state.Counted s.permits
  total : s.permits.length ≤ maxActiveConnections
  peer : ∀ uid, s.permits.count uid ≤ maxConnectionsPerPeerUid

variable {s s' : Ingress} {uid : UInt32}

/-- A step that only hands permits on. -/
theorem Inv.handOn (h : s.Inv) (hstate : s'.state = s.state) (hp : s.permits.Perm s'.permits) :
    s'.Inv :=
  ⟨hstate ▸ h.counted.perm hp, hp.length_eq ▸ h.total, fun uid => hp.count_eq uid ▸ h.peer uid⟩

/-- A step that drops a permit. -/
theorem Inv.drop (h : s.Inv) (hu : uid ∈ s.permits) (hstate : s'.state = s.state.dropPermit uid)
    (hp : (s.permits.erase uid).Perm s'.permits) : s'.Inv := by
  refine ⟨hstate ▸ (h.counted.dropPermit hu).perm hp, ?_, fun u => ?_⟩
  · rw [← hp.length_eq]
    exact (List.length_erase_le).trans h.total
  · rw [← hp.count_eq]
    exact ((List.erase_sublist).count_le u).trans (h.peer u)

/-- A list around one of its elements. -/
theorem split_of_getElem? {α : Type} {l : List α} {i : ℕ} {a : α} (h : l[i]? = some a) :
    l = l.take i ++ a :: l.drop (i + 1) ∧ (∀ b, l.set i b = l.take i ++ b :: l.drop (i + 1)) ∧
      l.eraseIdx i = l.take i ++ l.drop (i + 1) := by
  obtain ⟨hi, rfl⟩ := List.getElem?_eq_some_iff.1 h
  refine ⟨?_, fun b => ?_, List.eraseIdx_eq_take_drop_succ _ _⟩
  · rw [List.getElem_cons_drop, List.take_append_drop]
  · rw [List.set_eq_take_append_cons_drop, if_pos hi]

/-- The permit of a thread, and the others. -/
theorem permits_perm_of_thread {i : ℕ} (h : s.threads[i]? = some (some uid)) :
    s.permits.Perm (uid :: (loopPermits s.loop ++ s.channel ++
      ((s.threads.take i).reduceOption ++ (s.threads.drop (i + 1)).reduceOption))) := by
  have hthreads : s.threads.reduceOption =
      (s.threads.take i).reduceOption ++ uid :: (s.threads.drop (i + 1)).reduceOption := by
    conv_lhs => rw [(split_of_getElem? h).1]
    rw [List.reduceOption_append, List.reduceOption_cons_of_some]
  rw [permits, hthreads, ← List.append_assoc, ← List.append_assoc]
  exact List.perm_middle

/-- A thread that drops its permit. -/
theorem Inv.dropThread (h : s.Inv) {i : ℕ} (hi : s.threads[i]? = some (some uid))
    (hstate : s'.state = s.state.dropPermit uid) (hloop : s'.loop = s.loop)
    (hchannel : s'.channel = s.channel)
    (hthreads : s'.threads.reduceOption =
      (s.threads.take i).reduceOption ++ (s.threads.drop (i + 1)).reduceOption) : s'.Inv := by
  have hp := permits_perm_of_thread hi
  refine h.drop (hp.symm.subset List.mem_cons_self) hstate ?_
  refine (hp.erase uid).trans ?_
  rw [List.erase_cons_head, permits, hloop, hchannel, hthreads]

/-- Every step keeps the invariant. -/
theorem Inv.step {e : Event} (h : s.Inv) (hs : s.step e = some s') : s'.Inv := by
  cases e with
  | accept peerUid =>
    simp only [Ingress.step] at hs
    split_ifs at hs with hl
    split at hs
    · exact Option.some.inj hs ▸ h
    · next state hacq =>
      obtain rfl := Option.some.inj hs
      obtain ⟨hc, htotal, hpeer⟩ := h.counted.tryAcquire hacq
      have hp : permits { s with state, loop := .send peerUid } = peerUid :: s.permits := by
        simp [permits, loopPermits, hl]
      refine ⟨hp ▸ hc, by rw [hp]; exact htotal, fun uid => ?_⟩
      rw [hp, List.count_cons]
      split_ifs with he
      · rw [beq_iff_eq] at he
        exact he ▸ hpeer
      · exact h.peer uid
  | send =>
    simp only [Ingress.step] at hs
    split at hs
    · next peerUid hl =>
      have hdrop : s'.state = s.state → s'.permits = s.permits → s'.Inv :=
        fun h₁ h₂ => h.handOn h₁ (.of_eq h₂.symm)
      split at hs
      · obtain rfl := Option.some.inj hs
        refine h.handOn rfl ?_
        simp only [permits, hl, loopPermits, List.nil_append, List.append_assoc,
          List.singleton_append]
        exact List.perm_middle.symm
      · obtain rfl := Option.some.inj hs
        exact hdrop rfl (by simp [permits, hl, loopPermits])
      · obtain rfl := Option.some.inj hs
        exact hdrop rfl (by simp [permits, hl, loopPermits])
    · cases hs
  | drop =>
    simp only [Ingress.step] at hs
    split at hs
    · next peerUid hl =>
      obtain rfl := Option.some.inj hs
      refine h.drop (by simp [permits, hl, loopPermits]) rfl ?_
      simp [permits, hl, loopPermits]
    · cases hs
  | shutdown =>
    simp only [Ingress.step] at hs
    split_ifs at hs with hl
    obtain rfl := Option.some.inj hs
    exact h.handOn rfl (.of_eq (by simp [permits, hl, loopPermits]))
  | take i =>
    simp only [Ingress.step] at hs
    split at hs
    · next peerUid channel hc hi =>
      obtain rfl := Option.some.inj hs
      obtain ⟨hsplit, hset, -⟩ := split_of_getElem? hi
      refine h.handOn rfl ?_
      have hthreads : s.threads.reduceOption =
          (s.threads.take i).reduceOption ++ (s.threads.drop (i + 1)).reduceOption := by
        conv_lhs => rw [hsplit]
        rw [List.reduceOption_append, List.reduceOption_cons_of_none]
      simp only [permits, hc, hset, hthreads, List.reduceOption_append,
        List.reduceOption_cons_of_some, List.append_assoc, List.cons_append]
      refine List.Perm.append_left _ ?_
      rw [← List.append_assoc, ← List.append_assoc channel]
      exact List.perm_middle.symm
    · cases hs
  | finish i =>
    simp only [Ingress.step] at hs
    split at hs
    · next peerUid hi =>
      obtain rfl := Option.some.inj hs
      refine h.dropThread hi rfl rfl rfl ?_
      rw [(split_of_getElem? hi).2.1, List.reduceOption_append, List.reduceOption_cons_of_none]
    · cases hs
  | panic i =>
    simp only [Ingress.step] at hs
    split at hs
    · next peerUid hi =>
      obtain rfl := Option.some.inj hs
      refine h.dropThread hi rfl rfl rfl ?_
      rw [(split_of_getElem? hi).2.2, List.reduceOption_append]
    · cases hs
  | discard =>
    simp only [Ingress.step] at hs
    split at hs
    · next peerUid channel hc =>
      split_ifs at hs with ht
      obtain rfl := Option.some.inj hs
      have hp : s.permits.Perm (peerUid :: (loopPermits s.loop ++ channel)) := by
        simp only [permits, hc, ht, List.reduceOption_nil, List.append_nil]
        exact List.perm_middle
      refine h.drop (hp.symm.subset List.mem_cons_self) rfl ((hp.erase peerUid).trans ?_)
      simp [permits, ht]
    · cases hs

theorem inv_of_reachable (h : machine.Reachable s) : s.Inv := by
  refine h.inv ⟨⟨rfl, fun uid => ?_⟩, ?_, fun uid => ?_⟩ fun s e s' hs he => hs.step he
  all_goals simp [machine, permits, loopPermits]

/-- In every reachable state the counts are those of the permits that exist, no
    count is zero, both limits hold, and a connection is refused only at one of
    them; a job with a permit always finds room in the channel. -/
theorem counted_of_reachable (h : machine.Reachable s) :
    (∀ uid, s.state.peerCount uid = s.permits.count uid) ∧
    (∀ uid : UInt32, s.state.activeByUid[uid]? ≠ some 0) ∧
    (∀ uid ∈ s.permits, 0 < s.state.peerCount uid) ∧
    s.state.total ≤ maxActiveConnections ∧
    (∀ uid, s.state.peerCount uid ≤ maxConnectionsPerPeerUid) ∧
    (∀ uid, s.state.tryAcquire uid = none → s.state.total = maxActiveConnections ∨
      s.state.peerCount uid = maxConnectionsPerPeerUid) ∧
    ∀ uid, s.loop = .send uid → s.trySend ≠ .full := by
  have hinv := inv_of_reachable h
  have hpeer := hinv.counted.peerCount
  refine ⟨hpeer, fun uid => ?_, fun uid hu => ?_, ?_, fun uid => ?_, fun uid hr => ?_,
    fun uid hl => ?_⟩
  · rw [hinv.counted.get]
    split_ifs with h0
    · exact nofun
    · exact fun he => h0 (Option.some.inj he)
  · rw [hpeer]
    exact List.count_pos_iff.2 hu
  · exact hinv.counted.total ▸ hinv.total
  · exact hpeer uid ▸ hinv.peer uid
  · rw [hinv.counted.total, hpeer]
    exact (hinv.counted.of_refused hr).imp (Nat.le_antisymm hinv.total)
      (Nat.le_antisymm (hinv.peer uid))
  · -- the permit of the job itself is not in the channel
    have htotal := hinv.total
    have hlen : s.permits.length = s.channel.length + 1 + (s.threads.reduceOption).length := by
      simp [permits, hl, loopPermits]
      omega
    unfold trySend
    split_ifs with ht hfull
    · exact nofun
    · omega
    · exact nofun

/-- One user has a job in a thread and is about to send another. -/
theorem counted_of_reachable_example : ∃ s : Ingress,
    machine.run machine.init [.accept 1000, .send, .take 0, .accept 1000] = some s ∧
    s.loop = .send 1000 ∧ s.state.peerCount 1000 = s.permits.count 1000 ∧ s.trySend ≠ .full := by
  obtain ⟨s, hs⟩ : ∃ s, machine.run machine.init [.accept 1000, .send, .take 0, .accept 1000] =
      some s := ⟨_, rfl⟩
  have hl : (machine.run machine.init [.accept 1000, .send, .take 0, .accept 1000]).map
      Ingress.loop = some (.send 1000) := rfl
  rw [hs] at hl
  obtain ⟨hcount, -, -, -, -, -, hroom⟩ := counted_of_reachable (Machine.Reachable.init.run hs)
  exact ⟨s, hs, Option.some.inj hl, hcount 1000, hroom 1000 (Option.some.inj hl)⟩

end Ingress

end KFaceAuth
