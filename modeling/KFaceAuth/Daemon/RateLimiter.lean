import KFaceAuth.Daemon.Dispatch
import Mathlib.Data.List.DropRight

/-!
# The rate limiter as a sliding window

The rate limiter keeps the times of the attempts it has allowed, and forgets
those that have left the window whenever it is asked, for all users at once.
Over any sequence of calls whose times do not decrease, this is the window it
stands for: an attempt is allowed if and only if fewer than
`pamAttemptsPerWindow` attempts of the user that were allowed since the last
`clear` are in the window (`window_of_run`).
-/

namespace KFaceAuth

namespace AuthRateLimiter

/-- A call on the limiter. -/
inductive Op
  | allowAt (uid : UInt32) (now : ℤ)
  | clear (uid : UInt32)
  deriving DecidableEq

/-- The user a call is about. -/
def Op.uid : Op → UInt32
  | allowAt uid _ => uid
  | clear uid => uid

/-- The time a call is made with. -/
def Op.time : Op → Option ℤ
  | allowAt _ now => some now
  | clear _ => none

/-- A call, with what it returns: nothing is allowed by a `clear`. -/
def call (l : AuthRateLimiter) : Op → Bool × AuthRateLimiter
  | .allowAt uid now => l.allowAt uid now
  | .clear uid => (false, l.clear uid)

/-- The limiter after some calls. -/
def after (l : AuthRateLimiter) (ops : List Op) : AuthRateLimiter :=
  ops.foldl (fun l op => (l.call op).2) l

/-- The calls with their answers. -/
def run (l : AuthRateLimiter) : List Op → List (Op × Bool)
  | [] => []
  | op :: ops => (op, (l.call op).1) :: (l.call op).2.run ops

/-- The times of the calls do not decrease. -/
def Nondecreasing (ops : List Op) : Prop := (ops.filterMap Op.time).Pairwise (· ≤ ·)

instance (ops : List Op) : Decidable (Nondecreasing ops) :=
  inferInstanceAs (Decidable (List.Pairwise _ _))

/-! ## The window -/

/-- What has happened since the last `clear` of the user. -/
def since (uid : UInt32) (past : List (Op × Bool)) : List (Op × Bool) :=
  past.rtakeWhile fun e => e.1 ≠ .clear uid

/-- The time of an attempt of the user, if it was allowed. -/
def attempt (uid : UInt32) : Op × Bool → Option ℤ
  | (.allowAt u t, true) => if u = uid then some t else none
  | _ => none

/-- The time is less than the window before `now`. -/
def InWindow (now t : ℤ) : Prop := now - t < pamAttemptWindow

instance (now t : ℤ) : Decidable (InWindow now t) := inferInstanceAs (Decidable (_ < _))

/-- The attempts of the user that were allowed since the last `clear`, and are
    in the window at `now`. -/
def counted (uid : UInt32) (now : ℤ) (past : List (Op × Bool)) : List ℤ :=
  ((since uid past).filterMap (attempt uid)).filter fun t => InWindow now t

variable {l : AuthRateLimiter} {uid u : UInt32} {now t : ℤ} {ops : List Op} {op : Op}
  {past : List (Op × Bool)} {e : Op × Bool}

theorem after_concat : l.after (ops ++ [op]) = ((l.after ops).call op).2 := by
  rw [after, List.foldl_append]
  rfl

theorem run_append {ops' : List Op} :
    l.run (ops ++ ops') = l.run ops ++ (l.after ops).run ops' := by
  induction ops generalizing l with
  | nil => rfl
  | cons op ops ih =>
    simp only [List.cons_append, run, ih]
    rfl

theorem run_concat : l.run (ops ++ [op]) = l.run ops ++ [(op, ((l.after ops).call op).1)] :=
  run_append

theorem nondecreasing_concat : Nondecreasing (ops ++ [op]) ↔
    Nondecreasing ops ∧ ∀ t ∈ ops.filterMap Op.time, ∀ now ∈ op.time, t ≤ now := by
  simp only [Nondecreasing, List.filterMap_append, List.pairwise_append]
  cases op <;> simp [Op.time, List.filterMap_cons]

/-! ## What the limiter keeps -/

/-- The times the limiter has for a user. -/
def times (l : AuthRateLimiter) (uid : UInt32) : List ℤ := l[uid]?.getD []

theorem times_retain : (l.retain now).times uid =
    (l.times uid).filter fun t => InWindow now t := by
  have hwindow : ∀ t, max 0 (now - t) < pamAttemptWindow ↔ InWindow now t := by
    intro t
    rw [InWindow, max_lt_iff, and_iff_right (by decide)]
  unfold times retain
  simp only [hwindow]
  rw [Std.ExtTreeMap.getElem?_filterMap']
  cases l[uid]? with
  | none => rfl
  | some times =>
    rw [Option.bind_some, Option.getD_some]
    cases times.filter fun t => InWindow now t <;> rfl

theorem allowAt_iff : (l.allowAt uid now).1 = true ↔
    ((l.retain now).times uid).length < pamAttemptsPerWindow := by
  unfold allowAt times
  simp only
  split_ifs with hfull
  · simp only [false_iff]
    omega
  · simp only [true_iff]
    omega

theorem times_allowAt : (l.allowAt uid now).2.times u =
    (l.retain now).times u ++ if u = uid ∧ (l.allowAt uid now).1 then [now] else [] := by
  by_cases hu : u = uid
  · subst hu
    unfold allowAt times
    simp only
    split_ifs <;> simp_all
  · unfold allowAt times
    simp only
    split_ifs <;> simp_all [Ne.symm hu, Std.ExtTreeMap.getElem?_insert]

theorem times_clear : (l.clear uid).times u = if u = uid then [] else l.times u := by
  unfold clear times
  by_cases hu : u = uid
  · subst hu
    simp
  · rw [if_neg hu, Std.ExtTreeMap.getElem?_erase, if_neg (by simpa using Ne.symm hu)]

/-! ## What counts -/

theorem counted_concat_attempt {allowed : Bool} :
    counted u now (past ++ [(.allowAt uid t, allowed)]) =
      counted u now past ++ if u = uid ∧ allowed ∧ InWindow now t then [t] else [] := by
  unfold counted since
  rw [List.rtakeWhile_concat_pos _ _ _ (by simp)]
  rw [List.filterMap_append, List.filter_append]
  congr 1
  cases allowed with
  | false => simp [attempt]
  | true =>
    by_cases hu : uid = u
    · subst hu
      by_cases ht : InWindow now t <;> simp [attempt, ht]
    · simp [attempt, hu, Ne.symm hu]

theorem counted_concat_clear {allowed : Bool} :
    counted u now (past ++ [(.clear uid, allowed)]) =
      if u = uid then [] else counted u now past := by
  unfold counted since
  split_ifs with hu
  · subst hu
    rw [List.rtakeWhile_concat_neg _ _ _ (by simp)]
    rfl
  · rw [List.rtakeWhile_concat_pos _ _ _ (by simpa using Ne.symm hu)]
    simp [attempt]

/-- What has left the window does not come back. -/
theorem filter_inWindow {now' : ℤ} (h : now ≤ now') (ts : List ℤ) :
    (ts.filter fun t => InWindow now t).filter (fun t => InWindow now' t) =
      ts.filter fun t => InWindow now' t := by
  rw [List.filter_filter]
  congr 1
  funext t
  have : InWindow now' t → InWindow now t := fun ht => by
    unfold InWindow at ht ⊢
    omega
  by_cases ht : InWindow now' t
  · simp [ht, this ht]
  · simp [ht]

/-- From the last call on, what the limiter keeps of the window is what counts. -/
theorem filter_times_after (h : Nondecreasing ops)
    (hnow : ∀ t ∈ ops.filterMap Op.time, t ≤ now) :
    (((∅ : AuthRateLimiter).after ops).times uid).filter (fun t => InWindow now t) =
      counted uid now ((∅ : AuthRateLimiter).run ops) := by
  induction ops using List.reverseRecOn generalizing uid now with
  | nil => rfl
  | append_singleton ops op ih =>
    obtain ⟨hops, hle⟩ := nondecreasing_concat.mp h
    have hbefore : ∀ t ∈ ops.filterMap Op.time, t ≤ now := fun t ht =>
      hnow t (by rw [List.filterMap_append]; exact List.mem_append_left _ ht)
    rw [after_concat, run_concat]
    cases op with
    | allowAt u at' =>
      have hat : at' ≤ now := hnow at' (by simp [List.filterMap_append, Op.time])
      have hkept : (((∅ : AuthRateLimiter).after ops).times uid).filter (fun t => InWindow now t) =
          counted uid now ((∅ : AuthRateLimiter).run ops) := ih hops hbefore
      simp only [call, times_allowAt, times_retain, List.filter_append, filter_inWindow hat, hkept,
        counted_concat_attempt]
      congr 1
      by_cases hin : InWindow now at' <;> by_cases hu : uid = u <;> simp [hin, hu, apply_ite]
    | clear u =>
      simp only [call, times_clear, counted_concat_clear]
      split_ifs
      · rfl
      · exact ih hops hbefore

theorem Nondecreasing.sublist {ops' : List Op} (h : Nondecreasing ops) (hs : ops'.Sublist ops) :
    Nondecreasing ops' :=
  List.Pairwise.sublist (hs.filterMap _) h

/-- An attempt is allowed if fewer than the limit count at its time. -/
theorem allowed_iff (h : Nondecreasing (ops ++ [Op.allowAt uid now])) :
    (((∅ : AuthRateLimiter).after ops).allowAt uid now).1 = true ↔
      (counted uid now ((∅ : AuthRateLimiter).run ops)).length < pamAttemptsPerWindow := by
  obtain ⟨hops, hle⟩ := nondecreasing_concat.mp h
  rw [allowAt_iff, times_retain, filter_times_after hops fun t ht => hle t ht now rfl]

/-- What others do does not count. -/
theorem counted_filter : counted uid now (past.filter fun e => e.1.uid = uid) =
    counted uid now past := by
  induction past using List.reverseRecOn with
  | nil => rfl
  | append_singleton past e ih =>
    obtain ⟨op, allowed⟩ := e
    rw [List.filter_append]
    by_cases huid : op.uid = uid
    · have hone : [(op, allowed)].filter (fun e => e.1.uid = uid) = [(op, allowed)] := by
        simp [huid]
      rw [hone]
      cases op <;> simp only [counted_concat_attempt, counted_concat_clear, ih]
    · have hnone : [(op, allowed)].filter (fun e => e.1.uid = uid) = [] := by simp [huid]
      rw [hnone, List.append_nil, ih]
      cases op with
      | allowAt u t =>
        have hne : uid ≠ u := Ne.symm huid
        simp [counted_concat_attempt, hne]
      | clear u =>
        have hne : uid ≠ u := Ne.symm huid
        simp [counted_concat_clear, hne]

/-- The answers to the calls about a user are those of a limiter that is only
    asked about this user. -/
theorem run_filter (h : Nondecreasing ops) :
    ((∅ : AuthRateLimiter).run ops).filter (fun e => e.1.uid = uid) =
      (∅ : AuthRateLimiter).run (ops.filter fun op => op.uid = uid) := by
  induction ops using List.reverseRecOn with
  | nil => rfl
  | append_singleton ops op ih =>
    have ih := ih (nondecreasing_concat.mp h).1
    rw [run_concat, List.filter_append, List.filter_append, ih]
    by_cases huid : op.uid = uid
    · have hone : [op].filter (fun op => op.uid = uid) = [op] := by simp [huid]
      rw [hone, run_concat, List.filter_cons_of_pos (by simpa using huid), List.filter_nil]
      congr 3
      cases op with
      | clear u => rfl
      | allowAt u now =>
        obtain rfl : u = uid := huid
        have hown : Nondecreasing ((ops.filter fun op => op.uid = u) ++ [Op.allowAt u now]) :=
          h.sublist (List.filter_sublist.append (List.Sublist.refl _))
        rw [Bool.eq_iff_iff]
        refine (allowed_iff h).trans (Iff.trans ?_ (allowed_iff hown).symm)
        rw [← ih, counted_filter]
    · have hnone : [op].filter (fun op => op.uid = uid) = [] := by simp [huid]
      rw [hnone, List.append_nil, List.filter_cons_of_neg (by simpa using huid), List.filter_nil,
        List.append_nil]

theorem length_run : (l.run ops).length = ops.length := by
  induction ops generalizing l with
  | nil => rfl
  | cons op ops ih => rw [run, List.length_cons, ih, List.length_cons]

/-- The limiter is a sliding window: over any calls whose times do not decrease,
    an attempt is allowed if and only if fewer than the limit of the earlier
    ones count; the answers about a user are as if there were no others; and of
    what counts, nothing is forgotten. -/
theorem window_of_run (h : Nondecreasing ops) :
    (∀ before uid now rest, ops = before ++ .allowAt uid now :: rest →
      ((∅ : AuthRateLimiter).run ops)[before.length]? = some (.allowAt uid now,
        decide ((counted uid now (((∅ : AuthRateLimiter).run ops).take before.length)).length <
          pamAttemptsPerWindow))) ∧
    (∀ uid, ((∅ : AuthRateLimiter).run ops).filter (fun e => e.1.uid = uid) =
      (∅ : AuthRateLimiter).run (ops.filter fun op => op.uid = uid)) ∧
    ∀ uid now, (∀ t ∈ ops.filterMap Op.time, t ≤ now) →
      counted uid now ((∅ : AuthRateLimiter).run ops) =
        (((∅ : AuthRateLimiter).after ops)[uid]?.getD []).filter fun t => InWindow now t := by
  refine ⟨?_, fun uid => run_filter h, fun uid now hnow => (filter_times_after h hnow).symm⟩
  rintro before uid now rest rfl
  have hprefix : Nondecreasing (before ++ [Op.allowAt uid now]) :=
    h.sublist ((List.Sublist.refl before).append (List.singleton_sublist.mpr List.mem_cons_self))
  have hlen : ((∅ : AuthRateLimiter).run before).length = before.length := length_run
  rw [run_append, List.take_left' hlen, List.getElem?_append_right (Nat.le_of_eq hlen), hlen,
    Nat.sub_self, ← Bool.decide_congr (allowed_iff hprefix), Bool.decide_eq_true]
  rfl

/-- Four attempts at once, with one of another user in between. -/
theorem window_four :
    Nondecreasing [.allowAt 1000 5, .allowAt 1000 5, .allowAt 1001 5, .allowAt 1000 5,
      .allowAt 1000 5] ∧
    ((∅ : AuthRateLimiter).run [.allowAt 1000 5, .allowAt 1000 5, .allowAt 1001 5,
      .allowAt 1000 5, .allowAt 1000 5])[4]? = some (.allowAt 1000 5, false) := by
  have h : Nondecreasing [.allowAt 1000 5, .allowAt 1000 5, .allowAt 1001 5, .allowAt 1000 5,
      .allowAt 1000 5] := by decide +kernel
  refine ⟨h, ((window_of_run h).1 [.allowAt 1000 5, .allowAt 1000 5, .allowAt 1001 5,
    .allowAt 1000 5] 1000 5 [] rfl).trans ?_⟩
  decide +kernel

end AuthRateLimiter

end KFaceAuth
