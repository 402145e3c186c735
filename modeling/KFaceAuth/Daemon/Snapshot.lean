import KFaceAuth.Daemon.Dispatch
import Mathlib.Tactic.Linarith

/-!
# The policy during an authentication

An authentication loads the policy before it runs the worker and again after
it, and is granted only if the two loads saw the same file with the same times.
This detects every change in between, even one that is reverted: as long as the
descriptor of the first load is open, a change leaves its file with a later
`ctime` (`Daemon.Holds`).

* `success_unchanged`: success is only for an authorized peer whose target was
  on in the policy loaded first, which did not change up to the second load;
* `attempts_kept`: anything but success keeps the record of attempts.
-/

namespace KFaceAuth

open Prog

namespace Daemon

variable {w w' w₁ w₂ w₃ : Daemon} {i : Inode}

/-! ## Changes while a descriptor is open -/

/-- From `w` to `w'` the descriptor of `i` was open, and if the file has the same
    `ctime` in both and is the policy in one of them, the policy did not change. -/
structure Holds (i : Inode) (w w' : Daemon) : Prop where
  opened : i ∈ w.opened → i ∈ w'.opened
  ctime : i ∈ w.opened → (w.files i).ctime ≤ (w'.files i).ctime
  unchanged : i ∈ w.opened → (w.files i).ctime = (w'.files i).ctime →
    w.path = some i ∨ w'.path = some i → w'.path = w.path ∧ w'.files i = w.files i
  log : ∃ l, w'.log = w.log ++ l ∧ (i ∈ w.opened → (w.files i).ctime = (w'.files i).ctime →
    w.path = some i ∨ w'.path = some i → Entry.change ∉ l)

theorem Holds.refl (i : Inode) (w : Daemon) : Holds i w w :=
  ⟨id, fun _ => le_rfl, fun _ _ _ => ⟨rfl, rfl⟩, [], by simp, fun _ _ _ => by simp⟩

theorem Holds.trans (h₁ : Holds i w₁ w₂) (h₂ : Holds i w₂ w₃) : Holds i w₁ w₃ := by
  -- equal ends force an equal middle, and the policy to be the file all along
  have key : i ∈ w₁.opened → (w₁.files i).ctime = (w₃.files i).ctime →
      w₁.path = some i ∨ w₃.path = some i →
      (w₁.files i).ctime = (w₂.files i).ctime ∧ (w₂.files i).ctime = (w₃.files i).ctime ∧
        (w₁.path = some i ∨ w₂.path = some i) ∧ (w₂.path = some i ∨ w₃.path = some i) := by
    intro hi hc hp
    have ha := h₁.ctime hi
    have hb := h₂.ctime (h₁.opened hi)
    have h12 : (w₁.files i).ctime = (w₂.files i).ctime := by omega
    have h23 : (w₂.files i).ctime = (w₃.files i).ctime := by omega
    rcases hp with hp | hp
    · have := (h₁.unchanged hi h12 (.inl hp)).1
      exact ⟨h12, h23, .inl hp, .inl (this.trans hp)⟩
    · have := (h₂.unchanged (h₁.opened hi) h23 (.inr hp)).1
      exact ⟨h12, h23, .inr (this.symm.trans hp), .inr hp⟩
  obtain ⟨l₁, hl₁, hn₁⟩ := h₁.log
  obtain ⟨l₂, hl₂, hn₂⟩ := h₂.log
  refine ⟨fun hi => h₂.opened (h₁.opened hi),
    fun hi => (h₁.ctime hi).trans (h₂.ctime (h₁.opened hi)), fun hi hc hp => ?_,
    l₁ ++ l₂, by rw [hl₂, hl₁, List.append_assoc], fun hi hc hp => ?_⟩
  · obtain ⟨h12, h23, hp₁, hp₂⟩ := key hi hc hp
    have a := h₁.unchanged hi h12 hp₁
    have b := h₂.unchanged (h₁.opened hi) h23 hp₂
    exact ⟨b.1.trans a.1, b.2.trans a.2⟩
  · obtain ⟨h12, h23, hp₁, hp₂⟩ := key hi hc hp
    simp only [List.mem_append, not_or]
    exact ⟨hn₁ hi h12 hp₁, hn₂ (h₁.opened hi) h23 hp₂⟩

/-- A change of the policy is seen in the `ctime` of the file. -/
theorem Change.holds (h : Change w w') (i : Inode) : Holds i w w' := by
  have hopened : w'.opened = w.opened := by rw [h.rest]
  have hlog : w'.log = w.log ++ [Entry.change] := by rw [h.rest]
  refine ⟨fun hi => hopened ▸ hi, fun hi => ?_, fun hi hc hp => ?_, _, hlog, fun hi hc hp => ?_⟩
  · rcases h.kept i hi with he | hlt
    · rw [he]
    · exact hlt.le
  · exact absurd hc (h.stamped i hi hp).ne
  · exact absurd hc (h.stamped i hi hp).ne

theorem changes_holds (h : Relation.ReflTransGen Change w w') (i : Inode) : Holds i w w' := by
  induction h with
  | refl => exact .refl i w
  | tail _ hc ih => exact ih.trans (hc.holds i)

theorem Exec.log {c : DaemonCall} {r : c.Reply} (h : w.Exec c r w') : w'.log = w.log := by
  cases c with
  | openPolicy =>
    obtain ⟨-, rfl⟩ | ⟨i, -, -, rfl⟩ := h <;> rfl
  | supervise uid authTarget timeoutMs deadline client =>
    obtain ⟨replies, h⟩ := h
    split at h
    · obtain ⟨-, rfl⟩ := h
      rfl
    · obtain ⟨es, s, -, -, rfl⟩ := h
      rfl
  | writeFrame response =>
    obtain ⟨rs, flushed, accepted, -, rfl⟩ := h
    rfl
  | lstat => rw [h.1]
  | fstat fd => rw [h.1]
  | read fd => rw [h.1]
  | _ =>
    cases h
    rfl

/-- The call is not the closing of a descriptor. -/
def NotClose (c : DaemonCall) : Prop := ∀ fd, c ≠ .close fd

theorem Exec.frame {c : DaemonCall} {r : c.Reply} (h : w.Exec c r w') (hc : NotClose c) :
    w'.path = w.path ∧ w'.files = w.files ∧ w.opened ⊆ w'.opened := by
  cases c with
  | close fd => exact absurd rfl (hc fd)
  | openPolicy =>
    obtain ⟨-, rfl⟩ | ⟨i, -, -, rfl⟩ := h
    · exact ⟨rfl, rfl, List.Subset.refl _⟩
    · exact ⟨rfl, rfl, List.subset_cons_self _ _⟩
  | supervise uid authTarget timeoutMs deadline client =>
    obtain ⟨replies, h⟩ := h
    split at h
    · obtain ⟨-, rfl⟩ := h
      exact ⟨rfl, rfl, List.Subset.refl _⟩
    · obtain ⟨es, s, -, -, rfl⟩ := h
      exact ⟨rfl, rfl, List.Subset.refl _⟩
  | writeFrame response =>
    obtain ⟨rs, flushed, accepted, -, rfl⟩ := h
    exact ⟨rfl, rfl, List.Subset.refl _⟩
  | lstat =>
    obtain ⟨rfl, -⟩ := h
    exact ⟨rfl, rfl, List.Subset.refl _⟩
  | fstat fd =>
    obtain ⟨rfl, -⟩ := h
    exact ⟨rfl, rfl, List.Subset.refl _⟩
  | read fd =>
    obtain ⟨rfl, -⟩ := h
    exact ⟨rfl, rfl, List.Subset.refl _⟩
  | _ =>
    cases h
    exact ⟨rfl, rfl, List.Subset.refl _⟩

/-- Entries that are all changes. -/
def AllChanges (l : List Entry) : Prop := ∀ e ∈ l, e = .change

theorem changes_log (h : Relation.ReflTransGen Change w w') :
    ∃ l, w'.log = w.log ++ l ∧ AllChanges l := by
  induction h with
  | refl => exact ⟨[], by simp, by simp [AllChanges]⟩
  | @tail b c _ hc ih =>
    obtain ⟨l, hl, ha⟩ := ih
    have hlog : c.log = b.log ++ [Entry.change] := by rw [hc.rest]
    refine ⟨l ++ [Entry.change], by rw [hlog, hl, List.append_assoc], fun e he => ?_⟩
    rcases List.mem_append.1 he with he | he
    · exact ha e he
    · exact List.mem_singleton.1 he

/-- A call, taken apart: the changes before it, then its effect. -/
theorem Call.cases {c : DaemonCall} {r : c.Reply} (h : Call w c r w') (hc : NotClose c) :
    ∃ a, (∀ i, Holds i w a) ∧ (∃ l, a.log = w.log ++ l ∧ AllChanges l) ∧ (∀ i, Holds i a w') ∧
      w'.path = a.path ∧ w'.files = a.files ∧ w'.log = a.log ++ [Entry.call c r] ∧
      ∃ w₂, a.Exec c r w₂ ∧ w' = { w₂ with log := w₂.log ++ [Entry.call c r] } := by
  obtain ⟨a, w₂, hch, he, rfl⟩ := h
  obtain ⟨hp, hf, ho⟩ := he.frame hc
  have hl := he.log
  refine ⟨a, changes_holds hch, changes_log hch, fun i => ?_, hp, hf, by rw [hl], w₂, he, rfl⟩
  refine ⟨fun hi => ho hi, fun _ => ?_, fun _ _ _ => ⟨hp, ?_⟩, [.call c r], by simp [hl],
    fun _ _ _ => by simp⟩
  · simp [hf]
  · simp [hf]

/-! ## Loading the policy -/

/-- The three calls on an open policy file that load it, with the changes in
    between. -/
def LoadLog (fd : Inode) (policy : AuthPolicy) (l : List Entry) : Prop :=
  ∃ m bytes m' cs cs', AuthPolicy.parseJson bytes = .ok policy ∧ AllChanges cs ∧ AllChanges cs' ∧
    l = .call (.fstat fd) (some m) :: (cs ++ .call (.read fd) (some bytes) ::
      (cs' ++ [Entry.call (.fstat fd) (some m')]))

/-- A load, from its first look at the metadata of the open file. -/
structure Loads (s : AuthPolicySnapshot) (a w' : Daemon) : Prop where
  before : s.identity = policyIdentity ((a.files s.file).metadata s.file)
  after : s.identity = policyIdentity ((w'.files s.file).metadata s.file)
  holds : Holds s.file a w'
  log : ∃ l, w'.log = a.log ++ l ∧ LoadLog s.file s.policy l

theorem loads_of_loadOpened {fd : Inode} {s : AuthPolicySnapshot}
    (h : Runs Call (loadOpened fd) w (some s) w') :
    s.file = fd ∧ ∃ a, (∀ i, Holds i w a) ∧ (∃ l, a.log = w.log ++ l ∧ AllChanges l) ∧
      Loads s a w' := by
  obtain ⟨r₁, w₁, h₁, h⟩ := runs_bind.1 h
  rw [runs_perform] at h₁
  obtain ⟨a₁, hw₁, hl₁, hh₁, -, hf₁, hlog₁, v₁, he₁, -⟩ := h₁.cases (fun _ => nofun)
  cases r₁ with
  | none => cases (runs_pure.1 h).1
  | some m =>
    have hm : m = (a₁.files fd).metadata fd := he₁.2 m rfl
    dsimp only at h
    split_ifs at h
    · cases (runs_pure.1 h).1
    obtain ⟨r₂, w₂, h₂, h⟩ := runs_bind.1 h
    rw [runs_perform] at h₂
    obtain ⟨a₂, hw₂, ⟨cs, hl₂, hcs⟩, hh₂, -, -, hlog₂, -⟩ := h₂.cases (fun _ => nofun)
    cases r₂ with
    | none => cases (runs_pure.1 h).1
    | some bytes =>
      dsimp only at h
      cases hparse : AuthPolicy.parseJson bytes with
      | error e =>
        rw [hparse] at h
        cases (runs_pure.1 h).1
      | ok policy =>
        rw [hparse] at h
        obtain ⟨r₃, w₃, h₃, h⟩ := runs_bind.1 h
        rw [runs_perform] at h₃
        obtain ⟨a₃, hw₃, ⟨cs', hl₃, hcs'⟩, hh₃, -, hf₃, hlog₃, v₃, he₃, -⟩ := h₃.cases (fun _ => nofun)
        cases r₃ with
        | none => cases (runs_pure.1 h).1
        | some m' =>
          have hm' : m' = (a₃.files fd).metadata fd := he₃.2 m' rfl
          dsimp only at h
          split_ifs at h with hid
          · obtain ⟨hs, rfl⟩ := runs_pure.1 h
            cases hs
            refine ⟨rfl, a₁, hw₁, hl₁, by rw [hm], ?_, ?_, ?_⟩
            · rw [← hid, hm', hf₃]
            · exact (((((hh₁ fd).trans (hw₂ fd)).trans (hh₂ fd)).trans (hw₃ fd)).trans (hh₃ fd))
            · refine ⟨_, ?_, m, bytes, m', cs, cs', hparse, hcs, hcs', rfl⟩
              simp [hlog₃, hl₃, hlog₂, hl₂, hlog₁]
          · cases (runs_pure.1 h).1

/-- An entry that reads the policy. -/
def IsRead : Entry → Prop
  | .call (.read _) _ => True
  | _ => False

theorem not_isRead_of_allChanges {l : List Entry} (h : AllChanges l) : ∀ e ∈ l, ¬ IsRead e := by
  intro e he
  rw [h e he]
  exact id

/-- A call that reads nothing of the policy. -/
theorem Call.noRead {c : DaemonCall} {r : c.Reply} (h : Call w c r w')
    (hr : ¬ IsRead (.call c r)) : ∃ l, w'.log = w.log ++ l ∧ ∀ e ∈ l, ¬ IsRead e := by
  obtain ⟨a, w₂, hch, he, rfl⟩ := h
  obtain ⟨l, hl, hal⟩ := changes_log hch
  refine ⟨l ++ [Entry.call c r], by simp [he.log, hl], fun e he => ?_⟩
  rcases List.mem_append.1 he with he | he
  · exact not_isRead_of_allChanges hal e he
  · rw [List.mem_singleton.1 he]
    exact hr

/-- A call is among what was logged from its start to its end. -/
theorem Call.mem_of_log {c : DaemonCall} {r : c.Reply} {l : List Entry} (h : Call w c r w')
    (hl : w'.log = w.log ++ l) : .call c r ∈ l := by
  obtain ⟨a, w₂, hch, he, rfl⟩ := h
  obtain ⟨l₁, hl₁, -⟩ := changes_log hch
  have heq : l₁ ++ [Entry.call c r] = l := by
    refine (List.append_right_inj w.log).1 ?_
    rw [← hl, ← List.append_assoc, ← hl₁, ← he.log]
  rw [← heq]
  exact List.mem_append_right _ (List.mem_singleton_self _)

theorem noRead_trans {l₁ l₂ l₃ : List Entry} (h₁ : ∃ l, l₂ = l₁ ++ l ∧ ∀ e ∈ l, ¬ IsRead e)
    (h₂ : ∃ l, l₃ = l₂ ++ l ∧ ∀ e ∈ l, ¬ IsRead e) : ∃ l, l₃ = l₁ ++ l ∧ ∀ e ∈ l, ¬ IsRead e := by
  obtain ⟨l, rfl, hl⟩ := h₁
  obtain ⟨l', rfl, hl'⟩ := h₂
  refine ⟨l ++ l', by rw [List.append_assoc], fun e he => ?_⟩
  exact (List.mem_append.1 he).elim (hl e) (hl' e)

theorem Call.holds {c : DaemonCall} {r : c.Reply} (h : Call w c r w') (hc : NotClose c)
    (i : Inode) : Holds i w w' := by
  obtain ⟨a, hw, -, ha, -⟩ := h.cases hc
  exact (hw i).trans (ha i)

/-- The load of the policy: it was at the policy's path when it was opened. -/
theorem loads_of_authenticationPolicy {s : AuthPolicySnapshot}
    (h : Runs Call authenticationPolicy w (some s) w') :
    ∃ b a, b.path = some s.file ∧ s.file ∈ b.opened ∧ (∀ i, Holds i w b) ∧
      Holds s.file b a ∧ (∃ l, a.log = w.log ++ l ∧ ∀ e ∈ l, ¬ IsRead e) ∧ Loads s a w' := by
  obtain ⟨r₁, w₁, h₁, h⟩ := runs_bind.1 h
  rw [runs_perform] at h₁
  cases r₁ with
  | false => cases (runs_pure.1 h).1
  | true =>
    obtain ⟨r₂, w₂, h₂, h⟩ := runs_bind.1 h
    rw [runs_perform] at h₂
    match r₂, h with
    | none, h => cases (runs_pure.1 h).1
    | some false, h => cases (runs_pure.1 h).1
    | some true, h =>
      obtain ⟨r₃, w₃, h₃, h⟩ := runs_bind.1 h
      rw [runs_perform] at h₃
      cases r₃ with
      | none => cases (runs_pure.1 h).1
      | some fd =>
        obtain ⟨r₄, w₄, h₄, h⟩ := runs_bind.1 h
        cases r₄ with
        | none =>
          obtain ⟨_, w₅, _, h⟩ := runs_bind.1 h
          cases (runs_pure.1 h).1
        | some s' =>
          obtain ⟨hs, rfl⟩ := runs_pure.1 h
          cases hs
          obtain ⟨rfl, a, hwa, ⟨l, hl, hal⟩, hload⟩ := loads_of_loadOpened h₄
          have n₁ := h₁.noRead id
          have n₂ := h₂.noRead id
          have n₃ := h₃.noRead id
          obtain ⟨b, hwb, -, -, hpath, -, -, v, he, hw₃⟩ := h₃.cases (fun _ => nofun)
          obtain ⟨hr, -⟩ | ⟨j, hr, hj, rfl⟩ := he
          · cases hr
          cases hr
          refine ⟨w₃, a, hpath.trans hj, by simp [hw₃], fun i => ?_, hwa _, ?_, hload⟩
          · exact ((h₁.holds (fun _ => nofun) i).trans (h₂.holds (fun _ => nofun) i)).trans
              (h₃.holds (fun _ => nofun) i)
          · exact noRead_trans (noRead_trans (noRead_trans n₁ n₂) n₃)
              ⟨l, hl, not_isRead_of_allChanges hal⟩

/-! ## The attempt -/

/-- What two loads with the same identity say: from the first look at the file
    to the end of the second load, the policy did not change. -/
theorem unchanged_of_same_identity {s t : AuthPolicySnapshot} {a w₁ b c w₂ : Daemon}
    (hs : Loads s a w₁) (ha : s.file ∈ a.opened) (hmid : Holds s.file w₁ b)
    (hb : b.path = some t.file) (hbc : Holds t.file b c) (ht : Loads t c w₂)
    (hid : s.identity = t.identity) :
    ∃ l, w₂.log = a.log ++ l ∧ Entry.change ∉ l := by
  have hfile : t.file = s.file := by
    have := congrArg Prod.fst (hs.before.symm.trans (hid.trans ht.before))
    exact this.symm
  rw [hfile] at hb hbc
  have htholds := ht.holds
  rw [hfile] at htholds
  -- the `ctime` of the file is the same at both ends
  have hctime : (a.files s.file).ctime = (w₂.files s.file).ctime := by
    have := hs.before.symm.trans (hid.trans ht.after)
    rw [hfile] at this
    exact congrArg (fun x => x.2.2.1) this
  have hab := hs.holds.trans hmid
  have hbw := hbc.trans htholds
  have hbo := hab.opened ha
  have h₁ : (a.files s.file).ctime = (b.files s.file).ctime := by
    have := hab.ctime ha
    have := hbw.ctime hbo
    omega
  have h₂ : (b.files s.file).ctime = (w₂.files s.file).ctime := by omega
  obtain ⟨l₁, hl₁, hn₁⟩ := hab.log
  obtain ⟨l₂, hl₂, hn₂⟩ := hbw.log
  refine ⟨l₁ ++ l₂, by rw [hl₂, hl₁, List.append_assoc], ?_⟩
  simp only [List.mem_append, not_or]
  exact ⟨hn₁ ha h₁ (.inr hb), hn₂ hbo h₂ (.inl hb)⟩

/-- Without changes in between, a load is three calls in a row. -/
theorem LoadLog.of_unchanged {fd : Inode} {policy : AuthPolicy} {l : List Entry}
    (h : LoadLog fd policy l) (hn : Entry.change ∉ l) :
    ∃ m bytes m', AuthPolicy.parseJson bytes = .ok policy ∧
      l = [.call (.fstat fd) (some m), .call (.read fd) (some bytes),
        .call (.fstat fd) (some m')] := by
  obtain ⟨m, bytes, m', cs, cs', hp, hcs, hcs', rfl⟩ := h
  have nil : ∀ cs : List Entry, AllChanges cs → Entry.change ∉ cs → cs = [] := by
    intro cs hcs hn
    cases cs with
    | nil => rfl
    | cons e cs => exact absurd (hcs e List.mem_cons_self ▸ List.mem_cons_self) hn
  simp only [List.mem_cons, List.mem_append, not_or] at hn
  obtain rfl := nil cs hcs hn.2.1
  obtain rfl := nil cs' hcs' hn.2.2.2.1
  exact ⟨m, bytes, m', hp, rfl⟩

/-- The record of attempts and the bytes sent are kept. -/
structure Frame (w w' : Daemon) : Prop where
  limiter : w'.limiter = w.limiter
  progress : w'.progress = w.progress
  answer : w'.answer = w.answer

theorem Frame.refl (w : Daemon) : Frame w w := ⟨rfl, rfl, rfl⟩

theorem Frame.trans (h₁ : Frame w₁ w₂) (h₂ : Frame w₂ w₃) : Frame w₁ w₃ :=
  ⟨h₂.limiter.trans h₁.limiter, h₂.progress.trans h₁.progress, h₂.answer.trans h₁.answer⟩

theorem changes_frame (h : Relation.ReflTransGen Change w w') : Frame w w' := by
  induction h with
  | refl => exact .refl w
  | tail _ hc ih =>
    refine ih.trans ?_
    rw [hc.rest]
    exact ⟨rfl, rfl, rfl⟩

/-- The calls that only look at files. -/
def LooksAtFiles : DaemonCall → Prop
  | .supervise .. | .clear _ | .writeFrame _ => False
  | _ => True

theorem Call.frame {c : DaemonCall} {r : c.Reply} (h : Call w c r w') (hc : LooksAtFiles c) :
    Frame w w' := by
  obtain ⟨a, w₂, hch, he, rfl⟩ := h
  refine (changes_frame hch).trans ?_
  cases c with
  | supervise => exact hc.elim
  | clear => exact hc.elim
  | writeFrame => exact hc.elim
  | openPolicy => obtain ⟨-, rfl⟩ | ⟨i, -, -, rfl⟩ := he <;> exact ⟨rfl, rfl, rfl⟩
  | lstat => rw [he.1]; exact ⟨rfl, rfl, rfl⟩
  | fstat fd => rw [he.1]; exact ⟨rfl, rfl, rfl⟩
  | read fd => rw [he.1]; exact ⟨rfl, rfl, rfl⟩
  | _ =>
    cases he
    exact ⟨rfl, rfl, rfl⟩

theorem frame_of_calls {α : Type} {p : DaemonProg α} {x : α} (hp : p.Calls LooksAtFiles)
    (h : Runs Call p w x w') : Frame w w' :=
  h.rel hp Frame.refl (fun _ _ _ => Frame.trans) fun _ _ _ _ hc h => h.frame hc

theorem calls_loadOpened (fd : Inode) : (loadOpened fd).Calls LooksAtFiles := by
  refine Calls.bind (calls_perform.2 trivial) fun m => ?_
  cases m with
  | none => exact trivial
  | some m =>
    dsimp only
    split_ifs
    · exact trivial
    refine Calls.bind (calls_perform.2 trivial) fun bytes => ?_
    cases bytes with
    | none => exact trivial
    | some bytes =>
      dsimp only
      cases AuthPolicy.parseJson bytes with
      | error e => exact trivial
      | ok policy =>
        refine Calls.bind (calls_perform.2 trivial) fun m' => ?_
        cases m' with
        | none => exact trivial
        | some m' =>
          dsimp only
          split_ifs <;> exact trivial

theorem calls_authenticationPolicy : authenticationPolicy.Calls LooksAtFiles := by
  refine Calls.bind (calls_perform.2 trivial) fun b => ?_
  cases b with
  | false => exact trivial
  | true =>
    refine Calls.bind (calls_perform.2 trivial) fun r => ?_
    match r with
    | none => exact trivial
    | some false => exact trivial
    | some true =>
      refine Calls.bind (calls_perform.2 trivial) fun fd => ?_
      cases fd with
      | none => exact trivial
      | some fd =>
        refine Calls.bind (calls_loadOpened fd) fun s => ?_
        cases s with
        | none => exact Calls.bind (calls_perform.2 trivial) fun _ => trivial
        | some s => exact trivial

theorem calls_sameFileAs (s t : AuthPolicySnapshot) : (s.sameFileAs t).Calls LooksAtFiles := by
  refine Calls.bind (calls_perform.2 trivial) fun m => ?_
  cases m <;> exact trivial

theorem calls_isCurrent (s : AuthPolicySnapshot) : (isCurrent s).Calls LooksAtFiles := by
  refine Calls.bind calls_authenticationPolicy fun t => ?_
  cases t with
  | none => exact trivial
  | some t =>
    exact Calls.bind (calls_sameFileAs s t) fun _ =>
      Calls.bind (calls_perform.2 trivial) fun _ => trivial

/-- What the worker leaves: a change of the record by this attempt, and the
    progress reports sent. -/
def Supervised (uid : UInt32) (client : Bool) (status : UInt8) (w w' : Daemon) : Prop :=
  w'.answer = w.answer ∧
  ∃ replies, match startAuthWorker replies uid w.limiter with
    | (.error early, limiter) =>
      status = early ∧ w'.limiter = limiter ∧ w'.progress = w.progress
    | (.ok (), limiter) => ∃ es s, (Supervisor.start client).run client es = some s ∧
        s.phase = .returned status ∧ w'.limiter = limiter ∧ w'.progress = w.progress ++ s.sent

theorem supervised_of_call {uid : UInt32} {authTarget : UInt8} {timeoutMs : ℕ} {deadline : ℤ}
    {client : Bool} {status : UInt8}
    (h : Call w (.supervise uid authTarget timeoutMs deadline client) status w') :
    Supervised uid client status w w' := by
  obtain ⟨a, w₂, hch, ⟨replies, he⟩, rfl⟩ := h
  have hf := changes_frame hch
  rw [hf.limiter] at he
  split at he
  · next early limiter hstart =>
    obtain ⟨rfl, rfl⟩ := he
    exact ⟨hf.answer, replies, by simp [hstart, hf.progress]⟩
  · next limiter hstart =>
    obtain ⟨es, s, hrun, hp, rfl⟩ := he
    refine ⟨hf.answer, replies, ?_⟩
    rw [hstart]
    exact ⟨es, s, hrun, hp, rfl, by rw [hf.progress]⟩

/-- Starting the worker changes the record by one attempt at most. -/
theorem startAuthWorker_limiter (r : StartReplies) (uid : UInt32) (l : AuthRateLimiter) :
    (startAuthWorker r uid l).2 = l ∨ ∃ now, (startAuthWorker r uid l).2 = (l.allowAt uid now).2 := by
  rcases hl : l.allowAt uid r.now with ⟨_ | _, l'⟩
  · simp only [startAuthWorker, hl]
    split_ifs
    · exact .inl rfl
    · exact .inl rfl
    · exact .inr ⟨r.now, by rw [hl]⟩
  · simp only [startAuthWorker, hl]
    split_ifs
    · exact .inl rfl
    · exact .inl rfl
    · exact .inr ⟨r.now, by rw [hl]⟩
    · exact .inr ⟨r.now, by rw [hl]⟩

/-- The attempt, by its outcome. Only with a policy that is still current is it
    a success, and the record of attempts cleared. -/
theorem attempt_cases {maxTimeoutMs : ℕ} {uid : UInt32} {authTarget : UInt8} {timeoutMs : ℕ}
    {deadline : ℤ} {client : Bool} {start : AuthPolicySnapshot} {response : List UInt8}
    (h : Runs Call (attempt maxTimeoutMs uid authTarget timeoutMs deadline client start) w
      response w') :
    (response = encodeDaemonResponse statusTimeout [] ∧ Frame w w') ∨
    ∃ status w₁ w₂ processing,
      (∃ now, Call w .now now w₁) ∧
      Call w₁ (.supervise uid authTarget (min (min timeoutMs maxTimeoutMs) defaultPamTimeoutMs)
        processing client) status w₂ ∧
      ((status ≠ statusSuccess ∧ response = encodeDaemonResponse status [] ∧ Frame w₂ w') ∨
       (response = encodeDaemonResponse statusAccessDenied [] ∧ status = statusSuccess ∧
          Frame w₂ w') ∨
       (response = encodeDaemonResponse statusSuccess [] ∧ status = statusSuccess ∧
          ∃ w₃, Runs Call (isCurrent start) w₂ true w₃ ∧ Call w₃ (.clear uid) () w')) := by
  obtain ⟨now, w₁, h₁, h⟩ := runs_bind.1 h
  rw [runs_perform] at h₁
  cases hd : processingDeadline now (min (min timeoutMs maxTimeoutMs) defaultPamTimeoutMs)
      deadline with
  | none =>
    rw [hd] at h
    obtain ⟨rfl, rfl⟩ := runs_pure.1 h
    exact .inl ⟨rfl, h₁.frame trivial⟩
  | some processing =>
    rw [hd] at h
    obtain ⟨status, w₂, h₂, h⟩ := runs_bind.1 h
    rw [runs_perform] at h₂
    refine .inr ⟨status, w₁, w₂, processing, ⟨now, h₁⟩, h₂, ?_⟩
    split_ifs at h with hs
    · obtain ⟨current, w₃, h₃, h⟩ := runs_bind.1 h
      cases current with
      | false =>
        obtain ⟨rfl, rfl⟩ := runs_pure.1 h
        exact .inr (.inl ⟨rfl, hs, frame_of_calls (calls_isCurrent start) h₃⟩)
      | true =>
        obtain ⟨u, w₄, h₄, h⟩ := runs_bind.1 h
        rw [runs_perform] at h₄
        obtain ⟨rfl, rfl⟩ := runs_pure.1 h
        exact .inr (.inr ⟨by rw [hs], hs, w₃, h₃, h₄⟩)
    · obtain ⟨rfl, rfl⟩ := runs_pure.1 h
      exact .inl ⟨hs, rfl, .refl _⟩

/-- A dispatched authentication, by its outcome. -/
theorem dispatchPamAuth_cases {maxTimeoutMs : ℕ} {uid : UInt32} {authTarget : UInt8}
    {timeoutMs : ℕ} {deadline : ℤ} {client : Bool} {response : List UInt8}
    (h : Runs Call (dispatchPamAuth maxTimeoutMs uid authTarget timeoutMs deadline client) w
      response w') :
    (response = encodeDaemonResponse statusAccessDenied [] ∧ Frame w w') ∨
    ∃ start w₁ w₂, Runs Call authenticationPolicy w (some start) w₁ ∧
      start.enabled uid authTarget ∧
      Runs Call (attempt maxTimeoutMs uid authTarget timeoutMs deadline client start) w₁
        response w₂ ∧ Call w₂ (.close start.file) () w' := by
  obtain ⟨s, w₁, h₁, h⟩ := runs_bind.1 h
  have hf := frame_of_calls calls_authenticationPolicy h₁
  cases s with
  | none =>
    obtain ⟨rfl, rfl⟩ := runs_pure.1 h
    exact .inl ⟨rfl, hf⟩
  | some start =>
    dsimp only at h
    split_ifs at h with he
    · obtain ⟨r, w₂, h₂, h⟩ := runs_bind.1 h
      obtain ⟨u, w₃, h₃, h⟩ := runs_bind.1 h
      rw [runs_perform] at h₃
      obtain ⟨rfl, rfl⟩ := runs_pure.1 h
      exact .inr ⟨start, w₁, w₂, h₁, he, h₂, h₃⟩
    · obtain ⟨u, w₂, h₂, h⟩ := runs_bind.1 h
      rw [runs_perform] at h₂
      obtain ⟨rfl, rfl⟩ := runs_pure.1 h
      exact .inl ⟨rfl, hf.trans (h₂.frame trivial)⟩

/-- The second load: it saw the same file, and nothing is read after it. -/
theorem loads_of_isCurrent {start : AuthPolicySnapshot}
    (h : Runs Call (isCurrent start) w true w') :
    ∃ t w₁, Runs Call authenticationPolicy w (some t) w₁ ∧ start.identity = t.identity ∧
      ∃ l, w'.log = w₁.log ++ l ∧ ∀ e ∈ l, ¬ IsRead e := by
  obtain ⟨t, w₁, h₁, h⟩ := runs_bind.1 h
  cases t with
  | none => cases (runs_pure.1 h).1
  | some t =>
    obtain ⟨same, w₂, h₂, h⟩ := runs_bind.1 h
    obtain ⟨u, w₃, h₃, h⟩ := runs_bind.1 h
    rw [runs_perform] at h₃
    obtain ⟨rfl, rfl⟩ := runs_pure.1 h
    obtain ⟨m, w₄, h₄, h₂⟩ := runs_bind.1 h₂
    rw [runs_perform] at h₄
    cases m with
    | none => cases (runs_pure.1 h₂).1
    | some m =>
      obtain ⟨hs, rfl⟩ := runs_pure.1 h₂
      have hid : start.identity = t.identity := by
        have := hs.symm
        simp only [Bool.and_eq_true, decide_eq_true_eq] at this
        exact this.2
      exact ⟨t, w₁, h₁, hid, noRead_trans (h₄.noRead id) (h₃.noRead id)⟩

/-- The entries of a load of the policy. -/
def loadEntries (fd : Inode) (m : PolicyMetadata) (bytes : List UInt8) (m' : PolicyMetadata) :
    List Entry :=
  [Entry.call (.fstat fd) (some m), .call (.read fd) (some bytes), .call (.fstat fd) (some m')]

/-- A successful attempt is between two loads of a policy that does not change
    from the first to the second. The worker has succeeded before the second. -/
theorem attempt_unchanged {maxTimeoutMs : ℕ} {uid : UInt32} {authTarget : UInt8} {timeoutMs : ℕ}
    {deadline : ℤ} {client : Bool} {start : AuthPolicySnapshot} {response : List UInt8}
    (h₀ : Runs Call authenticationPolicy w (some start) w₁)
    (h : Runs Call (attempt maxTimeoutMs uid authTarget timeoutMs deadline client start) w₁
      response w₂) (hs : responseStatus response = some statusSuccess) :
    ∃ pre mid post m₁ bytes₁ m₂ m₃ bytes₂ m₄ processing,
      w₂.log = w.log ++ (pre ++ (loadEntries start.file m₁ bytes₁ m₂ ++ mid ++
        loadEntries start.file m₃ bytes₂ m₄) ++ post) ∧
      AuthPolicy.parseJson bytes₁ = .ok start.policy ∧ Entry.change ∉ mid ∧
      .call (.supervise uid authTarget (min (min timeoutMs maxTimeoutMs) defaultPamTimeoutMs)
        processing client) statusSuccess ∈ mid ∧
      (∀ e ∈ pre, ¬ IsRead e) ∧ (∀ e ∈ mid, ¬ IsRead e) ∧ ∀ e ∈ post, ¬ IsRead e := by
  obtain ⟨b, a, -, hbo, -, hba, hpre, hload⟩ := loads_of_authenticationPolicy h₀
  have hao : start.file ∈ a.opened := hba.opened hbo
  obtain ⟨rfl, -⟩ | ⟨status, v₁, v₂, processing, ⟨now, hnow⟩, hsup, hcase⟩ := attempt_cases h
  · exact absurd hs (by decide)
  obtain ⟨hne, rfl, -⟩ | ⟨rfl, -, -⟩ | ⟨rfl, rfl, v₃, hcur, hclear⟩ := hcase
  · exact absurd (by simpa [responseStatus, encodeDaemonResponse] using hs) hne
  · exact absurd hs (by decide)
  obtain ⟨t, v₄, hpol, hid, hend⟩ := loads_of_isCurrent hcur
  obtain ⟨b', a', hb', hbo', hwb', hba', hpre', hload'⟩ := loads_of_authenticationPolicy hpol
  have hmid : Holds start.file w₁ b' :=
    ((hnow.holds (fun _ h => by cases h) _).trans (hsup.holds (fun _ h => by cases h) _)).trans
      (hwb' _)
  obtain ⟨l, hl, hn⟩ := unchanged_of_same_identity hload hao hmid hb' hba' hload' hid
  have hfile : t.file = start.file := by
    have := congrArg Prod.fst (hload.before.symm.trans (hid.trans hload'.before))
    exact this.symm
  -- the log from the first look at the file, in pieces
  obtain ⟨pre, hpre, hpre'n⟩ := hpre
  obtain ⟨l₁, hl₁, hlog₁⟩ := hload.log
  obtain ⟨mid, hm, hmidn⟩ := noRead_trans (noRead_trans (hnow.noRead id) (hsup.noRead id)) hpre'
  obtain ⟨l₂, hl₂, hlog₂⟩ := hload'.log
  obtain ⟨post, hp, hpostn⟩ := noRead_trans hend (hclear.noRead id)
  have hworked : .call (.supervise uid authTarget
      (min (min timeoutMs maxTimeoutMs) defaultPamTimeoutMs) processing client) statusSuccess ∈
      mid := by
    obtain ⟨ln, hln, -⟩ := hnow.noRead id
    obtain ⟨ls, hls, -⟩ := hsup.noRead id
    obtain ⟨lp, hlp, -⟩ := hpre'
    have hmid : mid = ln ++ (ls ++ lp) := by
      refine (List.append_right_inj w₁.log).1 ?_
      rw [← hm, hlp, hls, hln, List.append_assoc, List.append_assoc]
    rw [hmid]
    exact List.mem_append_right _ (List.mem_append_left _ (hsup.mem_of_log hls))
  have hpieces : l = l₁ ++ mid ++ l₂ := by
    rw [hl₂, hm, hl₁, List.append_assoc, List.append_assoc] at hl
    simpa using (List.append_cancel_left hl).symm
  rw [hpieces] at hn
  simp only [List.mem_append, not_or] at hn
  rw [hfile] at hlog₂
  obtain ⟨m₁, bytes₁, m₂, hparse, rfl⟩ := hlog₁.of_unchanged hn.1.1
  obtain ⟨m₃, bytes₂, m₄, -, rfl⟩ := hlog₂.of_unchanged hn.2
  refine ⟨pre, mid, post, m₁, bytes₁, m₂, m₃, bytes₂, m₄, processing, ?_, hparse, hn.1.2, hworked,
    hpre'n, hmidn, hpostn⟩
  rw [hp, hl₂, hm, hl₁, hpre]
  simp [loadEntries]

/-- The answer to an authentication request. It is success only for an
    authorized peer whose target is on in the policy loaded at the start, and
    only if the policy file did not change from then, while the worker
    succeeded, to the end of the second load; otherwise the record of attempts
    is not cleared. -/
theorem dispatch_unchanged {maxTimeoutMs : ℕ} {uid : UInt32} {authTarget : UInt8}
    {timeoutMs : ℕ} {username : String} {peer : UInt32} {deadline : ℤ} {client : Bool}
    {response : List UInt8}
    (h : Runs Call (dispatchRequest maxTimeoutMs (.pamAuth uid authTarget timeoutMs username) peer
      deadline client) w response w') :
    (responseStatus response = some statusSuccess →
      (peer = 0 ∨ peer = uid) ∧
      ∃ policy target pre mid post fd m₁ bytes₁ m₂ m₃ bytes₂ m₄ processing,
        w'.log = w.log ++ (pre ++ (loadEntries fd m₁ bytes₁ m₂ ++ mid ++
          loadEntries fd m₃ bytes₂ m₄) ++ post) ∧
        AuthPolicy.parseJson bytes₁ = .ok policy ∧
        authenticationTarget authTarget = some target ∧ policy.modeFor uid target ≠ .off ∧
        Entry.change ∉ mid ∧
        .call (.supervise uid authTarget (min (min timeoutMs maxTimeoutMs) defaultPamTimeoutMs)
          processing client) statusSuccess ∈ mid ∧
        (∀ e ∈ pre, ¬ IsRead e) ∧ (∀ e ∈ mid, ¬ IsRead e) ∧ ∀ e ∈ post, ¬ IsRead e) ∧
    (responseStatus response ≠ some statusSuccess →
      w'.limiter = w.limiter ∨ ∃ now, w'.limiter = (w.limiter.allowAt uid now).2) := by
  simp only [dispatchRequest] at h
  split_ifs at h with hauth
  swap
  · obtain ⟨rfl, rfl⟩ := runs_pure.1 h
    exact ⟨fun hs => absurd hs (by decide), fun _ => .inl rfl⟩
  obtain ⟨rfl, hf⟩ | ⟨start, w₁, w₂, hpol, hen, hatt, hclose⟩ := dispatchPamAuth_cases h
  · exact ⟨fun hs => absurd hs (by decide), fun _ => .inl hf.limiter⟩
  refine ⟨fun hs => ⟨?_, ?_⟩, fun hs => ?_⟩
  · simp only [isAuthorized, Bool.or_eq_true, decide_eq_true_eq] at hauth
    exact hauth.symm
  · obtain ⟨pre, mid, post, m₁, bytes₁, m₂, m₃, bytes₂, m₄, processing, hlog, hparse, hn, hworked,
      h₁, h₂, h₃⟩ := attempt_unchanged hpol hatt hs
    obtain ⟨l, hl, hln⟩ := hclose.noRead id
    simp only [AuthPolicySnapshot.enabled] at hen
    obtain ⟨target, ht, hmode⟩ : ∃ target, authenticationTarget authTarget = some target ∧
        start.policy.modeFor uid target ≠ .off := by
      cases ht : authenticationTarget authTarget with
      | none => simp [ht] at hen
      | some target => exact ⟨target, rfl, by simpa [ht] using hen⟩
    refine ⟨start.policy, target, pre, mid, post ++ l, start.file, m₁, bytes₁, m₂, m₃, bytes₂, m₄,
      processing, ?_, hparse, ht, hmode, hn, hworked, h₁, h₂, fun e he => ?_⟩
    · rw [hl, hlog]
      simp
    · exact (List.mem_append.1 he).elim (h₃ e) (hln e)
  · have hfr := (frame_of_calls calls_authenticationPolicy hpol)
    have hcl := hclose.frame trivial
    obtain ⟨-, hf⟩ | ⟨status, v₁, v₂, processing, ⟨now, hnow⟩, hsup, hcase⟩ := attempt_cases hatt
    · exact .inl ((hfr.trans (hf.trans hcl)).limiter)
    have hw₁ := hfr.trans (hnow.frame trivial)
    have hlim : v₂.limiter = v₁.limiter ∨ ∃ now, v₂.limiter = (v₁.limiter.allowAt uid now).2 := by
      obtain ⟨-, replies, hm⟩ := supervised_of_call hsup
      have := startAuthWorker_limiter replies uid v₁.limiter
      split at hm
      · next early limiter hstart =>
        rw [hstart] at this
        rw [hm.2.1]
        exact this
      · next limiter hstart =>
        obtain ⟨es, s, -, -, hl, -⟩ := hm
        rw [hstart] at this
        rw [hl]
        exact this
    have hend : Frame v₂ w' := by
      obtain ⟨-, -, hf⟩ | ⟨-, -, hf⟩ | ⟨rfl, -⟩ := hcase
      · exact hf.trans hcl
      · exact hf.trans hcl
      · exact absurd rfl hs
    rw [hw₁.limiter] at hlim
    rw [hend.limiter]
    exact hlim

/-! ## A granted request

One run with a policy that stays as it is, of the user whom it concerns. -/

/-- A policy that turns the login screen of user 1000 on. -/
def examplePolicy : AuthPolicy :=
  ⟨(∅ : Std.ExtTreeMap UInt32 Targets).insert 1000 ((∅ : Targets).insert .sddm .manual)⟩

def exampleFile : PolicyFile := ⟨true, 0, 0, 0o644, 1, 0, 0, examplePolicy.toJson⟩

def exampleDaemon : Daemon := ⟨some (0, 1), fun _ => exampleFile, [], ∅, [], [], []⟩

def exampleSnapshot : AuthPolicySnapshot :=
  ⟨examplePolicy, (0, 1), policyIdentity (exampleFile.metadata (0, 1))⟩

/-- The answers to a worker that succeeds at once. -/
def exampleEvents : List Event :=
  [.expired false, .read (.data (encodeDaemonResponse statusSuccess [])), .read .wouldBlock,
    .wait (.exited true), .expired false]

/-- The policy file of the example is in place. -/
def HasExample (w : Daemon) : Prop := w.path = some (0, 1) ∧ w.files (0, 1) = exampleFile

theorem runs_ask {c : DaemonCall} {r : c.Reply} {v : Daemon} (h : w.Exec c r v) :
    Runs Call (ask c) w r { v with log := v.log ++ [Entry.call c r] } :=
  runs_perform.2 ⟨_, _, .refl, h, rfl⟩

theorem runs_authenticationPolicy_example (h : w.HasExample) :
    ∃ w', Runs Call authenticationPolicy w (some exampleSnapshot) w' ∧ w'.HasExample ∧
      w'.limiter = w.limiter := by
  obtain ⟨hp, hf⟩ := h
  have hm : ∀ m, some (exampleFile.metadata (0, 1)) = some m →
      m = (w.files (0, 1)).metadata (0, 1) := by
    rintro m ⟨⟩
    rw [hf]
  have hb : ∀ bs, some examplePolicy.toJson = some bs →
      bs = (w.files (0, 1)).bytes.take (maxPolicyBytes + 1) := by
    rintro m ⟨⟩
    rw [hf]
    decide
  have hparse : AuthPolicy.parseJson examplePolicy.toJson = .ok examplePolicy := by decide
  refine ⟨{ w with
      opened := (0, 1) :: w.opened
      log := w.log ++ [Entry.call .directory true] ++ [Entry.call .lstat (some true)] ++
        [Entry.call .openPolicy (some (0, 1))] ++
        [Entry.call (.fstat (0, 1)) (some (exampleFile.metadata (0, 1)))] ++
        [Entry.call (.read (0, 1)) (some examplePolicy.toJson)] ++
        [Entry.call (.fstat (0, 1)) (some (exampleFile.metadata (0, 1)))] }, ?_, ⟨hp, hf⟩, rfl⟩
  refine runs_bind.2 ⟨true, _, runs_ask rfl, ?_⟩
  refine runs_bind.2 ⟨some true, _, runs_ask ⟨rfl, ?_⟩, ?_⟩
  · rintro b ⟨⟩
    exact ⟨_, hp, by rw [hf]; rfl⟩
  refine runs_bind.2 ⟨some (0, 1), _, runs_ask (.inr ⟨_, rfl, hp, rfl⟩), ?_⟩
  refine runs_bind.2 ⟨some exampleSnapshot, _, ?_, .pure _ _⟩
  refine runs_bind.2 ⟨some (exampleFile.metadata (0, 1)), _, runs_ask ⟨rfl, hm⟩, ?_⟩
  dsimp only
  rw [if_neg (by decide)]
  refine runs_bind.2 ⟨some examplePolicy.toJson, _, runs_ask ⟨rfl, hb⟩, ?_⟩
  dsimp only
  rw [hparse]
  refine runs_bind.2 ⟨some (exampleFile.metadata (0, 1)), _, runs_ask ⟨rfl, hm⟩, ?_⟩
  dsimp only
  rw [if_pos rfl]
  exact .pure _ _

theorem runs_isCurrent_example (h : w.HasExample) :
    ∃ w', Runs Call (isCurrent exampleSnapshot) w true w' := by
  obtain ⟨w₁, h₁, ⟨hp, hf⟩, -⟩ := runs_authenticationPolicy_example h
  refine h₁.seq (Runs.seq (a := true) (runs_bind.2 ⟨some (exampleFile.metadata (0, 1)), _,
    runs_ask (w := w₁) ⟨rfl, ?_⟩, .pure _ _⟩) ?_)
  · rintro m ⟨⟩
    exact (congrArg (fun f => PolicyFile.metadata f (0, 1)) hf).symm
  · exact (runs_ask (c := .close (0, 1)) (r := ()) rfl).seq ⟨_, .pure _ _⟩

theorem runs_attempt_example (h : w.HasExample) (hl : w.limiter = ∅) :
    ∃ w', Runs Call (attempt 2000 1000 authTargetSddm 2000 (10 ^ 10) false exampleSnapshot) w
      (encodeDaemonResponse statusSuccess []) w' := by
  have hworker : (Supervisor.start false).run false exampleEvents =
      some ⟨.returned statusSuccess, .reaped, [], some statusSuccess, []⟩ := by decide
  have hstart : startAuthWorker ⟨true, true, false, 0, true, true, true⟩ 1000 ∅ =
      (.ok (), ((∅ : AuthRateLimiter).allowAt 1000 0).2) := by
    decide
  refine Runs.seq (runs_ask (c := .now) (r := (0 : ℤ)) rfl) ?_
  rw [show processingDeadline 0 (min (min 2000 2000) defaultPamTimeoutMs) (10 ^ 10) =
    some 1900000000 by decide]
  refine Runs.seq (runs_ask (r := statusSuccess)
    (v := { w with
      limiter := ((∅ : AuthRateLimiter).allowAt 1000 0).2
      log := w.log ++ [Entry.call .now (0 : ℤ)] })
    ⟨⟨true, true, false, 0, true, true, true⟩, ?_⟩) ?_
  · dsimp only
    rw [hl, hstart]
    exact ⟨exampleEvents, _, hworker, rfl, by simp⟩
  · rw [if_pos rfl]
    obtain ⟨w₁, h₁⟩ := runs_isCurrent_example (w := { w with
      limiter := ((∅ : AuthRateLimiter).allowAt 1000 0).2
      log := w.log ++ [Entry.call .now (0 : ℤ)] ++ [Entry.call (.supervise 1000 authTargetSddm
        (min (min 2000 2000) defaultPamTimeoutMs) 1900000000 false) statusSuccess] }) h
    exact h₁.seq ((runs_ask (c := .clear 1000) (r := ()) rfl).seq ⟨_, .pure _ _⟩)

theorem runs_dispatch_example : ∃ w', Runs Call (dispatchRequest 2000
    (.pamAuth 1000 authTargetSddm 2000 "user") 1000 (10 ^ 10) false) exampleDaemon
    (encodeDaemonResponse statusSuccess []) w' := by
  simp only [dispatchRequest]
  rw [if_pos (by decide)]
  obtain ⟨w₁, h₁, hw₁, hl⟩ := runs_authenticationPolicy_example (w := exampleDaemon) ⟨rfl, rfl⟩
  refine h₁.seq ?_
  dsimp only
  rw [if_pos (by decide)]
  obtain ⟨w₂, h₂⟩ := runs_attempt_example hw₁ hl
  exact h₂.seq ((runs_ask (c := .close (0, 1)) (r := ()) rfl).seq ⟨_, .pure _ _⟩)

/-- A request that is granted, of user 1000 for itself. -/
theorem dispatch_unchanged_of_granted : ∃ w' : Daemon,
    ((1000 : UInt32) = 0 ∨ (1000 : UInt32) = 1000) ∧
      ∃ policy target pre mid post fd m₁ bytes₁ m₂ m₃ bytes₂ m₄ processing,
        w'.log = [] ++ (pre ++ (loadEntries fd m₁ bytes₁ m₂ ++ mid ++
          loadEntries fd m₃ bytes₂ m₄) ++ post) ∧
        AuthPolicy.parseJson bytes₁ = .ok policy ∧
        authenticationTarget authTargetSddm = some target ∧ policy.modeFor 1000 target ≠ .off ∧
        Entry.change ∉ mid ∧
        .call (.supervise 1000 authTargetSddm 2000 processing false) statusSuccess ∈ mid ∧
        (∀ e ∈ pre, ¬ IsRead e) ∧ (∀ e ∈ mid, ¬ IsRead e) ∧ ∀ e ∈ post, ¬ IsRead e := by
  obtain ⟨w', h⟩ := runs_dispatch_example
  exact ⟨w', (dispatch_unchanged h).1 rfl⟩

end Daemon

end KFaceAuth
