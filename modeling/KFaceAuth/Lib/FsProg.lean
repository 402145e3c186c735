import KFaceAuth.Lib.Fs

/-!
# Programs on a file system

The calls as programs, what each may do (one lemma for each call), and the
program removing a whole tree.

Programs that give up at the first error are written in `ExceptT`, whose rule
is `Safe.bindE`; there is one rule for calls that only look at the file system
(`Safe.look`) and one for the others (`Safe.act`). The destructor of a value is
a program run after another, whatever the other returned (`Prog.after`).
-/

namespace KFaceAuth

/-- A program on a file system. -/
abbrev FsProg (N D α : Type) := Prog (FsCall N D) FsCall.Reply α

namespace Prog

variable {C : Type} {R : C → Type} {W α β ε : Type}
  {H : Handler C R W} {G : Step C W → Prop} {I : W → Prop}

/-- Running `fin` on the value of `p`, and returning that value: a destructor. -/
def after (p : Prog C R α) (fin : α → Prog C R Unit) : Prog C R α := do
  let a ← p
  fin a
  return a

theorem Safe.after {p : Prog C R α} {fin : α → Prog C R Unit} {Q Q' : α → W → Prop} {w : W}
    (h : p.Safe H G I Q w) (hf : ∀ a w, Q a w → (fin a).Safe H G I (fun _ w => Q' a w) w) :
    (p.after fin).Safe H G I Q' w :=
  h.bind fun a w hw => (hf a w hw).bind fun _ _ hw => hw

theorem Calls.after {P : C → Prop} {p : Prog C R α} {fin : α → Prog C R Unit} (h : p.Calls P)
    (hf : ∀ a, (fin a).Calls P) : (p.after fin).Calls P :=
  h.bind fun a => (hf a).bind fun _ => trivial

/-- Sequential composition of programs that give up at the first error. -/
theorem Safe.bindE {x : ExceptT ε (Prog C R) α} {f : α → ExceptT ε (Prog C R) β}
    {Q : Except ε α → W → Prop} {Q' : Except ε β → W → Prop} {w : W}
    (h : x.run.Safe H G I Q w) (hok : ∀ a w, Q (.ok a) w → (f a).run.Safe H G I Q' w)
    (herr : ∀ e w, Q (.error e) w → Q' (.error e) w) : (x >>= f).run.Safe H G I Q' w := by
  refine h.bind fun r w hw => ?_
  cases r with
  | ok a => exact hok a w hw
  | error e => exact herr e w hw

theorem Calls.bindE {P : C → Prop} {x : ExceptT ε (Prog C R) α}
    {f : α → ExceptT ε (Prog C R) β} (h : x.run.Calls P) (hf : ∀ a, (f a).run.Calls P) :
    (x >>= f).run.Calls P := by
  refine h.bind fun r => ?_
  cases r with
  | ok a => exact hf a
  | error e => trivial

/-- A program without errors in one that gives up at the first error. -/
theorem Safe.liftE {p : Prog C R α} {f : α → ExceptT ε (Prog C R) β} {Q : α → W → Prop}
    {Q' : Except ε β → W → Prop} {w : W} (h : p.Safe H G I Q w)
    (hf : ∀ a w, Q a w → (f a).run.Safe H G I Q' w) :
    ((liftM p : ExceptT ε (Prog C R) α) >>= f).run.Safe H G I Q' w := by
  have hl : (p >>= fun a => .pure (Except.ok a) : Prog C R (Except ε α)).Safe H G I
      (fun r w => ∃ a, r = .ok a ∧ Q a w) w :=
    h.bind fun a w hw => ⟨a, rfl, hw⟩
  refine Safe.bindE (x := liftM p) hl ?_ ?_
  · rintro a w ⟨_, ⟨⟩, hw⟩
    exact hf a w hw
  · rintro e w ⟨_, ⟨⟩, _⟩

theorem Calls.liftE {P : C → Prop} {p : Prog C R α} {f : α → ExceptT ε (Prog C R) β}
    (h : p.Calls P) (hf : ∀ a, (f a).run.Calls P) :
    ((liftM p : ExceptT ε (Prog C R) α) >>= f).run.Calls P := by
  have hl : (p >>= fun a => .pure (Except.ok a) : Prog C R (Except ε α)).Calls P :=
    h.bind fun _ => trivial
  exact Calls.bindE (x := liftM p) hl hf

/-- A run of a composition: the first program stops, fails, or is followed by a
    run of the second. -/
theorem run_bindE (x : ExceptT ε (Prog C R) α) (f : α → ExceptT ε (Prog C R) β)
    (s : List Choice) (w : W) :
    (∃ w', x.run.run H s w = (none, w') ∧ (x >>= f).run.run H s w = (none, w') ∧
      (x >>= f).run.steps H s w = x.run.steps H s w) ∨
    (∃ e w', x.run.run H s w = (some (.error e), w') ∧
      (x >>= f).run.run H s w = (some (.error e), w') ∧
      (x >>= f).run.steps H s w = x.run.steps H s w) ∨
    ∃ a w' s', x.run.run H s w = (some (.ok a), w') ∧
      (x >>= f).run.run H s w = (f a).run.run H s' w' ∧ s' <:+ s ∧
      (x >>= f).run.steps H s w = x.run.steps H s w ++ (f a).run.steps H s' w' := by
  obtain ⟨w', h⟩ | ⟨r, w', s', h₁, h₂, hs, h₃⟩ := run_bind (H := H) x.run (ExceptT.bindCont f) s w
  · exact .inl ⟨w', h⟩
  · cases r with
    | error e =>
      refine .inr (.inl ⟨e, w', h₁, h₂.trans (by cases s' <;> rfl), h₃.trans ?_⟩)
      cases s' <;> exact List.append_nil _
    | ok a => exact .inr (.inr ⟨a, w', s', h₁, h₂, hs, h₃⟩)

/-- Some call may fail. -/
def MayFail (G : Step C W → Prop) : Prop := ∃ c w, G ⟨c, .fault, w⟩

theorem not_mayFail_ok : ¬ MayFail fun st : Step C W => st.choice = .ok := by
  rintro ⟨c, w, h⟩
  cases h

/-- What holds after a value, and what after an error. -/
def Post (ok : α → W → Prop) (error : ε → W → Prop) : Except ε α → W → Prop
  | .ok a, w => ok a w
  | .error e, w => error e w

/-- An error is no value. -/
theorem not_ok {P : Prop} {e : ε} {a : α} (h : (.error e : Except ε α) = .ok a) : P := by
  cases h

end Prog

/-! ## Calls as programs -/

section

variable {N D ε : Type}

/-- A call whose error is returned, as `conv` makes it. -/
def io (conv : IoError → ε) (c : FsCall N D) : ExceptT ε (FsProg N D) c.Value :=
  ExceptT.mk do
    match ← Prog.perform c with
    | .ok v => return .ok v
    | .error e => return .error (conv e)

/-- A call whose reply is looked at. -/
def reply (c : FsCall N D) : FsProg N D c.Reply := Prog.perform c

/-- A call whose reply is ignored. -/
def ignore (c : FsCall N D) : FsProg N D Unit := do
  let _ ← Prog.perform c

/-- The body of a scope at the end of which `drop` runs. -/
def inScope {α : Type} (body : ExceptT ε (FsProg N D) α) (drop : FsProg N D Unit) :
    ExceptT ε (FsProg N D) α :=
  ExceptT.mk (body.run.after fun _ => drop)

/-- A body that is cleaned up after if it fails. -/
def onError {α : Type} (body : ExceptT ε (FsProg N D) α) (cleanup : FsProg N D Unit) :
    ExceptT ε (FsProg N D) α :=
  ExceptT.mk (body.run.after fun
    | .ok _ => return ()
    | .error _ => cleanup)

end

namespace Fs

open Prog

variable {N D : Type} [DecidableEq N] [Content D] {sys : Sys N}
  {G : Step (FsCall N D) (Fs N D) → Prop} {I : Fs N D → Prop} {w w' : Fs N D}
  {p q : List N}

/-! ## Footprints -/

theorem get_create_of_ne {kind : Kind} {mode : ℕ} (h : q ≠ p) :
    (w.create sys kind p mode).2.get q = w.get q := by
  unfold create
  split_ifs
  · rfl
  · exact (get_put w p q _).trans (if_neg h)
  · rfl

omit [Content D] in
theorem get_update_of_ne {f : Node D → Node D} (h : q ≠ p) : (w.update p f).2.get q = w.get q := by
  unfold update
  split
  · rfl
  · rw [get_put, if_neg h]

/-- A call changes nothing outside its footprint. -/
theorem get_exec_of_not_touches {c : FsCall N D} (h : ¬ c.Touches q) :
    (exec sys c w).2.get q = w.get q := by
  cases c with
  | mkdir p mode => exact get_create_of_ne h
  | createNew p mode => exact get_create_of_ne h
  | openCreate p mode =>
    simp only [exec]
    split
    · exact get_create_of_ne h
    · split_ifs <;> rfl
  | write p d =>
    simp only [exec]
    split
    · rfl
    · exact (get_put w p q _).trans (if_neg h)
  | chown p uid gid => exact get_update_of_ne h
  | chmod p mode => exact get_update_of_ne h
  | unlink p =>
    simp only [exec]
    split
    · rfl
    · split_ifs
      · rfl
      · exact (get_erase w p q).trans (if_neg h)
  | rmdir p =>
    simp only [exec]
    split
    · rfl
    · split_ifs
      · exact (get_erase w p q).trans (if_neg h)
      · rfl
  | rename p p' =>
    simp only [FsCall.Touches, not_or] at h
    simp only [exec]
    split
    · rfl
    · split_ifs with hc
      · rw [get_move w hc.1 hc.2.1, if_neg h.2, if_neg h.1]
      · rfl
  | lock p =>
    simp only [exec]
    split_ifs <;> rfl
  | _ => rfl

theorem wf_create {kind : Kind} {mode : ℕ} (h : w.WF) : (w.create sys kind p mode).2.WF := by
  unfold create
  split_ifs with h₁ h₂
  · exact h
  · refine WF.put (n := w.newNode sys kind mode) h (fun _ => h₂) fun m hm _ => ?_
    simp [hm] at h₁
  · exact h

omit [Content D] in
theorem wf_update {f : Node D → Node D} (hf : ∀ n, (f n).kind = n.kind) (h : w.WF) :
    (w.update p f).2.WF := by
  unfold update
  split
  · exact h
  · next n hn =>
    refine h.put (fun hp => ?_) fun m hm hd => ?_
    · refine h _ (p.getLast hp) ?_
      rw [List.dropLast_append_getLast, hn]
      rfl
    · rw [hf, Option.some.inj (hn.symm.trans hm)]
      exact hd

/-- Every call preserves well-formedness. -/
theorem exec_wf (c : FsCall N D) (h : w.WF) : (exec sys c w).2.WF := by
  cases c with
  | mkdir p mode => exact wf_create h
  | createNew p mode => exact wf_create h
  | openCreate p mode =>
    simp only [exec]
    split
    · exact wf_create h
    · split_ifs <;> exact h
  | write p d =>
    have := wf_update (p := p) (f := fun n : Node D => { n with data := d }) (fun _ => rfl) h
    simp only [exec]
    cases hp : w.get p with
    | none => exact h
    | some n =>
      simp only [update, hp] at this
      exact this
  | chown p uid gid => exact wf_update (fun _ => rfl) h
  | chmod p mode => exact wf_update (fun _ => rfl) h
  | unlink p =>
    simp only [exec]
    split
    · exact h
    · next n hn =>
      split_ifs with hd
      · exact h
      · refine h.erase fun hc => ?_
        obtain ⟨q, ⟨x, rfl⟩, hne, hs⟩ := hasChild_iff.1 hc
        obtain ⟨m, hm, hk⟩ := h.isDir_of_prefix x (by simpa using hne) hs
        rw [hn] at hm
        cases hm
        exact hd hk
  | rmdir p =>
    simp only [exec]
    split
    · exact h
    · split_ifs with hc
      · exact h.erase hc.2
      · exact h
  | rename p p' =>
    simp only [exec]
    split
    · exact h
    · split_ifs with hc
      · exact h.move hc.1 hc.2.1 hc.2.2.1
      · exact h
  | lock p =>
    simp only [exec]
    split_ifs <;> exact h
  | _ => exact h

theorem wf_of_exec {c : FsCall N D} {r : c.Reply} (hx : exec sys c w = (r, w')) (h : w.WF) :
    w'.WF := by
  have : (exec sys c w).2.WF := exec_wf c h
  rwa [hx] at this

/-! ## Rules -/

/-- The calls that change nothing. -/
def ReadOnly : FsCall N D → Prop
  | .lstat _ | .pathExists _ | .isDir _ | .openFile _ | .openDir _ | .fstat _ | .read _ | .fsync _
  | .readDir _ | .walk _ | .query _ | .spawn => True
  | _ => False

theorem exec_readOnly {c : FsCall N D} {r : c.Reply} (h : exec sys c w = (r, w'))
    (hc : ReadOnly c) : w' = w := by
  have hw : (exec sys c w).2 = w := by
    cases c <;> first | rfl | exact hc.elim
  rwa [h] at hw

/-- A call that replies with an error changes nothing. -/
theorem exec_error {c : FsCall N D} {e : IoError} (h : (exec sys c w).1 = .error e) :
    (exec sys c w).2 = w := by
  cases c with
  | mkdir p mode =>
    simp only [exec, create] at h ⊢
    split_ifs at h ⊢ <;> rfl
  | createNew p mode =>
    simp only [exec, create] at h ⊢
    split_ifs at h ⊢ <;> rfl
  | openCreate p mode =>
    simp only [exec, create] at h ⊢
    split at h <;> split_ifs at h ⊢ <;> rfl
  | write p d =>
    simp only [exec] at h ⊢
    split at h <;> first | rfl | cases h
  | chown p uid gid =>
    simp only [exec, update] at h ⊢
    split at h <;> first | rfl | cases h
  | chmod p mode =>
    simp only [exec, update] at h ⊢
    split at h <;> first | rfl | cases h
  | rename p q =>
    simp only [exec] at h ⊢
    split at h
    · rfl
    · split_ifs at h ⊢
      rfl
  | unlink p =>
    simp only [exec] at h ⊢
    split at h
    · rfl
    · split_ifs at h ⊢
      rfl
  | rmdir p =>
    simp only [exec] at h ⊢
    split at h
    · rfl
    · split_ifs at h ⊢
      rfl
  | lock p =>
    simp only [exec] at h ⊢
    split_ifs at h ⊢
    rfl
  | unlock p => cases h
  | _ => rfl

/-- The call fails: it is made to, or it replies with an error. -/
def Fails (sys : Sys N) (G : Step (FsCall N D) (Fs N D) → Prop) (c : FsCall N D) (w : Fs N D)
    (e : IoError) : Prop :=
  G ⟨c, .fault, w⟩ ∨ (exec sys c w).1 = .error e

theorem Fails.mayFail {c : FsCall N D} {e : IoError} (h : Fails sys G c w e) :
    MayFail G ∨ (exec sys c w).1 = .error e :=
  h.imp_left fun g => ⟨_, _, g⟩

/-- A call about the file at `p` may fail while there is one. -/
def Disturbs (G : Step (FsCall N D) (Fs N D) → Prop) (p : List N) : Prop :=
  ∃ c w, FsCall.Concerns p c ∧ (w.get p).isSome ∧ G ⟨c, .fault, w⟩

omit [Content D] in
theorem Disturbs.mayFail (h : Disturbs G p) : MayFail G := by
  obtain ⟨c, w, -, -, hG⟩ := h
  exact ⟨c, w, hG⟩

/-- The call replies with a value. -/
def Replies (sys : Sys N) (G : Step (FsCall N D) (Fs N D) → Prop) (c : FsCall N D) (w : Fs N D)
    (v : c.Value) : Prop :=
  (exec sys c w).1 = .ok v ∨ (MayFail G ∧ c.faultReply = some (.ok v))

section Rules

variable {ε α β : Type} {conv : IoError → ε} {c : FsCall N D}

/-- The rule for a call, where the process may stop only if `I` holds. -/
theorem Safe.io {Q : Except ε c.Value → Fs N D → Prop} (hI : G ⟨c, .stop, w⟩ → I w)
    (hok : ∀ v w', G ⟨c, .ok, w⟩ → exec sys c w = (.ok v, w') → Q (.ok v) w')
    (hfault : ∀ v, G ⟨c, .fault, w⟩ → c.faultReply = some (.ok v) → Q (.ok v) w)
    (herr : ∀ e, Fails sys G c w e → Q (.error (conv e)) w) :
    (io conv c).run.Safe (handler sys) G I Q w := by
  refine ⟨hI, fun g => ?_, fun r hr g => ?_⟩
  · rcases hx : exec sys c w with ⟨r, w'⟩
    simp only [handler, hx]
    cases r with
    | ok v => exact hok v w' g hx
    | error e =>
      have hw : (exec sys c w).2 = w := exec_error (e := e) (by rw [hx])
      rw [hx] at hw
      subst hw
      exact herr e (.inr (by rw [hx]))
  · cases r with
    | ok v => exact hfault v g hr
    | error e => exact herr e (.inl g)

/-- The rule for a call that only looks at the file system. -/
theorem Safe.look {f : c.Value → ExceptT ε (FsProg N D) β} {Q : Except ε β → Fs N D → Prop}
    (hc : ReadOnly c) (hI : I w)
    (hok : ∀ v, Replies sys G c w v → (f v).run.Safe (handler sys) G I Q w)
    (herr : ∀ e, Fails sys G c w e → Q (.error (conv e)) w) :
    (KFaceAuth.io conv c >>= f).run.Safe (handler sys) G I Q w := by
  refine Safe.bindE (Q := fun r w' => match r with
    | .ok v => (f v).run.Safe (handler sys) G I Q w'
    | .error e => Q (.error e) w') (Safe.io (fun _ => hI) (fun v w' _ h => ?_) (fun v g h => ?_) herr)
    (fun _ _ h => h) fun _ _ h => h
  · obtain rfl := exec_readOnly h hc
    exact hok v (.inl (by rw [h]))
  · exact hok v (.inr ⟨⟨c, w, g⟩, h⟩)

/-- The rule for any other call. -/
theorem Safe.act {f : c.Value → ExceptT ε (FsProg N D) β} {Q : Except ε β → Fs N D → Prop}
    (hc : c.Errs) (hI : I w)
    (hok : ∀ v w', exec sys c w = (.ok v, w') → (f v).run.Safe (handler sys) G I Q w')
    (herr : ∀ e, Fails sys G c w e → Q (.error (conv e)) w) :
    (KFaceAuth.io conv c >>= f).run.Safe (handler sys) G I Q w :=
  Safe.bindE (Q := fun r w' => match r with
    | .ok v => (f v).run.Safe (handler sys) G I Q w'
    | .error e => Q (.error e) w') (Safe.io (fun _ => hI) (fun v w' _ h => hok v w' h)
      (fun v _ h => by rw [hc.faultReply] at h; cases h) herr) (fun _ _ h => h) fun _ _ h => h

/-- The rule for the last call of a program. -/
theorem Safe.last {Q : Except ε c.Value → Fs N D → Prop} (hc : c.Errs) (hI : I w)
    (hok : ∀ v w', exec sys c w = (.ok v, w') → Q (.ok v) w')
    (herr : ∀ e, Fails sys G c w e → Q (.error (conv e)) w) :
    (KFaceAuth.io conv c).run.Safe (handler sys) G I Q w :=
  Safe.io (fun _ => hI) (fun v w' _ h => hok v w' h)
    (fun v _ h => by rw [hc.faultReply] at h; cases h) herr

theorem Safe.ignore {Q : Unit → Fs N D → Prop} (hI : I w)
    (hok : ∀ v w', exec sys c w = (.ok v, w') → Q () w')
    (herr : ∀ e, Fails sys G c w e → Q () w) :
    (KFaceAuth.ignore c).Safe (handler sys) G I Q w := by
  refine ⟨fun _ => hI, fun _ => ?_, fun r _ g => herr .other (.inl g)⟩
  rcases hx : exec sys c w with ⟨r, w'⟩
  simp only [handler, hx]
  cases r with
  | ok v => exact hok v w' hx
  | error e =>
    have hw : (exec sys c w).2 = w := exec_error (e := e) (by rw [hx])
    rw [hx] at hw
    subst hw
    exact herr e (.inr (by rw [hx]))

theorem Safe.inScope {body : ExceptT ε (FsProg N D) α} {drop : FsProg N D Unit}
    {Q Q' : Except ε α → Fs N D → Prop} (h : body.run.Safe (handler sys) G I Q w)
    (hd : ∀ r w, Q r w → drop.Safe (handler sys) G I (fun _ w => Q' r w) w) :
    (KFaceAuth.inScope body drop).run.Safe (handler sys) G I Q' w :=
  Safe.after h hd

theorem Safe.onError {body : ExceptT ε (FsProg N D) α} {cleanup : FsProg N D Unit}
    {Q Q' : Except ε α → Fs N D → Prop} (h : body.run.Safe (handler sys) G I Q w)
    (hok : ∀ a w, Q (.ok a) w → Q' (.ok a) w)
    (herr : ∀ e w, Q (.error e) w → cleanup.Safe (handler sys) G I (fun _ w => Q' (.error e) w) w) :
    (KFaceAuth.onError body cleanup).run.Safe (handler sys) G I Q' w := by
  refine Safe.after h fun r w hw => ?_
  cases r with
  | ok a => exact hok a w hw
  | error e => exact herr e w hw

end Rules

/-! ## What the calls that look reply -/

theorem Replies.lstat {st : Stat} (h : Replies sys G (.lstat p) w st) :
    ∃ n, w.get p = some n ∧ st = n.stat := by
  obtain h | ⟨-, h⟩ := h
  · cases hp : w.get p with
    | none => simp [exec, hp] at h
    | some n => exact ⟨n, rfl, by simpa [exec, hp] using h.symm⟩
  · cases h

theorem Replies.fstat {st : Stat} (h : Replies sys G (.fstat p) w st) :
    ∃ n, w.get p = some n ∧ st = n.stat := by
  obtain h | ⟨-, h⟩ := h
  · cases hp : w.get p with
    | none => simp [exec, hp] at h
    | some n => exact ⟨n, rfl, by simpa [exec, hp] using h.symm⟩
  · cases h

theorem Replies.read {d : D} (h : Replies sys G (.read p) w d) :
    ∃ n, w.get p = some n ∧ n.kind = .file ∧ d = n.data := by
  obtain h | ⟨-, h⟩ := h
  · cases hp : w.get p with
    | none => simp [exec, hp] at h
    | some n =>
      by_cases hk : n.kind = .file
      · exact ⟨n, rfl, hk, by simpa [exec, hp, hk] using h.symm⟩
      · simp [exec, hp, hk] at h
  · cases h

theorem Replies.openFile {v : Unit} (h : Replies sys G (.openFile p) w v) :
    ∃ n, w.get p = some n ∧ n.kind ≠ .symlink := by
  obtain h | ⟨-, h⟩ := h
  · cases hp : w.get p with
    | none => simp [exec, hp] at h
    | some n =>
      by_cases hk : n.kind = .symlink
      · simp [exec, hp, hk] at h
      · exact ⟨n, rfl, hk⟩
  · cases h

theorem Replies.readDir {ps : List (List N)} (h : Replies sys G (.readDir p) w ps) :
    ps = sys.order (w.paths fun q => q.dropLast = p ∧ q ≠ []) := by
  obtain h | ⟨-, h⟩ := h
  · by_cases hd : w.IsDir p
    · simpa [exec, hd] using h.symm
    · simp [exec, hd] at h
  · cases h

theorem Replies.walk {es : List (List N × Bool)} (h : Replies sys G (.walk p) w es) :
    w.IsDir p ∧
      es = (sys.order (w.paths fun q => p <+: q)).map fun q => (q, decide (w.IsDir q)) := by
  obtain h | ⟨-, h⟩ := h
  · by_cases hd : w.IsDir p
    · exact ⟨hd, by simpa [exec, hd] using h.symm⟩
    · simp [exec, hd] at h
  · cases h

theorem Fails.lstat {e : IoError} (h : Fails sys G (.lstat p) w e) :
    MayFail G ∨ w.get p = none ∧ e = .notFound := by
  refine h.mayFail.imp_right fun h => ?_
  cases hp : w.get p with
  | none => exact ⟨rfl, by simpa [exec, hp] using h.symm⟩
  | some n => simp [exec, hp] at h

theorem Fails.fstat {e : IoError} (h : Fails sys G (.fstat p) w e) :
    MayFail G ∨ w.get p = none := by
  refine h.mayFail.imp_right fun h => ?_
  cases hp : w.get p with
  | none => rfl
  | some n => simp [exec, hp] at h

theorem Fails.openFile {e : IoError} (h : Fails sys G (.openFile p) w e) :
    MayFail G ∨ ∀ n, w.get p = some n → n.kind = .symlink := by
  refine h.mayFail.imp_right fun h n hn => ?_
  by_contra hk
  simp [exec, hn, hk] at h

theorem Fails.read {e : IoError} (h : Fails sys G (.read p) w e) :
    MayFail G ∨ ∀ n, w.get p = some n → n.kind ≠ .file := by
  refine h.mayFail.imp_right fun h n hn hk => ?_
  simp [exec, hn, hk] at h

theorem Fails.fsync {e : IoError} (h : Fails sys G (.fsync p) w e) :
    MayFail G ∨ w.get p = none := by
  refine h.mayFail.imp_right fun h => ?_
  cases hp : w.get p with
  | none => rfl
  | some n => simp [exec, hp] at h

theorem Fails.walk {e : IoError} (h : Fails sys G (.walk p) w e) : MayFail G ∨ ¬ w.IsDir p := by
  refine h.mayFail.imp_right fun h hd => ?_
  simp [exec, hd] at h

theorem Fails.query {e : IoError} (h : Fails sys G (.query p) w e) : MayFail G :=
  h.mayFail.resolve_right nofun

/-! ## What the other calls do -/

/-- `w'` is `w` with `n` at `p`. -/
structure Sets (w : Fs N D) (p : List N) (n : Option (Node D)) (w' : Fs N D) : Prop where
  get : ∀ q, w'.get q = if q = p then n else w.get q
  locks : w'.locks = w.locks

omit [DecidableEq N] [Content D] in
theorem Sets.self [DecidableEq N] {n : Option (Node D)} (h : Sets w p n w') : w'.get p = n := by
  rw [h.get, if_pos rfl]

omit [Content D] in
theorem Sets.of_ne {n : Option (Node D)} (h : Sets w p n w') (hq : q ≠ p) :
    w'.get q = w.get q := by
  rw [h.get, if_neg hq]

theorem create_ok {kind : Kind} {mode : ℕ} {v : Unit}
    (h : w.create sys kind p mode = (.ok v, w')) :
    w.get p = none ∧ w.IsDir p.dropLast ∧ Sets w p (some (w.newNode sys kind mode)) w' ∧
      w'.log = w.log := by
  unfold create at h
  split_ifs at h with h₁ h₂
  · cases h
  · cases h
    exact ⟨by simpa using h₁, h₂, ⟨fun q => get_put w p q _, rfl⟩, rfl⟩
  · cases h

theorem create_error {kind : Kind} {mode : ℕ} {e : IoError}
    (h : (w.create sys kind p mode).1 = .error e) :
    (w.get p).isSome ∧ e = .alreadyExists ∨ ¬ w.IsDir p.dropLast ∧ e = .notFound := by
  unfold create at h
  split_ifs at h with h₁ h₂
  · cases h
    exact .inl ⟨h₁, rfl⟩
  · cases h
    exact .inr ⟨h₂, rfl⟩

theorem exec_mkdir {mode : ℕ} {v : Unit} (h : exec sys (.mkdir p mode) w = (.ok v, w')) :
    w.get p = none ∧ w.IsDir p.dropLast ∧ Sets w p (some (w.newNode sys .dir mode)) w' ∧
      w'.log = w.log :=
  create_ok h

theorem exec_createNew {mode : ℕ} {v : Unit} (h : exec sys (.createNew p mode) w = (.ok v, w')) :
    w.get p = none ∧ w.IsDir p.dropLast ∧ Sets w p (some (w.newNode sys .file mode)) w' ∧
      w'.log = w.log :=
  create_ok h

theorem Fails.createNew {mode : ℕ} {e : IoError} (h : Fails sys G (.createNew p mode) w e) :
    MayFail G ∨ (w.get p).isSome ∧ e = .alreadyExists ∨ ¬ w.IsDir p.dropLast ∧ e = .notFound :=
  h.mayFail.imp_right create_error

theorem exec_openCreate {mode : ℕ} {v : Unit}
    (h : exec sys (.openCreate p mode) w = (.ok v, w')) :
    (w' = w ∧ ∃ n, w.get p = some n ∧ n.kind = .file) ∨
      (w.get p = none ∧ Sets w p (some (w.newNode sys .file mode)) w' ∧ w'.log = w.log) := by
  simp only [exec] at h
  split at h
  · next hp =>
    obtain ⟨-, -, hs, hl⟩ := create_ok h
    exact .inr ⟨hp, hs, hl⟩
  · next n hp =>
    split_ifs at h with hk
    · cases h
      exact .inl ⟨rfl, n, hp, hk⟩
    · cases h

theorem Fails.openCreate {mode : ℕ} {e : IoError} (h : Fails sys G (.openCreate p mode) w e) :
    MayFail G ∨ ¬ w.IsDir p.dropLast ∨ ∃ n, w.get p = some n ∧ n.kind ≠ .file := by
  refine h.mayFail.imp_right fun h => ?_
  simp only [exec] at h
  split at h
  · next hp =>
    rcases create_error h with ⟨hs, -⟩ | ⟨hd, -⟩
    · simp [hp] at hs
    · exact .inl hd
  · next n hp =>
    split_ifs at h with hk
    exact .inr ⟨n, hp, hk⟩

theorem exec_write {d : D} {v : Unit} (h : exec sys (.write p d) w = (.ok v, w')) :
    ∃ n, w.get p = some n ∧ Sets w p (some { n with data := d }) w' ∧
      w'.log = (p, d) :: w.log := by
  simp only [exec] at h
  split at h
  · cases h
  · next n hp =>
    cases h
    exact ⟨n, hp, ⟨fun q => get_put w p q _, rfl⟩, rfl⟩

theorem Fails.write {d : D} {e : IoError} (h : Fails sys G (.write p d) w e) :
    MayFail G ∨ w.get p = none := by
  refine h.mayFail.imp_right fun h => ?_
  cases hp : w.get p with
  | none => rfl
  | some n => simp [exec, hp] at h

omit [Content D] in
theorem update_ok {f : Node D → Node D} {v : Unit} (h : w.update p f = (.ok v, w')) :
    ∃ n, w.get p = some n ∧ Sets w p (some (f n)) w' ∧ w'.log = w.log := by
  unfold update at h
  split at h
  · cases h
  · next n hp =>
    cases h
    exact ⟨n, hp, ⟨fun q => get_put w p q _, rfl⟩, rfl⟩

omit [Content D] in
theorem update_error {f : Node D → Node D} {e : IoError} (h : (w.update p f).1 = .error e) :
    w.get p = none := by
  cases hp : w.get p with
  | none => rfl
  | some n => simp [update, hp] at h

theorem exec_chown {uid : Option ℕ} {gid : ℕ} {v : Unit}
    (h : exec sys (.chown p uid gid) w = (.ok v, w')) :
    ∃ n, w.get p = some n ∧ Sets w p (some { n with uid := uid.getD n.uid, gid }) w' ∧
      w'.log = w.log :=
  update_ok h

theorem exec_chmod {mode : ℕ} {v : Unit} (h : exec sys (.chmod p mode) w = (.ok v, w')) :
    ∃ n, w.get p = some n ∧ Sets w p (some { n with mode }) w' ∧ w'.log = w.log :=
  update_ok h

theorem Fails.chmod {mode : ℕ} {e : IoError} (h : Fails sys G (.chmod p mode) w e) :
    MayFail G ∨ w.get p = none :=
  h.mayFail.imp_right update_error

theorem exec_unlink {v : Unit} (h : exec sys (.unlink p) w = (.ok v, w')) :
    ∃ n, w.get p = some n ∧ n.kind ≠ .dir ∧ Sets w p none w' ∧ w'.log = w.log := by
  simp only [exec] at h
  split at h
  · cases h
  · next n hp =>
    split_ifs at h with hk
    · cases h
    · cases h
      exact ⟨n, hp, hk, ⟨fun q => get_erase w p q, rfl⟩, rfl⟩

theorem Fails.unlink {e : IoError} (h : Fails sys G (.unlink p) w e) :
    MayFail G ∨ ∀ n, w.get p = some n → n.kind = .dir := by
  refine h.mayFail.imp_right fun h n hn => ?_
  by_contra hk
  simp [exec, hn, hk] at h

theorem exec_rmdir {v : Unit} (h : exec sys (.rmdir p) w = (.ok v, w')) :
    ∃ n, w.get p = some n ∧ n.kind = .dir ∧ ¬ w.HasChild p ∧ Sets w p none w' ∧
      w'.log = w.log := by
  simp only [exec] at h
  split at h
  · cases h
  · next n hp =>
    split_ifs at h with hk
    · cases h
      exact ⟨n, hp, hk.1, hk.2, ⟨fun q => get_erase w p q, rfl⟩, rfl⟩
    · cases h

theorem Fails.rmdir {e : IoError} (h : Fails sys G (.rmdir p) w e) :
    MayFail G ∨ ¬ w.IsDir p ∨ w.HasChild p := by
  refine h.mayFail.imp_right fun h => ?_
  by_contra! hc
  obtain ⟨⟨n, hn, hk⟩, hch⟩ := hc
  simp [exec, hn, hk, hch] at h

/-- `w'` is `w` with the tree at `p` moved to `q`. -/
structure Moves (w : Fs N D) (p q : List N) (w' : Fs N D) : Prop where
  notAbove : ¬ p <+: q
  notBelow : ¬ q <+: p
  get : ∀ r, w'.get r = if q <+: r then w.get (p ++ r.drop q.length)
    else if p <+: r then none else w.get r
  locks : w'.locks = w.locks
  log : w'.log = w.log

omit [Content D] in
theorem Moves.of_not_prefix (h : Moves w p q w') {r : List N} (hp : ¬ p <+: r) (hq : ¬ q <+: r) :
    w'.get r = w.get r := by
  rw [h.get, if_neg hq, if_neg hp]

omit [Content D] in
theorem Moves.target (h : Moves w p q w') : w'.get q = w.get p := by
  rw [h.get, if_pos List.prefix_rfl, List.drop_length, List.append_nil]

theorem exec_rename {v : Unit} (h : exec sys (.rename p q) w = (.ok v, w')) :
    ∃ n, w.get p = some n ∧ w.IsDir q.dropLast ∧ w.CanReplace n q ∧ Moves w p q w' := by
  simp only [exec] at h
  split at h
  · cases h
  · next n hp =>
    split_ifs at h with hc
    · cases h
      exact ⟨n, hp, hc.2.2.1, hc.2.2.2, hc.1, hc.2.1, get_move w hc.1 hc.2.1, rfl, rfl⟩
    · cases h

theorem Fails.rename {e : IoError} (hpq : ¬ p <+: q) (hqp : ¬ q <+: p)
    (h : Fails sys G (.rename p q) w e) :
    MayFail G ∨ w.get p = none ∨ ¬ w.IsDir q.dropLast ∨
      ∃ n, w.get p = some n ∧ ¬ w.CanReplace n q := by
  refine h.mayFail.imp_right fun h => ?_
  cases hp : w.get p with
  | none => exact .inl rfl
  | some n =>
    refine .inr ?_
    by_contra! hc
    have := hc.2 n rfl
    simp [exec, hp, hpq, hqp, hc.1, this] at h

theorem exec_lock {v : Unit} (h : exec sys (.lock p) w = (.ok v, w')) :
    p ∉ w.locks ∧ w' = { w with locks := p :: w.locks } := by
  simp only [exec] at h
  split_ifs at h with hp
  · cases h
  · cases h
    exact ⟨hp, rfl⟩

theorem Fails.lock {e : IoError} (h : Fails sys G (.lock p) w e) :
    MayFail G ∨ p ∈ w.locks := by
  refine h.mayFail.imp_right fun h => ?_
  by_contra hp
  simp [exec, hp] at h

/-! ## Changes within a set of paths -/

/-- `w'` differs from `w` only at paths in `S`, where all that was written is. -/
structure Within (S : List N → Prop) (w w' : Fs N D) : Prop where
  get : ∀ q, ¬ S q → w'.get q = w.get q
  log : ∃ l, w'.log = l ++ w.log ∧ ∀ e ∈ l, S e.1
  wf : w.WF → w'.WF

section Within

variable {S T : List N → Prop}

omit [Content D] in
theorem Within.refl (S : List N → Prop) (w : Fs N D) : Within S w w :=
  ⟨fun _ _ => rfl, ⟨[], rfl, by simp⟩, id⟩

omit [Content D] in
theorem Within.trans {w₁ w₂ w₃ : Fs N D} (h₁ : Within S w₁ w₂) (h₂ : Within S w₂ w₃) :
    Within S w₁ w₃ := by
  obtain ⟨l₁, hl₁, hs₁⟩ := h₁.log
  obtain ⟨l₂, hl₂, hs₂⟩ := h₂.log
  refine ⟨fun q hq => (h₂.get q hq).trans (h₁.get q hq), ⟨l₂ ++ l₁, ?_, fun e he => ?_⟩,
    fun h => h₂.wf (h₁.wf h)⟩
  · rw [hl₂, hl₁, List.append_assoc]
  · exact (List.mem_append.1 he).elim (hs₂ e) (hs₁ e)

omit [Content D] in
theorem Within.mono {w w' : Fs N D} (h : Within S w w') (hS : ∀ q, S q → T q) : Within T w w' := by
  obtain ⟨l, hl, hs⟩ := h.log
  exact ⟨fun q hq => h.get q fun hs => hq (hS q hs), ⟨l, hl, fun e he => hS _ (hs e he)⟩, h.wf⟩

/-- A call logs only what it writes. -/
theorem log_exec (sys : Sys N) (c : FsCall N D) (w : Fs N D) :
    ∃ l, (exec sys c w).2.log = l ++ w.log ∧ ∀ e ∈ l, c.Touches e.1 := by
  have keep : (exec sys c w).2.log = w.log →
      ∃ l, (exec sys c w).2.log = l ++ w.log ∧ ∀ e ∈ l, c.Touches e.1 :=
    fun h => ⟨[], h, by simp⟩
  rcases hx : exec sys c w with ⟨r, w'⟩
  rw [hx] at keep
  cases r with
  | error e =>
    have : (exec sys c w).2 = w := exec_error (e := e) (by rw [hx])
    rw [hx] at this
    subst this
    exact keep rfl
  | ok v =>
    cases c with
    | mkdir p mode => exact keep (exec_mkdir hx).2.2.2
    | createNew p mode => exact keep (exec_createNew hx).2.2.2
    | openCreate p mode =>
      obtain ⟨rfl, -⟩ | ⟨-, -, hl⟩ := exec_openCreate hx
      · exact keep rfl
      · exact keep hl
    | write p d =>
      obtain ⟨n, -, -, hl⟩ := exec_write hx
      exact ⟨[(p, d)], hl, by simp [FsCall.Touches]⟩
    | chown p uid gid =>
      obtain ⟨n, -, -, hl⟩ := exec_chown hx
      exact keep hl
    | chmod p mode =>
      obtain ⟨n, -, -, hl⟩ := exec_chmod hx
      exact keep hl
    | rename p q =>
      obtain ⟨n, -, -, -, hm⟩ := exec_rename hx
      exact keep hm.log
    | unlink p =>
      obtain ⟨n, -, -, -, hl⟩ := exec_unlink hx
      exact keep hl
    | rmdir p =>
      obtain ⟨n, -, -, -, -, hl⟩ := exec_rmdir hx
      exact keep hl
    | lock p =>
      obtain ⟨-, rfl⟩ := exec_lock hx
      exact keep rfl
    | _ => exact keep (congrArg (fun x => x.2.log) hx).symm

theorem within_exec {c : FsCall N D} (h : ∀ q, c.Touches q → S q) :
    Within S w (exec sys c w).2 := by
  obtain ⟨l, hl, ht⟩ := log_exec sys c w
  exact ⟨fun q hq => get_exec_of_not_touches fun ht => hq (h q ht),
    ⟨l, hl, fun e he => h _ (ht e he)⟩, exec_wf c⟩

/-- A program whose calls touch only paths in `S`. -/
theorem safe_within {α : Type} {p : FsProg N D α} (h : p.Calls fun c => ∀ q, c.Touches q → S q) :
    p.Safe (handler sys) G (Within S w) (fun _ => Within S w) w :=
  h.safe (fun _ _ hc hw _ => hw.trans (within_exec hc)) (.refl S w)

end Within

/-! ## Calls of the basic programs -/

section BasicCalls

variable {ε α : Type} {P : FsCall N D → Prop} {c : FsCall N D}

omit [DecidableEq N] [Content D] in
@[simp] theorem calls_io {conv : IoError → ε} : (io conv c).run.Calls P ↔ P c := by
  refine ⟨fun h => h.1, fun h => ⟨h, fun r => ?_⟩⟩
  cases r <;> trivial

omit [DecidableEq N] [Content D] in
@[simp] theorem calls_reply : (reply c).Calls P ↔ P c := calls_perform

omit [DecidableEq N] [Content D] in
@[simp] theorem calls_ignore : (KFaceAuth.ignore c).Calls P ↔ P c :=
  ⟨fun h => h.1, fun h => ⟨h, fun _ => trivial⟩⟩

omit [DecidableEq N] [Content D] in
theorem Calls.inScope {body : ExceptT ε (FsProg N D) α} {drop : FsProg N D Unit}
    (h : body.run.Calls P) (hd : drop.Calls P) : (KFaceAuth.inScope body drop).run.Calls P :=
  Calls.after h fun _ => hd

omit [DecidableEq N] [Content D] in
theorem Calls.onError {body : ExceptT ε (FsProg N D) α} {cleanup : FsProg N D Unit}
    (h : body.run.Calls P) (hd : cleanup.Calls P) :
    (KFaceAuth.onError body cleanup).run.Calls P := by
  refine Calls.after h fun r => ?_
  cases r with
  | ok a => trivial
  | error e => exact hd

end BasicCalls

/-! ## Removing a tree -/

/-- The removal of listed entries, one by one. -/
def removeEntries : List (List N × Bool) → ExceptT IoError (FsProg N D) Unit
  | [] => return ()
  | (q, isDir) :: es => do
    match isDir with
    | true => io id (.rmdir q)
    | false => io id (.unlink q)
    removeEntries es

/-- `fs::remove_dir_all`. -/
def removeDirAll (p : List N) : ExceptT IoError (FsProg N D) Unit := do
  let st ← io id (.lstat p)
  match st.kind with
  | .symlink => io id (.unlink p)
  | _ => do
    let es ← io id (.walk p)
    removeEntries es

/-- `w'` is `w` with entries at or below `p` removed, and nothing else. -/
structure Pruned (p : List N) (w w' : Fs N D) : Prop where
  get : ∀ q, w'.get q = w.get q ∨ p <+: q ∧ w'.get q = none
  locks : w'.locks = w.locks
  log : w'.log = w.log
  wf : w.WF → w'.WF

omit [Content D] in
theorem Pruned.refl (p : List N) (w : Fs N D) : Pruned p w w :=
  ⟨fun _ => .inl rfl, rfl, rfl, id⟩

omit [Content D] in
theorem Pruned.trans {w₁ w₂ w₃ : Fs N D} (h₁ : Pruned p w₁ w₂) (h₂ : Pruned p w₂ w₃) :
    Pruned p w₁ w₃ := by
  refine ⟨fun q => ?_, h₂.locks.trans h₁.locks, h₂.log.trans h₁.log, fun h => h₂.wf (h₁.wf h)⟩
  rcases h₂.get q with h | h
  · rcases h₁.get q with h' | h'
    · exact .inl (h.trans h')
    · exact .inr ⟨h'.1, h.trans h'.2⟩
  · exact .inr h

omit [Content D] in
theorem Pruned.of_sets {q : List N} (hpq : p <+: q) (h : Sets w q none w') (hl : w'.log = w.log)
    (hwf : w.WF → w'.WF) : Pruned p w w' := by
  refine ⟨fun r => ?_, h.locks, hl, hwf⟩
  rcases eq_or_ne r q with rfl | hr
  · exact .inr ⟨hpq, h.self⟩
  · exact .inl (h.of_ne hr)

omit [Content D] in
/-- Nothing outside the tree is changed. -/
theorem Pruned.of_not_prefix (h : Pruned p w w') (hq : ¬ p <+: q) : w'.get q = w.get q :=
  (h.get q).resolve_right fun hc => hq hc.1

/-- The listed entries are exactly what is below `p`. -/
structure Listed (p : List N) (w : Fs N D) (es : List (List N × Bool)) : Prop where
  mem : ∀ q, p <+: q → ((w.get q).isSome ↔ q ∈ es.map Prod.fst)
  below : ∀ e ∈ es, p <+: e.1
  dir : ∀ e ∈ es, e.2 = decide (w.IsDir e.1)
  nodup : (es.map Prod.fst).Nodup
  bottomUp : (es.map Prod.fst).Pairwise fun p q => p <+: q → p = q

theorem Replies.listed {es : List (List N × Bool)} (h : Replies sys G (.walk p) w es) :
    Listed p w es := by
  obtain ⟨-, rfl⟩ := h.walk
  have hperm := sys.perm (w.paths fun q => p <+: q)
  have hfst : ((sys.order (w.paths fun q => p <+: q)).map fun q => (q, decide (w.IsDir q))).map
      Prod.fst = sys.order (w.paths fun q => p <+: q) := by
    simp [Function.comp_def]
  refine ⟨fun q hq => ?_, fun e he => ?_, fun e he => ?_, ?_, ?_⟩
  · rw [hfst, hperm.mem_iff, mem_paths]
    exact ⟨fun h => ⟨h, hq⟩, fun h => h.1⟩
  · obtain ⟨q, hq, rfl⟩ := List.mem_map.1 he
    exact (mem_paths.1 (hperm.mem_iff.1 hq)).2
  · obtain ⟨q, hq, rfl⟩ := List.mem_map.1 he
    rfl
  · rw [hfst]
    exact hperm.nodup_iff.2 (List.nodup_dedup _)
  · rw [hfst]
    exact sys.bottomUp _

omit [Content D] in
/-- The list without its first entry is that of the tree without it. -/
theorem Listed.tail {e : List N × Bool} {es : List (List N × Bool)} (h : Listed p w (e :: es))
    (hs : Sets w e.1 none w') : Listed p w' es := by
  have hnodup := h.nodup
  rw [List.map_cons, List.nodup_cons] at hnodup
  have hne : ∀ e' ∈ es, e'.1 ≠ e.1 := fun e' he' hc =>
    hnodup.1 (hc ▸ List.mem_map_of_mem (f := Prod.fst) he')
  refine ⟨fun q hq => ?_, fun e' he' => h.below e' (List.mem_cons_of_mem _ he'),
    fun e' he' => ?_, hnodup.2, (List.pairwise_cons.1 h.bottomUp).2⟩
  · rcases eq_or_ne q e.1 with rfl | hq'
    · rw [hs.self]
      exact ⟨fun h => absurd h (by simp), fun h => absurd h hnodup.1⟩
    · rw [hs.of_ne hq', h.mem q hq, List.map_cons, List.mem_cons]
      exact ⟨fun h => h.resolve_left hq', .inr⟩
  · rw [h.dir e' (List.mem_cons_of_mem _ he')]
    exact decide_eq_decide.2 (isDir_congr (hs.of_ne (hne e' he'))).symm

/-- Each listed entry is removed, unless a call fails. -/
theorem safe_removeEntries {es : List (List N × Bool)} (h : Listed p w es) :
    (removeEntries es).run.Safe (handler sys) G (Pruned p w) (fun r w' => Pruned p w w' ∧
      match r with
      | .ok _ => ∀ q, p <+: q → w'.get q = none
      | .error _ => MayFail G) w := by
  induction es generalizing w with
  | nil =>
    refine ⟨.refl p w, fun q hq => ?_⟩
    have := (h.mem q hq).not.2 (by simp)
    simpa using this
  | cons e es ih =>
    obtain ⟨q, isDir⟩ := e
    have hpq : p <+: q := h.below _ List.mem_cons_self
    have hsome : (w.get q).isSome := (h.mem q hpq).2 (by simp)
    have hdir := h.dir _ List.mem_cons_self
    -- the rest of the list, once the first entry is removed
    have rest : ∀ {c : FsCall N D} {w'}, (exec sys c w).2 = w' → Sets w q none w' → w'.log = w.log →
        (removeEntries es).run.Safe (handler sys) G (Pruned p w) (fun r w' => Pruned p w w' ∧
          match r with
          | .ok _ => ∀ q, p <+: q → w'.get q = none
          | .error _ => MayFail G) w' := by
      intro c w' hx hs hl
      have hp : Pruned p w w' := .of_sets hpq hs hl fun hwf => hx ▸ exec_wf c hwf
      exact (ih (h.tail hs)).mono (fun _ h => hp.trans h) fun _ _ h => ⟨hp.trans h.1, h.2⟩
    cases isDir with
    | true =>
      refine Safe.act trivial (.refl p w) (fun v w' hx => ?_) fun e he => ⟨.refl p w, ?_⟩
      · obtain ⟨-, -, -, -, hs, hl⟩ := exec_rmdir hx
        exact rest (c := .rmdir q) (by rw [hx]) hs hl
      · have hd : w.IsDir q := by simpa using hdir.symm
        refine he.rmdir.resolve_right ?_
        rintro (hn | hc)
        · exact hn hd
        · obtain ⟨q', hq', hne, hs⟩ := hasChild_iff.1 hc
          have hmem := (h.mem q' (hpq.trans hq')).1 hs
          rw [List.map_cons, List.mem_cons] at hmem
          exact hne ((List.pairwise_cons.1 h.bottomUp).1 q' (hmem.resolve_left hne) hq').symm
    | false =>
      refine Safe.act trivial (.refl p w) (fun v w' hx => ?_) fun e he => ⟨.refl p w, ?_⟩
      · obtain ⟨-, -, -, hs, hl⟩ := exec_unlink hx
        exact rest (c := .unlink q) (by rw [hx]) hs hl
      · refine he.unlink.resolve_right fun hd => ?_
        obtain ⟨n, hn⟩ := Option.isSome_iff_exists.1 hsome
        have : w.IsDir q := ⟨n, hn, hd n hn⟩
        simp [this] at hdir

/-- A tree is removed, unless a call fails. -/
theorem safe_removeDirAll (p : List N) :
    (removeDirAll p).run.Safe (handler sys) G (Pruned p w) (fun r w' => Pruned p w w' ∧
      match r with
      | .ok _ => (w.IsDir p ∨ w.WF) → ∀ q, p <+: q → w'.get q = none
      | .error _ => MayFail G ∨ ¬ w.IsDir p) w := by
  refine Safe.look trivial (.refl p w) (fun st hst => ?_) fun e he => ⟨.refl p w, ?_⟩
  swap
  · refine he.lstat.imp_right fun h => ?_
    rintro ⟨n, hn, -⟩
    rw [hn] at h
    cases h.1
  obtain ⟨n, hn, rfl⟩ := hst.lstat
  have walk : (do
      let es ← io id (.walk p)
      removeEntries es : ExceptT IoError (FsProg N D) Unit).run.Safe (handler sys) G (Pruned p w)
      (fun r w' => Pruned p w w' ∧ match r with
        | .ok _ => (w.IsDir p ∨ w.WF) → ∀ q, p <+: q → w'.get q = none
        | .error _ => MayFail G ∨ ¬ w.IsDir p) w := by
    refine Safe.look trivial (.refl p w) (fun es hes => ?_) fun e he => ⟨.refl p w, he.walk⟩
    refine (safe_removeEntries hes.listed).post fun r w' h => ⟨h.1, ?_⟩
    cases r with
    | ok v => exact fun _ => h.2
    | error e => exact .inl h.2
  cases hk : n.kind with
  | file => simpa [Node.stat, hk] using walk
  | dir => simpa [Node.stat, hk] using walk
  | symlink =>
    simp only [Node.stat, hk]
    refine Safe.io (fun _ => .refl p w) (fun v w' _ hx => ?_) (fun _ _ h => by cases h)
      fun e he => ⟨.refl p w, ?_⟩
    · obtain ⟨m, hm, hd, hs, hl⟩ := exec_unlink hx
      refine ⟨.of_sets List.prefix_rfl hs hl (wf_of_exec hx), fun hw q hq => ?_⟩
      -- nothing is below a link
      rcases eq_or_ne q p with rfl | hne
      · exact hs.self
      rw [hs.of_ne hne]
      obtain ⟨x, rfl⟩ := hq
      by_contra hsome
      have hdir : w.IsDir p := by
        rcases hw with hw | hw
        · exact hw
        · exact hw.isDir_of_prefix x (by simpa using hne) (by simpa [Option.isSome_iff_ne_none])
      obtain ⟨m', hm', hd'⟩ := hdir
      rw [hn] at hm'
      cases hm'
      rw [hk] at hd'
      cases hd'
    · refine .inr ?_
      rintro ⟨m', hm', hd'⟩
      rw [hn] at hm'
      cases hm'
      rw [hk] at hd'
      cases hd'

end Fs

end KFaceAuth
