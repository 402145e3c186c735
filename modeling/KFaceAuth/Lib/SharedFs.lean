import KFaceAuth.Lib.Concurrent

/-!
# A file system shared by processes

In a file system that several processes change, an open file is no longer named
by the path it was opened at: the path may be given to another file, or the file
renamed, or left without a name. Here a process has, for each path, the file it
last opened there (`Fd`), and its calls on open files are about that file
(`Shared.call`). A file that loses its name stays readable where it is open.
-/

namespace KFaceAuth

/-- An open file: the path it is at, or its number among the files that have no
    name any more. -/
inductive Fd (N : Type)
  | path (p : List N)
  | unnamed (k : ℕ)
  deriving DecidableEq

namespace Fd

variable {N : Type} [DecidableEq N]

/-- Where an open file is after the entry at `p` is removed, given the number of
    files without a name before. -/
def removed (p : List N) (k : ℕ) : Fd N → Fd N
  | .path q => if q = p then .unnamed k else .path q
  | .unnamed l => .unnamed l

/-- Where an open file is after the entry at `p` is moved. -/
def moved (p q : List N) : Fd N → Fd N
  | .path r => .path (Fs.movedPath p q r)
  | .unnamed l => .unnamed l

end Fd

/-- The files, those that have lost their name, and the file each process has
    opened at each path. -/
structure Shared (ι N D : Type) where
  files : Fs N D
  unnamed : List (Node D)
  fds : ι → List N → Fd N

namespace Shared

variable {ι N D : Type} [DecidableEq ι] [DecidableEq N] [Content D]

/-- Before any file is opened. -/
def ofFiles (fs : Fs N D) : Shared ι N D := ⟨fs, [], fun _ p => .path p⟩

/-- The process `i` opens the file at `p`. -/
def opens (s : Shared ι N D) (i : ι) (p : List N) : Shared ι N D :=
  { s with fds := fun j q => if j = i ∧ q = p then .path p else s.fds j q }

/-- The file at `p`, if there is one, loses its name. -/
def drops (s : Shared ι N D) (p : List N) : Shared ι N D :=
  match s.files.get p with
  | none => s
  | some n => { s with
      unnamed := s.unnamed ++ [{ n with nlink := n.nlink - 1 }]
      fds := fun j q => Fd.removed p s.unnamed.length (s.fds j q) }

/-- A call on the open file of the process `i` at `p`: `named` where it is, or
    else `f` on the file without a name. -/
def onFd {α : Type} (s : Shared ι N D) (i : ι) (p : List N)
    (named : List N → Except IoError α × Fs N D) (f : Node D → α × Node D) :
    Except IoError α × Shared ι N D :=
  match s.fds i p with
  | .path q => ((named q).1, { s with files := (named q).2 })
  | .unnamed k =>
    match s.unnamed[k]? with
    | none => (.error .notFound, s)
    | some n => (.ok (f n).1, { s with unnamed := s.unnamed.set k (f n).2 })

/-- What follows a call by path that succeeds. -/
def andThen {α : Type} (s : Shared ι N D) (x : Except IoError α × Fs N D)
    (f : Shared ι N D → Shared ι N D) : Except IoError α × Shared ι N D :=
  match x.1 with
  | .ok v => (.ok v, { f s with files := x.2 })
  | .error e => (.error e, { s with files := x.2 })

/-- A call of the process `i`. -/
def call (sys : Sys N) (i : ι) : (c : FsCall N D) → Shared ι N D → c.Reply × Shared ι N D
  | .fstat p, s => s.onFd i p (fun q => Fs.exec sys (.fstat q) s.files) fun n => (n.stat, n)
  | .read p, s => s.onFd i p (fun q => Fs.exec sys (.read q) s.files) fun n => (n.data, n)
  | .fsync p, s => s.onFd i p (fun q => Fs.exec sys (.fsync q) s.files) fun n => ((), n)
  | .write p d, s =>
    s.onFd i p (fun q => Fs.exec sys (.write q d) s.files) fun n => ((), { n with data := d })
  | .chown p uid gid, s =>
    s.onFd i p (fun q => Fs.exec sys (.chown q uid gid) s.files) fun n =>
      ((), { n with uid := uid.getD n.uid, gid })
  | .chmod p mode, s =>
    s.onFd i p (fun q => Fs.exec sys (.chmod q mode) s.files) fun n => ((), { n with mode })
  | .openFile p, s => s.andThen (Fs.exec sys (.openFile p) s.files) fun s => s.opens i p
  | .openDir p, s => s.andThen (Fs.exec sys (.openDir p) s.files) fun s => s.opens i p
  | .createNew p mode, s =>
    s.andThen (Fs.exec sys (.createNew p mode) s.files) fun s => s.opens i p
  | .openCreate p mode, s =>
    s.andThen (Fs.exec sys (.openCreate p mode) s.files) fun s => s.opens i p
  | .unlink p, s => s.andThen (Fs.exec sys (.unlink p) s.files) fun s => s.drops p
  | .rmdir p, s => s.andThen (Fs.exec sys (.rmdir p) s.files) fun s => s.drops p
  | .rename p q, s =>
    s.andThen (Fs.exec sys (.rename p q) s.files) fun s =>
      let s := s.drops q
      { s with fds := fun j r => Fd.moved p q (s.fds j r) }
  | c, s => ((Fs.exec sys c s.files).1, { s with files := (Fs.exec sys c s.files).2 })

/-! ## Calls on files that are where they were opened -/

/-- The call is about the open file at `p`. -/
def OnFd (p : List N) : FsCall N D → Prop
  | .fstat q | .read q | .fsync q | .write q _ | .chown q _ _ | .chmod q _ => q = p
  | _ => False

variable {sys : Sys N} {s : Shared ι N D} {i j : ι} {p q : List N} {c : FsCall N D}

omit [DecidableEq ι] [DecidableEq N] [Content D] in
theorem andThen_eq {α : Type} {x : Except IoError α × Fs N D}
    {f : Shared ι N D → Shared ι N D} :
    (s.andThen x f).1 = x.1 ∧ (s.andThen x f).2.files = x.2 := by
  unfold andThen
  split <;> simp_all

omit [DecidableEq ι] [DecidableEq N] [Content D] in
theorem onFd_of_path {α : Type} {named : List N → Except IoError α × Fs N D}
    {f : Node D → α × Node D} (h : s.fds i p = .path q) :
    s.onFd i p named f = ((named q).1, { s with files := (named q).2 }) := by
  simp only [onFd, h]

/-- If the file a call is about is where it was opened, the call is one on the
    file system. -/
theorem call_eq_exec (h : ∀ p, OnFd p c → s.fds i p = .path p) :
    (call sys i c s).1 = (Fs.exec sys c s.files).1 ∧
      (call sys i c s).2.files = (Fs.exec sys c s.files).2 := by
  cases c with
  | fstat p | read p | fsync p | write p d | chown p uid gid | chmod p mode =>
    simp only [call, onFd_of_path (h p rfl), and_self]
  | openFile p | openDir p | createNew p mode | openCreate p mode | unlink p | rmdir p
  | rename p q => exact andThen_eq
  | _ => exact ⟨rfl, rfl⟩

/-- Calls that only look change no file, wherever the file they are about is. -/
theorem call_readOnly (h : Fs.ReadOnly c) : (call sys i c s).2.files = s.files := by
  have looked : ∀ {α : Type} {named : List N → Except IoError α × Fs N D} {f : Node D → α × Node D}
      {p : List N}, (∀ q, (named q).2 = s.files) → (s.onFd i p named f).2.files = s.files := by
    intro α named f p hn
    unfold onFd
    split
    · exact hn _
    · split <;> rfl
  cases c with
  | fstat p | read p | fsync p => exact looked fun _ => rfl
  | openFile p | openDir p => exact andThen_eq.2
  | write p d | chown p uid gid | chmod p mode | createNew p mode | openCreate p mode | mkdir p mode
  | unlink p | rmdir p | rename p q | lock p | unlock p => exact h.elim
  | _ => rfl

/-- A call that replies with an error changes nothing. -/
theorem call_error {e : IoError} (h : (call sys i c s).1 = .error e) : (call sys i c s).2 = s := by
  have named : ∀ {c' : FsCall N D}, (Fs.exec sys c' s.files).1 = .error e →
      { s with files := (Fs.exec sys c' s.files).2 } = s := by
    intro c' he
    rw [Fs.exec_error he]
  have then_error : ∀ {c' : FsCall N D} {f : Shared ι N D → Shared ι N D},
      (s.andThen (Fs.exec sys c' s.files) f).1 = .error e →
      (s.andThen (Fs.exec sys c' s.files) f).2 = s := by
    intro c' f he
    have hx : (Fs.exec sys c' s.files).1 = .error e := andThen_eq.1.symm.trans he
    simp only [andThen, hx, Fs.exec_error hx]
  have fd_error : ∀ {α : Type} {named : List N → Except IoError α × Fs N D}
      {f : Node D → α × Node D} {p : List N},
      (∀ q, (named q).1 = .error e → (named q).2 = s.files) →
      (s.onFd i p named f).1 = .error e → (s.onFd i p named f).2 = s := by
    intro α named f p hn he
    unfold onFd at he ⊢
    split at he
    · next q _ =>
      simp only [hn q he]
    · split at he
      · rfl
      · cases he
  cases c with
  | fstat p | read p | fsync p | write p d | chown p uid gid | chmod p mode =>
    exact fd_error (fun q hq => Fs.exec_error hq) h
  | openFile p | openDir p | createNew p mode | openCreate p mode | unlink p | rmdir p
  | rename p q => exact then_error h
  | _ => exact named h

/-! ## Open files -/

/-- The file that the process `i` has opened at `p` has the content `d`, and is
    still there or has lost its name. -/
def Sees (s : Shared ι N D) (i : ι) (p : List N) (d : D) : Prop :=
  match s.fds i p with
  | .path q => q = p ∧ (s.files.get p).map Node.data = some d
  | .unnamed k => s.unnamed[k]?.map Node.data = some d

/-- The call of the process `j` neither writes to the file at `p` nor moves what
    is on the way to it. -/
def Spares (s : Shared ι N D) (j : ι) (p : List N) : FsCall N D → Prop
  | .write q _ => s.fds j q = .path q ∧ q ≠ p
  | .rename q r => ¬ q <+: p ∧ (r = p ∨ ¬ r <+: p)
  | _ => True

/-- The call opens a file at `p`. -/
def Opens (p : List N) : FsCall N D → Prop
  | .openFile q | .openDir q | .createNew q _ | .openCreate q _ => q = p
  | _ => False

section Sees

variable {d : D}

theorem data_create {kind : Kind} {mode : ℕ} {w : Fs N D} (h : (w.get p).map Node.data = some d) :
    ((w.create sys kind q mode).2.get p).map Node.data = some d := by
  by_cases hq : p = q
  · subst hq
    have : (w.get p).isSome := by
      rw [← Option.isSome_map (f := Node.data), h]
      rfl
    simpa [Fs.create, this] using h
  · rwa [Fs.get_create_of_ne hq]

omit [Content D] in
theorem data_update {f : Node D → Node D} (hf : ∀ n, (f n).data = n.data) {w : Fs N D}
    (h : (w.get p).map Node.data = some d) :
    ((w.update q f).2.get p).map Node.data = some d := by
  by_cases hq : p = q
  · subst hq
    unfold Fs.update
    cases hp : w.get p with
    | none => rw [hp] at h; cases h
    | some n =>
      rw [hp] at h
      simpa [Fs.get_put, hf] using h
  · rwa [Fs.get_update_of_ne hq]

omit [DecidableEq ι] [Content D] in
/-- The files may change, if the content at `p` does not. -/
theorem Sees.files (h : s.Sees i p d) {w : Fs N D}
    (hw : (s.files.get p).map Node.data = some d → (w.get p).map Node.data = some d) :
    ({ s with files := w } : Shared ι N D).Sees i p d := by
  unfold Sees at h ⊢
  simp only
  split at h
  · exact ⟨h.1, hw h.2⟩
  · exact h

omit [DecidableEq ι] [Content D] in
theorem Sees.onFd (h : s.Sees i p d) {α : Type} {named : List N → Except IoError α × Fs N D}
    {f : Node D → α × Node D} (hf : ∀ n, (f n).2.data = n.data)
    (hn : ∀ r, (s.files.get p).map Node.data = some d →
      ((named r).2.get p).map Node.data = some d) :
    (s.onFd j q named f).2.Sees i p d := by
  unfold Shared.onFd
  split
  · exact h.files (hn _)
  · next k _ =>
    split
    · exact h
    · next n hk =>
      unfold Sees at h ⊢
      simp only
      split at h
      · exact h
      · next l _ =>
        rw [List.getElem?_set]
        split_ifs with hkl
        · subst hkl
          rw [hk] at h
          simpa [hf] using h
        · next hl =>
          subst hkl
          rw [List.getElem?_eq_none (by omega)] at hk
          cases hk
        · exact h

omit [Content D] in
theorem Sees.opens (h : s.Sees i p d) (ho : j = i → q ≠ p) : (s.opens j q).Sees i p d := by
  unfold Sees at h ⊢
  have hfd : (s.opens j q).fds i p = s.fds i p := if_neg fun hc => ho hc.1.symm hc.2.symm
  rw [hfd]
  exact h

omit [DecidableEq ι] [Content D] in
/-- A file that loses its name stays open. What is at `p` then is not seen. -/
theorem Sees.drops (h : s.Sees i p d) {w : Fs N D}
    (hw : q ≠ p → (s.files.get p).map Node.data = some d → (w.get p).map Node.data = some d) :
    ({ s.drops q with files := w } : Shared ι N D).Sees i p d := by
  unfold Shared.drops
  cases hq : s.files.get q with
  | none =>
    refine h.files fun hd => hw ?_ hd
    rintro rfl
    rw [hq] at hd
    cases hd
  | some n =>
    unfold Sees at h ⊢
    cases hfd : s.fds i p with
    | path r =>
      simp only [hfd] at h
      obtain ⟨rfl, hd⟩ := h
      by_cases hqr : r = q
      · subst hqr
        rw [hq] at hd
        simpa [hfd, Fd.removed] using hd
      · simpa [hfd, Fd.removed, hqr] using hw (Ne.symm hqr) hd
    | unnamed k =>
      simp only [hfd] at h
      obtain ⟨m, hm, hmd⟩ := Option.map_eq_some_iff.1 h
      simp only [hfd, Fd.removed]
      rw [List.getElem?_append_left (List.getElem?_eq_some_iff.1 hm).1]
      exact h

omit [DecidableEq ι] [Content D] in
theorem Sees.moved (h : s.Sees i p d) {r : List N} (hq : ¬ q <+: p) :
    ({ s with fds := fun j t => (s.fds j t).moved q r } : Shared ι N D).Sees i p d := by
  unfold Sees at h ⊢
  cases hfd : s.fds i p with
  | path t =>
    simp only [hfd] at h
    obtain ⟨rfl, hd⟩ := h
    simpa [hfd, Fd.moved, Fs.movedPath, hq] using hd
  | unnamed k => simpa [hfd, Fd.moved] using h

omit [DecidableEq ι] [Content D] in
theorem Sees.andThen (h : s.Sees i p d) {α : Type} {x : Except IoError α × Fs N D}
    {f : Shared ι N D → Shared ι N D}
    (hok : ∀ v, x.1 = .ok v → ({ f s with files := x.2 } : Shared ι N D).Sees i p d)
    (herr : ∀ e, x.1 = .error e → x.2 = s.files) : (s.andThen x f).2.Sees i p d := by
  unfold Shared.andThen
  split
  · next v hv => exact hok v hv
  · next e he =>
    simp only [herr e he]
    exact h

/-- An open file keeps its content, whatever the processes do, unless it is
    written to or moved. -/
theorem Sees.call (h : s.Sees i p d) (hc : s.Spares j p c) (ho : j = i → ¬ Opens p c) :
    (call sys j c s).2.Sees i p d := by
  have opened : ∀ {q w}, (j = i → q ≠ p) → ((s.files.get p).map Node.data = some d →
      (w.get p).map Node.data = some d) →
      ({ s.opens j q with files := w } : Shared ι N D).Sees i p d := fun hq hw =>
    (h.opens hq).files hw
  cases c with
  | fstat q | read q | fsync q => exact h.onFd (fun _ => rfl) fun _ hd => hd
  | chown q uid gid =>
    exact h.onFd (fun _ => rfl) fun r hd =>
      data_update (f := fun n => { n with uid := uid.getD n.uid, gid }) (fun _ => rfl) hd
  | chmod q mode =>
    exact h.onFd (fun _ => rfl) fun r hd =>
      data_update (f := fun n => { n with mode }) (fun _ => rfl) hd
  | write q e =>
    obtain ⟨hfd, hq⟩ := hc
    simp only [Shared.call, onFd_of_path hfd]
    refine h.files fun hd => ?_
    rwa [Fs.get_exec_of_not_touches (c := .write q e) (show ¬ p = q from Ne.symm hq)]
  | openFile q | openDir q =>
    exact h.andThen (fun _ _ => opened (fun hj hq => ho hj hq) fun hd => hd)
      fun _ he => Fs.exec_error he
  | createNew q mode =>
    exact h.andThen (fun _ _ => opened (fun hj hq => ho hj hq) fun hd => data_create hd)
      fun _ he => Fs.exec_error he
  | openCreate q mode =>
    refine h.andThen (fun _ _ => opened (fun hj hq => ho hj hq) fun hd => ?_)
      fun _ he => Fs.exec_error he
    simp only [Fs.exec]
    split
    · exact data_create hd
    · split_ifs <;> exact hd
  | unlink q =>
    refine h.andThen (fun _ _ => h.drops fun hq hd => ?_) fun _ he => Fs.exec_error he
    rwa [Fs.get_exec_of_not_touches (c := .unlink q) (show ¬ p = q from Ne.symm hq)]
  | rmdir q =>
    refine h.andThen (fun _ _ => h.drops fun hq hd => ?_) fun _ he => Fs.exec_error he
    rwa [Fs.get_exec_of_not_touches (c := .rmdir q) (show ¬ p = q from Ne.symm hq)]
  | rename q r =>
    refine h.andThen (fun _ _ => (h.drops fun hr hd => ?_).moved hc.1) fun _ he => Fs.exec_error he
    rwa [Fs.get_exec_of_not_touches (c := .rename q r)
      (show ¬ (q <+: p ∨ r <+: p) from not_or.2 ⟨hc.1, hc.2.resolve_left hr⟩)]
  | mkdir q mode => exact h.files fun hd => data_create hd
  | lock q =>
    refine h.files fun hd => ?_
    rwa [Fs.get_exec_of_not_touches (c := .lock q) id]
  | _ => exact h

/-- A process that opens a file sees its content. -/
theorem sees_openFile {v : Unit} (h : (call sys i (.openFile p) s).1 = .ok v) :
    ∃ n, s.files.get p = some n ∧ (call sys i (.openFile p) s).2.Sees i p n.data := by
  have hx : (Fs.exec sys (.openFile p) s.files).1 = .ok v := andThen_eq.1.symm.trans h
  obtain ⟨n, hn, -⟩ := Fs.Replies.openFile (G := fun _ => False) (.inl hx)
  refine ⟨n, hn, ?_⟩
  simp only [Shared.call, Shared.andThen, hx]
  have hfd : (s.opens i p).fds i p = .path p := if_pos ⟨rfl, rfl⟩
  unfold Sees
  simp [hfd, Fs.exec, hn]

theorem Sees.read (h : s.Sees i p d) {e : D}
    (hr : (Shared.call sys i (.read p) s).1 = .ok e) : e = d := by
  unfold Sees at h
  simp only [Shared.call, Shared.onFd] at hr
  cases hfd : s.fds i p with
  | path q =>
    simp only [hfd] at h hr
    obtain ⟨rfl, hd⟩ := h
    obtain ⟨n, hn, -, rfl⟩ := Fs.Replies.read (G := fun _ => False) (.inl hr)
    simpa [hn] using hd
  | unnamed k =>
    simp only [hfd] at h hr
    obtain ⟨n, hn, rfl⟩ := Option.map_eq_some_iff.1 h
    simpa [hn] using hr.symm

end Sees

/-! ## The files a process has opened -/

/-- The call does not remove what is at `p`, nor move what is on the way to it. -/
def Leaves (p : List N) : FsCall N D → Prop
  | .unlink q | .rmdir q => q ≠ p
  | .rename q r => ¬ q <+: p ∧ r ≠ p
  | _ => True

omit [DecidableEq ι] [Content D] in
theorem drops_fds_path (h : s.fds i p = .path p) (hq : q ≠ p) :
    (s.drops q).fds i p = .path p := by
  unfold drops
  split
  · exact h
  · simp [h, Fd.removed, Ne.symm hq]

omit [DecidableEq ι] [DecidableEq N] [Content D] in
theorem onFd_fds {α : Type} {named : List N → Except IoError α × Fs N D}
    {f : Node D → α × Node D} : (s.onFd j q named f).2.fds = s.fds := by
  unfold onFd
  split
  · rfl
  · split <;> rfl

omit [DecidableEq ι] [DecidableEq N] [Content D] in
theorem andThen_fds {α : Type} {x : Except IoError α × Fs N D} {f : Shared ι N D → Shared ι N D} :
    (s.andThen x f).2.fds = s.fds ∨ (s.andThen x f).2.fds = (f s).fds := by
  unfold andThen
  split
  · exact .inr rfl
  · exact .inl rfl

omit [Content D] in
theorem opens_fds_path (h : s.fds i p = .path p) : (s.opens j q).fds i p = .path p := by
  simp only [opens]
  split_ifs with hc
  · rw [hc.2]
  · exact h

/-- An open file that is not removed nor moved stays where it is. -/
theorem fds_call_path (h : s.fds i p = .path p) (hc : Leaves p c) :
    (call sys j c s).2.fds i p = .path p := by
  have kept : ∀ {α : Type} {x : Except IoError α × Fs N D} {f : Shared ι N D → Shared ι N D},
      (f s).fds i p = .path p → (s.andThen x f).2.fds i p = .path p := by
    intro α x f hf
    rcases andThen_fds (s := s) (x := x) (f := f) with he | he <;> rw [he]
    · exact h
    · exact hf
  cases c with
  | fstat q | read q | fsync q | write q d | chown q uid gid | chmod q mode =>
    simp only [call, onFd_fds]
    exact h
  | openFile q | openDir q | createNew q mode | openCreate q mode => exact kept (opens_fds_path h)
  | unlink q | rmdir q => exact kept (drops_fds_path h hc)
  | rename q r =>
    refine kept ?_
    simp only [drops_fds_path h hc.2, Fd.moved, Fs.movedPath, if_neg hc.1]
  | _ => exact h

/-- The call removes or moves nothing. -/
def Adds : FsCall N D → Prop
  | .unlink _ | .rmdir _ | .rename _ _ => False
  | _ => True

/-- What other processes open is nothing to a process. -/
theorem fds_call_of_adds (hj : i ≠ j) (hc : Adds c) : (call sys j c s).2.fds i = s.fds i := by
  have opened : ∀ {α : Type} {x : Except IoError α × Fs N D} {q : List N},
      (s.andThen x fun s => s.opens j q).2.fds i = s.fds i := by
    intro α x q
    rcases andThen_fds (s := s) (x := x) (f := fun s => s.opens j q) with he | he
    · rw [he]
    · rw [he]
      funext r
      exact if_neg fun h => hj h.1
  cases c with
  | fstat q | read q | fsync q | write q d | chown q uid gid | chmod q mode =>
    simp only [call, onFd_fds]
  | openFile q | openDir q | createNew q mode | openCreate q mode => exact opened
  | unlink q | rmdir q | rename q r => exact hc.elim
  | _ => rfl

end Shared

end KFaceAuth
