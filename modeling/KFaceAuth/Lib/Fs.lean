import KFaceAuth.Lib.Prog
import Mathlib.Data.List.Dedup
import Mathlib.Data.List.Sort
import Mathlib.Data.List.Induction
import Mathlib.Data.Nat.Bitwise

/-!
# A file system

Directory entries by their full path, each with the metadata and the content
of the file it names. Names are in any type `N`, contents in any type `D` with
a size. Paths are lists of names, from the top.

The operations are single system calls, each atomic: it either replies with an
error and changes nothing, or is carried out (`Fs.exec`). What a call may
change is its footprint (`FsCall.Touches`); everything else is kept
(`get_exec_of_not_touches`). Entries have a parent directory (`Fs.WF`), which
every call preserves (`exec_wf`).

Removing a whole tree is not one call but a program (`removeDirAll`), which may
stop half-way: it removes the entries found below the path, the deepest first.
-/

namespace KFaceAuth

/-- The error kinds programs tell apart. -/
inductive IoError
  | notFound
  | alreadyExists
  | other
  deriving DecidableEq, Repr

inductive Kind
  | file
  | dir
  | symlink
  deriving DecidableEq, Repr

/-- Contents with a size in bytes, and the content of a new file. -/
class Content (D : Type) where
  size : D → ℕ
  empty : D

/-- What a directory entry names. -/
structure Node (D : Type) where
  kind : Kind
  uid : ℕ
  gid : ℕ
  mode : ℕ
  nlink : ℕ
  ino : ℕ
  data : D
  deriving DecidableEq

/-- The metadata a `stat` call reports. -/
structure Stat where
  kind : Kind
  uid : ℕ
  gid : ℕ
  mode : ℕ
  nlink : ℕ
  ino : ℕ
  len : ℕ
  deriving DecidableEq, Repr

def Node.stat {D : Type} [Content D] (n : Node D) : Stat :=
  ⟨n.kind, n.uid, n.gid, n.mode, n.nlink, n.ino, Content.size n.data⟩

/-- The process making the calls: the owner of what it creates, its umask, and
    the order in which it is shown directory entries, with nothing before what
    is below it. -/
structure Sys (N : Type) where
  uid : ℕ
  gid : ℕ
  umask : ℕ
  order : List (List N) → List (List N)
  perm : ∀ l, (order l).Perm l
  bottomUp : ∀ l, (order l).Pairwise fun p q => p <+: q → p = q

namespace Sys

variable {N : Type}

/-- The mode of a new entry. -/
def mode (sys : Sys N) (mode : ℕ) : ℕ := mode &&& (0o777 ^^^ sys.umask)

/-- The deepest entries first. -/
def byDepth (uid gid umask : ℕ) : Sys N where
  uid
  gid
  umask
  order l := l.insertionSort fun p q => q.length ≤ p.length
  perm l := List.perm_insertionSort _ l
  bottomUp l := by
    have : Std.Total fun p q : List N => q.length ≤ p.length := ⟨fun p q => Nat.le_total _ _⟩
    have : IsTrans (List N) fun p q => q.length ≤ p.length := ⟨fun _ _ _ h h' => Nat.le_trans h' h⟩
    exact (List.pairwise_insertionSort _ l).imp fun h hp => hp.eq_of_length_le h

end Sys

/-- The entries of a file system, the next inode number, and the advisory locks
    held. The log of what was ever written, and where, is for specifications
    only: no call reads it. -/
structure Fs (N D : Type) where
  entries : List (List N × Node D)
  next : ℕ
  locks : List (List N)
  log : List (List N × D)

namespace Fs

variable {N D : Type} [DecidableEq N]

/-- The node a path names. -/
def get (fs : Fs N D) (p : List N) : Option (Node D) :=
  (fs.entries.find? fun e => e.1 = p).map Prod.snd

def erase (fs : Fs N D) (p : List N) : Fs N D :=
  { fs with entries := fs.entries.filter fun e => e.1 ≠ p }

def put (fs : Fs N D) (p : List N) (n : Node D) : Fs N D :=
  { fs with entries := (p, n) :: (fs.erase p).entries }

/-- The path of an entry after the tree at `p` has moved to `q`. -/
def movedPath (p q r : List N) : List N :=
  if p <+: r then q ++ r.drop p.length else r

/-- The tree at `p` moved to `q`, replacing what was there. -/
def move (fs : Fs N D) (p q : List N) : Fs N D :=
  { fs with
    entries := (fs.entries.filter fun e => ¬ q <+: e.1).map fun e => (movedPath p q e.1, e.2) }

/-- There is an entry strictly below `p`. -/
def HasChild (fs : Fs N D) (p : List N) : Prop := ∃ e ∈ fs.entries, p <+: e.1 ∧ e.1 ≠ p

instance (fs : Fs N D) (p : List N) : Decidable (fs.HasChild p) :=
  inferInstanceAs (Decidable (∃ e ∈ fs.entries, p <+: e.1 ∧ e.1 ≠ p))

/-- The path names a directory. -/
def IsDir (fs : Fs N D) (p : List N) : Prop := ∃ n, fs.get p = some n ∧ n.kind = .dir

instance (fs : Fs N D) (p : List N) : Decidable (fs.IsDir p) :=
  match h : fs.get p with
  | some n => if hk : n.kind = .dir then .isTrue ⟨n, h, hk⟩ else
      .isFalse fun ⟨m, hm, hd⟩ => hk (by rw [h] at hm; cases hm; exact hd)
  | none => .isFalse fun ⟨m, hm, _⟩ => by rw [h] at hm; cases hm

/-- The paths of the entries with a property, each once. -/
def paths (fs : Fs N D) (P : List N → Prop) [DecidablePred P] : List (List N) :=
  ((fs.entries.map Prod.fst).filter fun q => P q).dedup

end Fs

/-! ## Calls -/

/-- The system calls. Descriptors are modelled by the path they were opened at. -/
inductive FsCall (N D : Type)
  /-- Metadata of an entry, without following a link. -/
  | lstat (p : List N)
  /-- Whether there is an entry. An error is a negative answer. A link counts even if it
      leads nowhere, where `Path::exists` follows it and says that there is nothing. -/
  | pathExists (p : List N)
  /-- Whether there is a directory. An error is a negative answer. -/
  | isDir (p : List N)
  /-- Opening without following a link. -/
  | openFile (p : List N)
  | openDir (p : List N)
  /-- Metadata of an open file. -/
  | fstat (p : List N)
  | read (p : List N)
  | mkdir (p : List N) (mode : ℕ)
  /-- Creating a file that must not exist. -/
  | createNew (p : List N) (mode : ℕ)
  /-- Opening a file, which is created if there is none. -/
  | openCreate (p : List N) (mode : ℕ)
  | write (p : List N) (d : D)
  | fsync (p : List N)
  /-- Changing the group, and the owner if one is given. -/
  | chown (p : List N) (uid : Option ℕ) (gid : ℕ)
  | chmod (p : List N) (mode : ℕ)
  | rename (p q : List N)
  | unlink (p : List N)
  | rmdir (p : List N)
  /-- The paths of the entries in a directory. -/
  | readDir (p : List N)
  /-- The listing a recursive removal works from, with what is a directory. -/
  | walk (p : List N)
  /-- An advisory lock taken without blocking. -/
  | lock (p : List N)
  | unlock (p : List N)
  /-- A query outside the file system, such as a group, the clock or random bytes,
      possibly for the sake of a path. -/
  | query (p : List N)
  /-- Starting an external command. -/
  | spawn
  deriving DecidableEq

namespace FsCall

variable {N D : Type}

/-- The value of a successful call. -/
@[reducible] def Value : FsCall N D → Type
  | lstat _ | fstat _ => Stat
  | pathExists _ | isDir _ => Bool
  | read _ => D
  | readDir _ => List (List N)
  | walk _ => List (List N × Bool)
  | _ => Unit

/-- The reply of a call. -/
abbrev Reply (c : FsCall N D) : Type := Except IoError c.Value

/-- The call may change the node at `q`. -/
def Touches (q : List N) : FsCall N D → Prop
  | mkdir p _ | createNew p _ | openCreate p _ | write p _ | chown p _ _ | chmod p _ | unlink p
  | rmdir p => q = p
  | rename p p' => p <+: q ∨ p' <+: q
  | _ => False

/-- The call is about the file at `p` and no other. -/
def Concerns (p : List N) : FsCall N D → Prop
  | fstat q | query q | chown q _ _ | chmod q _ | fsync q | unlink q => q = p
  | _ => False

/-- A failed call replies with an error; releasing a lock cannot fail. -/
def faultReply : (c : FsCall N D) → Option c.Reply
  | unlock _ => none
  | pathExists _ | isDir _ => some (.ok false)
  | _ => some (.error .other)

/-- The reply of a failed call is an error. -/
def Errs : FsCall N D → Prop
  | unlock _ | pathExists _ | isDir _ => False
  | _ => True

theorem Errs.faultReply {c : FsCall N D} (h : c.Errs) : c.faultReply = some (.error .other) := by
  cases c <;> first | rfl | exact h.elim

end FsCall

namespace Fs

variable {N D : Type} [DecidableEq N] [Content D]

/-- The node a creating call makes. -/
def newNode (sys : Sys N) (fs : Fs N D) (kind : Kind) (mode : ℕ) : Node D :=
  ⟨kind, sys.uid, sys.gid, sys.mode mode, 1, fs.next, Content.empty⟩

/-- A new entry at `p`, unless there is one or its parent is no directory. -/
def create (sys : Sys N) (fs : Fs N D) (kind : Kind) (p : List N) (mode : ℕ) :
    Except IoError Unit × Fs N D :=
  if (fs.get p).isSome then (.error .alreadyExists, fs)
  else if fs.IsDir p.dropLast then
    (.ok (), { fs.put p (fs.newNode sys kind mode) with next := fs.next + 1 })
  else (.error .notFound, fs)

/-- A change of the node at `p`. -/
def update (fs : Fs N D) (p : List N) (f : Node D → Node D) : Except IoError Unit × Fs N D :=
  match fs.get p with
  | none => (.error .notFound, fs)
  | some n => (.ok (), fs.put p (f n))

/-- Whether a rename of the node `n` may replace what is at `q`. -/
def CanReplace (fs : Fs N D) (n : Node D) (q : List N) : Prop :=
  match fs.get q with
  | none => True
  | some m => if n.kind = .dir then m.kind = .dir ∧ ¬ fs.HasChild q else m.kind ≠ .dir

instance (fs : Fs N D) (n : Node D) (q : List N) : Decidable (fs.CanReplace n q) := by
  unfold CanReplace
  exact match fs.get q with
  | none => .isTrue trivial
  | some _ => inferInstance

/-- The effect of a call that is carried out. -/
def exec (sys : Sys N) : (c : FsCall N D) → Fs N D → c.Reply × Fs N D
  | .lstat p, fs => (match fs.get p with | none => .error .notFound | some n => .ok n.stat, fs)
  | .pathExists p, fs => (.ok (fs.get p).isSome, fs)
  | .isDir p, fs => (.ok (fs.IsDir p), fs)
  | .openFile p, fs =>
    (match fs.get p with
      | none => .error .notFound
      | some n => if n.kind = .symlink then .error .other else .ok (), fs)
  | .openDir p, fs =>
    (match fs.get p with
      | none => .error .notFound
      | some n => if n.kind = .dir then .ok () else .error .other, fs)
  | .fstat p, fs => (match fs.get p with | none => .error .notFound | some n => .ok n.stat, fs)
  | .read p, fs =>
    (match fs.get p with
      | none => .error .notFound
      | some n => if n.kind = .file then .ok n.data else .error .other, fs)
  | .mkdir p mode, fs => fs.create sys .dir p mode
  | .createNew p mode, fs => fs.create sys .file p mode
  | .openCreate p mode, fs =>
    match fs.get p with
    | none => fs.create sys .file p mode
    | some n => if n.kind = .file then (.ok (), fs) else (.error .other, fs)
  | .write p d, fs =>
    match fs.get p with
    | none => (.error .notFound, fs)
    | some n => (.ok (), { fs.put p { n with data := d } with log := (p, d) :: fs.log })
  | .fsync p, fs => (match fs.get p with | none => .error .notFound | some _ => .ok (), fs)
  | .chown p uid gid, fs => fs.update p fun n => { n with uid := uid.getD n.uid, gid }
  | .chmod p mode, fs => fs.update p fun n => { n with mode }
  | .rename p q, fs =>
    match fs.get p with
    | none => (.error .notFound, fs)
    | some n =>
      if ¬ p <+: q ∧ ¬ q <+: p ∧ fs.IsDir q.dropLast ∧ fs.CanReplace n q then
        (.ok (), fs.move p q)
      else (.error .other, fs)
  | .unlink p, fs =>
    match fs.get p with
    | none => (.error .notFound, fs)
    | some n => if n.kind = .dir then (.error .other, fs) else (.ok (), fs.erase p)
  | .rmdir p, fs =>
    match fs.get p with
    | none => (.error .notFound, fs)
    | some n =>
      if n.kind = .dir ∧ ¬ fs.HasChild p then (.ok (), fs.erase p) else (.error .other, fs)
  | .readDir p, fs =>
    (if fs.IsDir p then .ok (sys.order (fs.paths fun q => q.dropLast = p ∧ q ≠ []))
      else .error .notFound, fs)
  | .walk p, fs =>
    (if fs.IsDir p then .ok ((sys.order (fs.paths fun q => p <+: q)).map fun q => (q, fs.IsDir q))
      else .error .notFound, fs)
  | .lock p, fs =>
    if p ∈ fs.locks then (.error .other, fs) else (.ok (), { fs with locks := p :: fs.locks })
  | .unlock p, fs => (.ok (), { fs with locks := fs.locks.erase p })
  | .query _, fs => (.ok (), fs)
  | .spawn, fs => (.ok (), fs)

/-- The file system as a handler of its calls. -/
def handler (sys : Sys N) : Handler (FsCall N D) FsCall.Reply (Fs N D) where
  exec := exec sys
  fault := FsCall.faultReply

/-! ## What the operations do to a path -/

omit [Content D]

theorem get_erase (fs : Fs N D) (p q : List N) :
    (fs.erase p).get q = if q = p then none else fs.get q := by
  simp only [get, erase, List.find?_filter]
  split
  · next h =>
    rw [List.find?_eq_none.2]
    · rfl
    · intro e _
      simp [h]
  · next h =>
    congr 2
    funext e
    by_cases he : e.1 = q <;> simp [he, h]

theorem get_put (fs : Fs N D) (p q : List N) (n : Node D) :
    (fs.put p n).get q = if q = p then some n else fs.get q := by
  by_cases h : q = p
  · simp [get, put, h]
  · have : (fs.put p n).get q = (fs.erase p).get q := by
      simp [get, put, Ne.symm h]
    rw [this, get_erase, if_neg h, if_neg h]

omit [DecidableEq N] in
/-- Only one of two incomparable paths is above a given one. -/
theorem not_prefix_of_prefix {p q r : List N} (hpq : ¬ p <+: q) (hqp : ¬ q <+: p)
    (hp : p <+: r) : ¬ q <+: r := fun hq =>
  (List.prefix_or_prefix_of_prefix hp hq).elim hpq hqp

omit [DecidableEq N] in
theorem child_not_above (p : List N) (n : N) : ¬ p ++ [n] <+: p := fun h => by
  have := h.length_le
  rw [List.length_append, List.length_singleton] at this
  omega

omit [DecidableEq N] in
theorem sibling_not_above {a b : N} (h : a ≠ b) (p r : List N) : ¬ p ++ [a] <+: p ++ b :: r := by
  rw [List.prefix_append_right_inj, List.cons_prefix_cons]
  exact fun hp => h hp.1

/-- After a move, the tree at `p` is found at `q`, and nothing is left at `p`. -/
theorem get_move (fs : Fs N D) {p q : List N} (hpq : ¬ p <+: q) (hqp : ¬ q <+: p) (r : List N) :
    (fs.move p q).get r =
      if q <+: r then fs.get (p ++ r.drop q.length) else if p <+: r then none else fs.get r := by
  have key : (fs.move p q).get r = (fs.entries.find? fun e =>
      decide (¬ q <+: e.1) && decide (movedPath p q e.1 = r)).map Prod.snd := by
    simp only [get, move, List.find?_map, List.find?_filter, Option.map_map]
    change Option.map Prod.snd _ = _
    congr 2
    funext e
    simp [Bool.decide_and]
  rw [key]
  split_ifs with hq hp
  · rw [get]
    congr 2
    funext e
    obtain ⟨x, rfl⟩ := hq
    rw [List.drop_left]
    by_cases hpe : p <+: e.1
    · have hqe := not_prefix_of_prefix hpq hqp hpe
      obtain ⟨y, hy⟩ := hpe
      simp [movedPath, ← hy, not_prefix_of_prefix hpq hqp (List.prefix_append p y)]
    · have hne : e.1 ≠ p ++ x := fun h => hpe (h ▸ List.prefix_append p x)
      by_cases hqe : q <+: e.1
      · simp [hqe, hne]
      · have : e.1 ≠ q ++ x := fun h => hqe (h ▸ List.prefix_append q x)
        simp [movedPath, hpe, hne, this]
  · rw [List.find?_eq_none.2]
    · rfl
    · intro e _
      by_cases hpe : p <+: e.1
      · have : q ++ e.1.drop p.length ≠ r := fun h => hq (h ▸ List.prefix_append q _)
        simp [movedPath, hpe, this]
      · have : e.1 ≠ r := fun h => hpe (h ▸ hp)
        simp [movedPath, hpe, this]
  · rw [get]
    congr 2
    funext e
    by_cases hpe : p <+: e.1
    · have h₁ : q ++ e.1.drop p.length ≠ r := fun h => hq (h ▸ List.prefix_append q _)
      have h₂ : e.1 ≠ r := fun h => hp (h ▸ hpe)
      simp [movedPath, hpe, h₁, h₂]
    · by_cases her : e.1 = r
      · simp [movedPath, her, hq, hp]
      · simp [movedPath, hpe, her]

theorem isSome_get {fs : Fs N D} {p : List N} :
    (fs.get p).isSome ↔ ∃ n, (p, n) ∈ fs.entries := by
  simp only [get, Option.isSome_map, List.find?_isSome, decide_eq_true_eq]
  exact ⟨fun ⟨e, he, h⟩ => ⟨e.2, h ▸ he⟩, fun ⟨n, hn⟩ => ⟨(p, n), hn, rfl⟩⟩

theorem mem_paths {fs : Fs N D} {P : List N → Prop} [DecidablePred P] {p : List N} :
    p ∈ fs.paths P ↔ (fs.get p).isSome ∧ P p := by
  simp only [paths, List.mem_dedup, List.mem_filter, List.mem_map, decide_eq_true_eq, isSome_get]
  constructor
  · rintro ⟨⟨e, he, rfl⟩, hP⟩
    exact ⟨⟨e.2, he⟩, hP⟩
  · rintro ⟨⟨n, hn⟩, hP⟩
    exact ⟨⟨(p, n), hn, rfl⟩, hP⟩

theorem hasChild_iff {fs : Fs N D} {p : List N} :
    fs.HasChild p ↔ ∃ q, p <+: q ∧ q ≠ p ∧ (fs.get q).isSome := by
  simp only [HasChild, isSome_get]
  exact ⟨fun ⟨e, he, h, hne⟩ => ⟨e.1, h, hne, e.2, he⟩,
    fun ⟨q, h, hne, n, hn⟩ => ⟨(q, n), hn, h, hne⟩⟩

theorem isDir_congr {fs fs' : Fs N D} {p : List N} (h : fs'.get p = fs.get p) :
    fs'.IsDir p ↔ fs.IsDir p := by
  simp only [IsDir, h]

theorem IsDir.isSome {fs : Fs N D} {p : List N} (h : fs.IsDir p) : (fs.get p).isSome := by
  obtain ⟨n, hn, _⟩ := h
  simp [hn]

/-! ## Well-formed file systems -/

/-- Every entry below another is in a directory. -/
def WF (fs : Fs N D) : Prop := ∀ p n, (fs.get (p ++ [n])).isSome → fs.IsDir p

/-- In a well-formed file system, everything on the way to an entry is a directory. -/
theorem WF.isDir_of_prefix {fs : Fs N D} (h : fs.WF) {p : List N} (r : List N)
    (hr : r ≠ []) (hs : (fs.get (p ++ r)).isSome) : fs.IsDir p := by
  induction r using List.reverseRecOn with
  | nil => exact absurd rfl hr
  | append_singleton r n ih =>
    rw [← List.append_assoc] at hs
    by_cases hr' : r = []
    · subst hr'
      rw [List.append_nil] at hs
      exact h p n hs
    · exact ih hr' (h (p ++ r) n hs).isSome

theorem WF.put {fs : Fs N D} (h : fs.WF) {p : List N} {n : Node D}
    (hp : p ≠ [] → fs.IsDir p.dropLast)
    (hk : ∀ m, fs.get p = some m → m.kind = .dir → n.kind = .dir) : (fs.put p n).WF := by
  have keep : ∀ q, fs.IsDir q → (fs.put p n).IsDir q := by
    rintro q ⟨m, hm, hd⟩
    by_cases hq : q = p
    · exact ⟨n, by simp [get_put, hq], hk m (hq ▸ hm) hd⟩
    · exact ⟨m, by rw [get_put, if_neg hq, hm], hd⟩
  intro q a hs
  rw [get_put] at hs
  split_ifs at hs with he
  · have : q = p.dropLast := by rw [← he]; simp
    exact keep q (this ▸ hp (by simp [← he]))
  · exact keep q (h q a hs)

theorem WF.erase {fs : Fs N D} (h : fs.WF) {p : List N} (hp : ¬ fs.HasChild p) :
    (fs.erase p).WF := by
  intro q a hs
  rw [get_erase] at hs
  split_ifs at hs with he
  · simp at hs
  · have hqp : q ≠ p := fun e => hp (hasChild_iff.2 ⟨p ++ [a], List.prefix_append _ _, by simp,
      e ▸ hs⟩)
    obtain ⟨m, hm, hd⟩ := h q a hs
    exact ⟨m, by rw [get_erase, if_neg hqp, hm], hd⟩

theorem WF.move {fs : Fs N D} (h : fs.WF) {p q : List N} (hpq : ¬ p <+: q) (hqp : ¬ q <+: p)
    (hq : fs.IsDir q.dropLast) : (fs.move p q).WF := by
  intro r a hs
  rw [get_move fs hpq hqp] at hs
  split_ifs at hs with hqr hpr
  · by_cases hr' : q <+: r
    · -- inside the moved tree: its shape is that of the tree at `p`
      obtain ⟨x, rfl⟩ := hr'
      rw [List.append_assoc, List.drop_left, ← List.append_assoc] at hs
      obtain ⟨m, hm, hd⟩ := h (p ++ x) a hs
      exact ⟨m, by rw [get_move fs hpq hqp, if_pos (List.prefix_append _ _), List.drop_left, hm], hd⟩
    · -- the moved node itself, in the parent of `q`
      have he : r ++ [a] = q := ((List.prefix_concat_iff.1 hqr).resolve_right hr').symm
      have hrq : r = q.dropLast := by rw [← he]; simp
      have hpr : ¬ p <+: r := fun hp => hpq (hp.trans (he ▸ List.prefix_append r [a]))
      refine (isDir_congr ?_).2 (hrq ▸ hq)
      rw [get_move fs hpq hqp, if_neg hr', if_neg hpr]
  · simp at hs
  · obtain ⟨m, hm, hd⟩ := h r a hs
    have hpr' : ¬ p <+: r := fun hp => hpr (hp.trans (List.prefix_append _ _))
    have hqr' : ¬ q <+: r := fun hq => hqr (hq.trans (List.prefix_append _ _))
    exact ⟨m, by rw [get_move fs hpq hqp, if_neg hqr', if_neg hpr', hm], hd⟩

end Fs

end KFaceAuth
