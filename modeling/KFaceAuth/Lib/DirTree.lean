import Mathlib.Data.List.Basic

/-!
# Directory trees

A tree of directories and files as a program that only reads it sees it. Names are
byte strings; at a name stands a file, a directory, a symbolic link or something else.
A *place* is the names from the root down to a node. A *path* is the pieces of a text
between its separators; the system follows them one by one from the root (`locate`),
so that many paths may lead to one place.

* `locate_eq_ok`: the place that a path leads to has the pieces of the path that are
  names.
-/

namespace KFaceAuth

namespace DirTree

abbrev FileName := List UInt8

/-- What stands at a place. The entries of a directory are in the order in which the
    system lists them. -/
inductive Item
  | file (bytes : List UInt8)
  | directory (entries : List (FileName × Item))
  | symlink (target : List UInt8)
  | special

/-- What a lookup fails with. -/
inductive Errno
  | enoent
  | enotdir
  deriving DecidableEq, Repr

/-- Whether a piece of a path is looked up in the directory, rather than skipped. -/
def isStep (piece : FileName) : Bool := piece ≠ [] && piece ≠ [46]

/-- A name that an entry of a directory may have. -/
structure IsName (name : FileName) : Prop where
  ne_nil : name ≠ []
  ne_dot : name ≠ [46]
  ne_dots : name ≠ [46, 46]
  no_slash : 47 ∉ name
  no_zero : 0 ∉ name

theorem IsName.isStep {name : FileName} (h : IsName name) : isStep name = true := by
  simp [DirTree.isStep, h.ne_nil, h.ne_dot]

namespace Item

/-- The node with a name in a directory. -/
def child : Item → FileName → Option Item
  | .directory entries, name => entries.lookup name
  | _, _ => none

/-- The node at a place. -/
def get : Item → List FileName → Option Item
  | node, [] => some node
  | node, name :: place => (node.child name).bind fun next => next.get place

/-- A tree whose entries have names, different ones in each directory. -/
inductive Proper : Item → Prop
  | file (bytes : List UInt8) : Proper (.file bytes)
  | symlink (target : List UInt8) : Proper (.symlink target)
  | special : Proper .special
  | directory {entries : List (FileName × Item)} (hname : ∀ entry ∈ entries, IsName entry.1)
      (hdistinct : (entries.map Prod.fst).Nodup) (hnode : ∀ entry ∈ entries, Proper entry.2) :
      Proper (.directory entries)

theorem get_append (node : Item) (place rest : List FileName) :
    node.get (place ++ rest) = (node.get place).bind fun next => next.get rest := by
  induction place generalizing node with
  | nil => rfl
  | cons name place ih =>
    rw [List.cons_append, get, get, Option.bind_assoc]
    congr 1
    funext next
    exact ih next

theorem mem_of_lookup {entries : List (FileName × Item)} {name : FileName} {node : Item}
    (h : entries.lookup name = some node) : (name, node) ∈ entries := by
  obtain ⟨before, after, rfl, -⟩ := List.lookup_eq_some_iff.mp h
  exact List.mem_append_right _ List.mem_cons_self

theorem mem_of_child {node next : Item} {name : FileName} (h : node.child name = some next) :
    ∃ entries, node = .directory entries ∧ (name, next) ∈ entries := by
  cases node with
  | directory entries => exact ⟨entries, rfl, mem_of_lookup h⟩
  | file bytes => cases h
  | symlink target => cases h
  | special => cases h

/-- What is below a node of a proper tree is proper, and the way to it has names. -/
theorem Proper.get {node next : Item} (hproper : node.Proper) {place : List FileName}
    (h : node.get place = some next) : next.Proper ∧ ∀ name ∈ place, IsName name := by
  induction place generalizing node with
  | nil =>
    cases h
    exact ⟨hproper, fun name hname => absurd hname List.not_mem_nil⟩
  | cons name place ih =>
    obtain ⟨child, hchild, hrest⟩ := Option.bind_eq_some_iff.mp h
    obtain ⟨entries, rfl, hmem⟩ := mem_of_child hchild
    cases hproper with
    | directory hname hdistinct hnode =>
      obtain ⟨hnext, hplace⟩ := ih (hnode _ hmem) hrest
      refine ⟨hnext, fun other hother => ?_⟩
      rcases List.mem_cons.mp hother with rfl | hother
      · exact hname _ hmem
      · exact hplace other hother

end Item

/-- Follows the pieces of a path from a node at a place. A piece that is empty or a dot
    stays, but only a directory has pieces after it. A link ends the way: it is for
    programs that have seen every node on it before. -/
def locate : Item → List FileName → List FileName → Except Errno (List FileName × Item)
  | node, place, [] => .ok (place, node)
  | node, place, piece :: pieces =>
    match node with
    | .directory entries =>
      if isStep piece then
        match entries.lookup piece with
        | none => .error .enoent
        | some next => locate next (place ++ [piece]) pieces
      else locate node place pieces
    | _ => .error .enotdir

/-- A path leads to the place that its names make. -/
theorem locate_eq_ok {node next : Item} {place place' pieces : List FileName}
    (h : locate node place pieces = .ok (place', next)) :
    place' = place ++ pieces.filter isStep ∧ node.get (pieces.filter isStep) = some next := by
  induction pieces generalizing node place with
  | nil =>
    cases h
    exact ⟨(List.append_nil _).symm, rfl⟩
  | cons piece pieces ih =>
    cases node with
    | directory entries =>
      simp only [locate] at h
      by_cases hstep : isStep piece
      · rw [if_pos hstep] at h
        rw [List.filter_cons_of_pos hstep]
        cases hchild : entries.lookup piece with
        | none =>
          rw [hchild] at h
          cases h
        | some child =>
          rw [hchild] at h
          obtain ⟨rfl, hget⟩ := ih h
          refine ⟨by rw [List.append_assoc]; rfl, ?_⟩
          rw [Item.get, Item.child, hchild, Option.bind_some, hget]
      · rw [if_neg hstep] at h
        rw [List.filter_cons_of_neg hstep]
        exact ih h
    | file bytes => cases h
    | symlink target => cases h
    | special => cases h

/-- A path that has only names leads to the place that it spells. -/
theorem locate_names {node next : Item} {place names : List FileName}
    (hnames : ∀ name ∈ names, IsName name) (h : locate node [] names = .ok (place, next)) :
    node.get names = some next := by
  have hall : names.filter isStep = names :=
    List.filter_eq_self.mpr fun name hname => (hnames name hname).isStep
  have hget := (locate_eq_ok h).2
  rwa [hall] at hget

end DirTree

end KFaceAuth
