import KFaceAuth.Lib.SharedFs
import KFaceAuth.Vault.Atomic

/-!
# Concurrent operations on a vault

Any number of processes run the operations on one vault, and read it, making
their calls in any order (`machine`). An operation works on the vault only while
it holds the lock, and changes it in one call; reading takes no lock, and is of
the file it has opened, which is never written to.

* `concurrent_operations`: the vault is as the operations that were successful
  leave it one after the other, a commit replaces only what decodes under its
  key, and a profile that is read was the vault at some moment of the call.

The proof is by what a process relies on (`Rely`). Its middle is the critical
section of an operation: while a process holds the lock, nothing but the
directory itself is changed by others.
-/

namespace KFaceAuth

open Prog Fs

namespace Vault

/-- `open_profile`. -/
def openProfile (env : Env) (v : Vault) (key : MasterKey) : ExceptT VaultError FileProg Profile := do
  let (profile, _) ← v.openProfileSnapshot env key
  return profile

/-- A call of one of the operations, with what it draws, or of `open_profile`. -/
inductive Call
  | change (retries : ℕ) (draws : Draws) (c : Change)
  | openProfile (key : MasterKey)

namespace Call

/-- The call may change the vault. -/
def Changes : Call → Prop
  | change _ _ _ => True
  | openProfile _ => False

/-- The program of a call, with the profile if it reads one. -/
def program (env : Env) (v : Vault) : Call → ExceptT VaultError FileProg (Option Profile)
  | change retries draws c => do
    v.operate env retries draws c
    return none
  | openProfile key => do
    let profile ← v.openProfile env key
    return some profile

end Call

/-! ## Operations one after the other -/

/-- What an operation makes of the content of the vault file, if it succeeds. -/
def Change.apply (env : Env) (v : Vault) (draws : Draws) :
    Change → Option (List UInt8) → Except VaultError (Option (List UInt8))
  | .commit key profile, none =>
    (encodeVault env.crypto profile key v.uid draws.nonce).map some
  | .commit key profile, some bytes => do
    let _ ← decodeVault env.crypto bytes key v.uid
    (encodeVault env.crypto profile key v.uid draws.nonce).map some
  | .rotate old new, some bytes => do
    let profile ← decodeVault env.crypto bytes old v.uid
    (encodeVault env.crypto profile new v.uid draws.nonce).map some
  | .delete key, some bytes => do
    let _ ← decodeVault env.crypto bytes key v.uid
    return none
  | .reset, some _ => return none
  | .rotate _ _, none | .delete _, none | .reset, none => .error .notFound

def Call.apply (env : Env) (v : Vault) :
    Call → Option (List UInt8) → Except VaultError (Option (List UInt8))
  | change _ draws c, b => c.apply env v draws b
  | openProfile _, b => return b

variable {ι : Type}

/-- The content of the vault file after the calls in `order`, one after the
    other, if each of them succeeds. -/
def serially (env : Env) (v : Vault) (calls : ι → Call) (order : List ι)
    (b : Option (List UInt8)) : Except VaultError (Option (List UInt8)) :=
  order.foldlM (fun b i => (calls i).apply env v b) b

theorem serially_append {env : Env} {v : Vault} {calls : ι → Call} {order : List ι} {i : ι}
    {b b' b'' : Option (List UInt8)} (h : v.serially env calls order b = .ok b')
    (hi : (calls i).apply env v b' = .ok b'') :
    v.serially env calls (order ++ [i]) b = .ok b'' := by
  unfold serially at h ⊢
  rw [List.foldlM_append, h]
  simp only [List.foldlM_cons, List.foldlM_nil, bind, Except.bind, hi]
  rfl

/-! ## Processes -/

section Processes

variable [DecidableEq ι]

/-- The processes, each with its call, on a file system. -/
def machine (env : Env) (v : Vault) (calls : ι → Call) (sys : ι → Sys Name) (w : Files) :
    Machine (Processes ι FileCall FsCall.Reply (Shared ι Name (List UInt8))
      (Except VaultError (Option Profile))) ι :=
  Processes.machine (fun i => Shared.call (sys i) i) (.ofFiles w)
    fun i => ((calls i).program env v).run

/-- For the proof: who holds the lock, and the operations that have changed the
    vault, in order. -/
structure Ghost (ι : Type) where
  holder : Option ι
  order : List ι

/-- What a call of the process `i` tells of the lock and the vault. -/
def note (v : Vault) (i : ι) (c : FileCall) (r : c.Reply) (γ : Ghost ι) : Ghost ι :=
  if r.isOk then
    match c with
    | .createNew p _ => if p = v.lock then { γ with holder := some i } else γ
    | .unlink p =>
      if p = v.lock then { γ with holder := none }
      else if p = v.file then { γ with order := γ.order ++ [i] } else γ
    | .rename _ p => if p = v.file then { γ with order := γ.order ++ [i] } else γ
    | _ => γ
  else γ

/-- The processes' world, with its past. -/
abbrev World (ι : Type) := Recorded ι (Shared ι Name (List UInt8)) (Ghost ι)

/-- A call of the process `i`. -/
def act (v : Vault) (sys : ι → Sys Name) (i : ι) (c : FileCall) (x : World ι) :
    c.Reply × World ι :=
  Processes.recorded (fun i => Shared.call (sys i) i) v.note i c x

/-- What holds of the world throughout: a lock that is held exists, and the
    vault is as the operations that have changed it leave it one after the other. -/
structure Inv (env : Env) (v : Vault) (calls : ι → Call) (w : Files) (x : World ι) : Prop where
  lock : x.ghost.holder ≠ none → (x.world.files.get v.lock).isSome
  nodup : x.ghost.order.Nodup
  changes : ∀ i ∈ x.ghost.order, (calls i).Changes
  serial : v.serially env calls x.ghost.order (v.bytes w) = .ok (v.bytes x.world.files)

/-- What a process relies on of the others. While it holds the lock, they leave
    what is in the directory alone. -/
structure Rely (env : Env) (v : Vault) (calls : ι → Call) (w : Files) (i : ι) (x x' : World ι) :
    Prop where
  inv : v.Inv env calls w x → v.Inv env calls w x'
  holder : x'.ghost.holder = some i ↔ x.ghost.holder = some i
  order : i ∈ x'.ghost.order ↔ i ∈ x.ghost.order
  past : x.past ⊆ x'.past
  dir : x.world.files.IsDir v.root → x'.world.files.IsDir v.root
  root : x.world.fds i v.root = .path v.root → x'.world.fds i v.root = .path v.root
  sees : ∀ d, x.world.Sees i v.file d → x'.world.Sees i v.file d
  fds : x.ghost.holder = some i → x'.world.fds i = x.world.fds i
  get : x.ghost.holder = some i → ∀ q, v.root <+: q → q ≠ v.root →
    x'.world.files.get q = x.world.files.get q

/-- What a process guarantees: the vault stays as it is, or the whole operation
    takes effect. -/
structure Guar (env : Env) (v : Vault) (calls : ι → Call) (w : Files) (i : ι) (x x' : World ι) :
    Prop where
  rely : ∀ j, j ≠ i → v.Rely env calls w j x x'
  inv : v.Inv env calls w x → v.Inv env calls w x'
  file : v.Inv env calls w x → x'.world.files.get v.file = x.world.files.get v.file ∨
    (calls i).apply env v (v.bytes x.world.files) = .ok (v.bytes x'.world.files)

variable {env : Env} {v : Vault} {calls : ι → Call} {sys : ι → Sys Name} {w : Files} {i j : ι}
  {x x' : World ι} {c : FileCall}

omit [DecidableEq ι] in
theorem Rely.refl : v.Rely env calls w i x x :=
  ⟨id, .rfl, .rfl, List.Subset.refl _, id, id, fun _ => id, fun _ => rfl, fun _ _ _ _ => rfl⟩

omit [DecidableEq ι] in
theorem Rely.trans {x₁ x₂ x₃ : World ι} (h : v.Rely env calls w i x₁ x₂)
    (h' : v.Rely env calls w i x₂ x₃) : v.Rely env calls w i x₁ x₃ where
  inv := h'.inv ∘ h.inv
  holder := h'.holder.trans h.holder
  order := h'.order.trans h.order
  past := fun _ he => h'.past (h.past he)
  dir := h'.dir ∘ h.dir
  root := h'.root ∘ h.root
  sees d := h'.sees d ∘ h.sees d
  fds hi := (h'.fds (h.holder.2 hi)).trans (h.fds hi)
  get hi q hq hne := (h'.get (h.holder.2 hi) q hq hne).trans (h.get hi q hq hne)

/-! ## What is noted -/

omit [DecidableEq ι] in
theorem note_holder {r : c.Reply} {γ : Ghost ι} (hj : j ≠ i) (h : γ.holder ≠ some j) :
    (v.note i c r γ).holder ≠ some j := by
  have hi : (some i : Option ι) ≠ some j := fun h => hj (Option.some.inj h).symm
  unfold note
  split
  · split
    · split_ifs <;> assumption
    · split_ifs
      · exact nofun
      · assumption
      · assumption
    · split_ifs <;> assumption
    · assumption
  · assumption

omit [DecidableEq ι] in
theorem mem_note_order {r : c.Reply} {γ : Ghost ι} (hj : j ≠ i) :
    j ∈ (v.note i c r γ).order ↔ j ∈ γ.order := by
  unfold note
  split
  · split
    · split_ifs <;> rfl
    · split_ifs <;> simp [hj]
    · split_ifs <;> simp [hj]
    · rfl
  · rfl

/-- The call tells nothing of the lock or the vault. -/
def Tells (v : Vault) : FileCall → Prop
  | .createNew p _ => p = v.lock
  | .unlink p => p = v.lock ∨ p = v.file
  | .rename _ p => p = v.file
  | _ => False

omit [DecidableEq ι] in
theorem note_of_not_tells {r : c.Reply} {γ : Ghost ι} (h : ¬ v.Tells c) : v.note i c r γ = γ := by
  unfold note
  split
  · split
    · exact if_neg h
    · rw [if_neg fun hp => h (.inl hp), if_neg fun hp => h (.inr hp)]
    · exact if_neg h
    · rfl
  · rfl

/-! ## The calls that change nothing in the directory -/

omit [DecidableEq ι] in
theorem Inv.congr (h : v.Inv env calls w x) (hghost : x'.ghost = x.ghost)
    (hlock : (x'.world.files.get v.lock).isSome = (x.world.files.get v.lock).isSome)
    (hfile : v.bytes x'.world.files = v.bytes x.world.files) : v.Inv env calls w x' :=
  ⟨by rw [hghost, hlock]; exact h.lock, by rw [hghost]; exact h.nodup,
    by rw [hghost]; exact h.changes, by rw [hghost, hfile]; exact h.serial⟩

theorem subset_past : x.past ⊆ (v.act sys i c x).2.past := List.subset_cons_self _ _

/-- Anyone may make a call that leaves alone what is in the directory. -/
theorem guar_of_frame (hadds : Shared.Adds c) (htells : ¬ v.Tells c)
    (hspares : x.world.Spares i v.file c)
    (hdir : x.world.files.IsDir v.root → (v.act sys i c x).2.world.files.IsDir v.root)
    (hget : ∀ q, v.root <+: q → q ≠ v.root →
      (v.act sys i c x).2.world.files.get q = x.world.files.get q) :
    v.Guar env calls w i x (v.act sys i c x).2 := by
  have hghost : (v.act sys i c x).2.ghost = x.ghost := note_of_not_tells htells
  have hfile : (v.act sys i c x).2.world.files.get v.file = x.world.files.get v.file :=
    hget _ (List.prefix_append _ _) file_ne_root
  have hlock : (v.act sys i c x).2.world.files.get v.lock = x.world.files.get v.lock :=
    hget _ (List.prefix_append _ _) lock_ne_root
  have hinv : v.Inv env calls w x → v.Inv env calls w (v.act sys i c x).2 := fun h =>
    h.congr hghost (by rw [hlock]) (bytes_congr hfile)
  refine ⟨fun j hj => ?_, hinv, fun _ => .inl hfile⟩
  have hfds : (v.act sys i c x).2.world.fds j = x.world.fds j := Shared.fds_call_of_adds hj hadds
  exact ⟨hinv, by rw [hghost], by rw [hghost], subset_past, hdir, fun h => by rw [hfds, h],
    fun d hd => hd.call hspares fun h => absurd h.symm hj, fun _ => hfds, fun _ => hget⟩

theorem not_tells_of_readOnly (h : ReadOnly c) : ¬ v.Tells c := by
  cases c <;> first | exact id | exact h.elim

theorem leaves_of_readOnly {p : Path} (h : ReadOnly c) : Shared.Leaves p c := by
  cases c <;> trivial

theorem files_act_readOnly (h : ReadOnly c) :
    (v.act sys i c x).2.world.files = x.world.files := Shared.call_readOnly h

theorem ghost_act_readOnly (h : ReadOnly c) : (v.act sys i c x).2.ghost = x.ghost :=
  note_of_not_tells (not_tells_of_readOnly h)

theorem guar_readOnly (h : ReadOnly c) : v.Guar env calls w i x (v.act sys i c x).2 := by
  have hfiles : (v.act sys i c x).2.world.files = x.world.files := files_act_readOnly h
  refine guar_of_frame ?_ (not_tells_of_readOnly h) ?_ ?_ ?_
  · cases c <;> trivial
  · cases c <;> trivial
  · rw [hfiles]
    exact id
  · rw [hfiles]
    exact fun _ _ _ => rfl

/-! ## The calls of the process that holds the lock -/

/-- The process that holds the lock may change what is in the directory. -/
theorem guar_of_holder (hh : ∀ j, j ≠ i → x.ghost.holder ≠ some j) (hleaves : Shared.Leaves v.root c)
    (hspares : x.world.Spares i v.file c)
    (hroot : (v.act sys i c x).2.world.files.get v.root = x.world.files.get v.root)
    (hinv : v.Inv env calls w x → v.Inv env calls w (v.act sys i c x).2)
    (hfile : v.Inv env calls w x →
      (v.act sys i c x).2.world.files.get v.file = x.world.files.get v.file ∨
      (calls i).apply env v (v.bytes x.world.files) =
        .ok (v.bytes (v.act sys i c x).2.world.files)) :
    v.Guar env calls w i x (v.act sys i c x).2 := by
  refine ⟨fun j hj => ?_, hinv, hfile⟩
  have hx : x.ghost.holder ≠ some j := hh j hj
  exact ⟨hinv, iff_of_false (note_holder hj hx) hx, mem_note_order hj, subset_past,
    (isDir_congr hroot).2, fun h => Shared.fds_call_path h hleaves,
    fun d hd => hd.call hspares fun h => absurd h.symm hj, fun h => absurd h hx,
    fun h => absurd h hx⟩

theorem act_error {e : IoError} (h : (v.act sys i c x).1 = .error e) :
    (v.act sys i c x).2.world = x.world ∧ (v.act sys i c x).2.ghost = x.ghost := by
  refine ⟨Shared.call_error h, ?_⟩
  have hr : (Shared.call (sys i) i c x.world).1 = .error e := h
  change v.note i c (Shared.call (sys i) i c x.world).1 x.ghost = x.ghost
  rw [hr]
  rfl

theorem guar_error {e : IoError} (h : (v.act sys i c x).1 = .error e) :
    v.Guar env calls w i x (v.act sys i c x).2 := by
  obtain ⟨hw, hg⟩ := act_error h
  have hinv : v.Inv env calls w x → v.Inv env calls w (v.act sys i c x).2 := fun hx =>
    hx.congr hg (by rw [hw]) (by rw [hw])
  refine ⟨fun j hj => ⟨hinv, by rw [hg], by rw [hg], subset_past, ?_, ?_, ?_, ?_, ?_⟩, hinv,
    fun _ => .inl (by rw [hw])⟩
  all_goals
    rw [hw]
    simp

/-! ## The state of an operation -/

/-- Before it has the lock. -/
structure Outside (env : Env) (v : Vault) (calls : ι → Call) (w : Files) (i : ι) (x : World ι) :
    Prop where
  inv : v.Inv env calls w x
  order : i ∉ x.ghost.order
  root : x.world.fds i v.root = .path v.root

/-- With the lock, before the vault is changed: its content is `b`. -/
structure Inside (env : Env) (v : Vault) (calls : ι → Call) (w : Files) (i : ι)
    (b : Option (List UInt8)) (x : World ι) : Prop extends Outside env v calls w i x where
  holder : x.ghost.holder = some i
  dir : x.world.files.IsDir v.root
  content : v.bytes x.world.files = b

/-- With the lock, after the vault has been changed. -/
structure Changed (env : Env) (v : Vault) (calls : ι → Call) (w : Files) (i : ι) (x : World ι) :
    Prop where
  inv : v.Inv env calls w x
  order : i ∈ x.ghost.order
  root : x.world.fds i v.root = .path v.root
  holder : x.ghost.holder = some i
  dir : x.world.files.IsDir v.root

variable {b : Option (List UInt8)}

omit [DecidableEq ι] in
theorem Outside.stable : Stable (v.Rely env calls w i) (v.Outside env calls w i) :=
  fun _ _ h hx => ⟨h.inv hx.inv, fun ho => hx.order (h.order.1 ho), h.root hx.root⟩

omit [DecidableEq ι] in
theorem Inside.stable : Stable (v.Rely env calls w i) (v.Inside env calls w i b) :=
  fun x x' h hx => ⟨Outside.stable x x' h hx.toOutside, h.holder.2 hx.holder, h.dir hx.dir,
    (bytes_congr (h.get hx.holder _ (List.prefix_append _ _) file_ne_root)).trans hx.content⟩

omit [DecidableEq ι] in
theorem Changed.stable : Stable (v.Rely env calls w i) (v.Changed env calls w i) :=
  fun _ _ h hx => ⟨h.inv hx.inv, h.order.2 hx.order, h.root hx.root, h.holder.2 hx.holder,
    h.dir hx.dir⟩

omit [DecidableEq ι] in
theorem Outside.congr (h : v.Outside env calls w i x) (hw : x'.world = x.world)
    (hg : x'.ghost = x.ghost) : v.Outside env calls w i x' :=
  ⟨h.inv.congr hg (by rw [hw]) (by rw [hw]), by rw [hg]; exact h.order, by rw [hw]; exact h.root⟩

omit [DecidableEq ι] in
theorem Inside.congr (h : v.Inside env calls w i b x) (hw : x'.world = x.world)
    (hg : x'.ghost = x.ghost) : v.Inside env calls w i b x' :=
  ⟨h.toOutside.congr hw hg, by rw [hg]; exact h.holder, by rw [hw]; exact h.dir,
    by rw [hw]; exact h.content⟩

theorem Outside.readOnly (h : v.Outside env calls w i x) (hc : ReadOnly c) :
    v.Outside env calls w i (v.act sys i c x).2 :=
  ⟨(guar_readOnly hc).inv h.inv, by rw [ghost_act_readOnly hc]; exact h.order,
    Shared.fds_call_path h.root (leaves_of_readOnly hc)⟩

theorem Inside.readOnly (h : v.Inside env calls w i b x) (hc : ReadOnly c) :
    v.Inside env calls w i b (v.act sys i c x).2 :=
  ⟨h.toOutside.readOnly hc, by rw [ghost_act_readOnly hc]; exact h.holder,
    by rw [files_act_readOnly hc]; exact h.dir, by rw [files_act_readOnly hc]; exact h.content⟩

theorem Changed.readOnly (h : v.Changed env calls w i x) (hc : ReadOnly c) :
    v.Changed env calls w i (v.act sys i c x).2 :=
  ⟨(guar_readOnly hc).inv h.inv, by rw [ghost_act_readOnly hc]; exact h.order,
    Shared.fds_call_path h.root (leaves_of_readOnly hc),
    by rw [ghost_act_readOnly hc]; exact h.holder, by rw [files_act_readOnly hc]; exact h.dir⟩

/-! ## Rules -/

/-- The program of the process `i` acts as it guarantees, and ends as in `Q`. -/
abbrev Does (env : Env) (v : Vault) (calls : ι → Call) (sys : ι → Sys Name) (w : Files) (i : ι)
    {α : Type} (Q : α → World ι → Prop) (p : FileProg α) (x : World ι) : Prop :=
  p.Guarded (v.act sys i) (v.Rely env calls w i) (v.Guar env calls w i) Q x

section Rules

variable {α : Type} {conv : IoError → VaultError} {J : World ι → Prop}

theorem does_io {Q : Except VaultError c.Value → World ι → Prop}
    (hJ : Stable (v.Rely env calls w i) J) (hx : J x)
    (h : ∀ x, J x → v.Guar env calls w i x (v.act sys i c x).2 ∧
      (∀ a, (v.act sys i c x).1 = .ok a → Q (.ok a) (v.act sys i c x).2) ∧
      ∀ e, (v.act sys i c x).1 = .error e → Q (.error (conv e)) (v.act sys i c x).2) :
    v.Does env calls sys w i Q (io conv c).run x := by
  rw [io_eq]
  refine Guarded.call hJ hx fun x hx => ?_
  obtain ⟨hg, hok, herr⟩ := h x hx
  refine ⟨hg, ?_⟩
  cases hr : (v.act sys i c x).1 with
  | ok a => exact hok a hr
  | error e => exact herr e hr

theorem does_ignore {Q : Unit → World ι → Prop} (hJ : Stable (v.Rely env calls w i) J) (hx : J x)
    (h : ∀ x, J x → v.Guar env calls w i x (v.act sys i c x).2 ∧ Q () (v.act sys i c x).2) :
    v.Does env calls sys w i Q (ignore c) x :=
  Guarded.call hJ hx h

/-- A property that holds while the process only looks. -/
def Keeps (v : Vault) (sys : ι → Sys Name) (i : ι) (J : World ι → Prop) : Prop :=
  ∀ c x, ReadOnly c → J x → J (v.act sys i c x).2

theorem does_looks {p : FileProg α} (hJ : Stable (v.Rely env calls w i) J)
    (hk : v.Keeps sys i J) (hp : p.Calls ReadOnly) (hx : J x) :
    v.Does env calls sys w i (fun _ => J) p x :=
  Guarded.of_calls hJ hp (fun c x hc hx => ⟨guar_readOnly hc, hk c x hc hx⟩) hx

/-- The rule for a call that only looks. -/
theorem does_look {Q : Except VaultError c.Value → World ι → Prop} (hc : ReadOnly c)
    (hJ : Stable (v.Rely env calls w i) J) (hx : J x)
    (hok : ∀ x a, J x → (v.act sys i c x).1 = .ok a → Q (.ok a) (v.act sys i c x).2)
    (herr : ∀ x e, J x → (v.act sys i c x).1 = .error e →
      Q (.error (conv e)) (v.act sys i c x).2) :
    v.Does env calls sys w i Q (io conv c).run x :=
  does_io hJ hx fun x hx => ⟨guar_readOnly hc, fun a => hok x a hx, fun e => herr x e hx⟩

end Rules

/-- The rule for a call that changes something if it succeeds. -/
theorem does_act {α : Type} {conv : IoError → VaultError} {J : World ι → Prop}
    {f : c.Value → ExceptT VaultError FileProg α} {Q : Except VaultError α → World ι → Prop}
    (hJ : Stable (v.Rely env calls w i) J) (hx : J x)
    (hok : ∀ x a, J x → (v.act sys i c x).1 = .ok a → v.Guar env calls w i x (v.act sys i c x).2 ∧
      v.Does env calls sys w i Q (f a).run (v.act sys i c x).2)
    (herr : ∀ x x' e, J x → x'.world = x.world → x'.ghost = x.ghost → Q (.error (conv e)) x') :
    v.Does env calls sys w i Q (io conv c >>= f).run x := by
  refine Guarded.bindE (Q := fun r x => match r with
      | .ok a => v.Does env calls sys w i Q (f a).run x
      | .error e => Q (.error e) x)
    (does_io hJ hx fun x hx => ?_) (fun _ _ h => h) fun _ _ h => h
  cases hr : (v.act sys i c x).1 with
  | ok a =>
    obtain ⟨hg, hf⟩ := hok x a hx hr
    refine ⟨hg, ?_, fun e he => by cases he⟩
    rintro _ ⟨⟩
    exact hf
  | error e =>
    refine ⟨guar_error hr, fun a ha => (by cases ha), ?_⟩
    rintro _ ⟨⟩
    exact herr x _ e hx (act_error hr).1 (act_error hr).2

/-! ## Reading -/

section Reading

variable {J : World ι → Prop}

/-- At some call of the process, when `J` held, the content of the vault file
    was `bytes`. -/
def Was (v : Vault) (i : ι) (J : World ι → Prop) (bytes : List UInt8) (x : World ι) : Prop :=
  ∃ x₀, J x₀ ∧ (i, x₀.world) ∈ x.past ∧ v.bytes x₀.world.files = some bytes

/-- The process has the vault file open, and sees what it was. -/
structure Seeing (v : Vault) (i : ι) (J : World ι → Prop) (bytes : List UInt8) (x : World ι) :
    Prop where
  keeps : J x
  sees : x.world.Sees i v.file bytes
  was : v.Was i J bytes x

theorem Was.act {bytes : List UInt8} (h : v.Was i J bytes x) :
    v.Was i J bytes (v.act sys j c x).2 := by
  obtain ⟨x₀, h₀, hp, hb⟩ := h
  exact ⟨x₀, h₀, subset_past hp, hb⟩

omit [DecidableEq ι] in
theorem Was.rely {bytes : List UInt8} (h : v.Was i J bytes x) (hx : v.Rely env calls w i x x') :
    v.Was i J bytes x' := by
  obtain ⟨x₀, h₀, hp, hb⟩ := h
  exact ⟨x₀, h₀, hx.past hp, hb⟩

omit [DecidableEq ι] in
theorem Seeing.stable (hJ : Stable (v.Rely env calls w i) J) (bytes : List UInt8) :
    Stable (v.Rely env calls w i) (v.Seeing i J bytes) :=
  fun x x' h hx => ⟨hJ x x' h hx.keeps, h.sees bytes hx.sees, hx.was.rely h⟩

theorem Seeing.readOnly {bytes : List UInt8} (hk : v.Keeps sys i J) (h : v.Seeing i J bytes x)
    (hc : ReadOnly c) (ho : ¬ Shared.Opens v.file c) :
    v.Seeing i J bytes (v.act sys i c x).2 := by
  refine ⟨hk c x hc h.keeps, h.sees.call ?_ fun _ => ho, h.was.act⟩
  cases c <;> trivial

/-- The vault file is read as it was when it was opened. -/
theorem does_readFile (hJ : Stable (v.Rely env calls w i) J) (hk : v.Keeps sys i J) (hx : J x) :
    v.Does env calls sys w i (fun r x => J x ∧ ∀ bytes, r = .ok bytes → v.Was i J bytes x)
      (v.readSecureFile env v.file).run x := by
  have failed : ∀ {e : VaultError} {x}, J x → J x ∧ ∀ bytes,
      (.error e : Except VaultError (List UInt8)) = .ok bytes → v.Was i J bytes x :=
    fun hx => ⟨hx, fun _ h => by cases h⟩
  refine Guarded.bindE (does_looks hJ hk (looks_validateSecurePath.mono fun _ h => h.1) hx) ?_
    fun e x hx => failed hx
  intro before x hx
  split_ifs
  · exact failed hx
  refine Guarded.bindE (Q := Post (fun _ x => ∃ d, v.Seeing i J d x) fun _ x => J x)
    (does_look trivial hJ hx (fun x a hx ha => ?_)
      fun x e hx _ => hk (.openFile v.file) x trivial hx) ?_
    fun e x hx => failed hx
  · obtain ⟨n, hn, hs⟩ := Shared.sees_openFile ha
    exact ⟨n.data, hk (.openFile v.file) x trivial hx, hs, x, hx, List.mem_cons_self,
      by simp [Vault.bytes, hn]⟩
  rintro _ x ⟨d, hx⟩
  refine Guarded.bindE (Q := fun _ x => v.Seeing i J d x)
    (does_look trivial (Seeing.stable hJ d) hx (fun x a hx _ => hx.readOnly hk trivial id)
      fun x e hx _ => hx.readOnly hk trivial id) ?_ fun e x hx => failed hx.keeps
  intro after x hx
  split_ifs
  · exact failed hx.keeps
  refine Guarded.liftE (Guarded.of_calls (P := fun c => ReadOnly c ∧ ¬ Shared.Opens v.file c)
    (Seeing.stable hJ d) (calls_isOwnerValid ⟨trivial, id⟩)
    (fun c x hc hx => ⟨guar_readOnly hc.1, hx.readOnly hk hc.1 hc.2⟩) hx) ?_
  intro owner x hx
  split_ifs
  · exact failed hx.keeps
  refine Guarded.bindE (Q := fun r x => J x ∧ ∀ bytes, r = .ok bytes → v.Was i J bytes x)
    (does_look trivial (Seeing.stable hJ d) hx (fun x a hx ha => ?_)
      fun x e hx _ => failed (hk (.read v.file) x trivial hx.keeps)) ?_ fun e x hx => failed hx.1
  · obtain rfl := hx.sees.read ha
    refine ⟨hk (.read v.file) x trivial hx.keeps, ?_⟩
    rintro _ ⟨⟩
    exact hx.was.act
  intro bytes x hx
  split_ifs
  · exact failed hx.1
  · exact hx

end Reading

/-! ## The lock -/

theorem Inside.keeps : v.Keeps sys i (v.Inside env calls w i b) := fun _ _ hc h => h.readOnly hc

/-- A change of the process that holds the lock, of something else than the vault. -/
theorem Inside.act (h : v.Inside env calls w i b x) (hleaves : Shared.Leaves v.root c)
    (htells : ¬ v.Tells c) (hspares : x.world.Spares i v.file c)
    (hroot : (v.act sys i c x).2.world.files.get v.root = x.world.files.get v.root)
    (hfile : (v.act sys i c x).2.world.files.get v.file = x.world.files.get v.file)
    (hlock : ((v.act sys i c x).2.world.files.get v.lock).isSome =
      (x.world.files.get v.lock).isSome) :
    v.Guar env calls w i x (v.act sys i c x).2 ∧
      v.Inside env calls w i b (v.act sys i c x).2 := by
  have hghost : (v.act sys i c x).2.ghost = x.ghost := note_of_not_tells htells
  have hinv : v.Inv env calls w x → v.Inv env calls w (v.act sys i c x).2 := fun hx =>
    hx.congr hghost hlock (bytes_congr hfile)
  refine ⟨guar_of_holder (fun j hj => ?_) hleaves hspares hroot hinv fun _ => .inl hfile,
    ⟨hinv h.inv, by rw [hghost]; exact h.order, Shared.fds_call_path h.root hleaves⟩,
    by rw [hghost]; exact h.holder, (isDir_congr hroot).2 h.dir, (bytes_congr hfile).trans h.content⟩
  rw [h.holder]
  exact fun he => hj (Option.some.inj he).symm

/-- With the lock, and a file of the directory open where it was opened. -/
structure Working (env : Env) (v : Vault) (calls : ι → Call) (w : Files) (i : ι)
    (b : Option (List UInt8)) (p : Path) (x : World ι) : Prop
    extends Inside env v calls w i b x where
  fd : x.world.fds i p = .path p
  exist : (x.world.files.get p).isSome

omit [DecidableEq ι] in
theorem Working.stable {p : Path} (hp : v.root <+: p) (hne : p ≠ v.root) :
    Stable (v.Rely env calls w i) (v.Working env calls w i b p) :=
  fun x x' h hx => ⟨Inside.stable x x' h hx.toInside, by rw [h.fds hx.holder]; exact hx.fd,
    by rw [h.get hx.holder p hp hne]; exact hx.exist⟩

theorem Working.readOnly {p : Path} (h : v.Working env calls w i b p x) (hc : ReadOnly c) :
    v.Working env calls w i b p (v.act sys i c x).2 :=
  ⟨h.toInside.readOnly hc, Shared.fds_call_path h.fd (leaves_of_readOnly hc),
    by rw [files_act_readOnly hc]; exact h.exist⟩

/-- A file of the directory that only its maker works on. -/
def Own (v : Vault) (p : Path) : Prop := p = v.lock ∨ ∃ suffix, p = v.temporary suffix

theorem Own.ne_file {p : Path} (h : v.Own p) : p ≠ v.file := by
  obtain rfl | ⟨suffix, rfl⟩ := h
  · exact file_ne_lock.symm
  · exact temporary_ne_file

theorem Own.ne_root {p : Path} (h : v.Own p) : p ≠ v.root := by
  obtain rfl | ⟨suffix, rfl⟩ := h
  · exact lock_ne_root
  · exact temporary_ne_root

theorem Own.root_prefix {p : Path} (h : v.Own p) : v.root <+: p := by
  obtain rfl | ⟨suffix, rfl⟩ := h <;> exact List.prefix_append _ _

/-- A call on the open file at `p` that changes it. -/
def Edits (p : Path) : FileCall → Prop
  | .chown q _ _ | .chmod q _ | .write q _ => q = p
  | _ => False

theorem isSome_of_edits {sys : Sys Name} {p : Path} {w : Files} (hc : Edits p c)
    (h : (w.get p).isSome) : ((exec sys c w).2.get p).isSome := by
  obtain ⟨n, hn⟩ := Option.isSome_iff_exists.1 h
  have put : ∀ m, ((w.put p m).get p).isSome := fun m => by simp [get_put]
  cases c with
  | chown q uid gid =>
    cases hc
    simp only [exec, update, hn, put]
  | chmod q mode =>
    cases hc
    simp only [exec, update, hn, put]
  | write q d =>
    cases hc
    simp only [exec, hn]
    exact put _
  | _ => exact hc.elim

/-- The process changes a file it has open, with the lock. -/
theorem Working.edits {p : Path} (h : v.Working env calls w i b p x) (hp : v.Own p)
    (hc : Edits p c) :
    v.Guar env calls w i x (v.act sys i c x).2 ∧
      v.Working env calls w i b p (v.act sys i c x).2 := by
  have hfiles : (v.act sys i c x).2.world.files = (exec (sys i) c x.world.files).2 := by
    refine (Shared.call_eq_exec fun q hq => ?_).2
    cases c <;> first | exact hc.elim | (cases hc; cases hq; exact h.fd)
  have hget : ∀ q, q ≠ p → (v.act sys i c x).2.world.files.get q = x.world.files.get q := by
    intro q hq
    rw [hfiles]
    refine get_exec_of_not_touches ?_
    cases c <;> first | exact hc.elim | (cases hc; exact hq)
  have hsome : ((v.act sys i c x).2.world.files.get p).isSome := by
    rw [hfiles]
    exact isSome_of_edits hc h.exist
  have hleaves : ∀ q, Shared.Leaves q c := by
    intro q
    cases c <;> first | exact hc.elim | trivial
  have hlock : ((v.act sys i c x).2.world.files.get v.lock).isSome =
      (x.world.files.get v.lock).isSome := by
    by_cases hl : v.lock = p
    · rw [hl, hsome, h.exist]
    · rw [hget _ hl]
  obtain ⟨hg, hi⟩ := h.toInside.act (hleaves v.root)
    (by cases c <;> first | exact hc.elim | exact id)
    (by cases c <;> first | exact hc.elim | trivial | (cases hc; exact ⟨h.fd, hp.ne_file⟩))
    (hget _ hp.ne_root.symm) (hget _ hp.ne_file.symm) hlock
  exact ⟨hg, hi, Shared.fds_call_path h.fd (hleaves p), hsome⟩

/-- The permissions of a file that is open are set, with the lock. -/
theorem does_setPermissions {p : Path} (hp : v.Own p) (hx : v.Working env calls w i b p x) :
    v.Does env calls sys w i (fun _ => v.Working env calls w i b p)
      (v.setPermissions env p).run x := by
  have hcalls : (v.setPermissions env p).run.Calls fun c => ReadOnly c ∨ Edits p c := by
    unfold setPermissions
    cases v.kind with
    | userSession => trivial
    | system => exact calls_orUnsafe (calls_setFdPermissions (.inl trivial) (.inl trivial)
        (fun _ _ => .inr rfl) (.inr rfl))
  refine Guarded.of_calls (Working.stable hp.root_prefix hp.ne_root) hcalls (fun c x hc hx => ?_) hx
  rcases hc with hc | hc
  · exact ⟨guar_readOnly hc, hx.readOnly hc⟩
  · exact hx.edits hp hc

/-- A call by path is one on the file system. -/
theorem exec_of_act {a : c.Value} (h : ∀ p, ¬ Shared.OnFd p c) (hr : (v.act sys i c x).1 = .ok a) :
    exec (sys i) c x.world.files = (.ok a, (v.act sys i c x).2.world.files) := by
  have hfd : ∀ p, Shared.OnFd p c → x.world.fds i p = .path p := fun p hp => absurd hp (h p)
  exact Prod.ext ((Shared.call_eq_exec hfd).1.symm.trans hr) (Shared.call_eq_exec hfd).2.symm

/-- What is noted of a call that succeeds. -/
theorem ghost_of_ok {a : c.Value} (hr : (v.act sys i c x).1 = .ok a) :
    (v.act sys i c x).2.ghost = v.note i c (.ok a) x.ghost := by
  have h : (Shared.call (sys i) i c x.world).1 = .ok a := hr
  change v.note i c (Shared.call (sys i) i c x.world).1 x.ghost = _
  rw [h]

/-- The lock is released, which does not change the vault. -/
theorem does_release {P : Prop} (hinv : v.Inv env calls w x) (hh : x.ghost.holder = some i)
    (ho : i ∈ x.ghost.order ↔ P) :
    v.Does env calls sys w i (fun _ x => i ∈ x.ghost.order ↔ P) (ignore (.unlink v.lock)) x := by
  refine does_ignore (J := fun x => v.Inv env calls w x ∧ x.ghost.holder = some i ∧
    (i ∈ x.ghost.order ↔ P)) ?_ ⟨hinv, hh, ho⟩ ?_
  · exact fun x x' h hx => ⟨h.inv hx.1, h.holder.2 hx.2.1, h.order.trans hx.2.2⟩
  rintro x ⟨hinv, hh, ho⟩
  cases hr : (v.act sys i (.unlink v.lock) x).1 with
  | error e =>
    refine ⟨guar_error hr, ?_⟩
    rw [(act_error hr).2]
    exact ho
  | ok a =>
    have hg : (v.act sys i (.unlink v.lock) x).2.ghost = { x.ghost with holder := none } := by
      rw [ghost_of_ok hr]
      simp [note, Except.isOk, Except.toBool]
    obtain ⟨n, -, -, hs, -⟩ := exec_unlink (exec_of_act (fun _ => id) hr)
    have hfile := hs.of_ne (q := v.file) file_ne_lock
    refine ⟨guar_of_holder (fun j hj => ?_) lock_ne_root trivial (hs.of_ne lock_ne_root.symm)
      (fun h => ⟨?_, ?_, ?_, ?_⟩) fun _ => .inl hfile, ?_⟩
    · rw [hh]
      exact fun he => hj (Option.some.inj he).symm
    · rw [hg]
      exact fun h => absurd rfl h
    · rw [hg]
      exact h.nodup
    · rw [hg]
      exact h.changes
    · rw [hg, bytes_congr hfile]
      exact h.serial
    · rw [hg]
      exact ho

/-- A free lock is taken by the process that makes its file. -/
theorem Outside.createLock {mode : ℕ} {a : Unit} (h : v.Outside env calls w i x)
    (hdir : x.world.files.IsDir v.root) (hr : (v.act sys i (.createNew v.lock mode) x).1 = .ok a) :
    v.Guar env calls w i x (v.act sys i (.createNew v.lock mode) x).2 ∧
      v.Working env calls w i (v.bytes x.world.files) v.lock
        (v.act sys i (.createNew v.lock mode) x).2 := by
  have hg : (v.act sys i (.createNew v.lock mode) x).2.ghost =
      { x.ghost with holder := some i } := by
    rw [ghost_of_ok hr]
    simp [note, Except.isOk, Except.toBool]
  obtain ⟨hnone, -, hs, -⟩ := exec_createNew (exec_of_act (fun _ => id) hr)
  have hfree : x.ghost.holder = none := by
    by_contra hh
    have := h.inv.lock hh
    simp [hnone] at this
  have hfile := hs.of_ne (q := v.file) file_ne_lock
  have hroot := hs.of_ne (q := v.root) lock_ne_root.symm
  have hsome : ((v.act sys i (.createNew v.lock mode) x).2.world.files.get v.lock).isSome := by
    rw [hs.self]
    rfl
  have hinv : v.Inv env calls w (v.act sys i (.createNew v.lock mode) x).2 := by
    refine ⟨fun _ => hsome, ?_, ?_, ?_⟩
    · rw [hg]
      exact h.inv.nodup
    · rw [hg]
      exact h.inv.changes
    · rw [hg, bytes_congr hfile]
      exact h.inv.serial
  refine ⟨guar_of_holder (fun j hj => ?_) trivial trivial hroot (fun _ => hinv)
    fun _ => .inl hfile, ⟨⟨⟨hinv, ?_, Shared.fds_call_path h.root trivial⟩, ?_,
      (isDir_congr hroot).2 hdir, bytes_congr hfile⟩, ?_, hsome⟩⟩
  · rw [hfree]
    exact fun h => by cases h
  · rw [hg]
    exact h.order
  · rw [hg]
  · have hx : (exec (sys i) (.createNew v.lock mode) x.world.files).1 = .ok a := by
      rw [exec_of_act (fun _ => id) hr]
    change (Shared.call (sys i) i (.createNew v.lock mode) x.world).2.fds i v.lock = _
    simp [Shared.call, Shared.andThen, hx, Shared.opens]

theorem own_lock : v.Own v.lock := .inl rfl

theorem own_temporary {suffix : List UInt8} : v.Own (v.temporary suffix) := .inr ⟨suffix, rfl⟩

omit [DecidableEq ι] in
theorem Working.stable_own {p : Path} (hp : v.Own p) :
    Stable (v.Rely env calls w i) (v.Working env calls w i b p) :=
  Working.stable hp.root_prefix hp.ne_root

theorem does_secureLock (hx : v.Working env calls w i b v.lock x) :
    v.Does env calls sys w i (fun r x => match r with
      | .ok _ => v.Inside env calls w i b x
      | .error _ => i ∉ x.ghost.order) (v.secureLock env).run x := by
  have hJ : Stable (v.Rely env calls w i) (v.Working env calls w i b v.lock) :=
    Working.stable_own own_lock
  have hk : v.Keeps sys i (v.Working env calls w i b v.lock) := fun _ _ hc h => h.readOnly hc
  refine Guarded.bindE (does_setPermissions own_lock hx) ?_ fun e x hx => hx.order
  intro _ x hx
  refine Guarded.bindE (does_looks hJ hk (calls_io.2 trivial) hx) ?_ fun e x hx => hx.order
  intro m x hx
  refine Guarded.liftE (does_looks hJ hk (calls_isOwnerValid trivial) hx) ?_
  intro owner x hx
  split_ifs
  · refine Guarded.liftE (does_release (P := False) hx.inv hx.holder (iff_false_intro hx.order)) ?_
    exact fun _ x hx => hx.1
  · refine Guarded.mono (does_looks hJ hk (calls_io.2 trivial) hx) fun r x hx => ?_
    cases r with
    | ok _ => exact hx.toInside
    | error e => exact hx.order

/-- Before it has the lock, and having seen the directory. -/
structure Ready (env : Env) (v : Vault) (calls : ι → Call) (w : Files) (i : ι) (x : World ι) :
    Prop extends Outside env v calls w i x where
  dir : x.world.files.IsDir v.root

omit [DecidableEq ι] in
theorem Ready.stable : Stable (v.Rely env calls w i) (v.Ready env calls w i) :=
  fun x x' h hx => ⟨Outside.stable x x' h hx.toOutside, h.dir hx.dir⟩

theorem Ready.keeps : v.Keeps sys i (v.Ready env calls w i) := fun _ _ hc h =>
  ⟨h.toOutside.readOnly hc, by rw [files_act_readOnly hc]; exact h.dir⟩

theorem does_tryLock (retries : ℕ) (hx : v.Ready env calls w i x) :
    v.Does env calls sys w i (fun r x => match r with
      | .ok _ => ∃ b, v.Inside env calls w i b x
      | .error _ => i ∉ x.ghost.order) (v.tryLock env retries).run x := by
  -- the file is made, or nothing happens
  have attempt : ∀ {x}, v.Ready env calls w i x → v.Does env calls sys w i
      (Post (fun _ x => ∃ b, v.Working env calls w i b v.lock x)
        fun _ x => v.Ready env calls w i x)
      (reply (.createNew v.lock v.kind.fileMode : FileCall)) x := by
    intro x hx
    refine Guarded.call Ready.stable hx fun x hx => ?_
    cases hr : (v.act sys i (.createNew v.lock v.kind.fileMode) x).1 with
    | ok a =>
      obtain ⟨hg, hw⟩ := hx.createLock hx.dir hr
      exact ⟨hg, _, hw⟩
    | error e =>
      obtain ⟨hw, hg⟩ := act_error hr
      exact ⟨guar_error hr, hx.toOutside.congr hw hg, by rw [hw]; exact hx.dir⟩
  have secured : ∀ {x}, (∃ b, v.Working env calls w i b v.lock x) →
      v.Does env calls sys w i (fun r x => match r with
        | .ok _ => ∃ b, v.Inside env calls w i b x
        | .error _ => i ∉ x.ghost.order) (v.secureLock env).run x := by
    rintro x ⟨b, hx⟩
    refine (does_secureLock hx).mono fun r x h => ?_
    cases r with
    | ok _ => exact ⟨b, h⟩
    | error e => exact h
  induction retries generalizing x with
  | zero =>
    unfold tryLock
    refine Guarded.liftE (attempt hx) fun r x hx => ?_
    rcases r with e | _
    · cases e <;> exact Outside.order hx.toOutside
    · exact secured hx
  | succ n ih =>
    unfold tryLock
    refine Guarded.liftE (attempt hx) fun r x hx => ?_
    rcases r with e | _
    · cases e with
      | alreadyExists => exact ih hx
      | notFound => exact Outside.order hx.toOutside
      | other => exact Outside.order hx.toOutside
    · exact secured hx

theorem does_validateDirectory (hx : v.Outside env calls w i x) :
    v.Does env calls sys w i (fun r x => match r with
      | .ok _ => v.Ready env calls w i x
      | .error _ => i ∉ x.ghost.order) (v.validateDirectory env).run x := by
  refine Guarded.bindE (Q := fun r x => v.Outside env calls w i x ∧
      ∀ m, r = .ok m → m.kind = .dir → x.world.files.IsDir v.root)
    (does_look (c := .lstat v.root) trivial Outside.stable hx
      (fun x m hx hm => ⟨hx.readOnly trivial, ?_⟩)
      fun x e hx _ => ⟨hx.readOnly trivial, fun _ h => by cases h⟩) ?_ fun e x hx => hx.1.order
  · rintro _ ⟨⟩ hd
    have hx' := exec_of_act (fun _ => id) hm
    obtain ⟨n, hn, rfl⟩ := Replies.lstat (G := fun _ => False) (.inl (congrArg Prod.fst hx'))
    rw [files_act_readOnly (c := .lstat v.root) trivial]
    exact ⟨n, hn, hd⟩
  rintro m x ⟨hx, hm⟩
  split_ifs with hk
  · exact hx.order
  have hready : v.Ready env calls w i x := ⟨hx, hm m rfl (not_not.1 hk)⟩
  refine Guarded.liftE (does_looks Ready.stable Ready.keeps (calls_isOwnerValid trivial) hready) ?_
  intro owner x hx
  split_ifs
  · exact hx.order
  · exact hx

theorem does_acquire (retries : ℕ) (hx : v.Outside env calls w i x) :
    v.Does env calls sys w i (fun r x => match r with
      | .ok _ => ∃ b, v.Inside env calls w i b x
      | .error _ => i ∉ x.ghost.order) (v.acquire env retries).run x :=
  Guarded.bindE (does_validateDirectory hx) (fun _ _ hx => does_tryLock retries hx)
    fun _ _ h => h

/-! ## The change -/

theorem temporary_not_above {suffix : List UInt8} : ¬ v.temporary suffix <+: v.root :=
  child_not_above v.root _

theorem temporary_not_above_file {suffix : List UInt8} : ¬ v.temporary suffix <+: v.file :=
  sibling_not_above (by simp) v.root []

/-- The call that replaces or removes the vault file. -/
def Takes (v : Vault) : FileCall → Prop
  | .unlink p => p = v.file
  | .rename p q => (∃ suffix, p = v.temporary suffix) ∧ q = v.file
  | _ => False

/-- An operation takes effect in one call. -/
theorem Inside.change {a : c.Value} (h : v.Inside env calls w i b x) (hc : v.Takes c)
    (hr : (v.act sys i c x).1 = .ok a) (hch : (calls i).Changes)
    (happly : (calls i).apply env v b = .ok (v.bytes (v.act sys i c x).2.world.files)) :
    v.Guar env calls w i x (v.act sys i c x).2 ∧ v.Changed env calls w i (v.act sys i c x).2 := by
  have hg : (v.act sys i c x).2.ghost = { x.ghost with order := x.ghost.order ++ [i] } := by
    rw [ghost_of_ok hr]
    cases c with
    | unlink p =>
      cases hc
      simp [note, Except.isOk, Except.toBool]
    | rename p q =>
      obtain ⟨-, rfl⟩ := hc
      simp [note, Except.isOk, Except.toBool]
    | _ => exact hc.elim
  have hleaves : Shared.Leaves v.root c := by
    cases c with
    | unlink p =>
      cases hc
      exact file_ne_root
    | rename p q =>
      obtain ⟨⟨suffix, rfl⟩, rfl⟩ := hc
      exact ⟨temporary_not_above, file_ne_root⟩
    | _ => exact hc.elim
  have hspares : x.world.Spares i v.file c := by
    cases c with
    | rename p q =>
      obtain ⟨⟨suffix, rfl⟩, rfl⟩ := hc
      exact ⟨temporary_not_above_file, .inl rfl⟩
    | unlink p => trivial
    | _ => exact hc.elim
  have hget : ∀ q, q = v.root ∨ q = v.lock →
      (v.act sys i c x).2.world.files.get q = x.world.files.get q := by
    intro q hq
    have hx := exec_of_act (fun p => by cases c <;> first | exact hc.elim | exact id) hr
    have hfiles : (v.act sys i c x).2.world.files = (exec (sys i) c x.world.files).2 := by rw [hx]
    rw [hfiles]
    refine get_exec_of_not_touches ?_
    cases c with
    | unlink p =>
      cases hc
      rcases hq with rfl | rfl
      · exact file_ne_root.symm
      · exact file_ne_lock.symm
    | rename p r =>
      obtain ⟨⟨suffix, rfl⟩, rfl⟩ := hc
      rcases hq with rfl | rfl
      · exact not_or.2 ⟨temporary_not_above, child_not_above v.root _⟩
      · exact not_or.2 ⟨sibling_not_above (by simp) v.root [], sibling_not_above (by simp) v.root []⟩
    | _ => exact hc.elim
  have hinv : v.Inv env calls w (v.act sys i c x).2 := by
    refine ⟨?_, ?_, ?_, ?_⟩
    · rw [hg, hget _ (.inr rfl)]
      exact h.inv.lock
    · rw [hg]
      exact List.nodup_append.2 ⟨h.inv.nodup, List.nodup_singleton _, fun j hj k hk hjk =>
        h.order (by rwa [← List.mem_singleton.1 hk, ← hjk])⟩
    · rw [hg]
      intro j hj
      rcases List.mem_append.1 hj with hj | hj
      · exact h.inv.changes j hj
      · rw [List.mem_singleton.1 hj]
        exact hch
    · rw [hg]
      exact serially_append h.inv.serial (by rw [h.content]; exact happly)
  refine ⟨guar_of_holder (fun j hj => ?_) hleaves hspares (hget _ (.inl rfl)) (fun _ => hinv)
    fun _ => .inr (by rw [h.content]; exact happly), hinv, ?_, Shared.fds_call_path h.root hleaves,
    ?_, (isDir_congr (hget _ (.inl rfl))).2 h.dir⟩
  · rw [h.holder]
    exact fun he => hj (Option.some.inj he).symm
  · rw [hg]
    simp
  · rw [hg]
    exact h.holder

/-- With the lock, and the temporary file written. -/
structure Written (env : Env) (v : Vault) (calls : ι → Call) (w : Files) (i : ι)
    (b : Option (List UInt8)) (suffix bytes : List UInt8) (x : World ι) : Prop
    extends Inside env v calls w i b x where
  data : (x.world.files.get (v.temporary suffix)).map Node.data = some bytes

omit [DecidableEq ι] in
theorem Written.stable {suffix bytes : List UInt8} :
    Stable (v.Rely env calls w i) (v.Written env calls w i b suffix bytes) :=
  fun x x' h hx => ⟨Inside.stable x x' h hx.toInside,
    by rw [h.get hx.holder _ own_temporary.root_prefix temporary_ne_root]; exact hx.data⟩

theorem Written.keeps {suffix bytes : List UInt8} :
    v.Keeps sys i (v.Written env calls w i b suffix bytes) := fun _ _ hc h =>
  ⟨h.toInside.readOnly hc, by rw [files_act_readOnly hc]; exact h.data⟩

theorem Inside.createTemporary {suffix : List UInt8} {mode : ℕ} {a : Unit}
    (h : v.Inside env calls w i b x)
    (hr : (v.act sys i (.createNew (v.temporary suffix) mode) x).1 = .ok a) :
    v.Guar env calls w i x (v.act sys i (.createNew (v.temporary suffix) mode) x).2 ∧
      v.Working env calls w i b (v.temporary suffix)
        (v.act sys i (.createNew (v.temporary suffix) mode) x).2 := by
  obtain ⟨-, -, hs, -⟩ := exec_createNew (exec_of_act (fun _ => id) hr)
  have hlock : ((v.act sys i (.createNew (v.temporary suffix) mode) x).2.world.files.get
      v.lock).isSome = (x.world.files.get v.lock).isSome := by
    rw [hs.of_ne temporary_ne_lock.symm]
  obtain ⟨hg, hi⟩ := h.act (c := .createNew (v.temporary suffix) mode) trivial
    temporary_ne_lock trivial (hs.of_ne temporary_ne_root.symm) (hs.of_ne temporary_ne_file.symm)
    hlock
  refine ⟨hg, hi, ?_, by rw [hs.self]; rfl⟩
  have hx : (exec (sys i) (.createNew (v.temporary suffix) mode) x.world.files).1 = .ok a := by
    rw [exec_of_act (fun _ => id) hr]
  change (Shared.call (sys i) i (.createNew (v.temporary suffix) mode) x.world).2.fds i _ = _
  simp [Shared.call, Shared.andThen, hx, Shared.opens]

theorem Working.write {suffix bytes : List UInt8}
    (h : v.Working env calls w i b (v.temporary suffix) x) :
    v.Guar env calls w i x (v.act sys i (.write (v.temporary suffix) bytes) x).2 ∧
      v.Written env calls w i b suffix bytes
        (v.act sys i (.write (v.temporary suffix) bytes) x).2 := by
  have hedits : Edits (v.temporary suffix) (.write (v.temporary suffix) bytes) := rfl
  refine ⟨(h.edits own_temporary hedits).1, (h.edits own_temporary hedits).2.toInside, ?_⟩
  have hfiles : (v.act sys i (.write (v.temporary suffix) bytes) x).2.world.files =
      (exec (sys i) (.write (v.temporary suffix) bytes) x.world.files).2 := by
    refine (Shared.call_eq_exec fun q hq => ?_).2
    cases hq
    exact h.fd
  obtain ⟨n, hn⟩ := Option.isSome_iff_exists.1 h.exist
  rw [hfiles]
  simp only [exec, hn]
  refine (congrArg (Option.map Node.data) (get_put x.world.files _ _ _)).trans ?_
  simp

/-- The vault file is replaced by the last call, or not at all. -/
theorem does_replaceFile {bytes suffix : List UInt8} {key : MasterKey}
    (hx : v.Inside env calls w i b x) (hch : (calls i).Changes)
    (happly : (calls i).apply env v b = .ok (some bytes)) :
    v.Does env calls sys w i (fun r x => match r with
      | .ok _ => v.Changed env calls w i x
      | .error _ => v.Inside env calls w i b x) (v.replaceFile env bytes key suffix).run x := by
  refine does_act Inside.stable hx (fun x _ hx hr => ?_) fun x x' e hx hw hg => hx.congr hw hg
  obtain ⟨hg, hx⟩ := hx.createTemporary hr
  refine ⟨hg, Guarded.bindE (does_setPermissions own_temporary hx) ?_ fun e x hx => hx.toInside⟩
  intro _ x hx
  refine does_act (Working.stable_own own_temporary) hx (fun x _ hx hr => ?_)
    fun x x' e hx hw hg => hx.toInside.congr hw hg
  refine ⟨hx.write.1, Guarded.bindE (does_looks Written.stable Written.keeps
    (calls_io.2 trivial) hx.write.2) ?_ fun e x hx => hx.toInside⟩
  intro _ x hx
  refine Guarded.bindE (does_looks Written.stable Written.keeps
    ((looks_readSecureFile temporary_ne_root).mono fun _ h => h.1) hx) ?_ fun e x hx => hx.toInside
  intro verified x hx
  refine Guarded.bindE (does_looks Written.stable Written.keeps (p := (v.decode env verified key).run)
    trivial hx) ?_ fun e x hx => hx.toInside
  intro profile x hx
  refine does_io Written.stable hx fun x hx => ?_
  cases hr : (v.act sys i (.rename (v.temporary suffix) v.file) x).1 with
  | error e =>
    refine ⟨guar_error hr, fun a ha => (by cases ha), ?_⟩
    rintro _ ⟨⟩
    exact hx.toInside.congr (act_error hr).1 (act_error hr).2
  | ok a =>
    obtain ⟨n, hn, -, -, hm⟩ := exec_rename (exec_of_act (fun _ => id) hr)
    obtain ⟨hg, hc⟩ := hx.toInside.change (c := .rename (v.temporary suffix) v.file)
      ⟨⟨suffix, rfl⟩, rfl⟩ hr hch (by rw [happly, Vault.bytes, hm.target, hx.data])
    refine ⟨hg, ?_, fun e he => by cases he⟩
    rintro _ ⟨⟩
    exact hc

theorem does_writeVerified {bytes suffix : List UInt8} {key : MasterKey}
    (hx : v.Inside env calls w i b x) (hch : (calls i).Changes)
    (happly : (calls i).apply env v b = .ok (some bytes)) :
    v.Does env calls sys w i (fun r x => match r with
      | .ok _ => v.Changed env calls w i x
      | .error _ => v.Inside env calls w i b x) (v.writeVerified env bytes key suffix).run x := by
  unfold writeVerified
  split_ifs
  · exact hx
  refine Guarded.bindE (does_looks Inside.stable Inside.keeps (calls_io.2 trivial) hx) ?_
    fun e x hx => hx
  intro _ x hx
  refine Guarded.after (does_replaceFile hx hch happly) fun r x hx => ?_
  cases r with
  | ok _ => exact hx
  | error e =>
    refine does_ignore Inside.stable hx fun x hx => ?_
    cases hr : (v.act sys i (.unlink (v.temporary suffix)) x).1 with
    | error e => exact ⟨guar_error hr, hx.congr (act_error hr).1 (act_error hr).2⟩
    | ok a =>
      obtain ⟨-, -, -, hs, -⟩ := exec_unlink (exec_of_act (fun _ => id) hr)
      exact hx.act temporary_ne_root (not_or.2 ⟨temporary_ne_lock, temporary_ne_file⟩) trivial
        (hs.of_ne temporary_ne_root.symm) (hs.of_ne temporary_ne_file.symm)
        (by rw [hs.of_ne temporary_ne_lock.symm])

theorem does_writeProfile {profile : Profile} {key : MasterKey} {draws : Draws}
    (hx : v.Inside env calls w i b x) (hch : (calls i).Changes)
    (happly : (calls i).apply env v b =
      (encodeVault env.crypto profile key v.uid draws.nonce).map some) :
    v.Does env calls sys w i (fun r x => match r with
      | .ok _ => v.Changed env calls w i x
      | .error _ => v.Inside env calls w i b x) (v.writeProfile env profile key draws).run x := by
  refine Guarded.bindE (does_looks Inside.stable Inside.keeps (calls_io.2 trivial) hx) ?_
    fun e x hx => hx
  intro _ x hx
  cases he : encodeVault env.crypto profile key v.uid draws.nonce with
  | error e => exact hx
  | ok encoded =>
    rw [he] at happly
    exact does_writeVerified hx hch happly

/-- With the lock, what is read is the vault as it is. -/
theorem does_readFile_inside (hx : v.Inside env calls w i b x) :
    v.Does env calls sys w i (fun r x => v.Inside env calls w i b x ∧
      ∀ bytes, r = .ok bytes → b = some bytes) (v.readSecureFile env v.file).run x := by
  refine Guarded.mono (does_readFile Inside.stable Inside.keeps hx) fun r x hx => ⟨hx.1, ?_⟩
  intro bytes hr
  obtain ⟨x₀, h₀, -, hb⟩ := hx.2 bytes hr
  exact h₀.content.symm.trans hb

theorem does_decode {bytes : List UInt8} {key : MasterKey} (hx : v.Inside env calls w i b x) :
    v.Does env calls sys w i (fun r x => v.Inside env calls w i b x ∧
      r = decodeVault env.crypto bytes key v.uid) (v.decode env bytes key).run x :=
  ⟨hx, rfl⟩

theorem does_checkExisting {key : MasterKey} (hx : v.Inside env calls w i b x) :
    v.Does env calls sys w i (fun r x => v.Inside env calls w i b x ∧ (r.isOk →
      ∀ bytes, b = some bytes → ∃ profile, decodeVault env.crypto bytes key v.uid = .ok profile))
      (v.checkExisting env key).run x := by
  refine Guarded.bindE (Q := fun r x => v.Inside env calls w i b x ∧
      ∀ found, r = .ok found → found = b.isSome)
    (does_look (c := .pathExists v.file) trivial Inside.stable hx (fun x found hx hr => ?_)
      fun x e hx _ => ⟨hx.readOnly trivial, fun _ h => by cases h⟩) ?_
    fun e x hx => ⟨hx.1, fun h => by cases h⟩
  · refine ⟨hx.readOnly trivial, ?_⟩
    rintro _ ⟨⟩
    have he := congrArg Prod.fst (exec_of_act (c := .pathExists v.file) (fun _ => id) hr)
    have hf : (x.world.files.get v.file).isSome = found := by simpa [exec] using he
    rw [← hx.content, Vault.bytes, Option.isSome_map, hf]
  rintro found x ⟨hx, hfound⟩
  have hb : found = b.isSome := hfound found rfl
  split_ifs with hf
  · refine Guarded.bindE (does_readFile_inside hx) ?_ fun e x hx => ⟨hx.1, fun h => by cases h⟩
    rintro existing x ⟨hx, hread⟩
    obtain rfl := hread existing rfl
    refine Guarded.bindE (does_decode hx) ?_ fun e x hx => ⟨hx.1, fun h => by cases h⟩
    rintro profile x ⟨hx, hdec⟩
    refine ⟨hx, fun _ bytes hbytes => ⟨profile, ?_⟩⟩
    cases hbytes
    exact hdec.symm
  · refine ⟨hx, fun _ bytes hbytes => ?_⟩
    rw [hbytes] at hb
    exact absurd hb hf

theorem does_unlinkFile {conv : IoError → VaultError} (hx : v.Inside env calls w i b x)
    (hch : (calls i).Changes)
    (happly : ∀ bytes, b = some bytes → (calls i).apply env v b = .ok none) :
    v.Does env calls sys w i (fun (r : Except VaultError Unit) x => match r with
      | .ok _ => v.Changed env calls w i x
      | .error _ => v.Inside env calls w i b x) (io conv (.unlink v.file)).run x := by
  refine does_io Inside.stable hx fun x hx => ?_
  cases hr : (v.act sys i (.unlink v.file) x).1 with
  | error e =>
    refine ⟨guar_error hr, fun a ha => (by cases ha), ?_⟩
    rintro _ ⟨⟩
    exact hx.congr (act_error hr).1 (act_error hr).2
  | ok a =>
    obtain ⟨n, hn, -, hs, -⟩ := exec_unlink (exec_of_act (fun _ => id) hr)
    have hb : b = some n.data := by rw [← hx.content, Vault.bytes, hn]; rfl
    obtain ⟨hg, hc⟩ := hx.change (c := .unlink v.file) rfl hr hch (by
      rw [happly _ hb, Vault.bytes, hs.self]
      rfl)
    refine ⟨hg, ?_, fun e he => by cases he⟩
    rintro _ ⟨⟩
    exact hc

/-- With the lock, the whole change is made, or nothing. -/
theorem does_change {retries : ℕ} {draws : Draws} {change : Change}
    (hcall : calls i = .change retries draws change) (hx : v.Inside env calls w i b x) :
    v.Does env calls sys w i (fun r x => match r with
      | .ok _ => v.Changed env calls w i x
      | .error _ => v.Inside env calls w i b x) (v.change env draws change).run x := by
  have hch : (calls i).Changes := by
    rw [hcall]
    trivial
  have happly : (calls i).apply env v b = change.apply env v draws b := by
    rw [hcall]
    rfl
  cases change with
  | commit key profile =>
    refine Guarded.bindE (does_checkExisting hx) ?_ fun e x hx => hx.1
    rintro _ x ⟨hx, hdec⟩
    refine does_writeProfile hx hch ?_
    rw [happly]
    cases b with
    | none => rfl
    | some bytes =>
      obtain ⟨existing, he⟩ := hdec rfl bytes rfl
      simp only [Change.apply, he]
      rfl
  | rotate old new =>
    refine Guarded.bindE (does_readFile_inside hx) ?_ fun e x hx => hx.1
    rintro bytes x ⟨hx, hread⟩
    obtain rfl := hread bytes rfl
    refine Guarded.bindE (does_decode hx) ?_ fun e x hx => hx.1
    rintro profile x ⟨hx, hdec⟩
    refine does_writeProfile hx hch ?_
    rw [happly]
    simp only [Change.apply, ← hdec]
    rfl
  | delete key =>
    refine Guarded.bindE (does_readFile_inside hx) ?_ fun e x hx => hx.1
    rintro bytes x ⟨hx, hread⟩
    obtain rfl := hread bytes rfl
    refine Guarded.bindE (does_decode hx) ?_ fun e x hx => hx.1
    rintro profile x ⟨hx, hdec⟩
    refine does_unlinkFile hx hch fun _ _ => ?_
    rw [happly]
    simp only [Change.apply, ← hdec]
    rfl
  | reset =>
    refine Guarded.bindE (does_looks Inside.stable Inside.keeps
      (looks_validateSecurePath.mono fun _ h => h.1) hx) ?_ fun e x hx => hx
    intro _ x hx
    refine does_unlinkFile hx hch fun bytes hb => ?_
    rw [happly, hb]
    rfl

/-! ## Whole calls -/

theorem does_syncDirectory (hx : v.Changed env calls w i x) :
    v.Does env calls sys w i (fun r x => r = .ok () ∧ v.Changed env calls w i x)
      v.syncDirectory.run x := by
  refine Guarded.bindE (Q := fun r x => v.Changed env calls w i x ∧ ∀ e, r ≠ .error e)
    (does_look (c := .openFile v.root) trivial Changed.stable hx
      (fun x _ hx _ => ⟨hx.readOnly trivial, nofun⟩) fun x e hx hr => ?_) ?_
    fun e x hx => absurd rfl (hx.2 e)
  · obtain ⟨n, hn, hk⟩ := hx.dir
    have he : (exec (sys i) (.openFile v.root) x.world.files).1 = .error e :=
      Shared.andThen_eq.1.symm.trans hr
    simp [exec, hn, hk] at he
  rintro _ x ⟨hx, -⟩
  refine does_look (c := .fsync v.root) trivial Changed.stable hx
    (fun x _ hx _ => ⟨rfl, hx.readOnly trivial⟩) fun x e hx hr => ?_
  obtain ⟨n, hn, hk⟩ := hx.dir
  have he : (exec (sys i) (.fsync v.root) x.world.files).1 = .error e := by
    refine (Shared.call_eq_exec fun q hq => ?_).1.symm.trans hr
    cases hq
    exact hx.root
  simp [exec, hn] at he

/-- A call that makes the directory or looks at it. -/
theorem Outside.prepares (h : v.Outside env calls w i x) (hc : v.Prepares c) :
    v.Guar env calls w i x (v.act sys i c x).2 ∧
      v.Outside env calls w i (v.act sys i c x).2 := by
  by_cases hro : ReadOnly c
  · exact ⟨guar_readOnly hro, h.readOnly hro⟩
  have hfiles : (v.act sys i c x).2.world.files = (exec (sys i) c x.world.files).2 := by
    refine (Shared.call_eq_exec fun q hq => ?_).2
    cases c with
    | chown p uid gid | chmod p mode =>
      cases hc
      cases hq
      exact h.root
    | mkdir p mode => exact hq.elim
    | _ => exact absurd hc.1 hro
  have hleaves : Shared.Leaves v.root c := by
    cases c <;> first | trivial | exact absurd hc.1 hro
  have htells : ¬ v.Tells c := by
    cases c <;> first | exact id | exact absurd hc.1 hro
  have hget : ∀ q, v.root <+: q → q ≠ v.root →
      (v.act sys i c x).2.world.files.get q = x.world.files.get q := by
    intro q hq hne
    rw [hfiles]
    refine get_exec_of_not_touches fun ht => hne ?_
    exact (hc.allowed.1 q ht).eq_of_length_le hq.length_le
  have hdir : x.world.files.IsDir v.root → (v.act sys i c x).2.world.files.IsDir v.root := by
    rintro ⟨n, hn, hk⟩
    rw [hfiles]
    cases c with
    | mkdir p mode =>
      by_cases hp : v.root = p
      · -- the directory exists, and is not made again
        subst hp
        exact ⟨n, by simp [exec, create, hn], hk⟩
      · exact ⟨n, by rw [get_exec_of_not_touches (c := .mkdir p mode) hp, hn], hk⟩
    | chown p uid gid =>
      cases hc
      exact ⟨{ n with uid := uid.getD n.uid, gid }, by simp [exec, update, hn, get_put], hk⟩
    | chmod p mode =>
      cases hc
      exact ⟨{ n with mode }, by simp [exec, update, hn, get_put], hk⟩
    | _ => exact absurd hc.1 hro
  have hg : v.Guar env calls w i x (v.act sys i c x).2 := by
    refine guar_of_frame ?_ htells ?_ hdir hget
    · cases c <;> first | trivial | exact absurd hc.1 hro
    · cases c <;> first | trivial | exact absurd hc.1 hro
  refine ⟨hg, hg.inv h.inv, ?_, Shared.fds_call_path h.root hleaves⟩
  have hghost : (v.act sys i c x).2.ghost = x.ghost := note_of_not_tells htells
  rw [hghost]
  exact h.order

/-- An operation that is successful has taken effect, and a failed one has not. -/
theorem does_operate {retries : ℕ} {draws : Draws} {change : Change}
    (hcall : calls i = .change retries draws change) (hx : v.Outside env calls w i x) :
    v.Does env calls sys w i (fun r x => match r with
      | .ok _ => i ∈ x.ghost.order
      | .error _ => i ∉ x.ghost.order) (v.operate env retries draws change).run x := by
  refine Guarded.bindE (Guarded.of_calls Outside.stable (prepares_prepare change)
    (fun c x hc hx => hx.prepares hc) hx) ?_ fun e x hx => hx.order
  intro _ x hx
  refine Guarded.bindE (does_acquire retries hx) ?_ fun e x hx => hx
  rintro _ x ⟨b, hx⟩
  refine Guarded.after (Q := fun r x => v.Inv env calls w x ∧ x.ghost.holder = some i ∧
      (i ∈ x.ghost.order ↔ r.isOk)) ?_ fun r x hx => ?_
  · refine Guarded.bindE (does_change hcall hx) ?_
      fun e x hx => ⟨hx.inv, hx.holder, iff_of_false hx.order nofun⟩
    intro _ x hx
    refine Guarded.mono (does_syncDirectory hx) fun r x hx => ?_
    obtain ⟨rfl, hx⟩ := hx
    exact ⟨hx.inv, hx.holder, iff_of_true hx.order rfl⟩
  · refine Guarded.mono (does_release hx.1 hx.2.1 hx.2.2) fun _ x hx => ?_
    cases r with
    | ok _ => exact hx.2 rfl
    | error e => exact fun ho => absurd (hx.1 ho) nofun

/-- A profile that is read was the vault at some call of the process. -/
theorem does_openProfile {key : MasterKey} :
    v.Does env calls sys w i (fun r x => ∀ profile, r = .ok profile → ∃ bytes,
      v.Was i (fun _ => True) bytes x ∧ decodeVault env.crypto bytes key v.uid = .ok profile)
      (v.openProfile env key).run x := by
  have hJ : Stable (v.Rely env calls w i) fun _ => True := fun _ _ _ _ => trivial
  have hk : v.Keeps sys i fun _ : World ι => True := fun _ _ _ _ => trivial
  refine Guarded.bindE (Q := fun r x => ∀ profile digest, r = .ok (profile, digest) → ∃ bytes,
      v.Was i (fun _ => True) bytes x ∧ decodeVault env.crypto bytes key v.uid = .ok profile) ?_ ?_
    fun e x _ _ h => by cases h
  · refine Guarded.bindE (does_looks hJ hk (looks_validateDirectory.mono fun _ h => h.1) trivial) ?_
      fun e x _ _ _ h => by cases h
    intro _ x _
    refine Guarded.bindE (does_readFile hJ hk trivial) ?_ fun e x _ _ _ h => by cases h
    rintro bytes x ⟨-, hwas⟩
    refine Guarded.bindE (Q := fun r x' => x' = x ∧ r = decodeVault env.crypto bytes key v.uid)
      ⟨rfl, rfl⟩ ?_ fun e x _ _ _ h => by cases h
    rintro profile x ⟨rfl, hdec⟩
    cases env.crypto.sha256 bytes with
    | error e => exact fun _ _ h => by cases h
    | ok digest =>
      rintro _ _ ⟨⟩
      exact ⟨bytes, hwas bytes rfl, hdec.symm⟩
  · rintro ⟨profile, digest⟩ x h
    rintro _ ⟨⟩
    exact h profile digest rfl

/-- What a call leaves when it returns. -/
def Returned (env : Env) (v : Vault) (i : ι) (r : Except VaultError (Option Profile))
    (x : World ι) : Call → Prop
  | .change _ _ _ => i ∈ x.ghost.order ↔ r.isOk
  | .openProfile key => ∀ profile, r = .ok (some profile) → ∃ bytes,
      v.Was i (fun _ => True) bytes x ∧ decodeVault env.crypto bytes key v.uid = .ok profile

omit [DecidableEq ι] in
theorem Returned.stable (r : Except VaultError (Option Profile)) (call : Call) :
    Stable (v.Rely env calls w i) fun x => v.Returned env i r x call := by
  intro x x' h hx
  cases call with
  | change retries draws change => exact h.order.trans hx
  | openProfile key =>
    intro profile hr
    obtain ⟨bytes, hwas, hdec⟩ := hx profile hr
    exact ⟨bytes, hwas.rely h, hdec⟩

theorem does_program (hx : v.Outside env calls w i x) :
    v.Does env calls sys w i (fun r x => v.Returned env i r x (calls i))
      ((calls i).program env v).run x := by
  cases hcall : calls i with
  | change retries draws change =>
    refine Guarded.bindE (does_operate hcall hx) (fun _ x hx => iff_of_true hx rfl)
      fun e x hx => iff_of_false hx nofun
  | openProfile key =>
    refine Guarded.bindE does_openProfile (fun profile x hx => ?_) fun e x _ _ h => by cases h
    rintro _ ⟨⟩
    exact hx profile rfl

/-! ## Runs -/

/-- The processes, with their past. -/
def recordedMachine (env : Env) (v : Vault) (calls : ι → Call) (sys : ι → Sys Name) (w : Files) :
    Machine (Processes ι FileCall FsCall.Reply (World ι) (Except VaultError (Option Profile))) ι :=
  Processes.machine (v.act sys) ⟨.ofFiles w, [], ⟨none, []⟩⟩ fun i => ((calls i).program env v).run

omit [DecidableEq ι] in
theorem inv_init : v.Inv env calls w ⟨.ofFiles w, [], ⟨none, []⟩⟩ :=
  ⟨fun h => absurd rfl h, List.nodup_nil, by simp, rfl⟩

section Runs

variable {s s' : Processes ι FileCall FsCall.Reply (World ι) (Except VaultError (Option Profile))}

/-- In every run, what is left of each call does what it should. -/
theorem does_of_reachable (h : (v.recordedMachine env calls sys w).Reachable s) (i : ι) :
    v.Does env calls sys w i (fun r x => v.Returned env i r x (calls i)) (s.rest i) s.world := by
  refine Processes.guarded_of_run (x := v.act sys) (Q := fun i r x => v.Returned env i r x (calls i))
    (fun _ _ => .refl) (fun _ _ _ _ => .trans) (fun _ j _ _ hg hj => hg.rely j hj)
    (fun i r => Returned.stable r (calls i)) (fun i => does_program ⟨inv_init, ?_, rfl⟩) h i
  exact List.not_mem_nil

theorem guar_of_reachable (h : (v.recordedMachine env calls sys w).Reachable s)
    (hs : (v.recordedMachine env calls sys w).step s i = some s') :
    v.Guar env calls w i s.world s'.world :=
  Processes.guarantee_of_guarded (x := v.act sys)
    (Q := fun i r x => v.Returned env i r x (calls i)) (fun _ _ => .refl) (does_of_reachable h i) hs

theorem inv_of_reachable (h : (v.recordedMachine env calls sys w).Reachable s) :
    v.Inv env calls w s.world := by
  induction h with
  | init => exact inv_init
  | step e h hs ih => exact (guar_of_reachable h hs).inv ih

end Runs

/-- However the calls of any number of processes interleave, the operations that
    have changed the vault did so one after the other, among them every one that
    returned successfully and none that failed; a commit replaces only what
    decodes under its key; and a profile that is read was the content of the
    vault at one of the calls of the process. -/
theorem concurrent_operations (env : Env) (v : Vault) (calls : ι → Call) (sys : ι → Sys Name)
    (w : Files) (es : List ι) {s : Processes ι FileCall FsCall.Reply
      (Shared ι Name (List UInt8)) (Except VaultError (Option Profile))}
    (h : (v.machine env calls sys w).run (v.machine env calls sys w).init es = some s) :
    (∃ order : List ι, order.Nodup ∧
      (∀ i ∈ order, (calls i).Changes ∧ ∀ e, s.rest i ≠ .pure (.error e)) ∧
      (∀ i, (calls i).Changes → (∃ r, s.rest i = .pure (.ok r)) → i ∈ order) ∧
      v.serially env calls order (v.bytes w) = .ok (v.bytes s.world.files)) ∧
    (∀ i retries draws key profile, calls i = .change retries draws (.commit key profile) →
      ∀ s', (v.machine env calls sys w).step s i = some s' →
        s'.world.files.get v.file ≠ s.world.files.get v.file →
        ∀ bytes, v.bytes s.world.files = some bytes →
          (decodeVault env.crypto bytes key v.uid).isOk) ∧
    ∀ i key profile, calls i = .openProfile key → s.rest i = .pure (.ok (some profile)) →
      ∃ es₁ es₂ s₁ bytes, es = es₁ ++ i :: es₂ ∧
        (v.machine env calls sys w).run (v.machine env calls sys w).init es₁ = some s₁ ∧
        v.bytes s₁.world.files = some bytes ∧
        decodeVault env.crypto bytes key v.uid = .ok profile := by
  obtain ⟨r, hr, hw, hpast⟩ := Processes.run_recorded (g := v.note) (γ := (⟨none, []⟩ : Ghost ι)) h
  have hreach : (v.recordedMachine env calls sys w).Reachable ⟨r, s.rest⟩ := hr
  have hinv := inv_of_reachable hreach
  have hdoes := does_of_reachable hreach
  refine ⟨⟨r.ghost.order, hinv.nodup, fun i hi => ⟨hinv.changes i hi, fun e he => ?_⟩,
    fun i hc hi => ?_, ?_⟩, ?_, ?_⟩
  · have := hdoes i
    simp only [he] at this
    cases hcall : calls i with
    | change retries draws change =>
      simp only [hcall] at this
      exact absurd (this.1 hi) nofun
    | openProfile key =>
      have hc := hinv.changes i hi
      rw [hcall] at hc
      exact hc
  · obtain ⟨res, hres⟩ := hi
    have := hdoes i
    simp only [hres] at this
    cases hcall : calls i with
    | change retries draws change =>
      simp only [hcall] at this
      exact this.2 rfl
    | openProfile key =>
      rw [hcall] at hc
      exact hc.elim
  · rw [← hw]
    exact hinv.serial
  · intro i retries draws key profile hcall s' hs hne bytes hb
    obtain ⟨c, k, hk, rfl⟩ := Processes.step_eq hs
    have hg := guar_of_reachable (i := i) hreach (Processes.step_of_call (x := v.act sys) hk)
    rcases hg.file hinv with hsame | happly
    · refine absurd ?_ hne
      rw [← hw]
      exact hsame
    · have hb' : v.bytes r.world.files = some bytes := by
        rw [hw]
        exact hb
      simp only [hcall, hb', Call.apply, Change.apply] at happly
      cases hd : decodeVault env.crypto bytes key v.uid with
      | ok profile => rfl
      | error e =>
        rw [hd] at happly
        cases happly
  · intro i key profile hcall hres
    have := hdoes i
    simp only [hres, hcall] at this
    obtain ⟨bytes, ⟨x₀, -, hp, hb⟩, hdec⟩ := this profile rfl
    obtain ⟨es₁, es₂, s₁, he, hrun, hworld⟩ := hpast i x₀.world hp
    exact ⟨es₁, es₂, s₁, bytes, he, hrun, by rw [hworld]; exact hb, hdec⟩

end Processes

/-- Two processes that reset the example at once: the first takes the lock, and
    the second times out on it. -/
def exampleResets : Bool → Call := fun _ => .change 0 ⟨[], []⟩ .reset

def exampleSchedule : List Bool :=
  [true, false, true, false, true, false, true, true, true, true, true, true, true]

theorem concurrent_operations_resets :
    ∃ s, (exampleVault.machine ⟨plainCrypto, none⟩ exampleResets
        (fun _ => .byDepth 1000 1000 0o22) exampleFiles).run (exampleVault.machine
        ⟨plainCrypto, none⟩ exampleResets (fun _ => .byDepth 1000 1000 0o22) exampleFiles).init
        exampleSchedule = some s ∧
      exampleVault.bytes s.world.files = none ∧ ∃ order : List Bool, order.Nodup ∧
        exampleVault.serially ⟨plainCrypto, none⟩ exampleResets order (some [1, 2, 3]) =
          .ok none := by
  obtain ⟨s, hs⟩ := Option.isSome_iff_exists.1 (show ((exampleVault.machine ⟨plainCrypto, none⟩
      exampleResets (fun _ => .byDepth 1000 1000 0o22) exampleFiles).run (exampleVault.machine
      ⟨plainCrypto, none⟩ exampleResets (fun _ => .byDepth 1000 1000 0o22) exampleFiles).init
      exampleSchedule).isSome by decide +kernel)
  have hb : ((exampleVault.machine ⟨plainCrypto, none⟩ exampleResets
      (fun _ => .byDepth 1000 1000 0o22) exampleFiles).run (exampleVault.machine
      ⟨plainCrypto, none⟩ exampleResets (fun _ => .byDepth 1000 1000 0o22) exampleFiles).init
      exampleSchedule).map (fun s => exampleVault.bytes s.world.files) = some none := by
    decide +kernel
  rw [hs] at hb
  have hnone : exampleVault.bytes s.world.files = none := Option.some.inj hb
  obtain ⟨⟨order, hnodup, -, -, hserial⟩, -⟩ := concurrent_operations _ _ _ _ _ _ hs
  refine ⟨s, hs, hnone, order, hnodup, ?_⟩
  rw [← hnone]
  exact hserial

end Vault

end KFaceAuth
