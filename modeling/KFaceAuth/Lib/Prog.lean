import Mathlib.Logic.Basic
import Mathlib.Tactic.Common

/-!
# Programs that may fail or stop

A program is a tree of *calls* to the system it runs on, each followed by a
continuation in its reply (`Prog`). What a call does is left to a `Handler`:
its effect on the world when it succeeds, and the reply it gives when it fails
(a failed call changes nothing).

A run resolves, call by call, what happens by a `Choice`: the call succeeds,
it fails, or the process stops before it (killed, or out of power). A run ends
with a value, or stopped (`Prog.run`); the calls it made are its steps
(`Prog.steps`), on which conditions on a run are stated.

`Prog.Safe` is a logic of pre- and postconditions for such runs. `Safe H G I Q
p w` says that, of the runs of `p` from `w` whose steps all meet `G`, those
that stop leave a world satisfying `I`, and those that end leave a value and a
world satisfying `Q` (`Safe.run`). It composes along the structure of programs
(`Safe.bind`), so that one statement for each function is all its callers use.
-/

namespace KFaceAuth

/-- A program making calls in `C`, with replies in `R`, and ending with a value
    in `α`. -/
inductive Prog (C : Type) (R : C → Type) (α : Type) : Type
  | pure (a : α) : Prog C R α
  | call (c : C) (k : R c → Prog C R α) : Prog C R α

/-- What happens at a call: it succeeds, it fails, or the process stops. -/
inductive Choice
  | ok
  | fault
  | stop
  deriving DecidableEq, Repr

/-- The meaning of the calls in `C` on the worlds `W`. -/
structure Handler (C : Type) (R : C → Type) (W : Type) where
  /-- The reply and the next world of a call that is carried out. -/
  exec : (c : C) → W → R c × W
  /-- The reply of a failed call, if the call can fail. -/
  fault : (c : C) → Option (R c)

/-- A step of a run: the call, what happened at it, and the world before it. -/
structure Step (C W : Type) where
  call : C
  choice : Choice
  before : W

namespace Prog

variable {C : Type} {R : C → Type} {W α β : Type}

/-- Running `p`, then the program its value gives. -/
protected def bind : Prog C R α → (α → Prog C R β) → Prog C R β
  | .pure a, f => f a
  | .call c k, f => .call c fun r => (k r).bind f

instance : Monad (Prog C R) where
  pure := .pure
  bind := .bind

@[simp] theorem pure_bind' (a : α) (f : α → Prog C R β) : (Prog.pure a >>= f) = f a := rfl

@[simp] theorem call_bind (c : C) (k : R c → Prog C R α) (f : α → Prog C R β) :
    (Prog.call c k >>= f) = .call c fun r => k r >>= f := rfl

@[simp] theorem pure_eq (a : α) : (Pure.pure a : Prog C R α) = .pure a := rfl

instance : LawfulMonad (Prog C R) := by
  have bind_pure : ∀ {α : Type} (p : Prog C R α), (p >>= Prog.pure) = p := by
    intro α p
    induction p with
    | pure a => rfl
    | call c k ih => simp [ih]
  refine LawfulMonad.mk' _ (fun p => bind_pure p) (fun _ _ => rfl) ?_
  intro α β γ p f g
  induction p with
  | pure a => rfl
  | call c k ih => simp [ih]

/-- The program of a single call. -/
def perform (c : C) : Prog C R (R c) := .call c .pure

/-! ## Runs -/

section Runs

variable (H : Handler C R W)

/-- The run of a program by the choices `s`: its value (`none` if the process
    stopped) and the world it leaves. Calls past the end of `s` succeed. -/
def run : Prog C R α → List Choice → W → Option α × W
  | .pure a, _, w => (some a, w)
  | .call _ _, .stop :: _, w => (none, w)
  | .call c k, .fault :: s, w =>
    match H.fault c with
    | some r => (k r).run s w
    | none => (k (H.exec c w).1).run s (H.exec c w).2
  | .call c k, .ok :: s, w => (k (H.exec c w).1).run s (H.exec c w).2
  | .call c k, [], w => (k (H.exec c w).1).run [] (H.exec c w).2

/-- The steps of a run by the choices `s`. A call that cannot fail is carried
    out whatever the choice. -/
def steps : Prog C R α → List Choice → W → List (Step C W)
  | .pure _, _, _ => []
  | .call c _, .stop :: _, w => [⟨c, .stop, w⟩]
  | .call c k, .fault :: s, w =>
    match H.fault c with
    | some r => ⟨c, .fault, w⟩ :: (k r).steps s w
    | none => ⟨c, .ok, w⟩ :: (k (H.exec c w).1).steps s (H.exec c w).2
  | .call c k, .ok :: s, w => ⟨c, .ok, w⟩ :: (k (H.exec c w).1).steps s (H.exec c w).2
  | .call c k, [], w => ⟨c, .ok, w⟩ :: (k (H.exec c w).1).steps [] (H.exec c w).2

end Runs

/-! ## Safe programs -/

section Safe

variable {H : Handler C R W} {G : Step C W → Prop} {I I' : W → Prop}
  {Q Q' : α → W → Prop}

/-- The runs of a program from `w` whose steps meet `G` leave a world satisfying
    `I` when they stop, and a value and a world satisfying `Q` when they end. -/
def Safe (H : Handler C R W) (G : Step C W → Prop) (I : W → Prop) (Q : α → W → Prop) :
    Prog C R α → W → Prop
  | .pure a, w => Q a w
  | .call c k, w =>
    (G ⟨c, .stop, w⟩ → I w) ∧
    (G ⟨c, .ok, w⟩ → (k (H.exec c w).1).Safe H G I Q (H.exec c w).2) ∧
    ∀ r, H.fault c = some r → G ⟨c, .fault, w⟩ → (k r).Safe H G I Q w

/-- What `Safe` says of the outcome of a run. -/
def Outcome (I : W → Prop) (Q : α → W → Prop) : Option α × W → Prop
  | (some a, w) => Q a w
  | (none, w) => I w

/-- `Safe` is sound: it holds of every run whose steps meet the condition. -/
theorem Safe.run {p : Prog C R α} {w : W} (h : p.Safe H G I Q w) (s : List Choice)
    (hs : ∀ st ∈ p.steps H s w, G st) : Outcome I Q (p.run H s w) := by
  induction p generalizing s w with
  | pure a => cases s <;> exact h
  | call c k ih =>
    obtain ⟨hstop, hok, hfault⟩ := h
    have ok : ∀ s', (∀ st ∈ Prog.steps H (.call c k) (.ok :: s') w, G st) →
        Outcome I Q ((k (H.exec c w).1).run H s' (H.exec c w).2) := by
      intro s' hs'
      simp only [steps, List.mem_cons, forall_eq_or_imp] at hs'
      exact ih _ (hok hs'.1) s' hs'.2
    match s, hs with
    | [], hs => exact ok [] hs
    | .ok :: s, hs => exact ok s hs
    | .stop :: s, hs => exact hstop (hs _ (by simp [steps]))
    | .fault :: s, hs =>
      cases hf : H.fault c with
      | none =>
        simp only [Prog.run, hf]
        exact ok s (by simpa [steps, hf] using hs)
      | some r =>
        simp only [Prog.run, hf]
        simp only [steps, hf, List.mem_cons, forall_eq_or_imp] at hs
        exact ih _ (hfault r hf hs.1) s hs.2

theorem Safe.ends {p : Prog C R α} {s : List Choice} {a : α} {w w' : W}
    (hr : p.run H s w = (some a, w')) (h : p.Safe H G I Q w) (hs : ∀ st ∈ p.steps H s w, G st) :
    Q a w' := by
  have := h.run s hs
  rwa [hr] at this

/-- The postcondition may be weakened, and the invariant of stopped runs too. -/
theorem Safe.mono {p : Prog C R α} {w : W} (h : p.Safe H G I Q w)
    (hI : ∀ w, I w → I' w) (hQ : ∀ a w, Q a w → Q' a w) : p.Safe H G I' Q' w := by
  induction p generalizing w with
  | pure a => exact hQ _ _ h
  | call c k ih =>
    exact ⟨fun g => hI _ (h.1 g), fun g => ih _ (h.2.1 g), fun r hr g => ih _ (h.2.2 r hr g)⟩

theorem Safe.post {p : Prog C R α} {w : W} (h : p.Safe H G I Q w)
    (hQ : ∀ a w, Q a w → Q' a w) : p.Safe H G I Q' w :=
  h.mono (fun _ h => h) hQ

/-- Sequential composition. -/
theorem Safe.bind {p : Prog C R α} {f : α → Prog C R β} {Q' : β → W → Prop} {w : W}
    (h : p.Safe H G I Q w) (hf : ∀ a w, Q a w → (f a).Safe H G I Q' w) :
    (p >>= f).Safe H G I Q' w := by
  induction p generalizing w with
  | pure a => exact hf _ _ h
  | call c k ih =>
    exact ⟨h.1, fun g => ih _ (h.2.1 g), fun r hr g => ih _ (h.2.2 r hr g)⟩

/-- Two postconditions established separately hold together. -/
theorem Safe.and {p : Prog C R α} {w : W} {I₂ : W → Prop} {Q₂ : α → W → Prop}
    (h : p.Safe H G I Q w) (h₂ : p.Safe H G I₂ Q₂ w) :
    p.Safe H G (fun w => I w ∧ I₂ w) (fun a w => Q a w ∧ Q₂ a w) w := by
  induction p generalizing w with
  | pure a => exact ⟨h, h₂⟩
  | call c k ih =>
    exact ⟨fun g => ⟨h.1 g, h₂.1 g⟩, fun g => ih _ (h.2.1 g) (h₂.2.1 g),
      fun r hr g => ih _ (h.2.2 r hr g) (h₂.2.2 r hr g)⟩

end Safe

/-! ## Programs restricted to some calls -/

/-- Every call of the program satisfies `P`, whatever the replies. -/
def Calls (P : C → Prop) : Prog C R α → Prop
  | .pure _ => True
  | .call c k => P c ∧ ∀ r, (k r).Calls P

section Calls

variable {P P' : C → Prop}

@[simp] theorem calls_pure (a : α) : (Prog.pure a : Prog C R α).Calls P := trivial

@[simp] theorem calls_perform {c : C} : (Prog.perform c : Prog C R (R c)).Calls P ↔ P c :=
  ⟨fun h => h.1, fun h => ⟨h, fun _ => trivial⟩⟩

theorem Calls.bind {p : Prog C R α} {f : α → Prog C R β} (h : p.Calls P)
    (hf : ∀ a, (f a).Calls P) : (p >>= f).Calls P := by
  induction p with
  | pure a => exact hf a
  | call c k ih => exact ⟨h.1, fun r => ih r (h.2 r)⟩

theorem Calls.mono {p : Prog C R α} (h : p.Calls P) (hP : ∀ c, P c → P' c) : p.Calls P' := by
  induction p with
  | pure a => trivial
  | call c k ih => exact ⟨hP _ h.1, fun r => ih r (h.2 r)⟩

/-- An invariant of every call a program makes is an invariant of the program. -/
theorem Calls.safe {H : Handler C R W} {G : Step C W → Prop} {I : W → Prop}
    {p : Prog C R α} (h : p.Calls P)
    (hI : ∀ c w, P c → I w → G ⟨c, .ok, w⟩ → I (H.exec c w).2) {w : W} (hw : I w) :
    p.Safe H G I (fun _ w => I w) w := by
  induction p generalizing w with
  | pure a => exact hw
  | call c k ih =>
    exact ⟨fun _ => hw, fun g => ih _ (h.2 _) (hI c w h.1 hw g), fun r _ _ => ih r (h.2 r) hw⟩

/-- The calls of a run are those of the program. -/
theorem Calls.steps {H : Handler C R W} {p : Prog C R α} (h : p.Calls P) {s : List Choice} {w : W}
    {st : Step C W} (hst : st ∈ p.steps H s w) : P st.call := by
  induction p generalizing s w with
  | pure a => simp [Prog.steps] at hst
  | call c k ih =>
    obtain ⟨hc, hk⟩ := h
    have later : ∀ {r s' w'}, st ∈ (k r).steps H s' w' → P st.call := fun hst => ih _ (hk _) hst
    match s, hst with
    | [], hst =>
      rcases List.mem_cons.1 hst with rfl | hst
      · exact hc
      · exact later hst
    | .ok :: s, hst =>
      rcases List.mem_cons.1 hst with rfl | hst
      · exact hc
      · exact later hst
    | .stop :: s, hst =>
      obtain rfl := List.mem_singleton.1 hst
      exact hc
    | .fault :: s, hst =>
      simp only [Prog.steps] at hst
      split at hst
      · rcases List.mem_cons.1 hst with rfl | hst
        · exact hc
        · exact later hst
      · rcases List.mem_cons.1 hst with rfl | hst
        · exact hc
        · exact later hst

end Calls

/-! ## Values of programs -/

/-- Every value the program may end with satisfies `P`, whatever the replies. -/
def Returns (P : α → Prop) : Prog C R α → Prop
  | .pure a => P a
  | .call _ k => ∀ r, (k r).Returns P

theorem returns_true (p : Prog C R α) : p.Returns fun _ => True := by
  induction p with
  | pure a => trivial
  | call c k ih => exact ih

theorem Returns.bind {P : α → Prop} {Q : β → Prop} {p : Prog C R α} {f : α → Prog C R β}
    (h : p.Returns P) (hf : ∀ a, P a → (f a).Returns Q) : (p >>= f).Returns Q := by
  induction p with
  | pure a => exact hf a h
  | call c k ih => exact fun r => ih r (h r)

theorem Returns.safe {H : Handler C R W} {G : Step C W → Prop} {I : W → Prop} {P : α → Prop}
    {Q : α → W → Prop} {p : Prog C R α} {w : W} (h : p.Returns P) (hs : p.Safe H G I Q w) :
    p.Safe H G I (fun a w => P a ∧ Q a w) w := by
  induction p generalizing w with
  | pure a => exact ⟨h, hs⟩
  | call c k ih =>
    exact ⟨hs.1, fun g => ih _ (h _) (hs.2.1 g), fun r hr g => ih _ (h r) (hs.2.2 r hr g)⟩

/-! ## Runs of composed programs -/

section Compose

variable {H : Handler C R W}

/-- A run that ends stopped did so at some call. -/
theorem stop_mem_steps {p : Prog C R α} {s : List Choice} {w w' : W}
    (h : p.run H s w = (none, w')) : ∃ c, ⟨c, .stop, w'⟩ ∈ p.steps H s w := by
  induction p generalizing s w with
  | pure a => cases s <;> cases h
  | call c k ih =>
    match s, h with
    | [], h =>
      obtain ⟨c', hc'⟩ := ih _ h
      exact ⟨c', List.mem_cons_of_mem _ hc'⟩
    | .ok :: s, h =>
      obtain ⟨c', hc'⟩ := ih _ h
      exact ⟨c', List.mem_cons_of_mem _ hc'⟩
    | .stop :: s, h =>
      cases h
      exact ⟨c, List.mem_singleton_self _⟩
    | .fault :: s, h =>
      simp only [run, steps] at h ⊢
      split at h
      all_goals
        obtain ⟨c', hc'⟩ := ih _ h
        exact ⟨c', List.mem_cons_of_mem _ hc'⟩

/-- A run of a composition is a run of the first program, then of the second. -/
theorem run_bind (p : Prog C R α) (f : α → Prog C R β) (s : List Choice) (w : W) :
    (∃ w', p.run H s w = (none, w') ∧ (p >>= f).run H s w = (none, w') ∧
      (p >>= f).steps H s w = p.steps H s w) ∨
    ∃ a w' s', p.run H s w = (some a, w') ∧ (p >>= f).run H s w = (f a).run H s' w' ∧
      s' <:+ s ∧ (p >>= f).steps H s w = p.steps H s w ++ (f a).steps H s' w' := by
  induction p generalizing s w with
  | pure a => exact .inr ⟨a, w, s, by cases s <;> rfl, rfl, List.suffix_rfl, by cases s <;> rfl⟩
  | call c k ih =>
    match s with
    | [] =>
      obtain ⟨w', h₁, h₂, h₃⟩ | ⟨a, w', s', h₁, h₂, hs, h₃⟩ := ih (H.exec c w).1 [] (H.exec c w).2
      · exact .inl ⟨w', h₁, h₂, congrArg _ h₃⟩
      · exact .inr ⟨a, w', s', h₁, h₂, hs, congrArg _ h₃⟩
    | .ok :: s =>
      obtain ⟨w', h₁, h₂, h₃⟩ | ⟨a, w', s', h₁, h₂, hs, h₃⟩ := ih (H.exec c w).1 s (H.exec c w).2
      · exact .inl ⟨w', h₁, h₂, congrArg _ h₃⟩
      · exact .inr ⟨a, w', s', h₁, h₂, hs.trans (List.suffix_cons _ _), congrArg _ h₃⟩
    | .stop :: s => exact .inl ⟨w, rfl, rfl, rfl⟩
    | .fault :: s =>
      simp only [call_bind, run, steps]
      cases H.fault c with
      | none =>
        obtain ⟨w', h₁, h₂, h₃⟩ | ⟨a, w', s', h₁, h₂, hs, h₃⟩ := ih (H.exec c w).1 s (H.exec c w).2
        · exact .inl ⟨w', h₁, h₂, congrArg _ h₃⟩
        · exact .inr ⟨a, w', s', h₁, h₂, hs.trans (List.suffix_cons _ _), congrArg _ h₃⟩
      | some r =>
        obtain ⟨w', h₁, h₂, h₃⟩ | ⟨a, w', s', h₁, h₂, hs, h₃⟩ := ih r s w
        · exact .inl ⟨w', h₁, h₂, congrArg _ h₃⟩
        · exact .inr ⟨a, w', s', h₁, h₂, hs.trans (List.suffix_cons _ _), congrArg _ h₃⟩

/-- Without a stop among the choices, a run ends. -/
theorem run_ends (p : Prog C R α) {s : List Choice} (hs : .stop ∉ s) (w : W) :
    ∃ a w', p.run H s w = (some a, w') := by
  induction p generalizing s w with
  | pure a => exact ⟨a, w, by cases s <;> rfl⟩
  | call c k ih =>
    match s, hs with
    | [], hs => exact ih _ hs _
    | .ok :: s, hs => exact ih _ (fun h => hs (List.mem_cons_of_mem _ h)) _
    | .stop :: s, hs => exact absurd List.mem_cons_self hs
    | .fault :: s, hs =>
      have hs' : .stop ∉ s := fun h => hs (List.mem_cons_of_mem _ h)
      simp only [run]
      cases H.fault c with
      | none => exact ih _ hs' _
      | some r => exact ih _ hs' _

/-- Without choices, every call is carried out. -/
theorem choice_of_steps_nil {p : Prog C R α} {w : W} {st : Step C W} (h : st ∈ p.steps H [] w) :
    st.choice = .ok := by
  induction p generalizing w with
  | pure a => cases h
  | call c k ih =>
    rcases List.mem_cons.1 h with rfl | h
    · rfl
    · exact ih _ h

end Compose

end Prog

end KFaceAuth
