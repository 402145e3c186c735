import Mathlib.Logic.Basic
import Mathlib.Tactic.Common

/-!
# State machines

A machine has an initial state and takes a step at each event that it admits.
Several parties running concurrently are one machine, whose events are the
steps of all of them, in any order.

* `Machine.Reachable.inv`: what holds initially and is kept by every step holds
  in every reachable state;
* `Machine.Reachable.inv_restrict`: the same for the runs whose steps all meet a
  condition.
-/

namespace KFaceAuth

/-- An initial state, and the next state at each event, if the event may happen. -/
structure Machine (S E : Type) where
  init : S
  step : S → E → Option S

namespace Machine

variable {S E : Type} {m : Machine S E} {s s' : S}

/-- The state after the events `es`. -/
def run (m : Machine S E) : S → List E → Option S
  | s, [] => some s
  | s, e :: es => (m.step s e).bind fun s => m.run s es

/-- The states that some events lead to. -/
inductive Reachable (m : Machine S E) : S → Prop
  | init : Reachable m m.init
  | step {s s' : S} (e : E) (h : Reachable m s) (hs : m.step s e = some s') : Reachable m s'

theorem Reachable.run (h : m.Reachable s) {es : List E} (hs : m.run s es = some s') :
    m.Reachable s' := by
  induction es generalizing s with
  | nil =>
    obtain rfl := Option.some.inj hs
    exact h
  | cons e es ih =>
    obtain ⟨t, ht, hs⟩ := Option.bind_eq_some_iff.1 hs
    exact ih (h.step e ht) hs

/-- An invariant of the initial state and of every step. -/
theorem Reachable.inv {I : S → Prop} (h : m.Reachable s) (hinit : I m.init)
    (hstep : ∀ s e s', I s → m.step s e = some s' → I s') : I s := by
  induction h with
  | init => exact hinit
  | step e _ hs ih => exact hstep _ e _ ih hs

/-- The machine that only takes the steps that meet a condition. -/
def restrict (m : Machine S E) (p : S → E → Bool) : Machine S E where
  init := m.init
  step s e := if p s e then m.step s e else none

/-- An invariant of the initial state and of every step that meets the condition. -/
theorem Reachable.inv_restrict {I : S → Prop} {p : S → E → Bool} (h : (m.restrict p).Reachable s)
    (hinit : I m.init) (hstep : ∀ s e s', I s → p s e → m.step s e = some s' → I s') : I s := by
  refine h.inv hinit fun s e s' hs hstep' => ?_
  simp only [restrict] at hstep'
  split at hstep'
  next hp => exact hstep s e s' hs hp hstep'
  · cases hstep'

end Machine

end KFaceAuth
