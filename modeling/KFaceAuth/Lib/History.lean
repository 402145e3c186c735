import Mathlib.Data.List.Basic
import Mathlib.Tactic.Common

/-!
# Records of what has happened

A record is a list that grows at its end. What an entry needs is said of the record
before it (`History.Every`), and is asked for when the entry is made (`every_concat`).
-/

namespace KFaceAuth

namespace History

open scoped List

variable {α : Type} {P : List α → α → Prop} {l : List α} {a b x : α}

/-- Every entry meets the condition, of the record before it. -/
def Every (P : List α → α → Prop) (l : List α) : Prop :=
  ∀ before x after, l = before ++ x :: after → P before x

theorem every_nil : Every P [] := by
  intro before x after h
  cases before with
  | nil => cases h
  | cons _ _ => cases h

theorem every_concat : Every P (l ++ [x]) ↔ Every P l ∧ P l x := by
  constructor
  · intro h
    refine ⟨fun before y after hl => h before y (after ++ [x]) ?_, h l x [] rfl⟩
    rw [hl, List.append_assoc, List.cons_append]
  · rintro ⟨h, hx⟩ before y after hl
    -- the entry is the last one, or one of the others
    rcases List.eq_nil_or_concat after with rfl | ⟨front, z, rfl⟩
    · obtain ⟨rfl, hxy⟩ := List.append_inj' hl rfl
      cases hxy
      exact hx
    · rw [List.concat_eq_append, ← List.cons_append, ← List.append_assoc] at hl
      exact h before y front (List.append_inj' hl rfl).1

/-- An entry that is new comes after all others. -/
theorem pair_concat (h : a ∈ l) : [a, b] <+ l ++ [b] :=
  (List.singleton_sublist.mpr h).append (List.Sublist.refl [b])

/-- An order of entries stays what it is. -/
theorem sublist_concat {k : List α} (h : k <+ l) : k <+ l ++ [x] :=
  h.trans (List.sublist_append_left l [x])

end History

end KFaceAuth
