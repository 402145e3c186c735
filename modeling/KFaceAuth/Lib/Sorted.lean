import Mathlib.Data.List.Sort
import Mathlib.Data.List.Forall2
import Mathlib.Order.Basic

/-!
# Sorted lists

Sorting is monotone: where each entry of a list is at most that of another, so
is it after both are sorted (`forall₂_insertionSort`). In a sorted list, what
is known of one entry is known of all that are after it, or of all before
(`le_countP_of_sorted`, `lt_countP_of_sorted`).
-/

namespace KFaceAuth

namespace Sorted

open List

variable {α : Type} [LinearOrder α] {a b : α} {l l' : List α} {k : ℕ}

theorem forall₂_orderedInsert (hab : a ≤ b) (h : Forall₂ (· ≤ ·) l l')
    (hl : l.Pairwise (· ≤ ·)) (hl' : l'.Pairwise (· ≤ ·)) :
    Forall₂ (· ≤ ·) (l.orderedInsert (· ≤ ·) a) (l'.orderedInsert (· ≤ ·) b) := by
  induction h generalizing a b with
  | nil => exact .cons hab .nil
  | @cons x y l l' hxy h ih =>
    -- an entry that is not inserted here stands before its own tail
    have hx : orderedInsert (· ≤ ·) x l = x :: l := by
      cases l with
      | nil => rfl
      | cons z l => exact orderedInsert_cons_of_le _ _ (rel_of_pairwise_cons hl mem_cons_self)
    have hy : orderedInsert (· ≤ ·) y l' = y :: l' := by
      cases l' with
      | nil => rfl
      | cons z l' => exact orderedInsert_cons_of_le _ _ (rel_of_pairwise_cons hl' mem_cons_self)
    simp only [orderedInsert_cons]
    split_ifs with hax hby hby
    · exact .cons hab (.cons hxy h)
    · refine .cons (hax.trans hxy) ?_
      rw [← hx]
      exact ih (hxy.trans (le_of_not_ge hby)) hl.of_cons hl'.of_cons
    · refine .cons ((le_of_not_ge hax).trans hab) ?_
      rw [← hy]
      exact ih (hab.trans hby) hl.of_cons hl'.of_cons
    · exact .cons hxy (ih hab hl.of_cons hl'.of_cons)

/-- Sorting is monotone. -/
theorem forall₂_insertionSort (h : Forall₂ (· ≤ ·) l l') :
    Forall₂ (· ≤ ·) (l.insertionSort (· ≤ ·)) (l'.insertionSort (· ≤ ·)) := by
  induction h with
  | nil => exact .nil
  | cons hab _ ih =>
    exact forall₂_orderedInsert hab ih (pairwise_insertionSort _ _) (pairwise_insertionSort _ _)

/-- From an entry that is at least `t` on, all entries are. -/
theorem le_countP_of_sorted (hl : l.Pairwise (· ≤ ·)) {t : α} (hk : l[k]? = some a) (ht : t ≤ a) :
    l.length - k ≤ l.countP (t ≤ ·) := by
  obtain ⟨hlt, rfl⟩ := List.getElem?_eq_some_iff.1 hk
  have hdrop : l.drop k = l[k] :: l.drop (k + 1) := drop_eq_getElem_cons hlt
  have hall : ∀ x ∈ l.drop k, t ≤ x := by
    intro x hx
    have hsorted := hl.sublist (drop_sublist k l)
    rw [hdrop] at hx hsorted
    rcases mem_cons.1 hx with rfl | hx
    · exact ht
    · exact ht.trans (rel_of_pairwise_cons hsorted hx)
  calc l.length - k = (l.drop k).countP (t ≤ ·) := by
        rw [countP_eq_length.2 fun x hx => decide_eq_true (hall x hx), length_drop]
    _ ≤ l.countP (t ≤ ·) := (drop_sublist k l).countP_le

/-- Up to an entry that is less than `t`, all entries are. -/
theorem lt_countP_of_sorted (hl : l.Pairwise (· ≤ ·)) {t : α} (hk : l[k]? = some a) (ht : a < t) :
    k < l.countP (· < t) := by
  obtain ⟨hlt, rfl⟩ := List.getElem?_eq_some_iff.1 hk
  have hall : ∀ x ∈ l.take (k + 1), x < t := by
    intro x hx
    obtain ⟨j, hj, rfl⟩ := mem_take_iff_getElem.1 hx
    rcases Nat.lt_or_eq_of_le (show j ≤ k by omega) with hjk | rfl
    · exact (pairwise_iff_getElem.1 hl j k _ _ hjk).trans_lt ht
    · exact ht
  calc k < (l.take (k + 1)).countP (· < t) := by
        rw [countP_eq_length.2 fun x hx => decide_eq_true (hall x hx), length_take]
        omega
    _ ≤ l.countP (· < t) := (take_sublist (k + 1) l).countP_le

end Sorted

end KFaceAuth
