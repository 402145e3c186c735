import KFaceAuth.Lib.Sorted
import KFaceAuth.Worker.Identity
import Mathlib.Algebra.Order.Field.Basic
import Mathlib.Algebra.Order.Field.Rat
import Mathlib.Tactic.Linarith
import Mathlib.Tactic.NormNum

/-!
# The median decision

A candidate is compared with the samples of a profile, and the median of the
scores decides (`Profile.verify`). Scores are in any ordered field, so that the
arithmetic on them is exact.

* `verifyScores_laws`: the result does not depend on the order of the samples,
  and no higher score gives a lower result; a match means that at least half of
  the samples score as one, and no match that at least half do not.
-/

namespace KFaceAuth

open Identity

variable {K : Type} [Field K] [LinearOrder K]

/-- `PROVISIONAL_MATCH_THRESHOLD` -/
def matchThreshold : K := 45 / 100

/-- `PROVISIONAL_AMBIGUITY_MARGIN` -/
def ambiguityMargin : K := 4 / 100

/-- The median of the scores, as `verify` computes it. -/
def median (scores : List K) : K :=
  let scores := scores.insertionSort (· ≤ ·)
  if scores.length % 2 = 0 then
    let upper := scores.length / 2
    (scores.getD (upper - 1) 0 + scores.getD upper 0) / 2
  else scores.getD (scores.length / 2) 0

/-- `Profile::verify`, of the scores of the samples. -/
def verifyScores (scores : List K) : VerificationResult :=
  if matchThreshold ≤ median scores then .isMatch
  else if matchThreshold - ambiguityMargin ≤ median scores then .ambiguous
  else .noMatch

/-- `Profile::verify`, with the similarity of a sample and the candidate. -/
def Profile.verify (profile : Profile) (similarity : List UInt8 → Embedding → K)
    (candidate : Embedding) : VerificationResult :=
  verifyScores (profile.samples.map fun sample => similarity sample candidate)

/-- The order of the results. -/
def rank : VerificationResult → ℕ
  | .noMatch => 0
  | .ambiguous => 1
  | .isMatch => 2

variable {scores scores' : List K}

theorem median_perm (h : scores.Perm scores') : median scores = median scores' := by
  have hsort : scores.insertionSort (· ≤ ·) = scores'.insertionSort (· ≤ ·) :=
    ((List.perm_insertionSort _ scores).trans (h.trans (List.perm_insertionSort _ scores').symm)
      ).eq_of_sortedLE List.sortedLE_insertionSort List.sortedLE_insertionSort
  rw [median, median, hsort]

section Ordered

variable [IsStrictOrderedRing K]

omit [IsStrictOrderedRing K] in
theorem getD_le_getD (h : List.Forall₂ (· ≤ ·) scores scores') (k : ℕ) :
    scores.getD k 0 ≤ scores'.getD k 0 := by
  induction h generalizing k with
  | nil => exact le_refl _
  | cons hab _ ih =>
    cases k with
    | zero => exact hab
    | succ k => exact ih k

theorem median_mono (h : List.Forall₂ (· ≤ ·) scores scores') : median scores ≤ median scores' := by
  have hsort := Sorted.forall₂_insertionSort h
  unfold median
  simp only [hsort.length_eq]
  split_ifs
  · have hlower := getD_le_getD hsort ((scores'.insertionSort (· ≤ ·)).length / 2 - 1)
    have hupper := getD_le_getD hsort ((scores'.insertionSort (· ≤ ·)).length / 2)
    linarith
  · exact getD_le_getD hsort _

omit [IsStrictOrderedRing K] [Field K] in
theorem forall₂_set {i : ℕ} {s s' : K} (hs : scores[i]? = some s) (hle : s ≤ s') :
    List.Forall₂ (· ≤ ·) scores (scores.set i s') := by
  induction scores generalizing i with
  | nil => exact .nil
  | cons score scores ih =>
    cases i with
    | zero =>
      obtain rfl : score = s := by simpa using hs
      exact .cons hle (List.forall₂_refl _)
    | succ i => exact .cons le_rfl (ih (by simpa using hs))

omit [IsStrictOrderedRing K] in
theorem rank_mono (h : median scores ≤ median scores') :
    rank (verifyScores scores) ≤ rank (verifyScores scores') := by
  by_cases hmatch : matchThreshold ≤ median scores
  · simp [verifyScores, hmatch, hmatch.trans h]
  · by_cases hmargin : matchThreshold - ambiguityMargin ≤ median scores
    · rw [verifyScores, if_neg hmatch, if_pos hmargin, verifyScores, if_pos (hmargin.trans h)]
      split_ifs <;> simp [rank]
    · rw [verifyScores, if_neg hmatch, if_neg hmargin]
      exact Nat.zero_le _

omit [IsStrictOrderedRing K] in
/-- The entry of the median, or the two it is between. -/
theorem median_cases (hne : scores ≠ []) : ∃ k a, (scores.insertionSort (· ≤ ·))[k]? = some a ∧
    (scores.length = 2 * k + 1 ∧ median scores = a ∨
      scores.length = 2 * k ∧ ∃ b, (scores.insertionSort (· ≤ ·))[k - 1]? = some b ∧ b ≤ a ∧
        median scores = (b + a) / 2) := by
  have hlen : (scores.insertionSort (· ≤ ·)).length = scores.length :=
    List.length_insertionSort _ _
  have hpos : 0 < scores.length := List.length_pos_iff.mpr hne
  have hk : scores.length / 2 < (scores.insertionSort (· ≤ ·)).length := by omega
  refine ⟨scores.length / 2, _, List.getElem?_eq_getElem hk, ?_⟩
  rcases Nat.mod_two_eq_zero_or_one scores.length with heven | hodd
  · have hk' : scores.length / 2 - 1 < (scores.insertionSort (· ≤ ·)).length := by omega
    refine .inr ⟨by omega, _, List.getElem?_eq_getElem hk', ?_, ?_⟩
    · exact List.pairwise_iff_getElem.1 (List.pairwise_insertionSort (· ≤ ·) scores) _ _ hk' hk
        (by omega)
    · simp [median, hlen, heven, List.getD_eq_getElem?_getD, List.getElem?_eq_getElem hk,
        List.getElem?_eq_getElem hk']
  · refine .inl ⟨by omega, ?_⟩
    simp [median, hlen, hodd, List.getD_eq_getElem?_getD, List.getElem?_eq_getElem hk]

/-- At least half of the samples score at or above what the median is at or above. -/
theorem le_countP_of_median {t : K} (h : t ≤ median scores) :
    scores.length ≤ 2 * scores.countP (t ≤ ·) := by
  rcases eq_or_ne scores [] with rfl | hne
  · exact Nat.zero_le _
  obtain ⟨k, a, hk, hmedian⟩ := median_cases hne
  have hta : t ≤ a := by
    rcases hmedian with ⟨-, ha⟩ | ⟨-, b, -, hba, hm⟩
    · rwa [ha] at h
    · linarith
  have hcount := Sorted.le_countP_of_sorted (List.pairwise_insertionSort _ scores) hk hta
  rw [(List.perm_insertionSort _ scores).countP_eq, List.length_insertionSort] at hcount
  rcases hmedian with ⟨hlen, -⟩ | ⟨hlen, -⟩ <;> omega

/-- At least half of the samples score below what the median is below. -/
theorem lt_countP_of_median {t : K} (h : median scores < t) :
    scores.length ≤ 2 * scores.countP (· < t) := by
  rcases eq_or_ne scores [] with rfl | hne
  · exact Nat.zero_le _
  have hpos : 0 < scores.length := List.length_pos_iff.mpr hne
  obtain ⟨k, a, hk, ⟨hlen, ha⟩ | ⟨hlen, b, hb, hba, hm⟩⟩ := median_cases hne
  · have hcount := Sorted.lt_countP_of_sorted (List.pairwise_insertionSort _ scores) hk (ha ▸ h)
    rw [(List.perm_insertionSort _ scores).countP_eq] at hcount
    omega
  · have hcount := Sorted.lt_countP_of_sorted (List.pairwise_insertionSort _ scores) hb
      (show b < t by linarith)
    rw [(List.perm_insertionSort _ scores).countP_eq] at hcount
    omega

/-- The laws of the decision. -/
theorem verifyScores_laws (scores : List K) :
    (∀ scores', scores.Perm scores' → verifyScores scores' = verifyScores scores) ∧
    (∀ i s s', scores[i]? = some s → s ≤ s' →
      rank (verifyScores scores) ≤ rank (verifyScores (scores.set i s'))) ∧
    (verifyScores scores = .isMatch → scores.length ≤ 2 * scores.countP (matchThreshold ≤ ·)) ∧
    (verifyScores scores = .noMatch → scores.length ≤ 2 * scores.countP (· < matchThreshold)) := by
  refine ⟨fun scores' h => ?_, fun i s s' hs hle => ?_, fun h => ?_,
    fun h => ?_⟩
  · rw [verifyScores, verifyScores, median_perm h]
  · exact rank_mono (median_mono (forall₂_set hs hle))
  · refine le_countP_of_median ?_
    by_contra hlt
    rw [verifyScores, if_neg hlt] at h
    split_ifs at h
  · refine lt_countP_of_median (lt_of_not_ge fun hle => ?_)
    rw [verifyScores, if_pos hle] at h
    cases h

/-- Four samples, with the median between the second and the third: raised to
    match by one score. -/
theorem verifyScores_laws_four :
    rank (verifyScores [(1 / 2 : ℚ), 2 / 5, 9 / 20, 3 / 10]) = 1 ∧
    rank (verifyScores [(1 / 2 : ℚ), 1, 9 / 20, 3 / 10]) = 2 ∧
    rank (verifyScores [(1 / 2 : ℚ), 2 / 5, 9 / 20, 3 / 10]) ≤
      rank (verifyScores [(1 / 2 : ℚ), 1, 9 / 20, 3 / 10]) :=
  ⟨by decide +kernel, by decide +kernel,
    (verifyScores_laws [(1 / 2 : ℚ), 2 / 5, 9 / 20, 3 / 10]).2.1 1 (2 / 5) 1 rfl (by norm_num)⟩

end Ordered

end KFaceAuth
