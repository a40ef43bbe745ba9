import Mathlib
import Drydock.Report.Basic

/-! Scores and grades of lists of findings. A score is what the failed findings
leave of 100, at whatever place they stand, so it can only gain when findings
are taken away. The grade follows the score down, and the cap, which more
findings may bring in but never take away, moves it the same way. In machine
words the score is the same as long as the penalties fit. -/
namespace Drydock

section Penalties

variable {xs ys : List Finding}

/-- Penalties by severity: what fails costs 15, 4 or 1, and what passes costs
nothing. -/
theorem totalPenalty_eq_weighted (findings : List Finding) :
    totalPenalty findings = 15 * Tally.failedAt .error findings +
      4 * Tally.failedAt .warning findings + Tally.failedAt .info findings := by
  induction findings with
  | nil => rfl
  | cons f rest ih =>
      rw [totalPenalty, ih, Finding.penalty]
      simp only [Tally.failedAt, List.countP_cons]
      cases f.passed with
      | true => simp
      | false => cases f.severity <;> simp [Severity.penalty] <;> omega

/-- The recursion over the findings is a sum, which no order changes. -/
theorem totalPenalty_eq_sum (findings : List Finding) :
    totalPenalty findings = (findings.map Finding.penalty).sum := by
  induction findings with
  | nil => rfl
  | cons f rest ih => rw [totalPenalty, ih, List.map_cons, List.sum_cons]

theorem totalPenalty_of_perm (h : xs.Perm ys) : totalPenalty xs = totalPenalty ys := by
  rw [totalPenalty_eq_sum, totalPenalty_eq_sum]
  exact (h.map Finding.penalty).sum_nat

theorem isCapped_of_perm (h : xs.Perm ys) : isCapped xs = isCapped ys :=
  h.any_eq

/-- With more findings the penalty does not get smaller. -/
theorem totalPenalty_le_of_sublist (h : xs.Sublist ys) : totalPenalty xs ≤ totalPenalty ys := by
  induction h with
  | slnil => exact Nat.le_refl _
  | cons f _ ih =>
      rw [totalPenalty]
      omega
  | cons_cons f _ ih =>
      rw [totalPenalty, totalPenalty]
      omega

/-- What caps the grade of some findings caps it among more of them. -/
theorem isCapped_of_sublist (h : xs.Sublist ys) (hCapped : isCapped xs = true) :
    isCapped ys = true := by
  obtain ⟨f, hMem, hCaps⟩ := List.any_eq_true.mp hCapped
  exact List.any_eq_true.mpr ⟨f, h.subset hMem, hCaps⟩

/-- With more findings the score does not get better. It stays at zero once the
penalties have used it up. -/
theorem scoreOf_le_of_sublist (h : xs.Sublist ys) : scoreOf ys ≤ scoreOf xs :=
  Nat.sub_le_sub_left (totalPenalty_le_of_sublist h) 100

end Penalties

namespace Grade

/-- The place of a grade among all grades, of which the best comes first. -/
def rank : Grade → Nat
  | .A => 0
  | .B => 1
  | .C => 2
  | .D => 3
  | .F => 4

/-- A better score has a grade that is at least as good. -/
theorem rank_ofScore_le {low high : Nat} (h : low ≤ high) :
    (ofScore high).rank ≤ (ofScore low).rank := by
  unfold ofScore
  split_ifs <;> simp only [rank] <;> omega

/-- The cap moves every grade that is better than C to C and leaves the
others. -/
theorem rank_atMostC (g : Grade) : g.atMostC.rank = max 2 g.rank := by
  cases g with
  | A => rfl
  | B => rfl
  | C => rfl
  | D => rfl
  | F => rfl

end Grade

/-- A lower score has no better grade, and findings that cap the grade do not
improve it. -/
theorem rank_gradeOf_le {low high : Nat} {fewer more : List Finding} (hScore : low ≤ high)
    (hCap : isCapped fewer = true → isCapped more = true) :
    (gradeOf high fewer).rank ≤ (gradeOf low more).rank := by
  have hBand := Grade.rank_ofScore_le hScore
  rw [gradeOf, gradeOf]
  cases hMore : isCapped more with
  | true =>
      rw [if_pos rfl, Grade.rank_atMostC]
      cases isCapped fewer with
      | true =>
          rw [if_pos rfl, Grade.rank_atMostC]
          omega
      | false =>
          rw [if_neg (by simp)]
          omega
  | false =>
      have hFewer : ¬ isCapped fewer = true := fun h => by simp [hCap h] at hMore
      rw [if_neg hFewer, if_neg (by simp)]
      exact hBand

/-- The penalties of what failed, added to `sum` one after the other in a word
of 32 bits. There is no result where a sum does not fit. -/
def wordPenalty? (sum : UInt32) : List Finding → Option UInt32
  | [] => some sum
  | f :: rest =>
    if f.passed then wordPenalty? sum rest
    else if sum.toNat + f.severity.penalty < UInt32.size then
      wordPenalty? (sum + .ofNat f.severity.penalty) rest
    else none

/-- The score in a byte. The word is taken from 100, down to zero at most, and
then cut to eight bits. -/
def byteScore? (findings : List Finding) : Option UInt8 :=
  (wordPenalty? 0 findings).map fun penalty =>
    (if penalty ≤ 100 then 100 - penalty else 0).toUInt8

/-- No sum on the way is larger than the last one, so only the last one has to
fit. -/
theorem wordPenalty?_eq_some {sum : UInt32} {findings : List Finding}
    (h : sum.toNat + totalPenalty findings < UInt32.size) :
    ∃ word, wordPenalty? sum findings = some word ∧
      word.toNat = sum.toNat + totalPenalty findings := by
  induction findings generalizing sum with
  | nil => exact ⟨sum, rfl, rfl⟩
  | cons f rest ih =>
      rw [totalPenalty, Finding.penalty] at h ⊢
      rw [wordPenalty?]
      cases hPassed : f.passed with
      | true =>
          rw [hPassed, if_pos rfl, Nat.zero_add] at h
          simpa using ih h
      | false =>
          rw [hPassed, if_neg (by simp)] at h
          have hFits : sum.toNat + f.severity.penalty < UInt32.size := by omega
          have hNext : (sum + .ofNat f.severity.penalty).toNat =
              sum.toNat + f.severity.penalty := by
            rw [UInt32.toNat_add, UInt32.toNat_ofNat', Nat.add_mod_mod]
            exact Nat.mod_eq_of_lt hFits
          obtain ⟨word, hWord, hNat⟩ := ih (by rw [hNext]; omega)
          refine ⟨word, ?_, ?_⟩
          · rw [if_neg (by simp), if_pos hFits]
            exact hWord
          · rw [hNat, hNext, if_neg (by simp)]
            omega

/-- In words and bytes the score is the same as in numbers of any size. -/
theorem map_toNat_byteScore? {findings : List Finding}
    (h : totalPenalty findings < UInt32.size) :
    (byteScore? findings).map UInt8.toNat = some (scoreOf findings) := by
  have hZero : (0 : UInt32).toNat = 0 := rfl
  have hHundred : (100 : UInt32).toNat = 100 := rfl
  have hFits : (0 : UInt32).toNat + totalPenalty findings < UInt32.size := by omega
  obtain ⟨word, hWord, hNat⟩ := wordPenalty?_eq_some hFits
  rw [hZero, Nat.zero_add] at hNat
  rw [byteScore?, hWord, Option.map_some, Option.map_some, Option.some.injEq,
    UInt32.toNat_toUInt8, scoreOf, ← hNat]
  split
  · rename_i hLe
    rw [UInt32.toNat_sub_of_le _ _ hLe, hHundred]
    omega
  · rename_i hLarge
    rw [UInt32.le_iff_toNat_le, hHundred] at hLarge
    rw [hZero]
    omega

namespace Report

/-- The score is a matter of how many findings failed at which severity, the
order of the findings has no part in score, cap and grade, and without some of
them the score is at least as high and the grade at least as good. Where the
penalties of the list fit in 32 bits, no sum on the way overflows. -/
theorem build_exact_perm_sublist (ys : List Finding) (hFits : totalPenalty ys < 2 ^ 32)
    (evaluation : Evaluation) (time : Instant) :
    ((scoreOf ys : Int) = max 0 (100 - 15 * (Tally.failedAt .error ys : Int) -
        4 * (Tally.failedAt .warning ys : Int) - (Tally.failedAt .info ys : Int)) ∧
      (byteScore? ys).map UInt8.toNat = some (scoreOf ys)) ∧
    (∀ xs, xs.Perm ys →
      (byteScore? xs).map UInt8.toNat = some (scoreOf ys) ∧ isCapped xs = isCapped ys ∧
      (build xs evaluation time).score = (build ys evaluation time).score ∧
      (build xs evaluation time).grade = (build ys evaluation time).grade) ∧
    (∀ xs, xs.Sublist ys →
      (byteScore? xs).map UInt8.toNat = some (scoreOf xs) ∧ scoreOf ys ≤ scoreOf xs ∧
      (build xs evaluation time).grade.rank ≤ (build ys evaluation time).grade.rank) := by
  refine ⟨⟨?_, map_toNat_byteScore? hFits⟩, ?_, ?_⟩
  · rw [scoreOf, totalPenalty_eq_weighted]
    omega
  · intro xs hPerm
    have hPenalty := totalPenalty_of_perm hPerm
    have hCap := isCapped_of_perm hPerm
    have hScore : scoreOf xs = scoreOf ys := by rw [scoreOf, scoreOf, hPenalty]
    refine ⟨?_, hCap, hScore, ?_⟩
    · rw [← hScore]
      exact map_toNat_byteScore? (by rwa [hPenalty])
    · show gradeOf (scoreOf xs) xs = gradeOf (scoreOf ys) ys
      rw [gradeOf, gradeOf, hScore, hCap]
  · intro xs hSublist
    have hPenalty := totalPenalty_le_of_sublist hSublist
    have hScore := scoreOf_le_of_sublist hSublist
    exact ⟨map_toNat_byteScore? (Nat.lt_of_le_of_lt hPenalty hFits), hScore,
      rank_gradeOf_le hScore (isCapped_of_sublist hSublist)⟩

/-- A secret, a warning, a check that passed and a remark. The secret alone caps
the grade. -/
def mixedFindings : List Finding :=
  [.fail "no-secrets" .error "key in ENV" "mount it",
    .fail "pinned-base-image" .warning "latest" "pin it",
    .pass "no-root-user" .error "user app",
    .fail "expose-ports" .info "no port" "name it"]

/-- The score of these findings stays when they are turned round. Without the
secret the band gets better and the cap goes, so the grade rises from C to A. -/
theorem build_mixedFindings :
    totalPenalty mixedFindings = 20 ∧
    (scoreOf mixedFindings : Int) = max 0 (100 - 15 * (1 : Int) - 4 * (1 : Int) - (1 : Int)) ∧
    (build mixedFindings.reverse .structured ⟨0, 0⟩).grade =
      (build mixedFindings .structured ⟨0, 0⟩).grade ∧
    isCapped mixedFindings = true ∧ isCapped mixedFindings.tail = false ∧
    (build mixedFindings.tail .structured ⟨0, 0⟩).grade.rank ≤
      (build mixedFindings .structured ⟨0, 0⟩).grade.rank ∧
    (build mixedFindings.tail .structured ⟨0, 0⟩).grade = .A ∧
    (build mixedFindings .structured ⟨0, 0⟩).grade = .C := by
  have hPenalty : totalPenalty mixedFindings = 20 := rfl
  obtain ⟨⟨hScore, -⟩, hPerm, hSublist⟩ :=
    build_exact_perm_sublist mixedFindings (by rw [hPenalty]; decide) .structured ⟨0, 0⟩
  exact ⟨hPenalty, hScore, (hPerm _ (List.reverse_perm _)).2.2.2, by decide, by decide,
    (hSublist _ (List.tail_sublist _)).2.2, by decide, by decide⟩

end Report

end Drydock
