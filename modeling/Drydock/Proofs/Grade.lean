import Drydock.Proofs.LogicalLine
import Drydock.Validator

/-! The cap on the grade. A failed check that guards security keeps the grade
from being better than C, and a file is judged in one of three ways: it is given
up, its instructions are checked, or its lines are scanned. A scan finds in a
file what it finds on the lines, and nothing else that counts against the
file. -/
namespace Drydock

/-- The finding is that a rule was broken, and that this is an error. -/
structure Finding.Breaks (f : Finding) (rule : String) : Prop where
  rule_eq : f.rule = rule
  not_passed : f.passed = false
  severity_eq : f.severity = .error

/-- An error in a rule that guards security caps the grade. -/
theorem Finding.Breaks.capsGrade {f : Finding} {rule : String} (h : f.Breaks rule)
    (hCritical : rule ∈ securityCritical) : f.capsGrade = true := by
  simp [Finding.capsGrade, h.not_passed, h.severity_eq, h.rule_eq, hCritical]

/-- The verdict on a rule passes exactly when the rule holds, for any rule and
whatever its message says. -/
theorem Rule.passed_evaluate (r : Rule) (instructions : List Instruction) :
    (r.evaluate instructions).passed = r.holds instructions := by
  rw [Rule.evaluate]
  cases hHolds : r.holds instructions with
  | true => rfl
  | false =>
      rw [if_neg (by simp)]
      cases r.culprit?.bind (· instructions) with
      | none => rfl
      | some culprit => rfl

/-- The verdict of a broken rule that counts as an error. -/
theorem Rule.evaluate_breaks {r : Rule} {instructions : List Instruction}
    (hHolds : r.holds instructions = false) (hSeverity : r.severity = .error) :
    (r.evaluate instructions).Breaks r.id := by
  rw [Rule.evaluate, if_neg (by simp [hHolds])]
  cases r.culprit?.bind (· instructions) with
  | none => exact ⟨rfl, rfl, hSeverity⟩
  | some culprit => exact ⟨rfl, rfl, hSeverity⟩

/-- A capped grade is one of the three lowest. -/
theorem Grade.atMostC_cases (g : Grade) : g.atMostC = .C ∨ g.atMostC = .D ∨ g.atMostC = .F := by
  cases g <;> simp [Grade.atMostC]

namespace Report

/-- A report on findings of which one caps the grade. The score, however high it
is, does not lift the cap. -/
theorem grade_build_of_mem {findings : List Finding} {f : Finding} (hMem : f ∈ findings)
    (hCaps : f.capsGrade = true) (evaluation : Evaluation) (time : Instant) :
    (build findings evaluation time).grade = .C ∨
      (build findings evaluation time).grade = .D ∨
      (build findings evaluation time).grade = .F := by
  have hCapped : isCapped findings = true := List.any_eq_true.mpr ⟨f, hMem, hCaps⟩
  have hGrade : (build findings evaluation time).grade =
      (Grade.ofScore (scoreOf findings)).atMostC := by
    simp [build, gradeOf, hCapped]
  rw [hGrade]
  exact Grade.atMostC_cases _

/-- A broken rule among the findings is listed among the failures. -/
theorem failed_build_of_mem {findings : List Finding} {f : Finding} {rule : String}
    (hMem : f ∈ findings) (hBreaks : f.Breaks rule) (evaluation : Evaluation) (time : Instant) :
    (build findings evaluation time).failed rule = true := by
  rw [failed, List.any_eq_true]
  exact ⟨f, hMem, by simp [hBreaks.rule_eq, hBreaks.not_passed]⟩

end Report

namespace Validator

/-- A file is given up, or its instructions are checked, or its lines are
scanned. Which of these comes to pass depends on the first check and then on
whether the file parses. -/
theorem standard_cases (content : Text) (time : Instant) :
    (∃ message, Diagnostic.blocking (Precheck.check content) content ≠ [] ∧
      standard.validateInternal content time = .broken message time) ∨
    (∃ instructions, Diagnostic.blocking (Precheck.check content) content = [] ∧
      parse content = .ok instructions ∧
      standard.validateInternal content time =
        .build (Rule.evaluateAll instructions) .structured time) ∨
    ∃ e, Diagnostic.blocking (Precheck.check content) content = [] ∧ parse content = .error e ∧
      standard.validateInternal content time =
        .build (LineScan.scan (BuildKit.detect content) content) .heuristic time := by
  have hCheck : standard.precheck content = Precheck.check content := rfl
  have hTokens : standard.tokenize content = (parse content).toOption := rfl
  rw [validateInternal, hCheck, hTokens]
  cases hBlocking : Diagnostic.blocking (Precheck.check content) content with
  | cons d ds => exact .inl ⟨_, by simp, rfl⟩
  | nil =>
      cases hParse : parse content with
      | error e => exact .inr (.inr ⟨e, rfl, rfl, rfl⟩)
      | ok instructions => exact .inr (.inl ⟨instructions, rfl, rfl, rfl⟩)

/-- A rule that guards security and is found broken both by the check of the
instructions, if the file parses, and by the scan of the lines, caps the grade
of the file. A file that is given up gets the lowest grade without either. -/
theorem grade_of_breaks {rule : String} {content : Text} (time : Instant)
    (hCritical : rule ∈ securityCritical)
    (hRules : ∀ instructions, parse content = .ok instructions →
      ∃ f ∈ Rule.evaluateAll instructions, f.Breaks rule)
    (hScan : ∃ f ∈ LineScan.scan (BuildKit.detect content) content, f.Breaks rule) :
    ((standard.validateInternal content time).grade = .C ∨
      (standard.validateInternal content time).grade = .D ∨
      (standard.validateInternal content time).grade = .F) ∧
    ((standard.validateInternal content time).evaluation ≠ .parseError →
      (standard.validateInternal content time).failed rule = true) := by
  rcases standard_cases content time with
    ⟨message, -, hReport⟩ | ⟨instructions, -, hParse, hReport⟩ | ⟨e, -, -, hReport⟩
  · rw [hReport]
    exact ⟨.inr (.inr rfl), fun h => absurd rfl h⟩
  · obtain ⟨f, hMem, hBreaks⟩ := hRules instructions hParse
    rw [hReport]
    exact ⟨Report.grade_build_of_mem hMem (hBreaks.capsGrade hCritical) _ _,
      fun _ => Report.failed_build_of_mem hMem hBreaks _ _⟩
  · obtain ⟨f, hMem, hBreaks⟩ := hScan
    rw [hReport]
    exact ⟨Report.grade_build_of_mem hMem (hBreaks.capsGrade hCritical) _ _,
      fun _ => Report.failed_build_of_mem hMem hBreaks _ _⟩

end Validator

namespace LineScan

/-- A scan finds what it finds on the lines one by one, with the number that a
line has in the file. -/
theorem mem_scanFrom_iff {n : Nat} {lines : List Text} {f : Finding} :
    f ∈ scanFrom n lines ↔ ∃ k line, lines[k]? = some line ∧ f ∈ scanLine (n + k) line := by
  induction lines generalizing n with
  | nil => simp [scanFrom]
  | cons first rest ih =>
      have hNumber : ∀ k, n + 1 + k = n + (k + 1) := fun k => by omega
      rw [scanFrom, List.mem_append, ih]
      constructor
      · rintro (hHere | ⟨k, line, hLine, hFound⟩)
        · exact ⟨0, first, rfl, hHere⟩
        · exact ⟨k + 1, line, hLine, hNumber k ▸ hFound⟩
      · rintro ⟨k, line, hLine, hFound⟩
        cases k with
        | zero =>
            obtain rfl : first = line := by simpa using hLine
            exact .inl hFound
        | succ k => exact .inr ⟨k, line, hLine, (hNumber k).symm ▸ hFound⟩

/-- A line that begins with a keyword is put through all checks of lines. -/
theorem scanLine_of_trim (n : Nat) {line word rest : Text} (hWord : isKeyword word = true)
    (hTrim : Text.trim line = word ++ rest) :
    scanLine n line =
      latestImage n (Text.trim line) ++ hardcodedSecret n (Text.trim line) ++
        rootUser n (Text.trim line) ++ recommendedPackages n (Text.trim line) := by
  have hHead := head?_append_of_isKeyword hWord rest
  obtain ⟨c, cs, rfl, -⟩ := exists_cons_of_isKeyword hWord
  have hActive : ((Text.trim line).isEmpty || (Text.trim line).head? = some '#') = false := by
    rw [hTrim, decide_eq_false hHead]
    rfl
  rw [scanLine, if_neg (by rw [hActive]; simp)]

/-- What the scan takes for the arguments of a keyword in letters of either
case: all that follows the blanks after it, and at least something. -/
theorem operand?_append {keyword : String} {word rest : Text} (hWord : isKeyword word = true)
    (hLower : Text.lower word = keyword.toList) (hRest : rest.head?.all Text.isBlank = true)
    (hArgs : Text.trimStart rest ≠ []) :
    operand? keyword (word ++ rest) = some (Text.trimStart rest) := by
  have hFold : word.map Text.fold = keyword.toList := by
    rw [← hLower]
    apply List.map_congr_left
    intro c hc
    have hBounds := Text.isAlpha_bounds (isAlpha_of_isKeyword hWord c hc)
    exact Text.fold_of_lt (by omega)
  have hAfter : BuildKit.afterKeyword? keyword (word ++ rest) = some rest := by
    rw [BuildKit.afterKeyword?, trimStart_append_of_isKeyword hWord, Text.afterFolded?_append hFold]
  have hNe : rest ≠ [] := by
    rintro rfl
    exact hArgs rfl
  have hBlanks := Text.afterBlanks?_eq_some hNe hRest
  rw [operand?, hAfter, Option.bind_some, hBlanks]
  cases hCons : Text.trimStart rest with
  | nil => exact absurd hCons hArgs
  | cons c cs => rfl

/-- What is found on a line is found in the file. -/
theorem mem_scan {content : Text} {before rest : List Text} {line : Text}
    {f : Finding} (features : Features) (hLines : Text.lines content = before ++ line :: rest)
    (hMem : f ∈ scanLine (1 + before.length) line) :
    f ∈ scan features content := by
  have hLine : (Text.lines content)[before.length]? = some line := by simp [hLines]
  exact List.mem_append_left _ (mem_scanFrom_iff.mpr ⟨before.length, line, hLine, hMem⟩)

theorem rule_of_mem_latestImage {n : Nat} {line : Text} {f : Finding}
    (h : f ∈ latestImage n line) : f.rule = "pinned-base-image" := by
  unfold latestImage at h
  split at h
  · simp at h
  · dsimp only at h
    split at h
    · rw [List.mem_singleton.mp h]
      rfl
    · simp at h

theorem rule_of_mem_hardcodedSecret {n : Nat} {line : Text} {f : Finding}
    (h : f ∈ hardcodedSecret n line) : f.rule = "no-secrets" := by
  unfold hardcodedSecret at h
  split at h
  · split at h
    · rw [List.mem_singleton.mp h]
      rfl
    · rw [List.mem_singleton.mp h]
      rfl
  · simp at h

theorem rule_of_mem_rootUser {n : Nat} {line : Text} {f : Finding}
    (h : f ∈ rootUser n line) : f.rule = "no-root-user" := by
  unfold rootUser at h
  split at h
  · simp at h
  · split at h
    · rw [List.mem_singleton.mp h]
      rfl
    · simp at h

theorem exists_of_mem_scanFrom {n : Nat} {lines : List Text} {f : Finding}
    (h : f ∈ scanFrom n lines) : ∃ k, ∃ line ∈ lines, f ∈ scanLine k line := by
  obtain ⟨k, line, hLine, hFound⟩ := mem_scanFrom_iff.mp h
  exact ⟨n + k, line, List.mem_of_getElem? hLine, hFound⟩

/-- The use of a feature is never a failure. -/
theorem passed_of_mem_featureFindings {features : Features} {lines : List Text} {f : Finding}
    (h : f ∈ featureFindings features lines) : f.passed = true := by
  rw [featureFindings, List.mem_append, List.mem_append, List.mem_append] at h
  rcases h with ((h | h) | h) | h
  all_goals
    split at h
    · rw [List.mem_singleton.mp h]
      rfl
    · simp at h

end LineScan

end Drydock
