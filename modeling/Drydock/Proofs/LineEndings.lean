import Drydock.Proofs.ScanAgreement

/-! Line ends. What fails in a file depends on its lines alone, and a carriage
return before a line feed is no part of a line. Features of the extended syntax
are looked for in the raw text, where line ends do show, but they only ever
pass. -/
namespace Drydock

namespace Text

/-- The text with a carriage return before every line feed. -/
def withReturns : Text → Text
  | [] => []
  | c :: cs => if c = '\n' then '\r' :: '\n' :: withReturns cs else c :: withReturns cs

/-- A character that ends no line is put in front of the first line, which may
have to be made for it. -/
theorem lines_cons {c : Char} (cs : Text) (hFeed : c ≠ '\n') (hReturn : c ≠ '\r') :
    lines (c :: cs) =
      match lines cs with
      | [] => [[c]]
      | line :: rest => (c :: line) :: rest := by
  apply lines.eq_4
  · exact hFeed
  · intro _ h
    exact absurd h hReturn

/-- With a return before every feed the lines stay the same, as long as the text
has no returns of its own. Of two returns in a row only the second belongs to
the end of the line. -/
theorem lines_withReturns {s : Text} (hReturn : '\r' ∉ s) : lines (withReturns s) = lines s := by
  induction s with
  | nil => rfl
  | cons c cs ih =>
      rw [List.mem_cons, not_or] at hReturn
      have hTail := ih hReturn.2
      by_cases hFeed : c = '\n'
      · rw [withReturns, if_pos hFeed, hFeed, lines, lines, hTail]
      · rw [withReturns, if_neg hFeed, lines_cons _ hFeed (Ne.symm hReturn.1),
          lines_cons _ hFeed (Ne.symm hReturn.1), hTail]

end Text

/-- What passed costs nothing. -/
theorem totalPenalty_filter (findings : List Finding) :
    totalPenalty (findings.filter (!·.passed)) = totalPenalty findings := by
  induction findings with
  | nil => rfl
  | cons f rest ih =>
      cases hPassed : f.passed with
      | true =>
          rw [List.filter_cons_of_neg (by simp [hPassed]), totalPenalty, ih, Finding.penalty,
            hPassed, if_pos rfl, Nat.zero_add]
      | false =>
          rw [List.filter_cons_of_pos (by simp [hPassed]), totalPenalty, totalPenalty, ih]

theorem isCapped_filter (findings : List Finding) :
    isCapped (findings.filter (!·.passed)) = isCapped findings := by
  rw [isCapped, isCapped, List.any_filter]
  congr 1
  funext f
  cases hPassed : f.passed <;> simp [Finding.capsGrade, hPassed]

theorem Tally.failedAt_filter (severity : Severity) (findings : List Finding) :
    failedAt severity (findings.filter (!·.passed)) = failedAt severity findings := by
  rw [failedAt, failedAt, List.countP_filter]
  congr 1
  funext f
  cases f.passed <;> simp

namespace Report

structure SameVerdict (r s : Report) : Prop where
  evaluation : r.evaluation = s.evaluation
  time : r.time = s.time
  score : r.score = s.score
  grade : r.grade = s.grade
  failed : r.tally.failed = s.tally.failed
  errors : r.tally.errors = s.tally.errors
  warnings : r.tally.warnings = s.tally.warnings
  infos : r.tally.infos = s.tally.infos
  failures : r.failures = s.failures

theorem SameVerdict.refl (r : Report) : SameVerdict r r :=
  ⟨rfl, rfl, rfl, rfl, rfl, rfl, rfl, rfl, rfl⟩

/-- What passed has no part in a score, a grade or the counts of what failed. -/
theorem sameVerdict_build {found other : List Finding} (evaluation : Evaluation) (time : Instant)
    (h : found.filter (!·.passed) = other.filter (!·.passed)) :
    SameVerdict (build found evaluation time) (build other evaluation time) := by
  have hScore : scoreOf found = scoreOf other := by
    rw [scoreOf, scoreOf, ← totalPenalty_filter found, h, totalPenalty_filter]
  have hCapped : isCapped found = isCapped other := by
    rw [← isCapped_filter found, h, isCapped_filter]
  have hSeverity : ∀ severity, Tally.failedAt severity found = Tally.failedAt severity other := by
    intro severity
    rw [← Tally.failedAt_filter severity found, h, Tally.failedAt_filter]
  refine ⟨rfl, rfl, hScore, ?_, ?_, hSeverity .error, hSeverity .warning, hSeverity .info, h⟩
  · show gradeOf (scoreOf found) found = gradeOf (scoreOf other) other
    rw [gradeOf, gradeOf, hScore, hCapped]
  · show found.countP (!·.passed) = other.countP (!·.passed)
    rw [List.countP_eq_length_filter, List.countP_eq_length_filter, h]

end Report

/-- What fails in a scan is what is found on the lines. The findings about
features of the builder only ever pass, and they are all that is read from the
text as a whole. -/
theorem LineScan.filter_scan (features : Features) (content : Text) :
    (LineScan.scan features content).filter (!·.passed) =
      LineScan.scanFrom 1 (Text.lines content) := by
  have hLines : ∀ f ∈ LineScan.scanFrom 1 (Text.lines content), (!f.passed) = true := by
    intro f hMem
    obtain ⟨n, line, -, hFound⟩ := LineScan.exists_of_mem_scanFrom hMem
    rw [(LineScan.failed_of_mem_scanLine hFound).1]
    rfl
  have hFeatures : ∀ f ∈ LineScan.featureFindings features (Text.lines content),
      ¬ (!f.passed) = true := by
    intro f hMem
    simp [LineScan.passed_of_mem_featureFindings hMem]
  rw [LineScan.scan, List.filter_append, List.filter_eq_self.mpr hLines,
    List.filter_eq_nil_iff.mpr hFeatures, List.append_nil]

section SameLines

variable {content other : Text} (hLines : Text.lines other = Text.lines content)

include hLines

theorem LogicalLine.ofText_of_lines : ofText other = ofText content := by
  rw [ofText, ofText, hLines]

theorem parse_of_lines : parse other = parse content := by
  rw [parse, parse, LogicalLine.ofText_of_lines hLines]

theorem Precheck.check_of_lines : check other = check content := by
  rw [check, check, hLines]

theorem Precheck.blocking_check_of_lines :
    Diagnostic.blocking (check other) other = Diagnostic.blocking (check content) content := by
  rw [Diagnostic.blocking, Diagnostic.blocking, check_of_lines hLines, hLines]

/-- Files with the same lines get the same verdict. The findings themselves may
differ in what passed, since the features are looked for in the text with its
line ends. -/
theorem Validator.sameVerdict_of_lines (time : Instant) :
    (standard.validateInternal other time).SameVerdict
      (standard.validateInternal content time) := by
  have hCheck : ∀ text, standard.precheck text = Precheck.check text := fun _ => rfl
  have hTokens : ∀ text, standard.tokenize text = (parse text).toOption := fun _ => rfl
  rw [validateInternal, validateInternal, hCheck, hCheck, hTokens, hTokens,
    Precheck.blocking_check_of_lines hLines, parse_of_lines hLines]
  cases Diagnostic.blocking (Precheck.check content) content with
  | cons d ds => exact .refl _
  | nil =>
      cases (parse content).toOption with
      | some instructions => exact .refl _
      | none =>
          -- the features may differ here, but not what is found on the lines
          apply Report.sameVerdict_build
          rw [LineScan.filter_scan, LineScan.filter_scan, hLines]

end SameLines

/-- Nothing that is said about the lines of a file changes with a carriage
return at the end of each, and no verdict does. The file must have no returns
before, since a second one in front of a line feed would belong to the line. -/
theorem verdict_withReturns {content : Text} (hReturn : '\r' ∉ content) (time : Instant) :
    LogicalLine.ofText (Text.withReturns content) = LogicalLine.ofText content ∧
    parse (Text.withReturns content) = parse content ∧
    Precheck.check (Text.withReturns content) = Precheck.check content ∧
    Diagnostic.blocking (Precheck.check (Text.withReturns content)) (Text.withReturns content) =
      Diagnostic.blocking (Precheck.check content) content ∧
    (Validator.standard.validateInternal (Text.withReturns content) time).SameVerdict
      (Validator.standard.validateInternal content time) := by
  have hLines := Text.lines_withReturns hReturn
  exact ⟨LogicalLine.ofText_of_lines hLines, parse_of_lines hLines,
    Precheck.check_of_lines hLines, Precheck.blocking_check_of_lines hLines,
    Validator.sameVerdict_of_lines hLines time⟩

/-- A heredoc is seen behind the bare keyword and its line feed, but not when a
carriage return comes in between. -/
def splitHeredocFile : Text := "FROM a:latest\nUSER root\nRUN a \\\n<<X\nRUN\n<<EOF\nX\n".toList

set_option maxRecDepth 8000 in
/-- The findings on that file change with the returns, since a finding that
passes is lost. The verdict stays the same. -/
theorem verdict_splitHeredocFile :
    '\r' ∉ splitHeredocFile ∧
    (Validator.standard.validateInternal splitHeredocFile ⟨0, 0⟩).failures.length = 2 ∧
    (Validator.standard.validateInternal (Text.withReturns splitHeredocFile) ⟨0, 0⟩).findings ≠
      (Validator.standard.validateInternal splitHeredocFile ⟨0, 0⟩).findings ∧
    (Validator.standard.validateInternal (Text.withReturns splitHeredocFile) ⟨0, 0⟩).SameVerdict
      (Validator.standard.validateInternal splitHeredocFile ⟨0, 0⟩) := by
  have hReturn : '\r' ∉ splitHeredocFile := by decide
  exact ⟨hReturn, by decide +kernel, by decide +kernel,
    (verdict_withReturns hReturn ⟨0, 0⟩).2.2.2.2⟩

end Drydock
