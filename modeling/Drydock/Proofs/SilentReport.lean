import Drydock.Proofs.LineAgreement
import Drydock.Proofs.ReportHistory

/-! Reports that say nothing. The rules always give a verdict, and so does a
file that is given up. A scan reports only what it finds, so a file that the
first check lets pass and that cannot be read may come out with no finding at
all, and then with the best score and grade. -/
namespace Drydock

namespace LineScan

/-- Nothing on the line gives a scan cause for a report. -/
structure IsQuiet (line : Text) : Prop where
  image : ∀ args, operand? "from" (Text.trim line) = some args →
    Image.isLatest (Image.reference args) = false
  secret : Secret.looksSecret (Text.trim line) = true →
    BuildKit.isSecretMountLine (Text.trim line) = true
  user : ∀ args, operand? "user" (Text.trim line) = some args →
    Account.isRoot (Text.firstRun args) = false
  packages : Command.installsRecommended (Text.trim line) = false

theorem operand?_nil {keyword : String} (hKeyword : keyword.toList ≠ []) :
    operand? keyword [] = none := by
  have hAfter : Text.afterFolded? keyword.toList [] = none := by
    cases hChars : keyword.toList with
    | nil => exact absurd hChars hKeyword
    | cons c cs => rfl
  simp [operand?, BuildKit.afterKeyword?, Text.trimStart, hAfter]

/-- A blank line is quiet, so only comments have to be set apart. -/
theorem isQuiet_of_blank {line : Text} (h : Text.trim line = []) : IsQuiet line where
  image := by simp [h, operand?_nil]
  secret := by
    rw [h]
    exact fun hSecret => absurd hSecret (by decide)
  user := by simp [h, operand?_nil]
  packages := by
    rw [h]
    decide

/-- No report on the image: the line is no FROM, or its image has another tag or
none. -/
theorem latestImage_eq_nil_iff {n : Nat} {line : Text} :
    latestImage n line = [] ↔
      ∀ args, operand? "from" line = some args → Image.isLatest (Image.reference args) = false := by
  rw [latestImage]
  cases operand? "from" line with
  | none => simp
  | some args => simp

/-- No report on a secret: nothing on the line looks like one, or the line
mounts a secret. -/
theorem hardcodedSecret_eq_nil_iff {n : Nat} {line : Text} :
    hardcodedSecret n line = [] ↔
      (Secret.looksSecret line = true → BuildKit.isSecretMountLine line = true) := by
  rw [hardcodedSecret]
  cases Secret.looksSecret line with
  | false => simp
  | true =>
      cases BuildKit.isSecretMountLine line with
      | true => simp
      | false => cases Secret.holder? line <;> simp

/-- No report on the account: the line is no USER, or its account is not
root. -/
theorem rootUser_eq_nil_iff {n : Nat} {line : Text} :
    rootUser n line = [] ↔
      ∀ args, operand? "user" line = some args → Account.isRoot (Text.firstRun args) = false := by
  rw [rootUser]
  cases operand? "user" line with
  | none => simp
  | some args => simp

theorem recommendedPackages_eq_nil_iff {n : Nat} {line : Text} :
    recommendedPackages n line = [] ↔ Command.installsRecommended line = false := by
  simp [recommendedPackages]

/-- The scan of a line comes out empty for a comment and where nothing on the
line gives cause for a report. -/
theorem scanLine_eq_nil_iff {n : Nat} {line : Text} :
    scanLine n line = [] ↔ LogicalLine.isComment line = true ∨ IsQuiet line := by
  have hComment : LogicalLine.isComment line = decide ((Text.trim line).head? = some '#') := by
    rw [LogicalLine.isComment, Text.head?_trim]
  by_cases hBlank : Text.trim line = []
  · simp [scanLine, hBlank, isQuiet_of_blank hBlank]
  · by_cases hHash : (Text.trim line).head? = some '#'
    · simp [scanLine, hComment, hHash]
    · rw [scanLine, if_neg (by simp [hBlank, hHash]), List.append_eq_nil_iff,
        List.append_eq_nil_iff, List.append_eq_nil_iff, latestImage_eq_nil_iff,
        hardcodedSecret_eq_nil_iff, rootUser_eq_nil_iff, recommendedPackages_eq_nil_iff]
      rw [hComment, decide_eq_false hHash]
      constructor
      · rintro ⟨⟨⟨hImage, hSecret⟩, hUser⟩, hPackages⟩
        exact .inr ⟨hImage, hSecret, hUser, hPackages⟩
      · rintro (h | h)
        · simp at h
        · exact ⟨⟨⟨h.image, h.secret⟩, h.user⟩, h.packages⟩

/-- The scan of lines comes out empty when that of each does, whatever numbers
they have. -/
theorem scanFrom_eq_nil_iff {n : Nat} {lines : List Text} :
    scanFrom n lines = [] ↔
      ∀ line ∈ lines, LogicalLine.isComment line = true ∨ IsQuiet line := by
  induction lines generalizing n with
  | nil => simp [scanFrom]
  | cons line rest ih =>
      rw [scanFrom, List.append_eq_nil_iff, scanLine_eq_nil_iff, ih, List.forall_mem_cons]

/-- No feature is reported when none is in use. Mounts may be, as long as no
line has one that is plain. -/
theorem featureFindings_eq_nil_iff {features : Features} {lines : List Text} :
    featureFindings features lines = [] ↔
      features.directive = none ∧ features.heredocs = false ∧
        (features.mounts = true → ∀ line ∈ lines, BuildKit.hasPlainMount line = false) ∧
        features.secretMounts = false := by
  rw [featureFindings, List.append_eq_nil_iff, List.append_eq_nil_iff, List.append_eq_nil_iff]
  cases features.directive with
  | none => simp [and_assoc]
  | some parser => simp

end LineScan

/-- A file about which nothing is said. It passes the first check and cannot be
read, each of its lines is a comment or quiet, and no feature of the extended
syntax is seen that a scan mentions. -/
structure IsSilent (content : Text) : Prop where
  passes : Diagnostic.blocking (Precheck.check content) content = []
  unreadable : ∃ e, parse content = .error e
  quiet : ∀ line ∈ Text.lines content,
    LogicalLine.isComment line = true ∨ LineScan.IsQuiet line
  directive : BuildKit.directiveIn? (Text.lines content) = none
  heredocs : BuildKit.hasHeredoc content = false
  mounts : BuildKit.hasMount content = true →
    ∀ line ∈ Text.lines content, BuildKit.hasPlainMount line = false
  secretMounts : BuildKit.hasSecretMount content = false

/-- The scan of a file comes out empty exactly when its lines are quiet and it
uses no feature that is reported. -/
theorem LineScan.scan_eq_nil_iff {content : Text} :
    LineScan.scan (BuildKit.detect content) content = [] ↔
      (∀ line ∈ Text.lines content,
        LogicalLine.isComment line = true ∨ LineScan.IsQuiet line) ∧
      BuildKit.directiveIn? (Text.lines content) = none ∧ BuildKit.hasHeredoc content = false ∧
      (BuildKit.hasMount content = true →
        ∀ line ∈ Text.lines content, BuildKit.hasPlainMount line = false) ∧
      BuildKit.hasSecretMount content = false := by
  rw [LineScan.scan, List.append_eq_nil_iff, LineScan.scanFrom_eq_nil_iff,
    LineScan.featureFindings_eq_nil_iff]
  simp [BuildKit.detect]

/-- The rules give a verdict each, also on a file without instructions. -/
theorem Rule.evaluateAll_ne_nil (instructions : List Instruction) :
    Rule.evaluateAll instructions ≠ [] := by
  simp [Rule.evaluateAll, Rule.catalog]

/-- Only a scan can come out empty, and it does so exactly for the silent
files. -/
theorem Validator.findings_eq_nil_iff {content : Text} {time : Instant} :
    (standard.validateInternal content time).findings = [] ↔ IsSilent content := by
  rcases standard_cases content time with
    ⟨message, hBlocking, hReport⟩ | ⟨instructions, -, hParse, hReport⟩ |
      ⟨e, hBlocking, hParse, hReport⟩
  · rw [hReport]
    refine ⟨fun h => absurd h (by simp [Report.broken, Report.build]), ?_⟩
    exact fun h => absurd h.passes hBlocking
  · rw [hReport]
    refine ⟨fun h => absurd h (Rule.evaluateAll_ne_nil instructions), ?_⟩
    intro h
    obtain ⟨e, hError⟩ := h.unreadable
    simp [hParse] at hError
  · rw [hReport]
    refine LineScan.scan_eq_nil_iff.trans ?_
    constructor
    · rintro ⟨hQuiet, hDirective, hHeredocs, hMounts, hSecrets⟩
      exact ⟨hBlocking, ⟨e, hParse⟩, hQuiet, hDirective, hHeredocs, hMounts, hSecrets⟩
    · exact fun h => ⟨h.quiet, h.directive, h.heredocs, h.mounts, h.secretMounts⟩

/-- A line that is nothing but a keyword which has to have arguments. -/
def lacksArguments (line : Text) : Bool :=
  isKeyword (Text.trim line) && !Instruction.mayStandAlone (Text.upper (Text.trim line))

/-- A line that begins with a keyword is refused only for lack of arguments.
Being trimmed, it is the keyword and nothing else. -/
theorem lacksArguments_of_ofLine {l : LogicalLine} {physical : Text} {e : ParseError}
    (hContent : l.content = Text.trim physical) (hRefused : Instruction.ofLine l = .error e)
    (hWord : isKeyword (Text.firstRun l.content) = true) : lacksArguments physical = true := by
  obtain ⟨args, hRead⟩ := Instruction.exists_keyword?_of_isKeyword hWord
  obtain ⟨-, hAlpha, rest, hSplit, hRest, rfl⟩ := Instruction.keyword?_eq_some_iff.mp hRead
  rw [Instruction.ofLine, hRead] at hRefused
  dsimp only at hRefused
  rw [hWord, if_neg (by simp)] at hRefused
  split at hRefused
  · rename_i hAlone
    rw [Bool.and_eq_true, List.isEmpty_iff, Text.trim_eq_nil_iff, Bool.not_eq_true'] at hAlone
    -- the line is trimmed, so that nothing can follow the keyword
    have hWhole : Text.trim physical = Text.firstRun l.content := by
      have hEnd : Text.trimEnd (Text.trim physical) = Text.trim physical :=
        Text.trimEnd_trimEnd _
      rw [← hEnd, ← hContent]
      conv_lhs => rw [hSplit]
      rw [Text.trimEnd_append_of_blank hAlone.1]
      apply Text.trimEnd_eq_self
      refine (Option.all_eq_true _ _).mpr fun c hc => ?_
      simp [Text.isBlank_of_isAlpha (hAlpha c (List.mem_of_getLast? hc))]
    rw [lacksArguments, hWhole, hWord, hAlone.2]
    rfl
  · simp at hRefused

theorem IsOrdered.isKeyword {words : List Text} (h : IsOrdered words) :
    ∀ w ∈ words, Drydock.isKeyword w = true := by
  obtain ⟨args, base, rest, rfl, hArgs, hBase, hRest⟩ := h
  intro w hw
  rcases List.mem_append.mp hw with hw | hw
  · exact isKeyword_of_upper_eq (by decide) (Text.sameLetters_iff_upper.mp (hArgs w hw))
  · rcases List.mem_cons.mp hw with rfl | hw
    · exact isKeyword_of_upper_eq (by decide) (Text.sameLetters_iff_upper.mp hBase)
    · exact hRest w hw

/-- A plain file that passes the first check and cannot be read has a keyword
without its arguments, or a word that was excused. All other faults of reading
are such that the check finds them first. -/
theorem exists_line_of_parse_error {content : Text} {e : ParseError}
    (hEnds : ∀ line ∈ Text.lines content, LogicalLine.continued? line = none)
    (hPlain : ∀ line ∈ Text.lines content, Text.occursIn "<<".toList line = false)
    (hPasses : Diagnostic.blocking (Precheck.check content) content = [])
    (hParse : parse content = .error e) :
    ∃ line ∈ Text.lines content,
      lacksArguments line = true ∨ isExcused (Text.firstWord line) = true := by
  obtain ⟨l, hMem, hIdle, hRefused⟩ := exists_refused_of_instructionsOf hParse
  obtain ⟨before, physical, rest, hLines, -, hContent⟩ :=
    LogicalLine.exists_line_of_mem hEnds hMem
  have hLine : physical ∈ Text.lines content := by simp [hLines]
  have hFirst : Text.firstRun l.content = Text.firstWord physical := by
    rw [hContent, ← Text.firstWord_trim, Text.firstWord_eq_firstRun, Text.trimStart_trim]
  refine ⟨physical, hLine, ?_⟩
  cases hWord : isKeyword (Text.firstWord physical) with
  | true =>
      rw [← hFirst] at hWord
      exact .inl (lacksArguments_of_ofLine hContent hRefused hWord)
  | false =>
      have hOrdered : IsOrdered ((leadWords (Text.lines content)).filter (!isExcused ·)) :=
        (Precheck.filter_checkFrom_eq_nil_iff (List.nil_append _).symm hEnds hPlain).mp hPasses
      have hActive : Precheck.isActive physical = true := by
        simpa [LogicalLine.isIdle_eq_not_isActive hContent] using hIdle
      have hLead : Text.firstWord physical ∈ leadWords (Text.lines content) :=
        List.mem_map_of_mem (List.mem_filter.mpr ⟨hLine, hActive⟩)
      refine .inr ?_
      by_contra hCounted
      have hKept := hOrdered.isKeyword _ (List.mem_filter.mpr ⟨hLead, by simpa using hCounted⟩)
      simp [hWord] at hKept

/-- A report has at most 100 points, and one on a file that is given up has
none, the grade F and one finding. A report is empty exactly for a silent file,
which then has 100 points and the grade A. A plain file that is silent has a
keyword without its arguments or an excused word. -/
theorem report_of_isSilent (content : Text) (time : Instant) :
    (Validator.standard.validateInternal content time).score ≤ 100 ∧
    ((Validator.standard.validateInternal content time).evaluation = .parseError →
      (Validator.standard.validateInternal content time).score = 0 ∧
      (Validator.standard.validateInternal content time).grade = .F ∧
      (Validator.standard.validateInternal content time).findings.length = 1) ∧
    ((Validator.standard.validateInternal content time).findings = [] ↔ IsSilent content) ∧
    (IsSilent content →
      Validator.standard.validateInternal content time =
        { findings := [], score := 100, grade := .A, tally := ⟨0, 0, 0, 0, 0⟩, time,
          evaluation := .heuristic }) ∧
    (IsSilent content →
      (∀ line ∈ Text.lines content, (Text.trimEnd line).getLast? ≠ some '\\') →
      (∀ line ∈ Text.lines content, Text.occursIn "<<".toList line = false) →
      ∃ line ∈ Text.lines content,
        lacksArguments line = true ∨ isExcused (Text.firstWord line) = true) := by
  refine ⟨?_, ?_, Validator.findings_eq_nil_iff, ?_, ?_⟩
  · rcases Validator.validateInternal_cases .standard content time with
      ⟨findings, evaluation, hReport⟩ | ⟨message, hReport⟩
    · rw [hReport]
      exact (Report.keepsCap_build findings evaluation time).score_le
    · rw [hReport]
      exact Nat.zero_le _
  · intro hEvaluation
    rcases Validator.standard_cases content time with
      ⟨message, -, hReport⟩ | ⟨instructions, -, -, hReport⟩ | ⟨e, -, -, hReport⟩
    · rw [hReport]
      exact ⟨rfl, rfl, rfl⟩
    · simp [hReport, Report.build] at hEvaluation
    · simp [hReport, Report.build] at hEvaluation
  · intro hSilent
    have hNone : (Validator.standard.validateInternal content time).findings = [] :=
      Validator.findings_eq_nil_iff.mpr hSilent
    rcases Validator.standard_cases content time with
      ⟨message, hBlocking, -⟩ | ⟨instructions, -, hParse, -⟩ | ⟨e, -, -, hReport⟩
    · exact absurd hSilent.passes hBlocking
    · obtain ⟨e, hError⟩ := hSilent.unreadable
      simp [hParse] at hError
    · rw [hReport] at hNone ⊢
      rw [show LineScan.scan (BuildKit.detect content) content = [] from hNone]
      rfl
  · intro hSilent hEnds hPlain
    obtain ⟨e, hParse⟩ := hSilent.unreadable
    exact exists_line_of_parse_error
      (fun line hl => LogicalLine.continued?_eq_none_iff.mpr (hEnds line hl)) hPlain
      hSilent.passes hParse

def bareFile : Text := "FROM python:3.12-slim AS build\nUSER".toList

set_option maxRecDepth 8000 in
/-- A file with a keyword that lacks its arguments gets a report with nothing in
it. -/
theorem report_of_isSilent_bareFile :
    IsSilent bareFile ∧
    Validator.standard.validateInternal bareFile ⟨0, 0⟩ =
      { findings := [], score := 100, grade := .A, tally := ⟨0, 0, 0, 0, 0⟩, time := ⟨0, 0⟩,
        evaluation := .heuristic } ∧
    ∃ line ∈ Text.lines bareFile,
      lacksArguments line = true ∨ isExcused (Text.firstWord line) = true := by
  obtain ⟨-, -, hEmpty, hReport, hCause⟩ := report_of_isSilent bareFile ⟨0, 0⟩
  have hSilent : IsSilent bareFile := hEmpty.mp (by decide +kernel)
  exact ⟨hSilent, hReport hSilent, hCause hSilent (by decide) (by decide)⟩

/-- The parser refuses the file, and the report on it finds nothing to say. -/
def PraisesUnreadable (content : Text) (time : Instant) : Prop :=
  parse content = .error ⟨.missingArguments "USER".toList, 2⟩ ∧
    (Validator.standard.validateInternal content time).findings = [] ∧
    (Validator.standard.validateInternal content time).grade = .A

theorem praisesUnreadable_bareFile : PraisesUnreadable bareFile ⟨0, 0⟩ :=
  ⟨by decide +kernel, by decide +kernel, by decide +kernel⟩

end Drydock
