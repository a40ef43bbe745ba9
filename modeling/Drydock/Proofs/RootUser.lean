import Drydock.Proofs.Grade
import Drydock.Proofs.KeywordLine

/-! A file whose last USER names root. The check of the instructions looks at
the last USER alone and the scan of the lines at every line, so the line in
question is found either way, and the grade is none better than C. -/
namespace Drydock

/-- Whether a line begins with a word, in letters of either case, and a blank
after it. -/
def LogicalLine.begins (word : Text) (l : LogicalLine) : Bool :=
  Text.sameLetters (l.content.take word.length) word &&
    (l.content[word.length]?).any Text.isBlank

/-- A line begins with a word when the letters of the word come first, in either
case, and a blank after them. -/
theorem LogicalLine.begins_iff {word : Text} {l : LogicalLine} :
    l.begins word = true ↔
      ∃ lead c rest, l.content = lead ++ c :: rest ∧ Text.sameLetters lead word = true ∧
        Text.isBlank c = true := by
  rw [begins, Bool.and_eq_true]
  constructor
  · rintro ⟨hSame, hBlank⟩
    cases hAt : l.content[word.length]? with
    | none => simp [hAt] at hBlank
    | some c =>
        have hSplit : l.content.take word.length ++ l.content.drop word.length = l.content :=
          List.take_append_drop ..
        have hHead : (l.content.drop word.length).head? = some c := by rw [List.head?_drop, hAt]
        obtain ⟨rest, hDrop⟩ := List.head?_eq_some_iff.mp hHead
        rw [hDrop] at hSplit
        exact ⟨_, c, rest, hSplit.symm, hSame, by simpa [hAt] using hBlank⟩
  · rintro ⟨lead, c, rest, hContent, hSame, hc⟩
    have hLength : lead.length = word.length := by
      simpa [Text.lower] using congrArg List.length (Text.sameLetters_iff.mp hSame)
    rw [hContent, ← hLength]
    simp [hSame, hc]

/-- A line that begins with a word of letters is neither empty nor a comment. -/
theorem LogicalLine.isIdle_of_begins {word : Text} {l : LogicalLine}
    (hAlpha : ∀ c ∈ word, c.isAlpha = true) (h : l.begins word = true) : l.isIdle = false := by
  obtain ⟨lead, c, rest, hContent, hSame, hc⟩ := begins_iff.mp h
  rw [isIdle, hContent]
  cases lead with
  | nil =>
      have hHash : c ≠ '#' := by
        rintro rfl
        revert hc
        decide
      simp [hHash]
  | cons d lead =>
      have hd := Text.isAlpha_of_sameLetters hSame hAlpha d (by simp)
      have hHash : d ≠ '#' := by
        rintro rfl
        revert hd
        decide
      simp [hHash]

namespace Instruction

/-- Whether an instruction has a keyword that cannot stand alone can be seen
from the line, because the blank after the keyword then cannot be missing. -/
theorem begins_of_ofLine {l : LogicalLine} {i : Instruction} {keyword : String}
    (h : ofLine l = .ok i) (hUpper : Text.upper keyword.toList = keyword.toList)
    (hAlpha : ∀ c ∈ keyword.toList, c.isAlpha = true)
    (hAlone : mayStandAlone keyword.toList = false) :
    l.begins keyword.toList = i.is keyword := by
  obtain ⟨word, rest, hContent, hWord, hRest, hNil, rfl⟩ := ofLine_eq_ok_iff.mp h
  rw [Bool.eq_iff_iff, LogicalLine.begins_iff, is, Text.sameLetters_iff, Text.lower_upper]
  constructor
  · rintro ⟨lead, c, tail, hLead, hSame, hc⟩
    -- both words reach to the first blank of the line
    have hFirst : Text.firstRun l.content = lead := by
      rw [hLead]
      apply Text.firstRun_append
      · intro d hd
        exact Text.isBlank_of_isAlpha (Text.isAlpha_of_sameLetters hSame hAlpha d hd)
      · simpa using hc
    have hSecond : Text.firstRun l.content = word := by
      rw [hContent]
      apply Text.firstRun_append _ hRest
      intro d hd
      exact Text.isBlank_of_isAlpha (isAlpha_of_isKeyword hWord d hd)
    rw [← hSecond, hFirst, Text.sameLetters_iff.mp hSame]
  · intro hSame
    cases rest with
    | nil =>
        have hUpperWord : Text.upper word = keyword.toList := by
          rw [Text.sameLetters_iff_upper.mp (Text.sameLetters_iff.mpr hSame), hUpper]
        have hSolo := hNil rfl
        simp [hUpperWord, hAlone] at hSolo
    | cons c tail =>
        exact ⟨word, c, tail, hContent, Text.sameLetters_iff.mpr hSame, by simpa using hRest⟩

end Instruction

/-- The instructions with a keyword that cannot stand alone come from the lines
that begin with it, in the same order. The induction follows the reading of the
lines; a line that is passed over begins with no keyword. -/
theorem map_ofLine_begins {lines : List LogicalLine} {instructions : List Instruction}
    (keyword : String) (h : instructionsOf lines = .ok instructions)
    (hUpper : Text.upper keyword.toList = keyword.toList)
    (hAlpha : ∀ c ∈ keyword.toList, c.isAlpha = true)
    (hAlone : Instruction.mayStandAlone keyword.toList = false) :
    (lines.filter (LogicalLine.begins keyword.toList)).map Instruction.ofLine =
      (named keyword instructions).map .ok := by
  induction lines generalizing instructions with
  | nil =>
      obtain rfl := Except.ok.inj h
      rfl
  | cons l rest ih =>
      rcases instructionsOf_cons_eq_ok_iff.mp h with
        ⟨hIdle, hRest⟩ | ⟨-, i, others, hRead, hRest, rfl⟩
      · have hBegins : ¬ l.begins keyword.toList = true := by
          intro hBegins
          rw [LogicalLine.isIdle_of_begins hAlpha hBegins] at hIdle
          exact absurd hIdle (by simp)
        rw [List.filter_cons_of_neg hBegins]
        exact ih hRest
      · have hSame := Instruction.begins_of_ofLine hRead hUpper hAlpha hAlone
        have hTail := ih hRest
        rw [named] at hTail
        rw [named, List.filter_cons, List.filter_cons, hSame]
        split
        · rw [List.map_cons, List.map_cons, hTail, hRead]
        · exact hTail

namespace Account

/-- A line that switches to root, by name or by number and with or without a
group. -/
structure Line extends Opening where
  gap : Text
  account : Text
  trail : Text
  sameLetters_keyword : Text.sameLetters keyword "USER".toList = true
  gap_ne_nil : gap ≠ []
  isBlank_gap : ∀ c ∈ gap, Text.isBlank c = true
  isBlank_account : ∀ c ∈ account, Text.isBlank c = false
  getLast?_account : account.getLast? ≠ some '\\'
  before_account : Text.before ':' account = "root".toList ∨ Text.before ':' account = "0".toList
  isBlank_trail : ∀ c ∈ trail, Text.isBlank c = true
  isKeyword_keyword := isKeyword_iff.mpr ⟨_, by decide, sameLetters_keyword⟩

namespace Line

def arguments (line : Line) : Text :=
  line.gap ++ (line.account ++ line.trail)

def text (line : Line) : Text :=
  line.followedBy line.arguments

theorem account_ne_nil (line : Line) : line.account ≠ [] := by
  intro hNil
  have hBefore := line.before_account
  simp [hNil, Text.before] at hBefore

theorem trimStart_account (line : Line) : Text.trimStart line.account = line.account := by
  cases hAccount : line.account with
  | nil => rfl
  | cons c cs =>
      exact Text.trimStart_cons_of_not_blank (line.isBlank_account c (by simp [hAccount])) cs

theorem trimEnd_account (line : Line) : Text.trimEnd line.account = line.account := by
  apply Text.trimEnd_eq_self
  rw [List.getLast?_eq_some_getLast line.account_ne_nil]
  simpa using line.isBlank_account _ (List.getLast_mem line.account_ne_nil)

/-- A group behind the account makes no difference. -/
theorem isRoot_account (line : Line) : isRoot line.account = true := by
  rw [isRoot, Text.trim, line.trimStart_account, line.trimEnd_account]
  simpa using line.before_account

theorem trimEnd_arguments (line : Line) :
    Text.trimEnd line.arguments = line.gap ++ line.account := by
  have hNe : Text.trimEnd line.account ≠ [] := by
    rw [line.trimEnd_account]
    exact line.account_ne_nil
  rw [arguments, ← List.append_assoc, Text.trimEnd_append_of_blank line.isBlank_trail,
    Text.trimEnd_append hNe, line.trimEnd_account]

theorem trim_arguments (line : Line) : Text.trim line.arguments = line.account := by
  rw [arguments, Text.trim_append_of_blank line.isBlank_gap line.isBlank_trail, Text.trim,
    line.trimStart_account, line.trimEnd_account]

/-- Without the blanks at its ends the line is the keyword and the account. -/
theorem trim_text (line : Line) :
    Text.trim line.text = line.keyword ++ (line.gap ++ line.account) := by
  rw [text, line.trim_followedBy, line.trimEnd_arguments]

/-- The line is not continued, as an account does not end in a backslash. -/
theorem getLast?_trimEnd_text (line : Line) :
    (Text.trimEnd line.text).getLast? ≠ some '\\' := by
  apply line.getLast?_trimEnd_followedBy
  rw [line.trimEnd_arguments, List.getLast?_append_of_ne_nil _ line.account_ne_nil]
  exact line.getLast?_account

/-- The instruction on the line has the account for its text. -/
theorem ofLine_eq (line : Line) {l : LogicalLine} (h : l.content = Text.trim line.text) :
    Instruction.ofLine l = .ok
      { name := "USER".toList
        args := .text line.account
        line := l.line
        source := l.source } := by
  have hUpper : Text.upper line.keyword = "USER".toList :=
    Text.sameLetters_iff_upper.mp line.sameLetters_keyword
  have hBlank : line.arguments.head?.all Text.isBlank = true :=
    Text.head?_append_of_gap line.gap_ne_nil line.isBlank_gap _
  have hAlone : Text.trim line.arguments = [] →
      Instruction.mayStandAlone (Text.upper line.keyword) = true := by
    rw [line.trim_arguments]
    exact fun hNil => absurd hNil line.account_ne_nil
  rw [line.ofLine_of_content h hBlank hAlone, line.trim_arguments, hUpper]
  rfl

/-- The scan reads the account of the line as the parser does. -/
theorem operand?_trim_text (line : Line) :
    LineScan.operand? "user" (Text.trim line.text) = some line.account := by
  have hStart : Text.trimStart (line.gap ++ line.account) = line.account := by
    rw [Text.trimStart_append_of_blank line.isBlank_gap, line.trimStart_account]
  have hBlank : (line.gap ++ line.account).head?.all Text.isBlank = true :=
    Text.head?_append_of_gap line.gap_ne_nil line.isBlank_gap _
  have hNe : Text.trimStart (line.gap ++ line.account) ≠ [] := by
    rw [hStart]
    exact line.account_ne_nil
  have hLower : Text.lower line.keyword = "user".toList :=
    Text.sameLetters_iff.mp line.sameLetters_keyword
  rw [line.trim_text, LineScan.operand?_append line.isKeyword_keyword hLower hBlank hNe, hStart]

/-- The scan of the line alone finds the switch to root. -/
theorem scanLine_breaks (line : Line) (n : Nat) :
    ∃ f ∈ LineScan.scanLine n line.text, f.Breaks "no-root-user" := by
  have hRun : Text.firstRun line.account = line.account := by
    have hNil : ([] : Text).head?.all Text.isBlank = true := rfl
    simpa using Text.firstRun_append line.isBlank_account hNil
  have hFound : LineScan.rootUser n (Text.trim line.text) =
      [LineScan.failure Rule.noRootUser n "container switches to the root user"] := by
    rw [LineScan.rootUser, line.operand?_trim_text]
    simp [hRun, line.isRoot_account]
  refine ⟨LineScan.failure Rule.noRootUser n "container switches to the root user", ?_,
    rfl, rfl, rfl⟩
  rw [LineScan.scanLine_of_trim n line.isKeyword_keyword line.trim_text, hFound]
  exact List.mem_append_left _ (List.mem_append_right _ (List.mem_singleton_self _))

/-- The rule is broken by any file whose last USER names this account. Those
before it, in earlier stages or the same, may name any. -/
theorem noRootUser_breaks (line : Line) {instructions : List Instruction} {i : Instruction}
    (hLast : (named "USER" instructions).getLast? = some i) (hArgs : i.args = .text line.account) :
    ∃ f ∈ Rule.evaluateAll instructions, f.Breaks "no-root-user" := by
  have hHolds : Rule.noRootUser.holds instructions = false := by
    have hValue : i.value = line.account := by rw [Instruction.value, hArgs, Arguments.flat]
    simp [Rule.noRootUser, Rule.endsUnprivileged, hLast, hValue, line.isRoot_account]
  exact ⟨Rule.noRootUser.evaluate instructions,
    List.mem_map_of_mem (by simp [Rule.catalog]), Rule.evaluate_breaks hHolds rfl⟩

end Line

/-- A file that ends up as root never earns an A or a B: the last of its lines
that begin with USER is one line that names root. What else the file holds
decides only how it is judged, and unless it is given up, the report names the
broken rule. -/
theorem grade_of_last_line {content : Text} (line : Line) {l : LogicalLine} (time : Instant)
    (hLast : ((LogicalLine.ofText content).filter
      (LogicalLine.begins "USER".toList)).getLast? = some l)
    (hLine : (Text.lines content)[l.line - 1]? = some line.text) :
    ((Validator.standard.validateInternal content time).grade = .C ∨
      (Validator.standard.validateInternal content time).grade = .D ∨
      (Validator.standard.validateInternal content time).grade = .F) ∧
    ((Validator.standard.validateInternal content time).evaluation ≠ .parseError →
      (Validator.standard.validateInternal content time).failed "no-root-user" = true) := by
  have hMem : l ∈ LogicalLine.ofText content :=
    (List.mem_filter.mp (List.mem_of_getLast? hLast)).1
  obtain ⟨hContent, before, after, hLines⟩ :=
    line.content_of_mem_ofText hMem hLine line.getLast?_trimEnd_text
  apply Validator.grade_of_breaks time (by decide)
  · intro instructions hParse
    have hUsers := map_ofLine_begins "USER" hParse (by decide) (by simp) (by decide)
    -- the last instruction is the one on the last line
    have hLastOf := congrArg List.getLast? hUsers
    rw [List.getLast?_map, List.getLast?_map, hLast, Option.map_some, line.ofLine_eq hContent,
      eq_comm, Option.map_eq_some_iff] at hLastOf
    obtain ⟨i, hUser, hOk⟩ := hLastOf
    obtain rfl := Except.ok.inj hOk
    exact line.noRootUser_breaks hUser rfl
  · obtain ⟨f, hScan, hBreaks⟩ := line.scanLine_breaks (1 + before.length)
    exact ⟨f, LineScan.mem_scan _ hLines hScan, hBreaks⟩

def numberLine : Line where
  lead := [' ', '\t']
  keyword := "User".toList
  gap := [' ', ' ']
  account := "0:app".toList
  trail := ['\t', ' ']
  isBlank_lead := by simp [Text.isBlank]
  sameLetters_keyword := by decide
  gap_ne_nil := by simp
  isBlank_gap := by simp [Text.isBlank]
  isBlank_account := by simp [Text.isBlank]
  getLast?_account := by decide
  before_account := by decide
  isBlank_trail := by simp [Text.isBlank]

def numberFile : Text :=
  "FROM a:1\nUSER app\nRUN b\n \tUser  0:app\t \n# USER app\n".toList

set_option maxRecDepth 8000 in
/-- An account given by its number counts as the name does. -/
theorem grade_numberFile :
    (parse numberFile).toOption.isSome = true ∧
    ((Validator.standard.validateInternal numberFile ⟨0, 0⟩).grade = .C ∨
      (Validator.standard.validateInternal numberFile ⟨0, 0⟩).grade = .D ∨
      (Validator.standard.validateInternal numberFile ⟨0, 0⟩).grade = .F) ∧
    ((Validator.standard.validateInternal numberFile ⟨0, 0⟩).evaluation ≠ .parseError →
      (Validator.standard.validateInternal numberFile ⟨0, 0⟩).failed "no-root-user" = true) := by
  have hLast : ((LogicalLine.ofText numberFile).filter
      (LogicalLine.begins "USER".toList)).getLast? =
        some ⟨4, "User  0:app".toList, " \tUser  0:app".toList⟩ := by decide
  exact ⟨by decide, grade_of_last_line numberLine ⟨0, 0⟩ hLast (by decide)⟩

end Account

end Drydock
