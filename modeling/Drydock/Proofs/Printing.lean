import Drydock.Proofs.Assignments
import Drydock.Proofs.ExecForm
import Drydock.Proofs.KeywordLine

/-! Writing instructions, each on a line of its own. A text argument is written
as it is, a list with its items in quotes and special characters escaped,
assignments with their values in quotes. Reading what was written gives the
instructions back. -/
namespace Drydock

def soloKeywords : List Text :=
  ["CMD", "ENTRYPOINT", "RUN", "HEALTHCHECK"].map String.toList

def listKeywords : List Text :=
  ["CMD", "ENTRYPOINT", "RUN", "SHELL", "VOLUME"].map String.toList

def assignmentKeywords : List Text :=
  ["ENV", "LABEL", "ARG"].map String.toList

/-- The arguments that can be written after a keyword. -/
inductive Writable (name : Text) : Arguments → Prop where
  | text {s : Text} (hName : name ∈ keywords) (hEnv : name ≠ "ENV".toList)
      (hLabel : name ≠ "LABEL".toList) (hTrim : Text.trim s = s) (hFeed : '\n' ∉ s)
      (hEnds : s.getLast? ≠ some '\\') (hSolo : s = [] → name ∈ soloKeywords)
      (hArg : name = "ARG".toList → '=' ∉ s)
      (hList : name ∈ listKeywords → ∀ items, ¬ ExecForm.IsList s items) :
      Writable name (.text s)
  | list (items : List Text) (hName : name ∈ listKeywords) : Writable name (.list items)
  | assignments {pairs : List (Text × Text)} (hName : name ∈ assignmentKeywords)
      (hNe : pairs ≠ []) (hPairs : ∀ p ∈ pairs, Assignments.IsQuotable p) :
      Writable name (.assignments pairs)

def Arguments.written : Arguments → Text
  | .text s => s
  | .list items => ExecForm.written items
  | .assignments pairs => Assignments.written pairs

/-- A text that stands on one line after a keyword and is read as these
arguments. -/
structure Reads (name s : Text) (args : Arguments) : Prop where
  mem_keywords : name ∈ keywords
  trim_eq : Text.trim s = s
  not_mem_feed : '\n' ∉ s
  getLast?_ne : s.getLast? ≠ some '\\'
  standsAlone : s = [] → Instruction.mayStandAlone name = true
  argumentsOf_eq : Instruction.argumentsOf name s = args

/-- Only ENV, LABEL and an ARG with an equals sign take assignments. -/
theorem takesAssignments_eq_false {name s : Text} (hEnv : name ≠ "ENV".toList)
    (hLabel : name ≠ "LABEL".toList) (hArg : name = "ARG".toList → '=' ∉ s) :
    Instruction.takesAssignments name s = false := by
  rw [Instruction.takesAssignments, beq_false_of_ne hEnv, beq_false_of_ne hLabel]
  by_cases hName : name = "ARG".toList
  · simp [hArg hName]
  · rw [beq_false_of_ne hName]
    rfl

theorem mem_keywords_of_mem_listKeywords :
    ∀ name ∈ listKeywords, name ∈ keywords ∧ name ∉ assignmentKeywords := by
  decide

theorem mem_keywords_of_mem_assignmentKeywords :
    ∀ name ∈ assignmentKeywords, name ∈ keywords := by
  decide

/-- A list in quotes is read back after any keyword that takes one. It has no
equals sign to be misread, since none of these keywords takes assignments. -/
theorem reads_list {name : Text} (items : List Text) (hName : name ∈ listKeywords) :
    Reads name (ExecForm.written items) (.list items) := by
  obtain ⟨hKeyword, hOther⟩ := mem_keywords_of_mem_listKeywords name hName
  have hTakes : Instruction.takesAssignments name (ExecForm.written items) = false := by
    apply takesAssignments_eq_false
    · rintro rfl
      exact hOther (by decide)
    · rintro rfl
      exact hOther (by decide)
    · rintro rfl
      exact absurd (by decide) hOther
  have hExec : Instruction.takesExecForm name = true := List.contains_iff_mem.mpr hName
  have hItems := (ExecForm.isList_written items).items?_eq
  refine ⟨hKeyword, ExecForm.trim_written items, ExecForm.not_mem_written items, ?_, ?_, ?_⟩
  · simp [ExecForm.written, List.getLast?_cons]
  · simp [ExecForm.written]
  · rw [Instruction.argumentsOf, hTakes, hExec, Arguments.ofCommand, hItems]
    rfl

/-- Assignments in quotes are read back after ENV, LABEL and ARG, the last
because at least one equals sign is written. -/
theorem reads_assignments {name : Text} {pairs : List (Text × Text)}
    (hName : name ∈ assignmentKeywords) (hNe : pairs ≠ [])
    (hPairs : ∀ p ∈ pairs, Assignments.IsQuotable p) :
    Reads name (Assignments.written pairs) (.assignments pairs) := by
  have hLast := Assignments.getLast?_written hNe
  have hTakes : Instruction.takesAssignments name (Assignments.written pairs) = true := by
    have hEquals := Assignments.mem_written hNe
    simp only [assignmentKeywords, List.map_cons, List.map_nil, List.mem_cons,
      List.not_mem_nil, or_false] at hName
    rcases hName with rfl | rfl | rfl
    · rfl
    · rfl
    · simp [Instruction.takesAssignments, hEquals]
  refine ⟨mem_keywords_of_mem_assignmentKeywords name hName,
    Assignments.trim_written hNe hPairs, Assignments.not_mem_written hPairs, ?_, ?_, ?_⟩
  · rw [hLast]
    decide
  · intro hNil
    simp [hNil] at hLast
  · rw [Instruction.argumentsOf, hTakes, Assignments.read_written hPairs]
    rfl

/-- Arguments that can be written are read back from what is written. For a text
this is what its conditions are made for: it must not look like a list or like
assignments. -/
theorem Writable.reads {name : Text} {args : Arguments} (h : Writable name args) :
    Reads name args.written args := by
  cases h with
  | list items hName => exact reads_list items hName
  | assignments hName hNe hPairs => exact reads_assignments hName hNe hPairs
  | @text s hName hEnv hLabel hTrim hFeed hEnds hSolo hArg hList =>
      refine ⟨hName, hTrim, hFeed, hEnds, ?_, ?_⟩
      · intro hNil
        exact List.contains_iff_mem.mpr (hSolo hNil)
      · rw [Instruction.argumentsOf, Arguments.written,
          takesAssignments_eq_false hEnv hLabel hArg]
        cases hExec : Instruction.takesExecForm name with
        | false => rfl
        | true =>
            have hMem : name ∈ listKeywords := List.contains_iff_mem.mp hExec
            rw [Arguments.ofCommand, hTrim]
            cases hItems : ExecForm.items? s with
            | none => rfl
            | some items =>
                exact absurd (ExecForm.items?_eq_some_iff.mp hItems) (hList hMem items)

/-- An instruction to be written: its keyword, in letters of either case, and
arguments that can be written after it. -/
structure Statement where
  word : Text
  args : Arguments
  writable : Writable (Text.upper word) args

namespace Statement

def line (s : Statement) : Text :=
  s.word ++ ' ' :: s.args.written

/-- The instruction that is read from line `n`. -/
def instruction (s : Statement) (n : Nat) : Instruction :=
  { name := Text.upper s.word
    args := s.args
    line := n
    source := Text.trimEnd s.line }

def print (statements : List Statement) : Text :=
  Text.join ['\n'] (statements.map line)

theorem isKeyword_word (s : Statement) : isKeyword s.word = true :=
  isKeyword_of_upper_eq s.writable.reads.mem_keywords rfl

/-- The keyword begins the line, with no blanks before it. -/
theorem exists_opening (s : Statement) :
    ∃ o : Opening, o.keyword = s.word ∧ s.line = o.followedBy (' ' :: s.args.written) :=
  ⟨⟨[], s.word, by simp, s.isKeyword_word⟩, rfl, rfl⟩

/-- Trimmed, what stands after the keyword is the arguments alone, be it that
there are none. -/
theorem trim_rest (s : Statement) : Text.trim (' ' :: s.args.written) = s.args.written := by
  rw [Text.trim, Text.trimStart_cons_of_blank Text.isBlank_space, ← Text.trim,
    s.writable.reads.trim_eq]

theorem isComment_line (s : Statement) : LogicalLine.isComment s.line = false := by
  obtain ⟨o, -, hLine⟩ := s.exists_opening
  rw [hLine]
  exact o.isComment_followedBy _

/-- What ends the line is what ends the arguments, or the keyword where there
are none. -/
theorem continued?_line (s : Statement) : LogicalLine.continued? s.line = none := by
  obtain ⟨o, -, hLine⟩ := s.exists_opening
  rw [LogicalLine.continued?_eq_none_iff, hLine]
  apply o.getLast?_trimEnd_followedBy
  by_cases hNil : s.args.written = []
  · rw [hNil]
    decide
  · have hEnd := Text.trimEnd_of_trim s.writable.reads.trim_eq
    have hNe : Text.trimEnd s.args.written ≠ [] := by rwa [hEnd]
    rw [← List.singleton_append, Text.trimEnd_append hNe, hEnd,
      List.getLast?_append_of_ne_nil _ hNil]
    exact s.writable.reads.getLast?_ne

theorem line_ne_nil (s : Statement) : s.line ≠ [] := by
  simp [line]

/-- A statement is written on one line. -/
theorem not_mem_line (s : Statement) : '\n' ∉ s.line := by
  have hWord : '\n' ∉ s.word :=
    fun hMem => absurd (isAlpha_of_isKeyword s.isKeyword_word _ hMem) (by decide)
  have hArgs := s.writable.reads.not_mem_feed
  simp [line, hWord, hArgs]

/-- No carriage return ends the line, since a blank ends it only after a lone
keyword. -/
theorem getLast?_line (s : Statement) : s.line.getLast? ≠ some '\r' := by
  rw [line, List.getLast?_append_of_ne_nil _ (by simp)]
  by_cases hNil : s.args.written = []
  · rw [hNil]
    decide
  · rw [List.getLast?_cons_of_ne_nil hNil]
    intro hLast
    rw [← Text.trimEnd_of_trim s.writable.reads.trim_eq] at hLast
    exact absurd (Text.isBlank_of_getLast?_trimEnd hLast) (by decide)

/-- The logical line that holds the statement alone is read as its instruction.
It is not passed over, and no error arises. -/
theorem ofLine_eq (s : Statement) {l : LogicalLine} (hContent : l.content = Text.trim s.line)
    (hSource : l.source = Text.trimEnd s.line) :
    l.isIdle = false ∧ Instruction.ofLine l = .ok (s.instruction l.line) := by
  have hReads := s.writable.reads
  obtain ⟨o, hWord, hLine⟩ := s.exists_opening
  rw [hLine] at hContent
  have hAlone : Text.trim (' ' :: s.args.written) = [] →
      Instruction.mayStandAlone (Text.upper o.keyword) = true := by
    rw [s.trim_rest, hWord]
    exact hReads.standsAlone
  refine ⟨o.isIdle_of_content hContent, ?_⟩
  rw [o.ofLine_of_content hContent Text.isBlank_space hAlone, s.trim_rest, hWord,
    hReads.argumentsOf_eq, hSource]
  rfl

/-- Lines of statements are read one by one, whatever the number of the first.
The induction is on the statements, and each is a logical line by itself. -/
theorem instructionsOf_joinFrom (statements : List Statement) (n : Nat) :
    instructionsOf (LogicalLine.joinFrom n none (statements.map line)) =
      .ok (statements.mapIdx fun k s => s.instruction (n + k)) := by
  induction statements generalizing n with
  | nil => rfl
  | cons s rest ih =>
      have hFeed : ∀ c ∈ ['\n'], Text.isBlank c = true := by simp [Text.isBlank]
      obtain ⟨hIdle, hRead⟩ := s.ofLine_eq
        (l := ((LogicalLine.Draft.empty n).add s.line (Text.trimEnd s.line)).finish)
        (Text.trim_trimEnd s.line) (Text.trimEnd_append_of_blank hFeed s.line)
      have hNumber : (fun k (t : Statement) => t.instruction (n + (k + 1))) =
          fun k t => t.instruction (n + 1 + k) := by
        funext k t
        rw [Nat.add_right_comm, Nat.add_assoc]
      rw [List.map_cons, LogicalLine.joinFrom_ended s.isComment_line s.continued?_line,
        Option.getD_none, instructionsOf_cons_of_ok hIdle hRead, ih (n + 1), List.mapIdx_cons,
        hNumber]
      rfl

/-- The lines of what is printed are those of the statements. No statement has
an empty line, not even one without arguments. -/
theorem lines_print (statements : List Statement) :
    Text.lines (print statements) = statements.map line := by
  apply Text.lines_join
  · exact List.forall_mem_map.mpr fun s _ => s.line_ne_nil
  · exact List.forall_mem_map.mpr fun s _ => s.not_mem_line
  · exact List.forall_mem_map.mpr fun s _ => s.getLast?_line

/-- A line feed at the end makes no further line, if there are statements at
all. -/
theorem lines_print_append (statements : List Statement) (hNe : statements ≠ []) :
    Text.lines (print statements ++ ['\n']) = statements.map line := by
  apply Text.lines_join_append
  · simpa using hNe
  · exact List.forall_mem_map.mpr fun s _ => s.not_mem_line
  · exact List.forall_mem_map.mpr fun s _ => s.getLast?_line

/-- Statements that are written one below the other are read back as they are,
each with the number of its line, whether or not a line feed ends the file. -/
theorem parse_print (statements : List Statement) :
    parse (print statements) = .ok (statements.mapIdx fun k s => s.instruction (k + 1)) ∧
      parse (print statements ++ ['\n']) =
        .ok (statements.mapIdx fun k s => s.instruction (k + 1)) := by
  have hRead := instructionsOf_joinFrom statements 1
  simp only [Nat.add_comm 1] at hRead
  constructor
  · rw [parse, LogicalLine.ofText, lines_print, hRead]
  · cases statements with
    | nil => rfl
    | cons s rest =>
        rw [parse, LogicalLine.ofText, lines_print_append _ (by simp), hRead]

/-- A lone keyword, an item with escapes, and assignments with and without a
value. -/
def mixedStatements : List Statement :=
  [⟨"run".toList, .text [], .text (by decide) (by decide) (by decide) rfl (by simp) (by simp)
      (by decide) (by decide) fun _ _ h => nomatch h⟩,
    ⟨"Cmd".toList, .list ["a\"\n".toList, []], .list _ (by decide)⟩,
    ⟨"ARG".toList, .assignments [(['A'], "b =".toList), (['#'], [])],
      .assignments (by decide) (by simp) (by
        simp only [List.forall_mem_cons, List.not_mem_nil, false_implies, implies_true, and_true]
        exact ⟨⟨by simp, by simp [Assignments.isKeyChar, Text.isBlank], by simp⟩,
          ⟨by simp, by simp [Assignments.isKeyChar, Text.isBlank], by simp⟩⟩)⟩]

set_option maxRecDepth 4000 in
/-- A keyword in small letters with nothing after it, a list with escapes and an
empty item, and assignments with an odd key. -/
theorem parse_print_mixedStatements :
    parse "run \nCmd [\"a\\\"\\n\",\"\"]\nARG A=\"b =\" #=\"\"\n".toList = .ok
      [⟨"RUN".toList, .text [], 1, "run".toList⟩,
        ⟨"CMD".toList, .list ["a\"\n".toList, []], 2, "Cmd [\"a\\\"\\n\",\"\"]".toList⟩,
        ⟨"ARG".toList, .assignments [(['A'], "b =".toList), (['#'], [])], 3,
          "ARG A=\"b =\" #=\"\"".toList⟩] :=
  (parse_print mixedStatements).2

end Statement

end Drydock
