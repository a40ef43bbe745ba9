import Drydock.Dockerfile.Precheck
import Drydock.Proofs.LogicalLine

/-! Where the first check begins a line and what it takes for the line's first
word. The check and the reading of logical lines join continued lines each in
its own way. They part at comments inside a continuation and at continuations of
nothing. -/
namespace Drydock.Precheck

/-- The text that the check takes for one line when it begins one at the first
of these physical lines. A comment inside is taken along, and a line that is not
continued ends it. -/
def joined : List Text → Text
  | [] => []
  | physical :: rest =>
    match LogicalLine.continued? physical with
    | some part => part ++ joined rest
    | none => Text.trimEnd physical

/-- What is known after physical lines of which the first has number `n`. -/
def stateAfter (n : Nat) (state : State) : List Text → State
  | [] => state
  | physical :: rest => stateAfter (n + 1) (step n physical state).1 rest

def isActive (physical : Text) : Bool :=
  !(Text.trim physical).isEmpty && (Text.trim physical).head? != some '#'

/-- Whether the check begins a line here: none is continued, no here-document is
open, and the physical line is neither blank nor a comment. -/
def beginsLine (state : State) (physical : Text) : Bool :=
  state.pending?.isNone && state.delimiters.isEmpty && isActive physical

section Steps

variable {n line : Nat} {content physical : Text} {state : State}

/-- A line that is being read goes on past a continued physical line and is
judged at one that is not. A comment is no exception: the check joins it like
any other line. -/
theorem extend_eq : extend line content physical state =
    match LogicalLine.continued? physical with
    | some part => ({ state with pending? := some (line, content ++ part) }, [])
    | none => judge line (content ++ Text.trimEnd physical) state := by
  rw [extend, LogicalLine.continued?]
  cases Text.dropLast? '\\' (Text.trimEnd physical) with
  | none => rfl
  | some part => simp

/-- Inside a continued line nothing is passed over, neither blank lines nor
comments. -/
theorem step_pending (h : state.pending? = some (line, content)) :
    step n physical state = extend line content physical state := by
  simp [step, h]

/-- Where the check begins a line, it has this number, whatever comes before. -/
theorem step_begins (h : beginsLine state physical = true) :
    step n physical state = extend n [] physical state := by
  simp only [beginsLine, isActive, Bool.and_eq_true, Option.isNone_iff_eq_none,
    List.isEmpty_iff, Bool.not_eq_true', bne_iff_ne] at h
  obtain ⟨⟨hPending, hDelimiters⟩, hBlank, hComment⟩ := h
  simp [step, hPending, hDelimiters, hBlank, hComment]

/-- Between lines, a physical line that begins none is passed over without a
remark. It may be blank, a comment or part of a here-document. -/
theorem step_passes (hPending : state.pending? = none) (h : beginsLine state physical = false) :
    (step n physical state).2 = [] ∧ (step n physical state).1.pending? = none := by
  cases hDelimiters : state.delimiters with
  | cons delimiter rest =>
      rw [step, hPending, hDelimiters]
      refine ⟨rfl, ?_⟩
      dsimp only
      split
      · rfl
      · exact hPending
  | nil =>
      have hIdle : Text.trim physical = [] ∨ (Text.trim physical).head? = some '#' := by
        by_cases hBlank : Text.trim physical = []
        · exact .inl hBlank
        · refine .inr ?_
          simpa [beginsLine, isActive, hPending, hDelimiters, hBlank] using h
      simp [step, hPending, hDelimiters, hIdle]

end Steps

/-- The remarks call an instruction on line `n` invalid. -/
def CallsInvalid (remarks : List Diagnostic) (n : Nat) : Prop :=
  ∃ d ∈ remarks, d.kind = .invalidInstruction ∧ d.line = n

theorem callsInvalid_append {first second : List Diagnostic} {n : Nat} :
    CallsInvalid (first ++ second) n ↔ CallsInvalid first n ∨ CallsInvalid second n := by
  simp only [CallsInvalid, List.mem_append, or_and_right, exists_or]

/-- The remarks on a keyword are about its letters, its place, and its being out
of use. None calls it invalid. -/
theorem not_callsInvalid_remarks (line : Nat) (fromSeen : Bool) (word name : Text) (n : Nat) :
    ¬ CallsInvalid (remarks line fromSeen word name) n := by
  rintro ⟨d, hMem, hKind, -⟩
  simp only [remarks, List.mem_append, List.mem_ite_nil_left, List.mem_ite_nil_right,
    List.mem_singleton] at hMem
  rcases hMem with (⟨-, rfl⟩ | ⟨-, rfl⟩) | ⟨-, rfl⟩
  · simp at hKind
  · simp at hKind
  · simp at hKind

theorem not_callsInvalid_missingFrom (state : State) (n : Nat) :
    ¬ CallsInvalid (missingFrom state) n := by
  rintro ⟨d, hMem, hKind, -⟩
  simp only [missingFrom, List.mem_ite_nil_left, List.mem_singleton] at hMem
  obtain ⟨-, rfl⟩ := hMem
  simp at hKind

theorem judge_pending (line : Nat) (content : Text) (state : State) :
    (judge line content state).1.pending? = none := by
  rw [judge]
  dsimp only
  split <;> rfl

/-- A complete line is called invalid exactly for its first word, at the number
of the physical line it began with. -/
theorem callsInvalid_judge {line : Nat} {content : Text} {state : State} {n : Nat} :
    CallsInvalid (judge line content state).2 n ↔
      n = line ∧ isKeyword (Text.firstWord content) = false := by
  rw [judge]
  dsimp only
  cases hWord : isKeyword ((Text.words content).head?.getD []) with
  | true =>
      have hFirst : isKeyword (Text.firstWord content) = true := hWord
      simp [hFirst, not_callsInvalid_remarks]
  | false =>
      have hFirst : isKeyword (Text.firstWord content) = false := hWord
      simp [CallsInvalid, hFirst, eq_comm]

/-- The check begins a line among these physical lines, with number `m`, and its
first word is no keyword. -/
def BeginsInvalid (n : Nat) (state : State) (lines : List Text) (m : Nat) : Prop :=
  ∃ before physical rest, lines = before ++ physical :: rest ∧ m = n + before.length ∧
    beginsLine (stateAfter n state before) physical = true ∧
    isKeyword (Text.firstWord (joined (physical :: rest))) = false

/-- What the check begins in a list of physical lines begins at the first of
them or in what remains, in the state after the first. -/
theorem beginsInvalid_cons {n m : Nat} {state : State} {physical : Text} {rest : List Text} :
    BeginsInvalid n state (physical :: rest) m ↔
      (m = n ∧ beginsLine state physical = true ∧
        isKeyword (Text.firstWord (joined (physical :: rest))) = false) ∨
      BeginsInvalid (n + 1) (step n physical state).1 rest m := by
  constructor
  · rintro ⟨before, later, after, hLines, hm, hBegins, hWord⟩
    cases before with
    | nil =>
        obtain ⟨rfl, rfl⟩ := List.cons.inj hLines
        exact .inl ⟨by simpa using hm, hBegins, hWord⟩
    | cons first before =>
        obtain ⟨rfl, rfl⟩ := List.cons.inj hLines
        refine .inr ⟨before, later, after, rfl, ?_, hBegins, hWord⟩
        simp only [List.length_cons] at hm
        omega
  · rintro (⟨rfl, hBegins, hWord⟩ | ⟨before, later, after, rfl, hm, hBegins, hWord⟩)
    · exact ⟨[], physical, rest, rfl, rfl, hBegins, hWord⟩
    · refine ⟨physical :: before, later, after, rfl, ?_, hBegins, hWord⟩
      simp only [List.length_cons]
      omega

/-- A line that was continued before these physical lines has number `m`, and
its first word is no keyword. -/
def ContinuesInvalid (state : State) (lines : List Text) (m : Nat) : Prop :=
  ∃ line content, state.pending? = some (line, content) ∧ m = line ∧
    isKeyword (Text.firstWord (content ++ joined lines)) = false

theorem not_continuesInvalid {state : State} (h : state.pending? = none) (lines : List Text)
    (m : Nat) : ¬ ContinuesInvalid state lines m := by
  rintro ⟨line, content, hPending, -⟩
  simp [h] at hPending

/-- A line that is being read is judged by all its text, what was read of it
before included. -/
theorem continuesInvalid_iff {state : State} {line : Nat} {content : Text}
    (h : state.pending? = some (line, content)) {lines : List Text} {m : Nat} :
    ContinuesInvalid state lines m ↔
      m = line ∧ isKeyword (Text.firstWord (content ++ joined lines)) = false := by
  constructor
  · rintro ⟨_, _, hPending, hRest⟩
    obtain ⟨rfl, rfl⟩ := Prod.mk.inj (Option.some.inj (h.symm.trans hPending))
    exact hRest
  · intro hRest
    exact ⟨line, content, h, hRest⟩

/-- A line that is being read is called invalid, now or when it ends, for its
first word. Both cases are in the statement, so that it can be applied before it
is known where the line ends. -/
theorem callsInvalid_extend {line : Nat} {content physical : Text} {state : State}
    {rest : List Text} {m : Nat} :
    CallsInvalid (extend line content physical state).2 m ∨
        ContinuesInvalid (extend line content physical state).1 rest m ↔
      m = line ∧ isKeyword (Text.firstWord (content ++ joined (physical :: rest))) = false := by
  rw [extend_eq, joined]
  cases LogicalLine.continued? physical with
  | none =>
      have hNone := not_continuesInvalid
        (judge_pending line (content ++ Text.trimEnd physical) state) rest m
      simp only [hNone, or_false]
      exact callsInvalid_judge
  | some part =>
      have hNone : ¬ CallsInvalid [] m := by simp [CallsInvalid]
      simp only [hNone, false_or]
      rw [continuesInvalid_iff rfl, List.append_assoc]

/-- A line is called invalid exactly for its first word, and that at the
physical line where the check began it. The induction is on the physical lines,
for all states: what a state has pending is judged by a line still to come. -/
theorem callsInvalid_checkFrom {n : Nat} {state : State} {lines : List Text} {m : Nat} :
    CallsInvalid (checkFrom n state lines) m ↔
      ContinuesInvalid state lines m ∨ BeginsInvalid n state lines m := by
  induction lines generalizing n state with
  | nil =>
      have hBegins : ¬ BeginsInvalid n state [] m := by
        rintro ⟨before, physical, rest, hLines, -⟩
        simp at hLines
      rw [checkFrom, finish]
      cases hPending : state.pending? with
      | none =>
          simp [hBegins, not_continuesInvalid hPending, not_callsInvalid_missingFrom]
      | some pending =>
          obtain ⟨line, content⟩ := pending
          have hFirst : ∀ message, ¬ CallsInvalid
              [⟨.emptyContinuation, line, 1, message⟩] m := by
            simp [CallsInvalid]
          simp only [hBegins, or_false, continuesInvalid_iff hPending, joined,
            List.append_nil, ← @callsInvalid_judge line content state m]
          rw [← List.singleton_append, List.append_assoc, callsInvalid_append,
            callsInvalid_append]
          simp [hFirst, not_callsInvalid_missingFrom]
  | cons physical rest ih =>
      rw [checkFrom, beginsInvalid_cons]
      dsimp only
      rw [callsInvalid_append, ih, ← or_assoc]
      cases hPending : state.pending? with
      | some pending =>
          obtain ⟨line, content⟩ := pending
          have hInside : beginsLine state physical = false := by simp [beginsLine, hPending]
          rw [step_pending hPending, callsInvalid_extend, continuesInvalid_iff hPending]
          simp [hInside]
      | none =>
          cases hBegins : beginsLine state physical with
          | true =>
              rw [step_begins hBegins, callsInvalid_extend]
              simp [not_continuesInvalid hPending]
          | false =>
              obtain ⟨hSilent, hNone⟩ := step_passes (n := n) hPending hBegins
              rw [hSilent]
              simp [CallsInvalid, not_continuesInvalid hNone, not_continuesInvalid hPending]

/-- The check calls a line invalid exactly where it begins one whose first word
is no keyword. -/
theorem callsInvalid_check {content : Text} {m : Nat} :
    CallsInvalid (check content) m ↔ BeginsInvalid 1 .initial (Text.lines content) m := by
  have hInitial : State.initial.pending? = none := rfl
  rw [check, callsInvalid_checkFrom]
  simp [not_continuesInvalid hInitial]

theorem isComment_of_beginsLine {state : State} {physical : Text}
    (h : beginsLine state physical = true) : LogicalLine.isComment physical = false := by
  simp only [beginsLine, isActive, Bool.and_eq_true, bne_iff_ne] at h
  have hHead := h.2.2
  rw [Text.head?_trim] at hHead
  simpa [LogicalLine.isComment] using hHead

/-- A line of more than a backslash gives the line that begins with it its first
character. -/
theorem head?_firstWord_joined {physical : Text} (h : Text.trim physical ≠ ['\\'])
    (rest : List Text) :
    (Text.firstWord (joined (physical :: rest))).head? = (Text.trimStart physical).head? := by
  rw [joined]
  cases hPart : LogicalLine.continued? physical with
  | none => rw [Text.firstWord_trimEnd, Text.head?_firstWord]
  | some part =>
      obtain ⟨kept, rfl, hTrim⟩ := LogicalLine.continued?_eq_some_iff.mp hPart
      have hKept : Text.trimStart kept ≠ [] := by
        intro hNil
        apply h
        rw [← Text.trim_trimEnd, hTrim, Text.trim,
          Text.trimStart_append_of_blank (Text.trimStart_eq_nil_iff.mp hNil)]
        decide
      have hStart : (Text.trimStart physical).head? = (Text.trimStart kept).head? := by
        rw [← Text.head?_firstWord, ← Text.firstWord_trimEnd, hTrim, Text.head?_firstWord,
          Text.trimStart_append hKept, List.head?_append_of_ne_nil _ hKept]
      dsimp only
      rw [Text.head?_firstWord, List.append_assoc, Text.trimStart_append hKept,
        List.head?_append_of_ne_nil _ hKept, hStart]

/-- Lines of a backslash alone that lead to a blank line, a comment or the
end. -/
def leadsNowhere : List Text → Bool
  | [] => true
  | physical :: rest =>
    if Text.trim physical = ['\\'] then leadsNowhere rest
    else (Text.trim physical).isEmpty || LogicalLine.isComment physical

/-- Lines lead nowhere when the check finds no first word in them, or the one of
a comment. -/
theorem leadsNowhere_iff {lines : List Text} :
    leadsNowhere lines = true ↔ Text.firstWord (joined lines) = [] ∨
      (Text.firstWord (joined lines)).head? = some '#' := by
  induction lines with
  | nil => decide
  | cons physical rest ih =>
      rw [leadsNowhere]
      by_cases hLone : Text.trim physical = ['\\']
      · have hJoined : Text.firstWord (joined (physical :: rest)) =
            Text.firstWord (joined rest) := by
          obtain ⟨gap, hGap, hTrim⟩ := Text.exists_append_trimStart (Text.trimEnd physical)
          rw [Text.trimStart_trimEnd, show Text.trimEnd (Text.trimStart physical) = ['\\']
            from hLone] at hTrim
          have hBlank : ∀ c ∈ gap ++ [' '], Text.isBlank c = true := by
            simpa [or_imp, forall_and, Text.isBlank_space] using hGap
          rw [joined, LogicalLine.continued?_eq_some_iff.mpr ⟨gap, rfl, hTrim⟩]
          exact Text.firstWord_append_of_blank hBlank _
        rw [if_pos hLone, hJoined, ih]
      · rw [if_neg hLone, ← List.head?_eq_none_iff, head?_firstWord_joined hLone]
        simp [LogicalLine.isComment, Text.trim_eq_nil_iff, Text.trimStart_eq_nil_iff]

/-- What leads nowhere does not begin with a keyword. -/
theorem isKeyword_of_leadsNowhere {lines : List Text} (h : leadsNowhere lines = true) :
    isKeyword (Text.firstWord (joined lines)) = false := by
  rcases leadsNowhere_iff.mp h with hNil | hMark
  · rw [hNil]
    decide
  · cases hKeyword : isKeyword (Text.firstWord (joined lines)) with
    | false => rfl
    | true =>
        have hAlpha := isAlpha_of_isKeyword hKeyword '#' (List.mem_of_mem_head? hMark)
        simp [Char.isAlpha, Char.isUpper, Char.isLower] at hAlpha

/-- Where the check sees a first word that is not in a comment, reading sees the
same. -/
theorem firstWord_gathered {lines : List Text} (hWord : Text.firstWord (joined lines) ≠ [])
    (hMark : (Text.firstWord (joined lines)).head? ≠ some '#') :
    Text.firstWord (LogicalLine.gathered lines) = Text.firstWord (joined lines) := by
  induction lines with
  | nil => exact absurd rfl hWord
  | cons physical rest ih =>
      cases hComment : LogicalLine.isComment physical with
      | true =>
          have hHead : (Text.trimStart physical).head? = some '#' := by
            simpa [LogicalLine.isComment] using hComment
          have hMore : Text.trim physical ≠ ['\\'] := by
            intro hLone
            rw [← Text.head?_trim, hLone] at hHead
            simp at hHead
          rw [head?_firstWord_joined hMore] at hMark
          exact absurd hHead hMark
      | false =>
          rw [joined] at hWord hMark ⊢
          rw [LogicalLine.gathered, if_neg (by simp [hComment])]
          cases hPart : LogicalLine.continued? physical with
          | none => rfl
          | some part =>
              rw [hPart] at hWord hMark
              dsimp only at hWord hMark ⊢
              obtain ⟨kept, rfl, -⟩ := LogicalLine.continued?_eq_some_iff.mp hPart
              by_cases hKept : Text.firstWord kept = []
              · have hGap := Text.firstWord_eq_nil_iff.mp hKept
                have hBlank : ∀ c ∈ kept ++ [' '], Text.isBlank c = true := by
                  simpa [or_imp, forall_and, Text.isBlank_space] using hGap
                rw [Text.firstWord_append_of_blank hBlank] at hWord hMark
                rw [Text.firstWord_append_of_blank hBlank,
                  Text.firstWord_append_of_blank hBlank, ih hWord hMark]
              · rw [List.append_assoc, List.append_assoc, List.singleton_append,
                  List.singleton_append, Text.firstWord_append_of_ne_nil hKept Text.isBlank_space,
                  Text.firstWord_append_of_ne_nil hKept Text.isBlank_space]

/-- In a file that parses, a line that the check begins together with a logical
line begins with a keyword or leads nowhere. -/
theorem isKeyword_of_parse {text : Text} {instructions : List Instruction}
    {before rest : List Text} {physical : Text} (hParse : parse text = .ok instructions)
    (hLines : Text.lines text = before ++ physical :: rest)
    (hClosed : LogicalLine.leavesOpen false before = false)
    (hComment : LogicalLine.isComment physical = false)
    (hLeads : leadsNowhere (physical :: rest) = false) :
    isKeyword (Text.firstWord (joined (physical :: rest))) = true := by
  have hLeads' : ¬ leadsNowhere (physical :: rest) = true := by simp [hLeads]
  obtain ⟨hWord, hMark⟩ := not_or.mp (mt leadsNowhere_iff.mpr hLeads')
  obtain ⟨l, hHead, -, hContent, -⟩ :=
    LogicalLine.head?_joinFrom_closed (1 + before.length) rest hComment
  have hFirst : Text.firstRun l.content = Text.firstWord (joined (physical :: rest)) := by
    rw [← firstWord_gathered hWord hMark, ← Text.firstWord_trim, ← hContent,
      Text.firstWord_eq_firstRun, hContent, Text.trimStart_trim]
  have hIdle : l.isIdle = false := by
    rw [← hFirst] at hWord hMark
    cases hText : l.content with
    | nil => simp [hText, Text.firstRun] at hWord
    | cons c cs =>
        rw [hText] at hMark
        by_cases hc : c = '#'
        · subst c
          simp [Text.firstRun, Text.isBlank] at hMark
        · simp [LogicalLine.isIdle, hText, hc]
  obtain ⟨i, -, hRead⟩ := exists_instruction_of_mem hParse
    (LogicalLine.mem_ofText_of_head? hLines hClosed hHead) hIdle
  rw [← hFirst]
  exact Instruction.isKeyword_of_ofLine hRead

/-- In a file that parses, the check calls a line invalid in two cases and in no
other: where it begins a line that leads nowhere, and where it begins one inside
a logical line, after a comment there, with a word that is no keyword. -/
theorem callsInvalid_iff_of_parse {text : Text} {instructions : List Instruction}
    (hParse : parse text = .ok instructions) (n : Nat) :
    (∃ d ∈ check text, d.kind = .invalidInstruction ∧ d.line = n) ↔
      ∃ before physical rest, Text.lines text = before ++ physical :: rest ∧
        n = 1 + before.length ∧
        beginsLine (stateAfter 1 .initial before) physical = true ∧
        (leadsNowhere (physical :: rest) = true ∨
          LogicalLine.leavesOpen false before = true ∧
            isKeyword (Text.firstWord (joined (physical :: rest))) = false) := by
  constructor
  · intro hCalls
    obtain ⟨before, physical, rest, hLines, hn, hBegins, hWord⟩ := callsInvalid_check.mp hCalls
    refine ⟨before, physical, rest, hLines, hn, hBegins, ?_⟩
    cases hLeads : leadsNowhere (physical :: rest) with
    | true => exact .inl rfl
    | false =>
        cases hOpen : LogicalLine.leavesOpen false before with
        | true => exact .inr ⟨rfl, hWord⟩
        | false =>
            have hKeyword := isKeyword_of_parse hParse hLines hOpen
              (isComment_of_beginsLine hBegins) hLeads
            simp [hKeyword] at hWord
  · rintro ⟨before, physical, rest, hLines, hn, hBegins, hCase⟩
    refine callsInvalid_check.mpr ⟨before, physical, rest, hLines, hn, hBegins, ?_⟩
    rcases hCase with hLeads | ⟨-, hWord⟩
    · exact isKeyword_of_leadsNowhere hLeads
    · exact hWord

/-- A file whose second instruction goes on after a comment. -/
def commentedFile : Text :=
  "FROM a:1\nRUN echo \\\n# note\n  foo\n".toList

set_option maxRecDepth 4000 in
/-- An instruction with a comment inside: the check begins a line after the
comment, and its first word is an argument. -/
theorem callsInvalid_commentedFile :
    (parse commentedFile).toOption.isSome = true ∧
      ∃ d ∈ check commentedFile, d.kind = .invalidInstruction ∧ d.line = 4 := by
  refine ⟨by decide, (callsInvalid_iff_of_parse (by rfl) 4).mpr ?_⟩
  exact ⟨["FROM a:1".toList, "RUN echo \\".toList, "# note".toList], "  foo".toList, [],
    by decide, by decide, by decide, .inr ⟨by decide, by decide⟩⟩

set_option maxRecDepth 4000 in
/-- A file that parses may be called invalid where an instruction goes on after
a comment, and where a continuation joins blank lines only. -/
theorem exists_callsInvalid_of_parse :
    ((parse commentedFile).toOption.isSome = true ∧
      ∃ d ∈ check commentedFile, d.kind = .invalidInstruction) ∧
    ((parse "FROM a:1\n\\\n\n".toList).toOption.isSome = true ∧
      ∃ d ∈ check "FROM a:1\n\\\n\n".toList, d.kind = .invalidInstruction) := by
  decide

end Drydock.Precheck
