import Drydock.Proofs.Assignments
import Drydock.Proofs.Grade
import Drydock.Proofs.KeywordLine
import Drydock.Proofs.Word

/-! A line that sets a variable named after a credential. Whichever way the file
is judged, by its instructions or line by line, the line is found to hold a
secret, and the grade is none better than C. -/
namespace Drydock

namespace Secret

/-- For the characters of a variable, folding is writing in small letters. In
general it also takes two letters outside ASCII for plain ones. -/
theorem fold_of_isVariableChar {c : Char} (h : isVariableChar c = true) :
    Text.fold c = c.toLower := by
  apply Text.fold_of_lt
  simp only [isVariableChar, Char.isAlphanum, Bool.or_eq_true, beq_iff_eq] at h
  rcases h with (hAlpha | hDigit) | rfl
  · have hBounds := Text.isAlpha_bounds hAlpha
    omega
  · have hBounds := Text.isDigit_bounds hDigit
    omega
  · decide

theorem isNameChar_of_isVariableChar {c : Char} (h : isVariableChar c = true) :
    isNameChar c = true := by
  rw [isNameChar, Text.isFoldedLetter, fold_of_isVariableChar h]
  simpa [isVariableChar, Char.isAlphanum] using h

/-- The rest of a name, an equals sign and a value make an assignment. The value
need not end anywhere. -/
theorem assigns_append {name value : Text} {c : Char}
    (hName : ∀ d ∈ name, isNameChar d = true) (hc : Text.isBlank c = false) :
    assigns (name ++ '=' :: c :: value) = true := by
  have hEquals : ¬ isNameChar '=' = true := by decide
  have hDrop : (name ++ '=' :: c :: value).dropWhile isNameChar = '=' :: c :: value := by
    rw [List.dropWhile_append_of_pos hName, List.dropWhile_cons_of_neg hEquals]
  rw [assigns, hDrop, Text.trimStart_cons_of_not_blank (by decide)]
  simp [Text.trimStart_cons_of_not_blank hc]

/-- A credential is found behind any characters of a name. Those before it need
not form a name by themselves. -/
theorem inName_append {before s : Text} (hBefore : ∀ c ∈ before, isNameChar c = true)
    (h : beginsCredential s = true) (hNe : s ≠ []) : inName (before ++ s) = true := by
  induction before with
  | nil =>
      cases s with
      | nil => exact absurd rfl hNe
      | cons c s => simp [inName, h]
  | cons c before ih =>
      have hTail := ih fun d hd => hBefore d (by simp [hd])
      simp [inName, hBefore c (by simp), hTail]

/-- The words by which the name of a variable mentions a credential. -/
def plainCredentials : List Text :=
  ["password", "passwd", "secret", "token", "apikey", "api_key", "privatekey", "private_key",
    "accesskey", "access_key"].map String.toList

theorem mem_credentials : ∀ word ∈ plainCredentials, word ∈ credentials := by
  decide

/-- The name of a variable that mentions a credential, in letters of either
case. -/
structure NamesCredential (name : Text) : Prop where
  head? : name.head?.any isVariableStart = true
  isVariableChar_of_mem : ∀ c ∈ name, isVariableChar c = true
  mentions : ∃ word ∈ plainCredentials, Text.occursIn word (Text.lower name) = true

/-- A value assigned to such a name is taken for a secret, whatever comes
after. -/
theorem NamesCredential.inName_assignment {name : Text} {c : Char} (h : NamesCredential name)
    (hc : Text.isBlank c = false) (value : Text) :
    inName (name ++ '=' :: c :: value) = true := by
  obtain ⟨word, hWord, hOccurs⟩ := h.mentions
  -- the mention stands somewhere in the name, with characters of a name on both sides
  obtain ⟨before, after, hLower⟩ := Text.occursIn_iff.mp hOccurs
  rw [Text.lower, eq_comm, List.map_eq_append_iff] at hLower
  obtain ⟨first, end', rfl, hFirst, rfl⟩ := hLower
  rw [List.map_eq_append_iff] at hFirst
  obtain ⟨start, mention, rfl, rfl, hMention⟩ := hFirst
  have hVariable := h.isVariableChar_of_mem
  have hFold : mention.map Text.fold = word := by
    rw [← hMention]
    apply List.map_congr_left
    intro d hd
    exact fold_of_isVariableChar (hVariable d (by simp [hd]))
  have hBegins : beginsCredential (mention ++ (end' ++ '=' :: c :: value)) = true := by
    rw [beginsCredential, List.any_eq_true]
    refine ⟨word, mem_credentials word hWord, ?_⟩
    rw [Text.afterFolded?_append hFold]
    exact assigns_append
      (fun d hd => isNameChar_of_isVariableChar (hVariable d (by simp [hd]))) hc
  have hName : ∀ d ∈ start, isNameChar d = true :=
    fun d hd => isNameChar_of_isVariableChar (hVariable d (by simp [hd]))
  rw [List.append_assoc, List.append_assoc]
  exact inName_append hName hBegins (by simp)

/-- The keywords that set variables begin with another letter than RUN does. -/
theorem exists_cons_of_sets {word : Text}
    (h : Text.upper word = "ENV".toList ∨ Text.upper word = "ARG".toList) :
    ∃ c cs, word = c :: cs ∧ (c.toUpper = 'E' ∨ c.toUpper = 'A') := by
  cases word with
  | nil => simp [Text.upper] at h
  | cons c cs =>
      refine ⟨c, cs, rfl, ?_⟩
      simp only [Text.upper, List.map_cons] at h
      rcases h with h | h
      · exact .inl (List.cons.inj h).1
      · exact .inr (List.cons.inj h).1

theorem isKeyword_of_sets {word : Text}
    (h : Text.upper word = "ENV".toList ∨ Text.upper word = "ARG".toList) :
    isKeyword word = true := by
  rcases h with h | h
  · exact isKeyword_of_upper_eq (by decide) h
  · exact isKeyword_of_upper_eq (by decide) h

/-- A line that sets variables mounts no secret, since no RUN begins it. Only
the option written out in a value could make it pass for one. -/
theorem isSecretMountLine_of_sets {line word rest : Text}
    (hSets : Text.upper word = "ENV".toList ∨ Text.upper word = "ARG".toList)
    (hTrim : Text.trim line = word ++ rest) (hFeed : '\n' ∉ line)
    (hMount : Text.occursIn "--mount=type=secret".toList line = false) :
    BuildKit.isSecretMountLine (Text.trim line) = false := by
  have hInfix := Text.trim_infix line
  have hStarts : Text.lineStarts (Text.trim line) = [Text.trim line] := by
    rw [Text.lineStarts, Text.afterFeeds_eq_nil fun h => hFeed (hInfix.subset h)]
  have hOther : BuildKit.afterKeyword? "run" (Text.trim line) = none := by
    obtain ⟨c, cs, rfl, hUpper⟩ := exists_cons_of_sets hSets
    have hVariable : isVariableChar c = true := by
      have hAlpha := isAlpha_of_isKeyword (isKeyword_of_sets hSets) c (by simp)
      simp [isVariableChar, Char.isAlphanum, hAlpha]
    have hFold : Text.fold c ≠ 'r' := by
      rw [fold_of_isVariableChar hVariable, ← Char.toLower_toUpper_eq_toLower]
      rcases hUpper with h | h
      · rw [h]
        decide
      · rw [h]
        decide
    rw [BuildKit.afterKeyword?, Text.trimStart_trim, hTrim]
    exact if_neg hFold
  have hRun : BuildKit.hasSecretMount (Text.trim line) = false := by
    simp [BuildKit.hasSecretMount, BuildKit.anyInRun, hStarts, hOther]
  have hOption : Text.occursIn "--mount=type=secret".toList (Text.trim line) = false := by
    rw [← Bool.not_eq_true, Text.occursIn_iff]
    intro hIn
    rw [Text.occursIn_iff.mpr (hIn.trans hInfix)] at hMount
    exact absurd hMount (by simp)
  rw [BuildKit.isSecretMountLine, hRun, hOption]
  rfl

/-- The scan finds a secret on a line that sets variables and looks like one. -/
theorem exists_mem_scanLine {line word rest : Text} (n : Nat)
    (hSets : Text.upper word = "ENV".toList ∨ Text.upper word = "ARG".toList)
    (hTrim : Text.trim line = word ++ rest) (hFeed : '\n' ∉ line)
    (hMount : Text.occursIn "--mount=type=secret".toList line = false)
    (hLooks : looksSecret (Text.trim line) = true) :
    ∃ f ∈ LineScan.scanLine n line, f.Breaks "no-secrets" ∧ f.line = some n := by
  have hGuard : (looksSecret (Text.trim line) &&
      !BuildKit.isSecretMountLine (Text.trim line)) = true := by
    rw [hLooks, isSecretMountLine_of_sets hSets hTrim hFeed hMount]
    rfl
  have hFound : ∃ f ∈ LineScan.hardcodedSecret n (Text.trim line),
      f.Breaks "no-secrets" ∧ f.line = some n := by
    rw [LineScan.hardcodedSecret, if_pos hGuard]
    cases holder? (Text.trim line) with
    | none => exact ⟨_, List.mem_singleton_self _, ⟨rfl, rfl, rfl⟩, rfl⟩
    | some name => exact ⟨_, List.mem_singleton_self _, ⟨rfl, rfl, rfl⟩, rfl⟩
  obtain ⟨f, hMem, hBreaks⟩ := hFound
  refine ⟨f, ?_, hBreaks⟩
  rw [LineScan.scanLine_of_trim n (isKeyword_of_sets hSets) hTrim]
  exact List.mem_append_left _ (List.mem_append_left _ (List.mem_append_right _ hMem))

/-- A line that sets variables without quotes, of which one is named after a
credential and has a value. -/
structure Line extends Opening where
  assignments : List Assignments.Bare
  trail : Text
  isBlank_trail : ∀ c ∈ trail, Text.isBlank c = true
  sets : Text.sameLetters keyword "ENV".toList = true ∨
    Text.sameLetters keyword "ARG".toList = true
  exposes : ∃ a ∈ assignments, NamesCredential a.key ∧ a.value ≠ []
  isKeyword_keyword := isKeyword_of_sets
    (sets.imp Text.sameLetters_iff_upper.mp Text.sameLetters_iff_upper.mp)

namespace Line

def arguments (line : Line) : Text :=
  Assignments.Bare.texts line.assignments ++ line.trail

def text (line : Line) : Text :=
  line.followedBy line.arguments

theorem upper_keyword (line : Line) :
    Text.upper line.keyword = "ENV".toList ∨ Text.upper line.keyword = "ARG".toList :=
  line.sets.imp Text.sameLetters_iff_upper.mp Text.sameLetters_iff_upper.mp

/-- An assignment without quotes does not end in a blank, so only the trail is
lost. -/
theorem trimEnd_arguments (line : Line) :
    Text.trimEnd line.arguments = Assignments.Bare.texts line.assignments := by
  rw [arguments, Text.trimEnd_append_of_blank line.isBlank_trail, Assignments.Bare.trimEnd_texts]

/-- Without the blanks at its ends the line is the keyword and the
assignments. -/
theorem trim_text (line : Line) :
    Text.trim line.text = line.keyword ++ Assignments.Bare.texts line.assignments := by
  rw [text, line.trim_followedBy, line.trimEnd_arguments]

/-- Found by itself, the assignment looks like a secret. -/
theorem looksSecret_assignment (line : Line) :
    ∃ a ∈ line.assignments, looksSecret (Arguments.assignment a.pair) = true := by
  obtain ⟨a, hMem, hName, hValue⟩ := line.exposes
  refine ⟨a, hMem, ?_⟩
  cases hText : a.value with
  | nil => exact absurd hText hValue
  | cons c cs =>
      have hc := a.isBlank_value c (by simp [hText])
      have hFound := hName.inName_assignment hc cs
      have hStart : looksSecret (a.key ++ '=' :: c :: cs) = true :=
        Text.anyAtWordStart_iff.mpr ⟨[], _, rfl, rfl, hFound⟩
      simpa [Arguments.assignment, Assignments.Bare.pair, hText] using hStart

/-- Found within its line, the assignment looks like a secret as well. The
keyword and the other assignments around it do not hide it, as a gap comes
before its name. -/
theorem looksSecret_trim_text (line : Line) : looksSecret (Text.trim line.text) = true := by
  obtain ⟨a, hMem, hName, hValue⟩ := line.exposes
  obtain ⟨front, back, hSplit⟩ := List.append_of_mem hMem
  cases hText : a.value with
  | nil => exact absurd hText hValue
  | cons c cs =>
      have hc := a.isBlank_value c (by simp [hText])
      have hFound := hName.inName_assignment hc (cs ++ Assignments.Bare.texts back)
      -- a blank, which is no character of a word, comes right before the name
      have hStart : (line.keyword ++ Assignments.Bare.texts front ++ a.gap).getLast?.all
          (!Text.isWord ·) = true := by
        rw [List.getLast?_append_of_ne_nil _ a.gap_ne_nil,
          List.getLast?_eq_some_getLast a.gap_ne_nil]
        simp [Text.isWord_of_isBlank (a.isBlank_gap _ (List.getLast_mem _))]
      have hLine : Text.trim line.text = line.keyword ++ Assignments.Bare.texts front ++ a.gap ++
          (a.key ++ '=' :: c :: (cs ++ Assignments.Bare.texts back)) := by
        rw [line.trim_text, hSplit]
        simp [Assignments.Bare.texts, Assignments.Bare.text, hText]
      exact Text.anyAtWordStart_iff.mpr ⟨_, _, hLine, hStart, hFound⟩

/-- The assignments have an equals sign, which trimming leaves. -/
theorem mem_trim_arguments (line : Line) : '=' ∈ Text.trim line.arguments := by
  obtain ⟨a, hMem, -⟩ := line.exposes
  have hEquals : '=' ∈ Assignments.Bare.texts line.assignments :=
    List.mem_flatMap.mpr ⟨a, hMem, by simp [Assignments.Bare.text]⟩
  exact Text.mem_trim (List.mem_append_left _ hEquals) (by decide)

theorem head?_arguments (line : Line) : line.arguments.head?.all Text.isBlank = true := by
  apply Text.all_head?_append (Assignments.Bare.head?_texts line.assignments)
  cases hHead : line.trail.head? with
  | none => rfl
  | some c => exact line.isBlank_trail c (List.mem_of_mem_head? hHead)

/-- The instruction on the line holds all its assignments. -/
theorem ofLine_eq (line : Line) {l : LogicalLine} (h : l.content = Text.trim line.text) :
    Instruction.ofLine l = .ok
      { name := Text.upper line.keyword
        args := .assignments (line.assignments.map Assignments.Bare.pair)
        line := l.line
        source := l.source } := by
  have hEquals := line.mem_trim_arguments
  have hTakes : Instruction.takesAssignments (Text.upper line.keyword)
      (Text.trim line.arguments) = true := by
    rcases line.upper_keyword with h | h
    · simp [Instruction.takesAssignments, h]
    · simp [Instruction.takesAssignments, h, hEquals]
  have hRead : Assignments.read (Text.trim line.arguments) =
      line.assignments.map Assignments.Bare.pair :=
    Assignments.Bare.read_trim_texts line.assignments line.isBlank_trail
  have hAlone : Text.trim line.arguments = [] →
      Instruction.mayStandAlone (Text.upper line.keyword) = true := by
    intro hNil
    simp [hNil] at hEquals
  rw [line.ofLine_of_content h line.head?_arguments hAlone, Instruction.argumentsOf,
    if_pos hTakes, hRead]

/-- The rule is broken by any file with such an instruction, whatever the other
instructions set. -/
theorem noSecrets_breaks (line : Line) {instructions : List Instruction} {i : Instruction}
    (hMem : i ∈ instructions) (hName : i.name = Text.upper line.keyword)
    (hArgs : i.args = .assignments (line.assignments.map Assignments.Bare.pair)) :
    ∃ f ∈ Rule.evaluateAll instructions, f.Breaks "no-secrets" := by
  obtain ⟨a, ha, hSecret⟩ := line.looksSecret_assignment
  have hSets : (i.is "ENV" || i.is "ARG") = true := by
    rw [Instruction.is, Instruction.is, hName]
    rcases line.upper_keyword with h | h
    · rw [h]
      decide
    · rw [h]
      decide
  have hSetting : Arguments.assignment a.pair ∈ Rule.settings instructions := by
    rw [Rule.settings, List.mem_flatMap]
    refine ⟨i, List.mem_filter.mpr ⟨hMem, hSets⟩, ?_⟩
    rw [hArgs]
    exact List.mem_map_of_mem (List.mem_map_of_mem ha)
  have hAny : (Rule.settings instructions).any looksSecret = true :=
    List.any_eq_true.mpr ⟨_, hSetting, hSecret⟩
  have hHolds : Rule.noSecrets.holds instructions = false := by
    simp [Rule.noSecrets, hAny]
  exact ⟨Rule.noSecrets.evaluate instructions,
    List.mem_map_of_mem (by simp [Rule.catalog]), Rule.evaluate_breaks hHolds rfl⟩

/-- The scan of the line alone finds the secret. -/
theorem scanLine_breaks (line : Line) (n : Nat) (hFeed : '\n' ∉ line.text)
    (hMount : Text.occursIn "--mount=type=secret".toList line.text = false) :
    ∃ f ∈ LineScan.scanLine n line.text, f.Breaks "no-secrets" := by
  obtain ⟨f, hMem, hBreaks, -⟩ := exists_mem_scanLine n line.upper_keyword line.trim_text hFeed
    hMount line.looksSecret_trim_text
  exact ⟨f, hMem, hBreaks⟩

end Line

/-- A file with a line that hardcodes a secret never earns an A or a B. The line
has to begin a logical line and to be all of it. What else the file holds
decides only how it is judged, and unless it is given up, the report names the
broken rule. -/
theorem grade_of_line {content : Text} (line : Line) {l : LogicalLine} (time : Instant)
    (hMem : l ∈ LogicalLine.ofText content)
    (hLine : (Text.lines content)[l.line - 1]? = some line.text)
    (hEnds : (Text.trimEnd line.text).getLast? ≠ some '\\')
    (hMount : Text.occursIn "--mount=type=secret".toList line.text = false) :
    ((Validator.standard.validateInternal content time).grade = .C ∨
      (Validator.standard.validateInternal content time).grade = .D ∨
      (Validator.standard.validateInternal content time).grade = .F) ∧
    ((Validator.standard.validateInternal content time).evaluation ≠ .parseError →
      (Validator.standard.validateInternal content time).failed "no-secrets" = true) := by
  obtain ⟨hContent, before, after, hLines⟩ := line.content_of_mem_ofText hMem hLine hEnds
  have hFeed : '\n' ∉ line.text := Text.not_mem_of_mem_lines (by rw [hLines]; simp [Line.text])
  apply Validator.grade_of_breaks time (by decide)
  · intro instructions hParse
    obtain ⟨i, hi, hRead⟩ := exists_instruction_of_mem hParse hMem (line.isIdle_of_content hContent)
    obtain rfl := Except.ok.inj ((line.ofLine_eq hContent).symm.trans hRead)
    exact line.noSecrets_breaks hi rfl rfl
  · obtain ⟨f, hScan, hBreaks⟩ := line.scanLine_breaks (1 + before.length) hFeed hMount
    exact ⟨f, LineScan.mem_scan _ hLines hScan, hBreaks⟩

/-- A line in small letters that sets a token after another variable. -/
def tokenLine : Line where
  lead := [' ']
  keyword := "env".toList
  assignments :=
    [⟨[' '], ['A'], ['b'], by simp, by simp [Text.isBlank], by simp,
        by simp [Assignments.isKeyChar, Text.isBlank], by simp [Text.isBlank], by simp⟩,
      ⟨['\t'], "API_TOKEN".toList, ['x'], by simp, by simp [Text.isBlank], by simp,
        by simp [Assignments.isKeyChar, Text.isBlank], by simp [Text.isBlank], by simp⟩]
  trail := []
  isBlank_lead := by simp [Text.isBlank]
  isBlank_trail := by simp
  sets := by decide
  exposes := ⟨_, List.mem_cons_of_mem _ (List.mem_singleton_self _),
    ⟨by decide, List.all_eq_true.mp (by decide), "token".toList, by decide, by decide⟩, by simp⟩

/-- A file with that line. Its here-document cannot be read as instructions. -/
def tokenFile : Text :=
  "FROM a:1\n env A=b\tAPI_TOKEN=x\nRUN <<E\n1\nE\n".toList

set_option maxRecDepth 8000 in
/-- The line in a file that does not parse, and whose lines are scanned
therefore. -/
theorem grade_tokenFile :
    (parse tokenFile).toOption = none ∧
    ((Validator.standard.validateInternal tokenFile ⟨0, 0⟩).grade = .C ∨
      (Validator.standard.validateInternal tokenFile ⟨0, 0⟩).grade = .D ∨
      (Validator.standard.validateInternal tokenFile ⟨0, 0⟩).grade = .F) ∧
    ((Validator.standard.validateInternal tokenFile ⟨0, 0⟩).evaluation ≠ .parseError →
      (Validator.standard.validateInternal tokenFile ⟨0, 0⟩).failed "no-secrets" = true) := by
  have hMem : ⟨2, "env A=b\tAPI_TOKEN=x".toList, " env A=b\tAPI_TOKEN=x".toList⟩ ∈
      LogicalLine.ofText tokenFile := by decide
  exact ⟨by decide, grade_of_line tokenLine ⟨0, 0⟩ hMem (by decide) (by decide) (by decide)⟩

end Secret

end Drydock
