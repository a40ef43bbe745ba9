import Drydock.Proofs.Concatenation
import Drydock.Proofs.CopyForm
import Drydock.Proofs.KeywordLine

/-! A line with a COPY in a file. Its operands can be written as a list of
strings or by themselves, and the rest of the file is read alike. The verdict on
the order of COPY instructions stays as it is unless this COPY is the first that
brings in the source tree or a manifest and what follows has another verdict. -/
namespace Drydock

/-- A line that is continued neither from the one before nor on the next is read
by itself. -/
theorem parse_of_line {content : Text} {before after : List Text} {physical : Text}
    {i : Instruction} (hLines : Text.lines content = before ++ physical :: after)
    (hBefore : ¬ LogicalLine.EndsPending before)
    (hComment : LogicalLine.isComment physical = false)
    (hEnds : (Text.trimEnd physical).getLast? ≠ some '\\')
    (hRead : Instruction.ofLine ⟨1 + before.length, Text.trim physical,
      Text.trimEnd (physical ++ ['\n'])⟩ = .ok i) :
    parse content =
      (instructionsOf (LogicalLine.joinFrom 1 none before)).bind fun first =>
        (instructionsOf (LogicalLine.joinFrom (1 + before.length + 1) none after)).map
          fun rest => first ++ i :: rest := by
  have hClosed :
      LogicalLine.leavesOpen (none : Option LogicalLine.Draft).isSome before = false := by
    rwa [Option.isSome_none, ← Bool.not_eq_true, LogicalLine.leavesOpen_iff_endsPending]
  have hIdle : LogicalLine.isIdle ⟨1 + before.length, Text.trim physical,
      Text.trimEnd (physical ++ ['\n'])⟩ = false := by
    obtain ⟨word, rest, hContent, hWord, -⟩ := Instruction.ofLine_eq_ok_iff.mp hRead
    exact LogicalLine.isIdle_of_isKeyword hWord hContent
  have hText : LogicalLine.ofText content = LogicalLine.joinFrom 1 none before ++
      ⟨1 + before.length, Text.trim physical, Text.trimEnd (physical ++ ['\n'])⟩ ::
        LogicalLine.joinFrom (1 + before.length + 1) none after := by
    rw [LogicalLine.ofText, hLines, LogicalLine.joinFrom_append _ hClosed,
      LogicalLine.joinFrom_ended hComment (LogicalLine.continued?_eq_none_iff.mpr hEnds)]
    simp [LogicalLine.Draft.empty, LogicalLine.Draft.add, LogicalLine.Draft.finish,
      Text.trim_trimEnd]
  rw [parse, hText, instructionsOf_append, instructionsOf_cons_of_ok hIdle hRead]
  cases instructionsOf (LogicalLine.joinFrom 1 none before) with
  | error e => rfl
  | ok first =>
      cases instructionsOf (LogicalLine.joinFrom (1 + before.length + 1) none after) with
      | error e => rfl
      | ok rest => rfl

namespace Copy

/-- A line with a COPY whose operands are written as a list. -/
structure Line extends Opening where
  gap : Text
  listing : ExecForm.Listing
  sameLetters_keyword : Text.sameLetters keyword "COPY".toList = true
  gap_ne_nil : gap ≠ []
  isBlank_gap : ∀ c ∈ gap, Text.isBlank c = true
  items_ne_nil : listing.items ≠ []
  isOperand : ∀ path ∈ listing.items, IsOperand path
  isKeyword_keyword := isKeyword_iff.mpr ⟨_, by decide, sameLetters_keyword⟩

namespace Line

/-- The line with `args` for its arguments. -/
def text (line : Line) (args : Text) : Text :=
  line.followedBy (line.gap ++ args)

def operands (line : Line) : Text :=
  Text.join [' '] line.listing.items

/-- What is read from the line with `args`, when it is the `n`-th of a file. -/
def instruction (line : Line) (args : Text) (n : Nat) : Instruction :=
  { name := "COPY".toList
    args := .text (Text.trim args)
    line := n
    source := Text.trimEnd (line.text args ++ ['\n']) }

def BringsTree (line : Line) : Prop :=
  ∃ path ∈ line.listing.items.dropLast, path = ".".toList ∨ path = "./".toList

/-- Whether there is a manifest among the sources, with or without the stars of
its path. -/
def BringsManifest (line : Line) : Prop :=
  ∃ path ∈ line.listing.items.dropLast,
    isManifest (path.filter (· != '*')) = true ∨ isManifest path = true

section Reading

variable (line : Line) {args : Text}

/-- Without a backslash in its arguments the line is not continued. -/
theorem getLast?_trimEnd_text (hBackslash : '\\' ∉ args) :
    (Text.trimEnd (line.text args)).getLast? ≠ some '\\' := by
  apply line.getLast?_trimEnd_followedBy
  intro hLast
  have hPrefix : Text.trimEnd (line.gap ++ args) <+: line.gap ++ args := List.rdropWhile_prefix ..
  rcases List.mem_append.mp (hPrefix.subset (List.mem_of_getLast? hLast)) with hGap | hArgs
  · exact absurd (line.isBlank_gap _ hGap) (by decide)
  · exact hBackslash hArgs

/-- The arguments are kept as text, in either form, as a COPY takes no list. -/
theorem ofLine_text (hArgs : Text.trimEnd args ≠ []) (n : Nat) :
    Instruction.ofLine ⟨n, Text.trim (line.text args), Text.trimEnd (line.text args ++ ['\n'])⟩ =
      .ok (line.instruction args n) := by
  have hUpper : Text.upper line.keyword = "COPY".toList :=
    Text.sameLetters_iff_upper.mp line.sameLetters_keyword
  have hTrim : Text.trim (line.gap ++ args) = Text.trim args := by
    rw [Text.trim, Text.trimStart_append_of_blank line.isBlank_gap]
    rfl
  have hBlank : (line.gap ++ args).head?.all Text.isBlank = true :=
    Text.head?_append_of_gap line.gap_ne_nil line.isBlank_gap args
  have hAlone : Text.trim (line.gap ++ args) = [] →
      Instruction.mayStandAlone (Text.upper line.keyword) = true := by
    rw [hTrim, Text.trim_eq_nil_iff, ← Text.trimEnd_eq_nil_iff]
    exact fun hNil => absurd hNil hArgs
  rw [line.ofLine_of_content rfl hBlank hAlone, hTrim, hUpper]
  rfl

theorem is_instruction (n : Nat) : (line.instruction args n).is "COPY" = true := by
  show Text.sameLetters "COPY".toList "COPY".toList = true
  exact Text.sameLetters_iff.mpr rfl

/-- A file with the line is read as what comes before, the instruction, and what
comes after, each with its numbers in the file. -/
theorem parse_text {content : Text} {before after : List Text}
    (hLines : Text.lines content = before ++ line.text args :: after)
    (hBefore : ¬ LogicalLine.EndsPending before) (hArgs : Text.trimEnd args ≠ [])
    (hBackslash : '\\' ∉ args) :
    parse content =
      (instructionsOf (LogicalLine.joinFrom 1 none before)).bind fun first =>
        (instructionsOf (LogicalLine.joinFrom (1 + before.length + 1) none after)).map
          fun rest => first ++ line.instruction args (1 + before.length) :: rest :=
  parse_of_line hLines hBefore (line.isComment_followedBy _)
    (line.getLast?_trimEnd_text hBackslash) (line.ofLine_text hArgs _)

end Reading

section Forms

variable (line : Line)

theorem trimEnd_listing_ne_nil : Text.trimEnd line.listing.text ≠ [] := by
  rw [Ne, Text.trimEnd_eq_nil_iff]
  intro hBlank
  have hOpen : '[' ∈ line.listing.text := by
    cases line.listing with
    | empty gap trail => exact List.mem_cons_self
    | elements first more trail => exact List.mem_cons_self
  exact absurd (hBlank _ hOpen) (by decide)

theorem words_operands : Text.words line.operands = line.listing.items :=
  Text.words_join (fun path hPath => (line.isOperand path hPath).ne_nil)
    fun path hPath => (line.isOperand path hPath).isBlank_eq_false

theorem trimEnd_operands_ne_nil : Text.trimEnd line.operands ≠ [] := by
  rw [Ne, Text.trimEnd_eq_nil_iff]
  intro hBlank
  apply line.items_ne_nil
  rw [← line.words_operands, Text.words_of_blank hBlank]

theorem backslash_notMem_operands : '\\' ∉ line.operands :=
  Text.not_mem_join (by decide) fun path hPath => (line.isOperand path hPath).backslash_notMem

/-- As a list the operands are taken neither for the tree nor for a manifest. -/
theorem copiesTreeOrManifest_listing (n : Nat) :
    copiesTreeOrManifest (line.instruction line.listing.text n) = false :=
  copiesTreeOrManifest_of_fenced rfl (ExecForm.Listing.fenced_text line.isOperand)

/-- By themselves the operands are taken for the tree when a source is the
current directory. -/
theorem copiesTree_operands_iff (n : Nat) :
    copiesTree (line.instruction line.operands n) = true ↔ line.BringsTree := by
  obtain ⟨hSources, hStage⟩ := sources_of_operands (i := line.instruction line.operands n)
    line.isOperand rfl
  rw [copiesTree, hSources, hStage, Bool.not_false, Bool.true_and, List.any_eq_true]
  simp only [Bool.or_eq_true, decide_eq_true_eq]
  rfl

/-- By themselves the operands are taken for a manifest when a source is the
path of one. -/
theorem copiesManifest_operands_iff (n : Nat) :
    copiesManifest (line.instruction line.operands n) = true ↔ line.BringsManifest := by
  obtain ⟨hSources, hStage⟩ := sources_of_operands (i := line.instruction line.operands n)
    line.isOperand rfl
  rw [copiesManifest, hSources, hStage, Bool.not_false, Bool.true_and, List.any_eq_true]
  simp only [Bool.or_eq_true]
  rfl

/-- So they are taken for neither exactly when they name neither. -/
theorem copiesTreeOrManifest_operands_iff (n : Nat) :
    copiesTreeOrManifest (line.instruction line.operands n) = false ↔
      ¬ line.BringsTree ∧ ¬ line.BringsManifest := by
  rw [copiesTreeOrManifest, Bool.or_eq_false_iff, ← line.copiesTree_operands_iff n,
    ← line.copiesManifest_operands_iff n, Bool.not_eq_true, Bool.not_eq_true]

end Forms

end Line

end Copy

/-- The verdict of the rule is told by whether it holds, as its texts are
fixed. -/
theorem Rule.evaluate_layerCaching_eq_iff {first second : List Instruction} :
    layerCaching.evaluate first = layerCaching.evaluate second ↔
      layerCaching.holds first = layerCaching.holds second := by
  constructor
  · intro h
    have hPassed := congrArg Finding.passed h
    rwa [passed_evaluate, passed_evaluate] at hPassed
  · intro h
    rw [evaluate, evaluate, h]
    rfl

/-- A file with a COPY line can be read with the operands in either form, and
nothing else is read in another way. Both forms have one verdict exactly where
an earlier COPY brings in the tree or a manifest, where the operands name
neither, or where what follows has the verdict that the operands call for. -/
theorem Rule.evaluate_layerCaching_operands_iff {content rewritten : Text}
    {before after : List Text} {instructions : List Instruction} (line : Copy.Line)
    (hParse : parse content = .ok instructions)
    (hLines : Text.lines content = before ++ line.text line.listing.text :: after)
    (hBefore : ¬ LogicalLine.EndsPending before)
    (hRewritten : Text.lines rewritten = before ++ line.text line.operands :: after) :
    ∃ first rest, instructionsOf (LogicalLine.joinFrom 1 none before) = .ok first ∧
      instructions = first ++ line.instruction line.listing.text (1 + before.length) :: rest ∧
      parse rewritten =
        .ok (first ++ line.instruction line.operands (1 + before.length) :: rest) ∧
      (layerCaching.evaluate
          (first ++ line.instruction line.operands (1 + before.length) :: rest) =
          layerCaching.evaluate instructions ↔
        (∃ c ∈ named "COPY" first, Copy.copiesTree c = true ∨ Copy.copiesManifest c = true) ∨
        (¬ line.BringsTree ∧ ¬ line.BringsManifest) ∨
        ((layerCaching.evaluate rest).passed = true ↔ ¬ line.BringsTree)) := by
  rw [line.parse_text hLines hBefore line.trimEnd_listing_ne_nil
    (ExecForm.Listing.backslash_notMem_text line.isOperand)] at hParse
  rw [line.parse_text hRewritten hBefore line.trimEnd_operands_ne_nil
    line.backslash_notMem_operands]
  cases hFirst : instructionsOf (LogicalLine.joinFrom 1 none before) with
  | error e => simp [hFirst, Except.bind] at hParse
  | ok first =>
      cases hRest : instructionsOf (LogicalLine.joinFrom (1 + before.length + 1) none after) with
      | error e => simp [hFirst, hRest, Except.bind, Except.map] at hParse
      | ok rest =>
          rw [hFirst, hRest] at hParse
          obtain rfl := Except.ok.inj hParse
          have hVerdict : layerCaching.holds rest =
              !Copy.copiesTree (line.instruction line.operands (1 + before.length)) ↔
              (layerCaching.holds rest = true ↔ ¬ line.BringsTree) := by
            rw [← line.copiesTree_operands_iff (1 + before.length), Bool.eq_iff_iff,
              Bool.not_eq_true', ← Bool.not_eq_true]
          refine ⟨first, rest, rfl, rfl, rfl, ?_⟩
          rw [evaluate_layerCaching_eq_iff, holds_layerCaching_replace_iff
            (line.is_instruction _) (line.copiesTreeOrManifest_listing _) (line.is_instruction _),
            line.copiesTreeOrManifest_operands_iff, hVerdict, passed_evaluate]
          simp only [Copy.copiesTreeOrManifest, Bool.or_eq_true]

/-- The whole tree, copied into the working directory, with blanks wherever they
may stand. -/
def Copy.treeLine : Copy.Line where
  lead := ['\t', '\t']
  keyword := "Copy".toList
  gap := [' ', ' ', '\t']
  listing := .elements
    ⟨[' ', ' '], [.plain '.' (by decide) (by decide)], ['\t', '\t'], by simp, by simp⟩
    [⟨[' ', '\t'], [.plain '.' (by decide) (by decide)], ['\t', ' '], by simp, by simp⟩]
    ['\t', ' ', ' '] (by simp [Text.isBlank])
  isBlank_lead := by simp [Text.isBlank]
  sameLetters_keyword := by decide
  gap_ne_nil := by simp
  isBlank_gap := by simp [Text.isBlank]
  items_ne_nil := by simp [ExecForm.Listing.items]
  isOperand := by
    intro path hPath
    obtain rfl : path = ['.'] := by
      simpa [ExecForm.Listing.items, ExecForm.Element.meaning, ExecForm.Piece.meaning] using hPath
    exact ⟨by simp, by simp [Text.isBlank], by decide, by decide, by decide⟩

/-- A file in which a manifest is copied before the last line. -/
def Copy.afterManifest (last : Text) : Text :=
  "FROM a:1\nCOPY go.mod .\n".toList ++ (last ++ ['\n'])

def Copy.manifestCopied : List Instruction :=
  [⟨"FROM".toList, .text "a:1".toList, 1, "FROM a:1".toList⟩,
    ⟨"COPY".toList, .text "go.mod .".toList, 2, "COPY go.mod .".toList⟩]

/-- After the manifest the tree may be copied in either form. -/
theorem Rule.evaluate_layerCaching_treeLine :
    Copy.treeLine.text Copy.treeLine.listing.text =
      "\t\tCopy  \t[  \".\"\t\t, \t\".\"\t ]\t  ".toList ∧
    parse (Copy.afterManifest (Copy.treeLine.text Copy.treeLine.operands)) =
      .ok (Copy.manifestCopied ++ [Copy.treeLine.instruction Copy.treeLine.operands 3]) ∧
    parse (Copy.afterManifest (Copy.treeLine.text Copy.treeLine.listing.text)) =
      .ok (Copy.manifestCopied ++ [Copy.treeLine.instruction Copy.treeLine.listing.text 3]) ∧
    layerCaching.evaluate
        (Copy.manifestCopied ++ [Copy.treeLine.instruction Copy.treeLine.operands 3]) =
      layerCaching.evaluate
        (Copy.manifestCopied ++ [Copy.treeLine.instruction Copy.treeLine.listing.text 3]) := by
  have hParse : parse (Copy.afterManifest (Copy.treeLine.text Copy.treeLine.listing.text)) =
      .ok (Copy.manifestCopied ++ [Copy.treeLine.instruction Copy.treeLine.listing.text 3]) := by
    decide +kernel
  have hBefore : ¬ LogicalLine.EndsPending ["FROM a:1".toList, "COPY go.mod .".toList] := by
    rw [← LogicalLine.leavesOpen_iff_endsPending]
    decide
  have hRead : instructionsOf (LogicalLine.joinFrom 1 none
      ["FROM a:1".toList, "COPY go.mod .".toList]) = .ok Copy.manifestCopied := by decide +kernel
  have hLines : Text.lines (Copy.afterManifest (Copy.treeLine.text Copy.treeLine.listing.text)) =
      ["FROM a:1".toList, "COPY go.mod .".toList] ++
        Copy.treeLine.text Copy.treeLine.listing.text :: [] := by decide +kernel
  have hRewritten : Text.lines (Copy.afterManifest (Copy.treeLine.text Copy.treeLine.operands)) =
      ["FROM a:1".toList, "COPY go.mod .".toList] ++
        Copy.treeLine.text Copy.treeLine.operands :: [] := by decide +kernel
  obtain ⟨first, rest, hFirst, hSplit, hOther, hSame⟩ :=
    evaluate_layerCaching_operands_iff Copy.treeLine hParse hLines hBefore hRewritten
  obtain rfl : Copy.manifestCopied = first := Except.ok.inj (hRead.symm.trans hFirst)
  obtain ⟨-, rfl⟩ := List.cons.inj (List.append_cancel_left hSplit)
  refine ⟨rfl, hOther, hParse, hSame.mpr (.inl ?_)⟩
  exact ⟨⟨"COPY".toList, .text "go.mod .".toList, 2, "COPY go.mod .".toList⟩,
    by decide +kernel, .inr (by decide +kernel)⟩

def Rule.verdict? (r : Rule) (content : Text) : Option Bool :=
  (parse content).toOption.map fun instructions => (r.evaluate instructions).passed

/-- A list hides the tree from the rule, and a manifest that comes before the
tree too. -/
theorem Rule.layerCaching_verdict_of_list_and_operands :
    (layerCaching.verdict? "FROM a:1\nCOPY [\".\", \".\"]\n".toList = some true ∧
      layerCaching.verdict? "FROM a:1\nCOPY . .\n".toList = some false) ∧
    layerCaching.verdict? "FROM a:1\nCOPY [\"package.json\", \"./\"]\nCOPY . .\n".toList =
      some false ∧
    layerCaching.verdict? "FROM a:1\nCOPY package.json ./\nCOPY . .\n".toList = some true := by
  refine ⟨⟨?_, ?_⟩, ?_, ?_⟩
  · decide +kernel
  · decide +kernel
  · decide +kernel
  · decide +kernel

end Drydock
