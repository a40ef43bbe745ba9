import Drydock.Proofs.LogicalLine

/-! The physical lines that a logical line covers. Every line that is no comment
adds its text to the logical line around it, with blanks or an end on both
sides, and a word of the logical line stands on one of its physical lines. -/
namespace Drydock

namespace Text

/-- Splitting at a character is `List.splitOn`, so that its lemmas apply. -/
theorem splitAt_eq_splitOn (sep : Char) (s : Text) : splitAt sep s = s.splitOn sep := by
  induction s with
  | nil => rfl
  | cons c cs ih =>
      rw [splitAt, ih, List.splitOn, List.splitOn, List.splitOnP_cons_eq_if_modifyHead]
      by_cases hc : c = sep
      · simp [hc]
      · rw [if_neg hc, if_neg (by simpa using hc)]
        cases hPieces : cs.splitOnP (· == sep) with
        | nil => exact absurd hPieces (List.splitOnP_ne_nil _ _)
        | cons piece pieces => rfl

theorem splitAt_of_not_mem {sep : Char} {s : Text} (h : sep ∉ s) : splitAt sep s = [s] := by
  rw [splitAt_eq_splitOn]
  apply List.splitOnP_eq_singleton
  intro c hc
  exact beq_eq_false_iff_ne.mpr (ne_of_mem_of_not_mem hc h)

/-- The first piece ends before the first separator. -/
theorem splitAt_append {sep : Char} {s : Text} (h : sep ∉ s) (rest : Text) :
    splitAt sep (s ++ sep :: rest) = s :: splitAt sep rest := by
  rw [splitAt_eq_splitOn, splitAt_eq_splitOn]
  apply List.splitOnP_append_cons_of_forall_mem
  · intro c hc
    exact beq_eq_false_iff_ne.mpr (ne_of_mem_of_not_mem hc h)
  · simp

/-- The first piece begins the text, and all pieces stand in it. Of the others
it is not said where, which is enough to look for words. -/
theorem exists_splitAt_eq (sep : Char) (s : Text) :
    ∃ piece pieces, splitAt sep s = piece :: pieces ∧ piece <+: s ∧ ∀ p ∈ pieces, p <:+: s := by
  induction s with
  | nil => exact ⟨[], [], rfl, List.nil_prefix, by simp⟩
  | cons c cs ih =>
      obtain ⟨piece, pieces, hSplit, hPiece, hPieces⟩ := ih
      rw [splitAt, hSplit]
      split
      · refine ⟨[], piece :: pieces, rfl, List.nil_prefix, ?_⟩
        intro p hp
        rcases List.mem_cons.mp hp with rfl | hp
        · exact List.infix_cons hPiece.isInfix
        · exact List.infix_cons (hPieces p hp)
      · refine ⟨c :: piece, pieces, rfl, List.cons_prefix_cons.mpr ⟨rfl, hPiece⟩, ?_⟩
        intro p hp
        exact List.infix_cons (hPieces p hp)

theorem infix_of_mem_splitAt {sep : Char} {s piece : Text} (h : piece ∈ splitAt sep s) :
    piece <:+: s := by
  obtain ⟨first, pieces, hSplit, hFirst, hPieces⟩ := exists_splitAt_eq sep s
  rw [hSplit] at h
  rcases List.mem_cons.mp h with rfl | h
  · exact hFirst.isInfix
  · exact hPieces piece h

/-- A text without a given character stands on one side of it. The obvious
statement about two parts of a text fails, since an infix may reach across the
border. -/
theorem infix_of_infix_append_cons {part a b : Text} {c : Char} (h : part <:+: a ++ c :: b)
    (hc : c ∉ part) : part <:+: a ∨ part <:+: b := by
  rcases List.infix_append_iff.mp h with hLeft | hRight | ⟨left, right, rfl, hLeft, hRight⟩
  · exact .inl hLeft
  · rcases List.infix_cons_iff.mp hRight with hPrefix | hInfix
    · cases part with
      | nil => exact .inr List.nil_infix
      | cons d part =>
          obtain ⟨rfl, -⟩ := List.cons_prefix_cons.mp hPrefix
          exact absurd (by simp) hc
    · exact .inr hInfix
  · cases right with
    | nil => exact .inl (by simpa using hLeft.isInfix)
    | cons d right =>
        obtain ⟨rfl, -⟩ := List.cons_prefix_cons.mp hRight
        exact absurd (by simp) hc

/-- A word has no part in the blanks before the text where it stands. -/
theorem infix_of_infix_blank_append {word gap s : Text} (hGap : ∀ c ∈ gap, isBlank c = true)
    (hWord : ∀ c ∈ word, isBlank c = false) (h : word <:+: gap ++ s) : word <:+: s := by
  induction gap with
  | nil => exact h
  | cons c gap ih =>
      rcases List.infix_cons_iff.mp h with hHere | hLater
      · cases word with
        | nil => exact List.nil_infix
        | cons d word =>
            obtain ⟨rfl, -⟩ := List.cons_prefix_cons.mp hHere
            have hBlank := hGap d (by simp)
            simp [hWord d (by simp)] at hBlank
      · exact ih (fun d hd => hGap d (by simp [hd])) hLater

/-- A word that stands in a text stands in its trimmed form, since no word
reaches into the blanks at the ends. -/
theorem infix_trim_iff {word s : Text} (hWord : ∀ c ∈ word, isBlank c = false) :
    word <:+: trim s ↔ word <:+: s := by
  constructor
  · intro h
    have hTrim := trim_infix s
    exact h.trans hTrim
  · intro h
    obtain ⟨gap, trail, hGap, hTrail, hSplit⟩ := exists_trim_append s
    rw [hSplit] at h
    have hFront := infix_of_infix_blank_append hGap hWord h
    -- what goes for the front goes for the end of the reversed text
    rw [← List.reverse_infix, List.reverse_append] at hFront
    exact List.reverse_infix.mp (infix_of_infix_blank_append (by simpa using hTrail)
      (by simpa using hWord) hFront)

theorem occursIn_trim {word : Text} (hWord : ∀ c ∈ word, isBlank c = false) (s : Text) :
    occursIn word (trim s) = occursIn word s := by
  rw [Bool.eq_iff_iff, occursIn_iff, occursIn_iff, infix_trim_iff hWord]

end Text

namespace LogicalLine

/-- What a physical line adds to the content, without the backslash that
continues it. -/
def kept (physical : Text) : Text :=
  (Text.dropLast? '\\' (Text.trimEnd physical)).getD (Text.trimEnd physical)

/-- A line that ends a logical line adds all its text but the blanks at its
end. -/
theorem kept_of_ended {physical : Text} (h : continued? physical = none) :
    kept physical = Text.trimEnd physical := by
  rw [continued?, Option.map_eq_none_iff] at h
  rw [kept, h, Option.getD_none]

/-- A continued line adds what stands before its backslash, and a space in its
place. -/
theorem kept_of_continued {physical part : Text} (h : continued? physical = some part) :
    part = kept physical ++ [' '] ∧ Text.trimEnd physical = kept physical ++ ['\\'] := by
  obtain ⟨text, rfl, hTrim⟩ := continued?_eq_some_iff.mp h
  have hKept : kept physical = text := by simp [kept, Text.dropLast?, hTrim]
  rw [hKept]
  exact ⟨rfl, hTrim⟩

/-- What a line adds to the content is a front part of the line. -/
theorem isPrefix_kept (physical : Text) : kept physical <+: physical := by
  have hTrim : Text.trimEnd physical <+: physical := List.rdropWhile_prefix ..
  cases hPart : continued? physical with
  | none => rwa [kept_of_ended hPart]
  | some part =>
      rw [(kept_of_continued hPart).2] at hTrim
      exact (List.prefix_append _ _).trans hTrim

/-- A logical line covers physical lines one after another, from the one where
it begins. -/
theorem isPrefix_block (lines : List Text) : block lines <+: lines := by
  induction lines with
  | nil => exact List.nil_prefix
  | cons physical rest ih =>
      rw [block, List.cons_prefix_cons]
      refine ⟨rfl, ?_⟩
      split
      · exact ih
      · exact List.nil_prefix

theorem mem_lines_of_mem_block {content : Text} {before lines : List Text} {physical : Text}
    (hLines : Text.lines content = before ++ lines) (h : physical ∈ block lines) :
    physical ∈ Text.lines content := by
  rw [hLines]
  exact List.mem_append_right _ ((isPrefix_block lines).subset h)

/-- The text of a line that is no comment is gathered, and blanks or an end
surround it. So words of different physical lines do not run together. -/
theorem exists_gathered_eq {lines : List Text} {physical : Text} (hMem : physical ∈ block lines)
    (hComment : isComment physical = false) :
    ∃ front back, gathered lines = front ++ (kept physical ++ back) ∧
      front.getLast?.all Text.isBlank = true ∧ back.head?.all Text.isBlank = true := by
  induction lines with
  | nil => simp [block] at hMem
  | cons first rest ih =>
      rw [block] at hMem
      rw [gathered]
      rcases List.mem_cons.mp hMem with rfl | hMem
      · rw [if_neg (by simp [hComment])]
        cases hPart : continued? physical with
        | none => exact ⟨[], [], by simp [kept_of_ended hPart], rfl, rfl⟩
        | some part =>
            refine ⟨[], ' ' :: gathered rest, ?_, rfl, Text.isBlank_space⟩
            simp [(kept_of_continued hPart).1]
      · cases hFirst : isComment first with
        | true => exact ih (by simpa [hFirst] using hMem)
        | false =>
            cases hPart : continued? first with
            | none => simp [hFirst, hPart] at hMem
            | some part =>
                obtain ⟨front, back, hGathered, hFront, hBack⟩ :=
                  ih (by simpa [hPart] using hMem)
                refine ⟨part ++ front, back, by simp [hGathered], ?_, hBack⟩
                rw [(kept_of_continued hPart).1, List.getLast?_append]
                cases hLast : front.getLast? with
                | none => simp [Text.isBlank_space]
                | some c => simpa [hLast] using hFront

/-- A word that is gathered stands on a line that is no comment. It cannot stand
across two lines, since a space comes between what they add. -/
theorem exists_mem_block_of_infix {lines : List Text} {word : Text} (hNe : word ≠ [])
    (hWord : ∀ c ∈ word, Text.isBlank c = false) (h : word <:+: gathered lines) :
    ∃ physical ∈ block lines, isComment physical = false ∧ word <:+: kept physical := by
  induction lines with
  | nil => exact absurd (List.eq_nil_of_infix_nil h) hNe
  | cons first rest ih =>
      rw [gathered] at h
      cases hFirst : isComment first with
      | true =>
          obtain ⟨physical, hMem, hPhysical⟩ := ih (by simpa [hFirst] using h)
          exact ⟨physical, by simp [block, hFirst, hMem], hPhysical⟩
      | false =>
          rw [if_neg (by simp [hFirst])] at h
          cases hPart : continued? first with
          | none =>
              rw [hPart] at h
              exact ⟨first, by simp [block], hFirst, by rwa [kept_of_ended hPart]⟩
          | some part =>
              rw [hPart, (kept_of_continued hPart).1] at h
              dsimp only at h
              rw [List.append_assoc, List.singleton_append] at h
              have hSpace : ' ' ∉ word := fun hMem => by
                simpa [Text.isBlank_space] using hWord ' ' hMem
              rcases Text.infix_of_infix_append_cons h hSpace with hHere | hLater
              · exact ⟨first, by simp [block], hFirst, hHere⟩
              · obtain ⟨physical, hMem, hPhysical⟩ := ih hLater
                exact ⟨physical, by simp [block, hPart, hMem], hPhysical⟩

/-- What is gathered does not begin like a comment: comments are left out, and
where a line adds only blanks, the first character comes from a line after
it. -/
theorem head?_gathered (lines : List Text) :
    (Text.trimStart (gathered lines)).head? ≠ some '#' := by
  induction lines with
  | nil => simp [gathered, Text.trimStart]
  | cons first rest ih =>
      rw [gathered]
      cases hFirst : isComment first with
      | true => exact ih
      | false =>
          have hHead : (Text.trim first).head? ≠ some '#' := by
            rw [Text.head?_trim]
            simpa [isComment] using hFirst
          rw [if_neg (by simp)]
          cases hPart : continued? first with
          | none =>
              dsimp only
              rwa [← Text.head?_trim, Text.trim_trimEnd]
          | some part =>
              obtain ⟨rfl, hTrim⟩ := kept_of_continued hPart
              dsimp only
              by_cases hBlank : Text.trimStart (kept first) = []
              · have hGap : ∀ c ∈ kept first ++ [' '], Text.isBlank c = true := by
                  simpa [or_imp, forall_and, Text.isBlank_space] using
                    Text.trimStart_eq_nil_iff.mp hBlank
                rwa [Text.trimStart_append_of_blank hGap]
              · rw [← Text.trim_trimEnd, Text.head?_trim, hTrim, Text.trimStart_append hBlank,
                  List.head?_append_of_ne_nil _ hBlank] at hHead
                rwa [List.append_assoc, Text.trimStart_append hBlank,
                  List.head?_append_of_ne_nil _ hBlank]

/-- Whether a logical line is open is carried from some lines to those after
them. -/
theorem leavesOpen_append (isOpen : Bool) (first second : List Text) :
    leavesOpen isOpen (first ++ second) = leavesOpen (leavesOpen isOpen first) second := by
  induction first generalizing isOpen with
  | nil => rfl
  | cons physical first ih => rw [List.cons_append, leavesOpen, leavesOpen, ih]

/-- A logical line goes on through comments and continued lines and covers the
line after them, whatever that is. -/
theorem mem_block_append {lines : List Text} {physical : Text} (rest : List Text)
    (h : ∀ line ∈ lines, isComment line = true ∨ (continued? line).isSome = true) :
    physical ∈ block (lines ++ physical :: rest) := by
  induction lines with
  | nil => simp [block]
  | cons line lines ih =>
      have hGoes : (isComment line || (continued? line).isSome) = true := by
        simpa using h line (by simp)
      rw [List.cons_append, block, if_pos hGoes]
      exact List.mem_cons_of_mem _ (ih fun other hOther => h other (by simp [hOther]))

/-- A logical line that is open began at some line, and went on through all
lines since. The induction is on the lines from the last one back, where the
question whether one was open before is asked again. -/
theorem exists_start_of_leavesOpen {lines : List Text} (h : leavesOpen false lines = true) :
    ∃ before first since, lines = before ++ first :: since ∧ leavesOpen false before = false ∧
      isComment first = false ∧
      ∀ line ∈ first :: since, isComment line = true ∨ (continued? line).isSome = true := by
  induction lines using List.reverseRecOn with
  | nil => simp [leavesOpen] at h
  | append_singleton lines last ih =>
      have hLast : isComment last = true ∨ (continued? last).isSome = true := by
        rw [leavesOpen_append, leavesOpen, leavesOpen] at h
        cases hComment : isComment last with
        | true => exact .inl rfl
        | false => exact .inr (by simpa [hComment] using h)
      cases hOpen : leavesOpen false lines with
      | true =>
          obtain ⟨before, first, since, rfl, hClosed, hFirst, hSince⟩ := ih hOpen
          refine ⟨before, first, since ++ [last], by simp, hClosed, hFirst, ?_⟩
          intro line hLine
          rw [← List.cons_append, List.mem_append, List.mem_singleton] at hLine
          rcases hLine with hLine | rfl
          · exact hSince line hLine
          · exact hLast
      | false =>
          -- nothing was open before, so the last line is where it began
          rw [leavesOpen_append, hOpen, leavesOpen, leavesOpen] at h
          cases hComment : isComment last with
          | true => simp [hComment] at h
          | false => exact ⟨lines, last, [], rfl, hOpen, hComment, by simpa using hLast⟩

/-- Every physical line that is no comment belongs to a logical line which
begins with a line that is none. -/
theorem exists_mem_block (before : List Text) {physical : Text} (rest : List Text)
    (hComment : isComment physical = false) :
    ∃ start first more, before ++ physical :: rest = start ++ first :: more ∧
      leavesOpen false start = false ∧ isComment first = false ∧
      physical ∈ block (first :: more) := by
  cases hOpen : leavesOpen false before with
  | false => exact ⟨before, physical, rest, rfl, hOpen, hComment, by simp [block]⟩
  | true =>
      obtain ⟨start, first, since, rfl, hClosed, hFirst, hSince⟩ := exists_start_of_leavesOpen hOpen
      refine ⟨start, first, since ++ physical :: rest, by simp, hClosed, hFirst, ?_⟩
      rw [← List.cons_append]
      exact mem_block_append rest hSince

section Source

variable {lines : List Text}

/-- The source of some lines is blank where each line is, the line feeds being
blank themselves. -/
theorem sourceOf_blank_iff :
    (∀ c ∈ sourceOf lines, Text.isBlank c = true) ↔ ∀ line ∈ lines, Text.trim line = [] := by
  have hFeed : Text.isBlank '\n' = true := by decide
  simp only [sourceOf, List.mem_flatMap, List.mem_append, List.mem_singleton, forall_exists_index,
    and_imp, Text.trim_eq_nil_iff]
  constructor
  · intro h line hLine c hc
    exact h c line hLine (.inl hc)
  · rintro h c line hLine (hc | rfl)
    · exact h line hLine c hc
    · exact hFeed

/-- Trailing lines that are blank are not part of the source, and the last line
that is part of it has no blanks at its end. -/
theorem splitAt_sourceOf_cons {first : Text} (hFeed : '\n' ∉ first) :
    Text.splitAt '\n' (Text.trimEnd (sourceOf (first :: lines))) =
      if ∀ line ∈ lines, Text.trim line = [] then [Text.trimEnd first]
      else first :: Text.splitAt '\n' (Text.trimEnd (sourceOf lines)) := by
  rw [sourceOf_cons]
  split
  · rename_i hBlank
    have hGap : ∀ c ∈ '\n' :: sourceOf lines, Text.isBlank c = true := by
      refine List.forall_mem_cons.mpr ⟨by decide, sourceOf_blank_iff.mpr hBlank⟩
    rw [Text.trimEnd_append_of_blank hGap]
    apply Text.splitAt_of_not_mem
    intro hMem
    exact hFeed ((List.rdropWhile_prefix _ _).subset hMem)
  · rename_i hText
    have hNe : Text.trimEnd (sourceOf lines) ≠ [] := by
      intro hNil
      exact hText (sourceOf_blank_iff.mp (Text.trimEnd_eq_nil_iff.mp hNil))
    have hFeedCons : '\n' :: sourceOf lines = ['\n'] ++ sourceOf lines := rfl
    rw [hFeedCons, ← List.append_assoc, Text.trimEnd_append hNe, List.append_assoc,
      List.singleton_append, Text.splitAt_append hFeed]

/-- A line that is not blank is found in the source, up to blanks at its end. -/
theorem exists_mem_splitAt {physical : Text} (hFeed : ∀ line ∈ lines, '\n' ∉ line)
    (hMem : physical ∈ lines) (hNe : Text.trim physical ≠ []) :
    ∃ line ∈ Text.splitAt '\n' (Text.trimEnd (sourceOf lines)),
      Text.trim line = Text.trim physical := by
  induction lines with
  | nil => simp at hMem
  | cons first rest ih =>
      rw [splitAt_sourceOf_cons (hFeed first (by simp))]
      split
      · rename_i hBlank
        rcases List.mem_cons.mp hMem with rfl | hMem
        · exact ⟨_, List.mem_singleton_self _, Text.trim_trimEnd physical⟩
        · exact absurd (hBlank physical hMem) hNe
      · rcases List.mem_cons.mp hMem with rfl | hMem
        · exact ⟨physical, by simp, rfl⟩
        · obtain ⟨line, hLine, hTrim⟩ := ih (fun l hl => hFeed l (by simp [hl])) hMem
          exact ⟨line, by simp [hLine], hTrim⟩

/-- The source has no lines but these, up to blanks at their ends. -/
theorem exists_mem_of_mem_splitAt {line : Text} (hFeed : ∀ line ∈ lines, '\n' ∉ line)
    (hMem : line ∈ Text.splitAt '\n' (Text.trimEnd (sourceOf lines)))
    (hNe : Text.trim line ≠ []) : ∃ physical ∈ lines, Text.trim line = Text.trim physical := by
  induction lines with
  | nil =>
      obtain rfl : line = [] := by simpa [sourceOf, Text.trimEnd, Text.splitAt] using hMem
      exact absurd rfl hNe
  | cons first rest ih =>
      rw [splitAt_sourceOf_cons (hFeed first (by simp))] at hMem
      split at hMem
      · obtain rfl := List.mem_singleton.mp hMem
        exact ⟨first, by simp, Text.trim_trimEnd first⟩
      · rcases List.mem_cons.mp hMem with rfl | hMem
        · exact ⟨line, by simp, rfl⟩
        · obtain ⟨physical, hPhysical, hTrim⟩ := ih (fun l hl => hFeed l (by simp [hl])) hMem
          exact ⟨physical, by simp [hPhysical], hTrim⟩

end Source

/-- Blanks at the ends have no part in whether a line is a comment. -/
theorem isComment_congr {line physical : Text} (h : Text.trim line = Text.trim physical) :
    isComment line = isComment physical := by
  rw [isComment, isComment, ← Text.head?_trim, ← Text.head?_trim, h]

end LogicalLine

/-- Every instruction was read from a line that holds one, so none was made
up. -/
theorem exists_mem_of_instruction {lines : List LogicalLine} {instructions : List Instruction}
    {i : Instruction} (h : instructionsOf lines = .ok instructions) (hMem : i ∈ instructions) :
    ∃ l ∈ lines, l.isIdle = false ∧ Instruction.ofLine l = .ok i := by
  induction lines generalizing instructions with
  | nil =>
      obtain rfl := Except.ok.inj h
      simp at hMem
  | cons first rest ih =>
      rcases instructionsOf_cons_eq_ok_iff.mp h with
        ⟨-, hRest⟩ | ⟨hIdle, j, others, hRead, hRest, rfl⟩
      · obtain ⟨l, hl, hOf⟩ := ih hRest hMem
        exact ⟨l, by simp [hl], hOf⟩
      · rcases List.mem_cons.mp hMem with rfl | hMem
        · exact ⟨first, by simp, hIdle, hRead⟩
        · obtain ⟨l, hl, hOf⟩ := ih hRest hMem
          exact ⟨l, by simp [hl], hOf⟩

/-- Where no logical line is open and one begins that is not blank, an
instruction was read. Its content and source are those gathered from that
place. -/
theorem exists_instruction_of_gathered {content : Text} {instructions : List Instruction}
    {before more : List Text} {first : Text} (hParse : parse content = .ok instructions)
    (hLines : Text.lines content = before ++ first :: more)
    (hClosed : LogicalLine.leavesOpen false before = false)
    (hFirst : LogicalLine.isComment first = false)
    (hNe : Text.trim (LogicalLine.gathered (first :: more)) ≠ []) :
    ∃ l, ∃ i ∈ instructions, Instruction.ofLine l = .ok i ∧
      l.content = Text.trim (LogicalLine.gathered (first :: more)) ∧
      i.source = Text.trimEnd (LogicalLine.sourceOf (LogicalLine.block (first :: more))) := by
  obtain ⟨l, hHead, -, hContent, hSource⟩ :=
    LogicalLine.head?_joinFrom_closed (1 + before.length) more hFirst
  have hMem := LogicalLine.mem_ofText_of_head? hLines hClosed hHead
  have hIdle : l.isIdle = false := by
    have hHash := LogicalLine.head?_gathered (first :: more)
    rw [← Text.head?_trim] at hHash
    rw [LogicalLine.isIdle, hContent]
    simp [hNe, hHash]
  obtain ⟨i, hi, hRead⟩ := exists_instruction_of_mem hParse hMem hIdle
  obtain ⟨word, rest, -, -, -, -, rfl⟩ := Instruction.ofLine_eq_ok_iff.mp hRead
  exact ⟨l, _, hi, hRead, hContent, hSource⟩

/-- An instruction was read from a logical line that begins with a physical line
which is no comment. Its number is that of this physical line, and its source is
the lines covered. -/
theorem exists_block_of_instruction {content : Text} {instructions : List Instruction}
    {i : Instruction} (hParse : parse content = .ok instructions) (hMem : i ∈ instructions) :
    ∃ l before first more, Text.lines content = before ++ first :: more ∧
      LogicalLine.isComment first = false ∧ Instruction.ofLine l = .ok i ∧
      i.line = 1 + before.length ∧
      l.content = Text.trim (LogicalLine.gathered (first :: more)) ∧
      i.source = Text.trimEnd (LogicalLine.sourceOf (LogicalLine.block (first :: more))) := by
  obtain ⟨l, hl, hIdle, hRead⟩ := exists_mem_of_instruction hParse hMem
  obtain ⟨before, first, more, hLines, -, hLine, hHead⟩ := LogicalLine.beginsAmong_of_mem_ofText hl
  have hFirst : LogicalLine.isComment first = false := by
    rw [← Bool.not_eq_true]
    intro hComment
    rw [LogicalLine.joinFrom_comment_closed hComment] at hHead
    have hContent : l.content = Text.trim first := by
      rw [← Option.some.inj hHead]
      simp [LogicalLine.Draft.finish, LogicalLine.Draft.add, LogicalLine.Draft.empty,
        Text.trim_trimEnd]
    have hHash : l.content.head? = some '#' := by
      rw [hContent, Text.head?_trim]
      simpa [LogicalLine.isComment] using hComment
    simp [LogicalLine.isIdle, hHash] at hIdle
  obtain ⟨l', hHead', -, hContent, hSource⟩ := LogicalLine.head?_joinFrom_closed l.line more hFirst
  obtain rfl := Option.some.inj (hHead'.symm.trans hHead)
  obtain ⟨word, rest, -, -, -, -, rfl⟩ := Instruction.ofLine_eq_ok_iff.mp hRead
  exact ⟨l', before, first, more, hLines, hFirst, hRead, hLine, hContent, hSource⟩

/-- An instruction that has a keyword was read from a word with the same capital
form. -/
theorem Instruction.upper_eq_of_is {i : Instruction} {word : Text} {keyword : String}
    (hName : i.name = Text.upper word) (h : i.is keyword = true) :
    Text.upper word = Text.upper keyword.toList := by
  rw [is, hName, Text.sameLetters_iff, Text.lower_upper, ← Text.sameLetters_iff] at h
  exact Text.sameLetters_iff_upper.mp h

/-- An instruction whose first line is not continued is a physical line of its
own. The line splits into the keyword and the rest, from which the arguments are
read. Other lines of the file may be continued. -/
theorem exists_line_of_closed_instruction {content : Text} {instructions : List Instruction}
    {i : Instruction} (hParse : parse content = .ok instructions) (hMem : i ∈ instructions)
    (hEnds : ∀ line ∈ (Text.lines content)[i.line - 1]?,
      (Text.trimEnd line).getLast? ≠ some '\\') :
    ∃ before line more word rest, Text.lines content = before ++ line :: more ∧
      i.line = 1 + before.length ∧ i.source = Text.trimEnd line ∧
      Text.trim line = word ++ rest ∧ isKeyword word = true ∧
      rest.head?.all Text.isBlank = true ∧ i.name = Text.upper word ∧
      i.args = Instruction.argumentsOf (Text.upper word) (Text.trim rest) ∧
      (Text.trim rest = [] → Instruction.mayStandAlone (Text.upper word) = true) := by
  obtain ⟨l, before, line, more, hLines, hComment, hRead, hLine, hContent, hSource⟩ :=
    exists_block_of_instruction hParse hMem
  have hAt : (Text.lines content)[i.line - 1]? = some line := by simp [hLines, hLine]
  have hEnded : LogicalLine.continued? line = none :=
    LogicalLine.continued?_eq_none_iff.mpr (hEnds line hAt)
  have hFeed : Text.isBlank '\n' = true := by decide
  rw [LogicalLine.gathered, hEnded, if_neg (by simp [hComment])] at hContent
  rw [LogicalLine.block, hEnded, if_neg (by simp [hComment]), LogicalLine.sourceOf_cons,
    Text.trimEnd_append_of_blank (by simp [LogicalLine.sourceOf, hFeed])] at hSource
  obtain ⟨word, rest, hSplit, hWord, hRest, hAlone, rfl⟩ := Instruction.ofLine_eq_ok_iff.mp hRead
  refine ⟨before, line, more, word, rest, hLines, hLine, hSource, ?_, hWord, hRest, rfl, rfl,
    hAlone⟩
  rw [← hSplit, hContent, Text.trim_trimEnd]

/-- Where no line is continued, every instruction is a physical line of its
own. -/
theorem exists_line_of_instruction {content : Text} {instructions : List Instruction}
    {i : Instruction} (hParse : parse content = .ok instructions)
    (hEnds : ∀ line ∈ Text.lines content, (Text.trimEnd line).getLast? ≠ some '\\')
    (hMem : i ∈ instructions) :
    ∃ before line more word rest, Text.lines content = before ++ line :: more ∧
      i.line = 1 + before.length ∧ i.source = Text.trimEnd line ∧
      Text.trim line = word ++ rest ∧ isKeyword word = true ∧
      rest.head?.all Text.isBlank = true ∧ i.name = Text.upper word ∧
      i.args = Instruction.argumentsOf (Text.upper word) (Text.trim rest) := by
  obtain ⟨before, line, more, word, rest, hLines, hLine, hSource, hTrim, hWord, hRest, hName,
    hArgs, -⟩ := exists_line_of_closed_instruction hParse hMem fun line hAt =>
      hEnds line (List.mem_of_getElem? hAt)
  exact ⟨before, line, more, word, rest, hLines, hLine, hSource, hTrim, hWord, hRest, hName,
    hArgs⟩

end Drydock
