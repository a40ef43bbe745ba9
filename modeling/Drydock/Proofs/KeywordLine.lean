import Drydock.Proofs.LogicalLine

/-! A line that a keyword begins. Whatever comes after the keyword, the line is
no comment and trimming reaches neither the keyword nor what stands between it
and the last character that is not blank. Where the line is all of a logical
line, the instruction on it has the arguments that are read from the trimmed
rest. -/
namespace Drydock

/-- How a line with an instruction begins: with a keyword in letters of either
case, which blanks may precede. -/
structure Opening where
  lead : Text
  keyword : Text
  isBlank_lead : ∀ c ∈ lead, Text.isBlank c = true
  isKeyword_keyword : isKeyword keyword = true

namespace Opening

/-- The line on which `rest` follows the keyword. -/
def followedBy (o : Opening) (rest : Text) : Text :=
  o.lead ++ o.keyword ++ rest

variable (o : Opening) (rest : Text)

theorem keyword_ne_nil : o.keyword ≠ [] := by
  obtain ⟨c, cs, hCons, -⟩ := exists_cons_of_isKeyword o.isKeyword_keyword
  simp [hCons]

theorem trimEnd_keyword : Text.trimEnd o.keyword = o.keyword := by
  apply Text.trimEnd_eq_self
  cases hLast : o.keyword.getLast? with
  | none => rfl
  | some c =>
      have hAlpha := isAlpha_of_isKeyword o.isKeyword_keyword c (List.mem_of_getLast? hLast)
      simp [Text.isBlank_of_isAlpha hAlpha]

/-- Trimming at the end is a matter of what follows the keyword. Where that is
blank, all of it goes, and the last letter of the keyword is reached and
left. -/
theorem trimEnd_followedBy :
    Text.trimEnd (o.followedBy rest) = o.followedBy (Text.trimEnd rest) := by
  rw [followedBy, followedBy]
  by_cases hNil : Text.trimEnd rest = []
  · have hWord : Text.trimEnd o.keyword ≠ [] := by
      rw [o.trimEnd_keyword]
      exact o.keyword_ne_nil
    rw [Text.trimEnd_append_of_blank (Text.trimEnd_eq_nil_iff.mp hNil),
      Text.trimEnd_append hWord, o.trimEnd_keyword, hNil, List.append_nil]
  · exact Text.trimEnd_append hNil

/-- Without the blanks at its ends the line is the keyword and what follows it.
This holds for a lone keyword too, with nothing after it. -/
theorem trim_followedBy : Text.trim (o.followedBy rest) = o.keyword ++ Text.trimEnd rest := by
  rw [Text.trim, ← Text.trimStart_trimEnd, o.trimEnd_followedBy, followedBy, List.append_assoc,
    Text.trimStart_append_of_blank o.isBlank_lead,
    trimStart_append_of_isKeyword o.isKeyword_keyword]

/-- The line is no comment, since its first character that is not blank is a
letter. -/
theorem isComment_followedBy : LogicalLine.isComment (o.followedBy rest) = false :=
  LogicalLine.isComment_of_trim o.isKeyword_keyword (o.trim_followedBy rest)

variable {rest}

/-- The line is continued only where what follows the keyword is. The keyword
itself is made of letters and does not end in a backslash. -/
theorem getLast?_trimEnd_followedBy (h : (Text.trimEnd rest).getLast? ≠ some '\\') :
    (Text.trimEnd (o.followedBy rest)).getLast? ≠ some '\\' := by
  rw [o.trimEnd_followedBy, followedBy]
  by_cases hNil : Text.trimEnd rest = []
  · rw [hNil, List.append_nil, List.getLast?_append_of_ne_nil _ o.keyword_ne_nil]
    intro hLast
    have hAlpha := isAlpha_of_isKeyword o.isKeyword_keyword _ (List.mem_of_getLast? hLast)
    exact absurd hAlpha (by decide)
  · rwa [List.getLast?_append_of_ne_nil _ hNil]

/-- A logical line that begins with this line, where it is not continued, holds
nothing else. The line stands at its place in the file. -/
theorem content_of_mem_ofText {content : Text} {l : LogicalLine}
    (hMem : l ∈ LogicalLine.ofText content)
    (hLine : (Text.lines content)[l.line - 1]? = some (o.followedBy rest))
    (hEnds : (Text.trimEnd (o.followedBy rest)).getLast? ≠ some '\\') :
    l.content = Text.trim (o.followedBy rest) ∧
      ∃ before after, Text.lines content = before ++ o.followedBy rest :: after := by
  obtain ⟨before, physical, after, hLines, -, hNumber, hHead⟩ :=
    LogicalLine.beginsAmong_of_mem_ofText hMem
  obtain rfl : physical = o.followedBy rest := by
    rw [hLines, hNumber, Nat.add_sub_cancel_left] at hLine
    simpa using hLine
  exact ⟨LogicalLine.content_of_closed (o.isComment_followedBy rest) hEnds hHead,
    before, after, hLines⟩

/-- A logical line with this content is not passed over when instructions are
read. -/
theorem isIdle_of_content {l : LogicalLine} (h : l.content = Text.trim (o.followedBy rest)) :
    l.isIdle = false :=
  LogicalLine.isIdle_of_isKeyword o.isKeyword_keyword (h.trans (o.trim_followedBy rest))

/-- A logical line that holds this line alone is read as an instruction with the
keyword in capitals. Its arguments are read from the trimmed rest, which only
some keywords go without. -/
theorem ofLine_of_content {l : LogicalLine} (h : l.content = Text.trim (o.followedBy rest))
    (hRest : rest.head?.all Text.isBlank = true)
    (hAlone : Text.trim rest = [] → Instruction.mayStandAlone (Text.upper o.keyword) = true) :
    Instruction.ofLine l = .ok
      { name := Text.upper o.keyword
        args := Instruction.argumentsOf (Text.upper o.keyword) (Text.trim rest)
        line := l.line
        source := l.source } := by
  have hHead : (Text.trimEnd rest).head?.all Text.isBlank = true := by
    have hPrefix : Text.trimEnd rest <+: rest := List.rdropWhile_prefix ..
    cases hCons : Text.trimEnd rest with
    | nil => rfl
    | cons c cs =>
        obtain ⟨tail, hTail⟩ := hPrefix
        rw [← hTail, hCons] at hRest
        exact hRest
  refine Instruction.ofLine_eq_ok_iff.mpr ⟨o.keyword, Text.trimEnd rest,
    h.trans (o.trim_followedBy rest), o.isKeyword_keyword, hHead, ?_, ?_⟩
  · rwa [Text.trim_trimEnd]
  · rw [Text.trim_trimEnd]

end Opening

end Drydock
