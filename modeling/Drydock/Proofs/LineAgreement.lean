import Drydock.Proofs.KeywordOrder

/-! The first check beside reading, on files without continued lines and
here-documents. The check takes the characters up to the first blank for the
keyword, and reading takes a run of letters that a blank or the end has to
follow. They refuse the same lines for it. -/
namespace Drydock

namespace Instruction

/-- Where the first word is a keyword, reading finds it and leaves what
follows. -/
theorem exists_keyword?_of_isKeyword {content : Text}
    (h : isKeyword (Text.firstRun content) = true) :
    ∃ rest, keyword? content = some (Text.firstRun content, rest) := by
  obtain ⟨c, cs, hWord, -⟩ := exists_cons_of_isKeyword h
  have hSplit : Text.firstRun content ++ content.dropWhile (!Text.isBlank ·) = content :=
    List.takeWhile_append_dropWhile
  have hRest : (content.dropWhile (!Text.isBlank ·)).head?.all Text.isBlank = true := by
    simpa using Text.all_head?_dropWhile (!Text.isBlank ·) content
  have hRead := keyword?_append (by simp [hWord]) (isAlpha_of_isKeyword h) hRest
  rw [hSplit] at hRead
  exact ⟨_, hRead⟩

end Instruction

/-- Reading fails at a line that holds something and is refused. -/
theorem exists_refused_of_instructionsOf {lines : List LogicalLine} {e : ParseError}
    (h : instructionsOf lines = .error e) :
    ∃ l ∈ lines, l.isIdle = false ∧ Instruction.ofLine l = .error e := by
  induction lines with
  | nil => simp [instructionsOf] at h
  | cons first rest ih =>
      rcases instructionsOf_cons_eq_error_iff.mp h with ⟨hIdle, hRead⟩ | ⟨-, hRest⟩
      · exact ⟨first, by simp, hIdle, hRead⟩
      · obtain ⟨l, hl, hRefused⟩ := ih hRest
        exact ⟨l, by simp [hl], hRefused⟩

namespace LogicalLine

/-- Reading passes over the same plain lines as the check. -/
theorem isIdle_eq_not_isActive {l : LogicalLine} {physical : Text}
    (h : l.content = Text.trim physical) : l.isIdle = !Precheck.isActive physical := by
  rw [isIdle, Precheck.isActive, h, Bool.not_and, Bool.not_not, bne, Bool.not_not,
    Bool.beq_eq_decide_eq]

end LogicalLine

/-- Where no line is continued, a logical line is a physical one without the
blanks around it, and it has that line's number. -/
theorem LogicalLine.exists_line_of_mem {content : Text} {l : LogicalLine}
    (hEnds : ∀ line ∈ Text.lines content, continued? line = none) (hMem : l ∈ ofText content) :
    ∃ before physical rest, Text.lines content = before ++ physical :: rest ∧
      l.line = 1 + before.length ∧ l.content = Text.trim physical := by
  obtain ⟨before, physical, rest, hLines, -, hNumber, hHead⟩ := beginsAmong_of_mem_ofText hMem
  have hEnd := hEnds physical (by simp [hLines])
  refine ⟨before, physical, rest, hLines, hNumber, ?_⟩
  cases hComment : isComment physical with
  | false => exact content_of_closed hComment (continued?_eq_none_iff.mp hEnd) hHead
  | true =>
      rw [joinFrom_comment_closed hComment] at hHead
      rw [← Option.some.inj hHead]
      exact Text.trim_trimEnd physical

namespace Precheck

end Precheck

end Drydock
