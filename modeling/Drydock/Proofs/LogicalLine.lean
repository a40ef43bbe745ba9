import Drydock.Dockerfile.Parse
import Drydock.Proofs.Text

/-! Where logical lines begin and what they hold. Between two physical lines a
logical line is either open or closed. Where it is closed, the rest of a text is
read as if it stood alone; so every logical line can be found again from the
place where it begins. -/
namespace Drydock

/-- A word is a keyword where it agrees with one of the list up to the case of
its letters. -/
theorem isKeyword_iff {word : Text} :
    isKeyword word = true ↔ ∃ k ∈ keywords, Text.sameLetters word k = true := by
  simp [isKeyword]

theorem isAlpha_of_mem_keywords : ∀ k ∈ keywords, ∀ c ∈ k, c.isAlpha = true := by
  simp [keywords]

/-- A word whose capital form is on the list is a keyword. -/
theorem isKeyword_of_upper_eq {word k : Text} (hk : k ∈ keywords) (h : Text.upper word = k) :
    isKeyword word = true := by
  refine isKeyword_iff.mpr ⟨k, hk, Text.sameLetters_iff.mpr ?_⟩
  rw [← h, Text.lower_upper]

/-- A keyword is made of letters in either case, so that no blank, sign or
backslash is a part of it. -/
theorem isAlpha_of_isKeyword {word : Text} (h : isKeyword word = true) :
    ∀ c ∈ word, c.isAlpha = true := by
  obtain ⟨k, hk, hSame⟩ := isKeyword_iff.mp h
  exact Text.isAlpha_of_sameLetters hSame (isAlpha_of_mem_keywords k hk)

theorem exists_cons_of_isKeyword {word : Text} (h : isKeyword word = true) :
    ∃ c cs, word = c :: cs ∧ c.isAlpha = true := by
  cases word with
  | nil => exact absurd h (by decide)
  | cons c cs => exact ⟨c, cs, rfl, isAlpha_of_isKeyword h c (by simp)⟩

/-- Trimming at the front stops at a keyword. -/
theorem trimStart_append_of_isKeyword {word : Text} (h : isKeyword word = true) (rest : Text) :
    Text.trimStart (word ++ rest) = word ++ rest := by
  obtain ⟨c, cs, rfl, hAlpha⟩ := exists_cons_of_isKeyword h
  exact Text.trimStart_cons_of_not_blank (Text.isBlank_of_isAlpha hAlpha) _

/-- What a keyword begins does not begin like a comment. -/
theorem head?_append_of_isKeyword {word : Text} (h : isKeyword word = true) (rest : Text) :
    (word ++ rest).head? ≠ some '#' := by
  obtain ⟨c, cs, rfl, hAlpha⟩ := exists_cons_of_isKeyword h
  intro hHead
  obtain rfl : c = '#' := by simpa using hHead
  exact absurd hAlpha (by decide)

namespace LogicalLine

/-- Whether a logical line is open after some physical lines. `isOpen` tells
whether one was open before them. A comment changes nothing. -/
def leavesOpen (isOpen : Bool) : List Text → Bool
  | [] => isOpen
  | physical :: rest =>
    leavesOpen (if isComment physical then isOpen else (continued? physical).isSome) rest

/-- What an open logical line gains from the physical lines after it. -/
def gathered : List Text → Text
  | [] => []
  | physical :: rest =>
    if isComment physical then gathered rest
    else match continued? physical with
      | some part => part ++ gathered rest
      | none => Text.trimEnd physical

/-- The physical lines that a logical line covers when it begins at the first of
these. -/
def block : List Text → List Text
  | [] => []
  | physical :: rest =>
    physical :: if isComment physical || (continued? physical).isSome then block rest else []

/-- Physical lines, each with its line feed. -/
def sourceOf (lines : List Text) : Text :=
  lines.flatMap (· ++ ['\n'])

theorem sourceOf_cons (physical : Text) (rest : List Text) :
    sourceOf (physical :: rest) = physical ++ '\n' :: sourceOf rest := by
  simp [sourceOf]

/-- A line is continued where it ends in a backslash, blanks at its end not
counted. It contributes what stands before the backslash, with a space for the
backslash itself. -/
theorem continued?_eq_some_iff {physical part : Text} :
    continued? physical = some part ↔
      ∃ kept, part = kept ++ [' '] ∧ Text.trimEnd physical = kept ++ ['\\'] := by
  rw [continued?, Text.dropLast?]
  constructor
  · intro h
    split at h
    · rename_i hLast
      refine ⟨(Text.trimEnd physical).dropLast, (Option.some.inj h).symm, ?_⟩
      exact (List.dropLast_append_getLast? _ hLast).symm
    · simp at h
  · rintro ⟨kept, rfl, hTrim⟩
    simp [hTrim]

/-- A line ends a logical line where its last character that is not blank is no
backslash. A blank line has no such character and ends it too. -/
theorem continued?_eq_none_iff {physical : Text} :
    continued? physical = none ↔ (Text.trimEnd physical).getLast? ≠ some '\\' := by
  rw [continued?, Text.dropLast?]
  split
  · rename_i hLast
    simp [hLast]
  · rename_i hLast
    simp [hLast]

section Joining

variable {n : Nat} {draft : Draft} {draft? : Option Draft} {physical part : Text}

/-- Inside a logical line a comment adds to the source and nothing to the
content, and it does not end the line. -/
theorem joinFrom_comment_open (h : isComment physical = true) (rest : List Text) :
    joinFrom n (some draft) (physical :: rest) =
      joinFrom (n + 1) (some (draft.add physical [])) rest := by
  simp [joinFrom, h]

/-- Where no logical line is open, a comment is one by itself, whether it ends
in a backslash or not. -/
theorem joinFrom_comment_closed (h : isComment physical = true) (rest : List Text) :
    joinFrom n none (physical :: rest) =
      ((Draft.empty n).add physical (Text.trimEnd physical)).finish ::
        joinFrom (n + 1) none rest := by
  simp [joinFrom, h]

/-- A continued line opens a logical line or keeps it open. -/
theorem joinFrom_continued (hComment : isComment physical = false)
    (hPart : continued? physical = some part) (rest : List Text) :
    joinFrom n draft? (physical :: rest) =
      joinFrom (n + 1) (some ((draft?.getD (Draft.empty n)).add physical part)) rest := by
  simp [joinFrom, hComment, hPart]

/-- A line that is neither a comment nor continued closes the logical line,
which it may have opened itself. -/
theorem joinFrom_ended (hComment : isComment physical = false)
    (hPart : continued? physical = none) (rest : List Text) :
    joinFrom n draft? (physical :: rest) =
      ((draft?.getD (Draft.empty n)).add physical (Text.trimEnd physical)).finish ::
        joinFrom (n + 1) none rest := by
  simp [joinFrom, hComment, hPart]

end Joining

/-- Reading goes on afresh where no logical line is open. The lines before have
their logical lines, the lines after have theirs, and only the numbers are
carried over. -/
theorem joinFrom_append {n : Nat} {draft? : Option Draft} {before : List Text}
    (rest : List Text) (h : leavesOpen draft?.isSome before = false) :
    joinFrom n draft? (before ++ rest) =
      joinFrom n draft? before ++ joinFrom (n + before.length) none rest := by
  induction before generalizing n draft? with
  | nil =>
      obtain rfl : draft? = none := by simpa [leavesOpen] using h
      rfl
  | cons physical before ih =>
      rw [leavesOpen] at h
      have hLength : n + (physical :: before).length = n + 1 + before.length := by
        simp only [List.length_cons]
        omega
      rw [List.cons_append, hLength]
      cases hComment : isComment physical with
      | true =>
          cases draft? with
          | none =>
              rw [joinFrom_comment_closed hComment, joinFrom_comment_closed hComment,
                ih (by simpa [hComment] using h), List.cons_append]
          | some draft =>
              rw [joinFrom_comment_open hComment, joinFrom_comment_open hComment,
                ih (by simpa [hComment] using h)]
      | false =>
          cases hPart : continued? physical with
          | none =>
              rw [joinFrom_ended hComment hPart, joinFrom_ended hComment hPart,
                ih (by simpa [hComment, hPart] using h), List.cons_append]
          | some part =>
              rw [joinFrom_continued hComment hPart, joinFrom_continued hComment hPart,
                ih (by simpa [hComment, hPart] using h)]

/-- An open logical line comes first, keeps its number, and ends up with all
that the lines after it add. Behind them the reading goes on afresh. -/
theorem joinFrom_open (n : Nat) (draft : Draft) (lines : List Text) :
    joinFrom n (some draft) lines =
      { line := draft.line
        content := Text.trim (draft.content ++ gathered lines)
        source := Text.trimEnd (draft.source ++ sourceOf (block lines)) } ::
        joinFrom (n + (block lines).length) none (lines.drop (block lines).length) := by
  induction lines generalizing n draft with
  | nil => simp [joinFrom, Draft.finish, gathered, block, sourceOf]
  | cons physical rest ih =>
      cases hComment : isComment physical with
      | true =>
          rw [joinFrom_comment_open hComment, ih]
          simp [Draft.add, gathered, block, sourceOf_cons, hComment, Nat.add_assoc, Nat.add_comm 1]
      | false =>
          cases hPart : continued? physical with
          | none =>
              rw [joinFrom_ended hComment hPart]
              simp [Draft.finish, Draft.add, gathered, block, sourceOf, hComment, hPart]
          | some part =>
              rw [joinFrom_continued hComment hPart, Option.getD_some, ih]
              simp [Draft.add, gathered, block, sourceOf_cons, hComment, hPart, Nat.add_assoc,
                Nat.add_comm 1]

/-- A logical line that begins with a physical line which is no comment holds
what is gathered from there, and behind the lines it covers the reading goes on
afresh. -/
theorem joinFrom_closed (n : Nat) {physical : Text} (rest : List Text)
    (hComment : isComment physical = false) :
    joinFrom n none (physical :: rest) =
      { line := n
        content := Text.trim (gathered (physical :: rest))
        source := Text.trimEnd (sourceOf (block (physical :: rest))) } ::
        joinFrom (n + (block (physical :: rest)).length) none
          ((physical :: rest).drop (block (physical :: rest)).length) := by
  -- it makes no difference whether a draft with nothing in it is open already
  have hOpen : joinFrom n none (physical :: rest) =
      joinFrom n (some (Draft.empty n)) (physical :: rest) := by
    simp [joinFrom, hComment]
  rw [hOpen, joinFrom_open]
  rfl

/-- The logical line that begins at a line which is no comment, by its three
fields. -/
theorem head?_joinFrom_closed (n : Nat) {physical : Text} (rest : List Text)
    (hComment : isComment physical = false) :
    ∃ l, (joinFrom n none (physical :: rest)).head? = some l ∧ l.line = n ∧
      l.content = Text.trim (gathered (physical :: rest)) ∧
      l.source = Text.trimEnd (sourceOf (block (physical :: rest))) := by
  rw [joinFrom_closed n rest hComment]
  exact ⟨_, rfl, rfl, rfl, rfl⟩

/-- The first logical line read afresh has the number of the first physical
line. -/
theorem line_of_head?_closed {n : Nat} {physical : Text} {rest : List Text} {l : LogicalLine}
    (h : (joinFrom n none (physical :: rest)).head? = some l) : l.line = n := by
  cases hComment : isComment physical with
  | true =>
      rw [joinFrom_comment_closed hComment] at h
      obtain rfl := Option.some.inj h
      rfl
  | false =>
      obtain ⟨first, hHead, hLine, -⟩ := head?_joinFrom_closed n rest hComment
      obtain rfl := Option.some.inj (hHead.symm.trans h)
      exact hLine

/-- The logical line begins at one of these physical lines, the first of which
has number `n`, and none is open before it. -/
def BeginsAmong (l : LogicalLine) (isOpen : Bool) (n : Nat) (lines : List Text) : Prop :=
  ∃ before physical rest, lines = before ++ physical :: rest ∧
    leavesOpen isOpen before = false ∧ l.line = n + before.length ∧
    (joinFrom l.line none (physical :: rest)).head? = some l

/-- A line more in front changes the place by one and nothing else, if it leaves
open what was open before the other lines. -/
theorem BeginsAmong.cons {l : LogicalLine} {isOpen : Bool} {n : Nat} {physical : Text}
    {lines : List Text}
    (h : l.BeginsAmong (if isComment physical then isOpen else (continued? physical).isSome)
      (n + 1) lines) :
    l.BeginsAmong isOpen n (physical :: lines) := by
  obtain ⟨before, later, rest, rfl, hClosed, hLine, hHead⟩ := h
  refine ⟨physical :: before, later, rest, rfl, hClosed, ?_, hHead⟩
  simp only [List.length_cons]
  omega

/-- A logical line was open before all lines, and then it comes first, or it
begins at one of them. The induction carries whether a line is open, and not its
draft. -/
theorem beginsAmong_of_mem {n : Nat} {draft? : Option Draft} {lines : List Text}
    {l : LogicalLine} (h : l ∈ joinFrom n draft? lines) :
    (draft?.isSome = true ∧ (joinFrom n draft? lines).head? = some l) ∨
      l.BeginsAmong draft?.isSome n lines := by
  induction lines generalizing n draft? with
  | nil =>
      cases draft? with
      | none => simp [joinFrom] at h
      | some draft =>
          obtain rfl : l = draft.finish := by simpa [joinFrom] using h
          exact .inl ⟨rfl, rfl⟩
  | cons physical rest ih =>
      -- a line that this physical line ends either was open before or begins here
      have hHere : (joinFrom n draft? (physical :: rest)).head? = some l →
          (draft?.isSome = true ∧ (joinFrom n draft? (physical :: rest)).head? = some l) ∨
            l.BeginsAmong draft?.isSome n (physical :: rest) := by
        intro hHead
        cases draft? with
        | some draft => exact .inl ⟨rfl, hHead⟩
        | none =>
            obtain hLine : l.line = n := line_of_head?_closed hHead
            exact .inr ⟨[], physical, rest, rfl, rfl, by simpa using hLine, by rwa [hLine]⟩
      cases hComment : isComment physical with
      | true =>
          cases draft? with
          | none =>
              rw [joinFrom_comment_closed hComment] at h
              rcases List.mem_cons.mp h with rfl | h
              · exact hHere (by rw [joinFrom_comment_closed hComment]; rfl)
              · rcases ih h with ⟨hNone, -⟩ | hLater
                · simp at hNone
                · exact .inr (.cons (by simpa [hComment] using hLater))
          | some draft =>
              rw [joinFrom_comment_open hComment] at h
              rcases ih h with ⟨-, hHead⟩ | hLater
              · exact hHere (by rw [joinFrom_comment_open hComment, hHead])
              · exact .inr (.cons (by simpa [hComment] using hLater))
      | false =>
          cases hPart : continued? physical with
          | none =>
              rw [joinFrom_ended hComment hPart] at h
              rcases List.mem_cons.mp h with rfl | h
              · exact hHere (by rw [joinFrom_ended hComment hPart]; rfl)
              · rcases ih h with ⟨hNone, -⟩ | hLater
                · simp at hNone
                · exact .inr (.cons (by simpa [hComment, hPart] using hLater))
          | some part =>
              rw [joinFrom_continued hComment hPart] at h
              rcases ih h with ⟨-, hHead⟩ | hLater
              · exact hHere (by rw [joinFrom_continued hComment hPart, hHead])
              · exact .inr (.cons (by simpa [hComment, hPart] using hLater))

/-- Every logical line of a text begins at a physical line before which none is
open. It is what reading from there, with nothing known of the lines before,
gives first. -/
theorem beginsAmong_of_mem_ofText {text : Text} {l : LogicalLine} (h : l ∈ ofText text) :
    l.BeginsAmong false 1 (Text.lines text) := by
  rcases beginsAmong_of_mem h with ⟨hNone, -⟩ | hBegins
  · simp at hNone
  · exact hBegins

/-- A logical line is read at every physical line before which none is open.
Together with `beginsAmong_of_mem_ofText` this says which logical lines a text
has. -/
theorem mem_ofText_of_head? {text : Text} {before rest : List Text} {l : LogicalLine}
    (hLines : Text.lines text = before ++ rest) (hClosed : leavesOpen false before = false)
    (hHead : (joinFrom (1 + before.length) none rest).head? = some l) : l ∈ ofText text := by
  have hSplit : joinFrom 1 none (before ++ rest) =
      joinFrom 1 none before ++ joinFrom (1 + before.length) none rest :=
    joinFrom_append rest hClosed
  rw [ofText, hLines, hSplit]
  exact List.mem_append_right _ (List.mem_of_mem_head? hHead)

/-- A physical line that is neither a comment nor continued is a logical line by
itself. -/
theorem content_of_closed {n : Nat} {physical : Text} {rest : List Text} {l : LogicalLine}
    (hComment : isComment physical = false)
    (hEnds : (Text.trimEnd physical).getLast? ≠ some '\\')
    (hHead : (joinFrom n none (physical :: rest)).head? = some l) :
    l.content = Text.trim physical := by
  obtain ⟨first, hFirst, -, hContent, -⟩ := head?_joinFrom_closed n rest hComment
  obtain rfl := Option.some.inj (hFirst.symm.trans hHead)
  rw [hContent, gathered, if_neg (by simp [hComment]), continued?_eq_none_iff.mpr hEnds]
  exact Text.trim_trimEnd physical

/-- A line that begins with a keyword is no comment. -/
theorem isComment_of_trim {physical word rest : Text} (hWord : isKeyword word = true)
    (hTrim : Text.trim physical = word ++ rest) : isComment physical = false := by
  rw [isComment, ← Text.head?_trim, hTrim]
  exact decide_eq_false (head?_append_of_isKeyword hWord rest)

/-- A line that begins with a keyword is not passed over. -/
theorem isIdle_of_isKeyword {word rest : Text} {l : LogicalLine} (hWord : isKeyword word = true)
    (hContent : l.content = word ++ rest) : l.isIdle = false := by
  have hHead := head?_append_of_isKeyword hWord rest
  obtain ⟨c, cs, rfl, -⟩ := exists_cons_of_isKeyword hWord
  rw [isIdle, hContent, decide_eq_false hHead]
  rfl

end LogicalLine

section Cons

variable {l : LogicalLine} {rest : List LogicalLine}

/-- Reading a line and those after it succeeds in two ways: the line holds
nothing and is passed over, or an instruction is read from it and stands before
those of the rest. -/
theorem instructionsOf_cons_eq_ok_iff {instructions : List Instruction} :
    instructionsOf (l :: rest) = .ok instructions ↔
      l.isIdle = true ∧ instructionsOf rest = .ok instructions ∨
      l.isIdle = false ∧ ∃ i others, Instruction.ofLine l = .ok i ∧
        instructionsOf rest = .ok others ∧ instructions = i :: others := by
  rw [instructionsOf]
  cases l.isIdle with
  | true => simp
  | false =>
      cases Instruction.ofLine l with
      | error e => simp
      | ok i =>
          cases instructionsOf rest with
          | error e => simp [Except.map]
          | ok others => simp [Except.map, eq_comm]

/-- Reading fails at the first line that is refused: the line itself, or one
after it when the line is passed over or read. -/
theorem instructionsOf_cons_eq_error_iff {e : ParseError} :
    instructionsOf (l :: rest) = .error e ↔
      l.isIdle = false ∧ Instruction.ofLine l = .error e ∨
      (l.isIdle = true ∨ ∃ i, Instruction.ofLine l = .ok i) ∧
        instructionsOf rest = .error e := by
  rw [instructionsOf]
  cases l.isIdle with
  | true => simp
  | false =>
      cases Instruction.ofLine l with
      | error e => simp
      | ok i =>
          cases instructionsOf rest with
          | error e => simp [Except.map]
          | ok others => simp [Except.map]

/-- A line from which an instruction is read puts it in front of the others, and
an error in the rest stays what it is. -/
theorem instructionsOf_cons_of_ok {i : Instruction} (hIdle : l.isIdle = false)
    (hRead : Instruction.ofLine l = .ok i) :
    instructionsOf (l :: rest) = (instructionsOf rest).map (i :: ·) := by
  rw [instructionsOf, hIdle, if_neg (by simp), hRead]

end Cons

/-- Reading that succeeds has read an instruction from each line that holds one,
so no line was skipped. -/
theorem exists_instruction_of_mem {lines : List LogicalLine} {instructions : List Instruction}
    {l : LogicalLine} (h : instructionsOf lines = .ok instructions) (hMem : l ∈ lines)
    (hIdle : l.isIdle = false) :
    ∃ i ∈ instructions, Instruction.ofLine l = .ok i := by
  induction lines generalizing instructions with
  | nil => simp at hMem
  | cons first rest ih =>
      rcases instructionsOf_cons_eq_ok_iff.mp h with
        ⟨hFirst, hRest⟩ | ⟨-, i, others, hRead, hRest, rfl⟩
      · rcases List.mem_cons.mp hMem with rfl | hMem
        · simp [hIdle] at hFirst
        · exact ih hRest hMem
      · rcases List.mem_cons.mp hMem with rfl | hMem
        · exact ⟨i, by simp, hRead⟩
        · obtain ⟨j, hj, hOf⟩ := ih hRest hMem
          exact ⟨j, by simp [hj], hOf⟩

namespace Instruction

/-- A word of letters with a blank or the end after it is read as the keyword.
It need not be one of the list, which is asked afterwards. -/
theorem keyword?_append {word rest : Text} (hNe : word ≠ [])
    (hAlpha : ∀ c ∈ word, c.isAlpha = true) (hRest : rest.head?.all Text.isBlank = true) :
    keyword? (word ++ rest) = some (word, Text.trim rest) := by
  have hStop : rest.takeWhile Char.isAlpha = [] ∧ rest.dropWhile Char.isAlpha = rest := by
    cases rest with
    | nil => exact ⟨rfl, rfl⟩
    | cons c cs =>
        have hBlank : Text.isBlank c = true := by simpa using hRest
        have hc : ¬ c.isAlpha = true := by
          intro hLetter
          simp [Text.isBlank_of_isAlpha hLetter] at hBlank
        exact ⟨List.takeWhile_cons_of_neg hc, List.dropWhile_cons_of_neg hc⟩
  rw [keyword?, List.takeWhile_append_of_pos hAlpha, List.dropWhile_append_of_pos hAlpha,
    hStop.1, hStop.2, List.append_nil]
  simp [hNe, hRest]

/-- The keyword is read exactly where a word of letters begins the line and a
blank or the end follows, and the arguments are the trimmed rest. -/
theorem keyword?_eq_some_iff {content word args : Text} :
    keyword? content = some (word, args) ↔
      word ≠ [] ∧ (∀ c ∈ word, c.isAlpha = true) ∧
        ∃ rest, content = word ++ rest ∧ rest.head?.all Text.isBlank = true ∧
          args = Text.trim rest := by
  constructor
  · intro h
    rw [keyword?] at h
    split at h
    · simp at h
    · rename_i hForm
      simp only [Bool.or_eq_true, List.isEmpty_iff, Bool.not_eq_true', not_or,
        Bool.not_eq_false] at hForm
      obtain ⟨rfl, rfl⟩ := Prod.mk.inj (Option.some.inj h)
      exact ⟨hForm.1, fun c hc => List.mem_takeWhile_imp hc, _,
        List.takeWhile_append_dropWhile.symm, hForm.2, rfl⟩
  · rintro ⟨hNe, hAlpha, rest, rfl, hRest, rfl⟩
    exact keyword?_append hNe hAlpha hRest

/-- A line is read as an instruction when it is a keyword and the arguments
after it, which only some keywords go without. All that later proofs need of the
reading of one line is in this equivalence. -/
theorem ofLine_eq_ok_iff {l : LogicalLine} {i : Instruction} :
    ofLine l = .ok i ↔
      ∃ word rest, l.content = word ++ rest ∧ isKeyword word = true ∧
        rest.head?.all Text.isBlank = true ∧
        (Text.trim rest = [] → mayStandAlone (Text.upper word) = true) ∧
        i = { name := Text.upper word
              args := argumentsOf (Text.upper word) (Text.trim rest)
              line := l.line
              source := l.source } := by
  constructor
  · intro h
    rw [ofLine] at h
    split at h
    · simp at h
    · rename_i word args hWord
      obtain ⟨-, -, rest, hContent, hRest, rfl⟩ := keyword?_eq_some_iff.mp hWord
      dsimp only at h
      split at h
      · simp at h
      · rename_i hKnown
        split at h
        · simp at h
        · rename_i hAlone
          refine ⟨word, rest, hContent, by simpa using hKnown, hRest, ?_, (Except.ok.inj h).symm⟩
          intro hNil
          simpa [hNil] using hAlone
  · rintro ⟨word, rest, hContent, hKnown, hRest, hAlone, rfl⟩
    obtain ⟨c, cs, rfl, -⟩ := exists_cons_of_isKeyword hKnown
    have hWord := keyword?_append (by simp) (isAlpha_of_isKeyword hKnown) hRest
    rw [ofLine, hContent, hWord]
    dsimp only
    rw [hKnown, if_neg (by simp), if_neg]
    intro h
    simp only [Bool.and_eq_true, List.isEmpty_iff] at h
    simp [hAlone h.1] at h

/-- A line from which an instruction is read begins with a keyword. -/
theorem isKeyword_of_ofLine {l : LogicalLine} {i : Instruction} (h : ofLine l = .ok i) :
    isKeyword (Text.firstRun l.content) = true := by
  obtain ⟨word, rest, hContent, hKnown, hRest, -⟩ := ofLine_eq_ok_iff.mp h
  have hWord : ∀ c ∈ word, Text.isBlank c = false :=
    fun c hc => Text.isBlank_of_isAlpha (isAlpha_of_isKeyword hKnown c hc)
  rwa [hContent, Text.firstRun_append hWord hRest]

end Instruction

end Drydock
