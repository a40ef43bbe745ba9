import Drydock.Proofs.Block

/-! Files written one after the other. Where a line feed ends the first file and
no continuation is pending, the instructions of both are those of each, with the
lines of the second counted from the end of the first. The first line that
cannot be read stays the first one. -/
namespace Drydock

theorem Text.lines_eq_nil_iff {s : Text} : lines s = [] ↔ s = [] := by
  fun_cases lines s with
  | case1 => simp
  | case2 cs => simp
  | case3 cs => simp
  | case4 c cs hFeed hReturn hNil => simp
  | case5 c cs hFeed hReturn line rest hLines => simp

/-- A text that is empty or ends in a line feed keeps its lines whatever follows
it, and those that follow keep theirs. A carriage return before the line feed
belongs to the first text. -/
theorem Text.lines_append {first : Text} (second : Text)
    (hEnd : first = [] ∨ first.getLast? = some '\n') :
    lines (first ++ second) = lines first ++ lines second := by
  -- the last character is lost from sight only where nothing is left to read
  have hTail : ∀ {c : Char} {cs : Text}, (c :: cs = [] ∨ (c :: cs).getLast? = some '\n') →
      cs = [] ∨ cs.getLast? = some '\n' := by
    intro c cs h
    cases cs with
    | nil => exact .inl rfl
    | cons d ds => exact .inr (by simpa using h)
  fun_induction lines first with
  | case1 => rfl
  | case2 cs ih => rw [List.cons_append, lines, ih (hTail hEnd), List.cons_append]
  | case3 cs ih =>
      rw [List.cons_append, List.cons_append, lines, ih (hTail (hTail hEnd)), List.cons_append]
  | case4 c cs hFeed hReturn hNil ih =>
      obtain rfl := lines_eq_nil_iff.mp hNil
      exact absurd (by simpa using hEnd) hFeed
  | case5 c cs hFeed hReturn line rest hLines ih =>
      rw [List.cons_append, lines, ih (hTail hEnd), hLines]
      · rfl
      · exact hFeed
      · intro ds hc hEq
        cases cs with
        | nil => simp [lines] at hLines
        | cons d cs =>
            obtain ⟨rfl, -⟩ := List.cons.inj hEq
            exact hReturn cs hc rfl

namespace LogicalLine

/-- The same line, `k` lines further down. -/
def shift (k : Nat) (l : LogicalLine) : LogicalLine :=
  { l with line := l.line + k }

def Draft.shift (k : Nat) (draft : Draft) : Draft :=
  { draft with line := draft.line + k }

/-- What a draft gains does not depend on its line number. -/
theorem finish_add_shift (k : Nat) (draft : Draft) (physical part : Text) :
    ((draft.shift k).add physical part).finish = ((draft.add physical part).finish).shift k :=
  rfl

theorem getD_shift (k n : Nat) (draft? : Option Draft) :
    (draft?.map (Draft.shift k)).getD (Draft.empty (n + k)) =
      (draft?.getD (Draft.empty n)).shift k := by
  cases draft? with
  | none => rfl
  | some draft => rfl

/-- Joining takes no notice of line numbers but to count them on. So the logical
lines of a text further down are the same, each with its number raised. -/
theorem joinFrom_shift (k n : Nat) (draft? : Option Draft) (lines : List Text) :
    joinFrom (n + k) (draft?.map (Draft.shift k)) lines =
      (joinFrom n draft? lines).map (shift k) := by
  induction lines generalizing n draft? with
  | nil =>
      cases draft? with
      | none => rfl
      | some draft => rfl
  | cons physical rest ih =>
      have hNumber : n + k + 1 = n + 1 + k := by omega
      cases hComment : isComment physical with
      | true =>
          cases draft? with
          | none =>
              rw [joinFrom_comment_closed hComment, Option.map_none,
                joinFrom_comment_closed hComment, hNumber, List.map_cons, ← ih]
              rfl
          | some draft =>
              rw [joinFrom_comment_open hComment, Option.map_some, joinFrom_comment_open hComment,
                hNumber, ← ih]
              rfl
      | false =>
          cases hPart : continued? physical with
          | none =>
              rw [joinFrom_ended hComment hPart, joinFrom_ended hComment hPart, getD_shift,
                finish_add_shift, hNumber, List.map_cons, ← ih]
              rfl
          | some part =>
              rw [joinFrom_continued hComment hPart, joinFrom_continued hComment hPart, getD_shift,
                hNumber, ← ih]
              rfl

/-- The last physical line is continued, or comments alone come after one that
is. -/
def EndsPending (lines : List Text) : Prop :=
  ∃ before physical comments, lines = before ++ physical :: comments ∧
    isComment physical = false ∧ (Text.trimEnd physical).getLast? = some '\\' ∧
    ∀ line ∈ comments, isComment line = true

/-- Comments neither open nor close a logical line. -/
theorem leavesOpen_comments (isOpen : Bool) {comments : List Text}
    (h : ∀ line ∈ comments, isComment line = true) : leavesOpen isOpen comments = isOpen := by
  induction comments with
  | nil => rfl
  | cons line comments ih =>
      rw [leavesOpen, if_pos (h line (by simp))]
      exact ih fun other hOther => h other (by simp [hOther])

theorem isSome_continued?_iff {physical : Text} :
    (continued? physical).isSome = true ↔ (Text.trimEnd physical).getLast? = some '\\' := by
  rw [Option.isSome_iff_ne_none, Ne, continued?_eq_none_iff, not_not]

/-- What is left open after some lines can be told from the last of them that is
no comment: it ends in a backslash. -/
theorem leavesOpen_iff_endsPending {lines : List Text} :
    leavesOpen false lines = true ↔ EndsPending lines := by
  constructor
  · intro h
    induction lines using List.reverseRecOn with
    | nil => simp [leavesOpen] at h
    | append_singleton lines last ih =>
        rw [leavesOpen_append, leavesOpen, leavesOpen] at h
        cases hComment : isComment last with
        | true =>
            rw [if_pos hComment] at h
            obtain ⟨before, physical, comments, rfl, hPhysical, hEnds, hComments⟩ := ih h
            refine ⟨before, physical, comments ++ [last], by simp, hPhysical, hEnds, ?_⟩
            intro line hLine
            rcases List.mem_append.mp hLine with hLine | hLine
            · exact hComments line hLine
            · rwa [List.mem_singleton.mp hLine]
        | false =>
            rw [if_neg (by simp [hComment]), isSome_continued?_iff] at h
            exact ⟨lines, last, [], rfl, hComment, h, by simp⟩
  · rintro ⟨before, physical, comments, rfl, hPhysical, hEnds, hComments⟩
    rw [leavesOpen_append, leavesOpen, leavesOpen_comments _ hComments,
      if_neg (by simp [hPhysical]), isSome_continued?_iff]
    exact hEnds

/-- The logical lines of two texts, one after the other, are those of the first
and those of the second further down. The first may not end inside a logical
line. -/
theorem ofText_append {first : Text} (second : Text)
    (hEnd : first = [] ∨ first.getLast? = some '\n' ∧ ¬ EndsPending (Text.lines first)) :
    ofText (first ++ second) =
      ofText first ++ (ofText second).map (shift (Text.lines first).length) := by
  have hClosed : leavesOpen false (Text.lines first) = false := by
    rw [← Bool.not_eq_true, leavesOpen_iff_endsPending]
    rcases hEnd with rfl | ⟨-, hNone⟩
    · rintro ⟨before, physical, comments, hLines, -⟩
      simp [Text.lines] at hLines
    · exact hNone
  have hJoin : joinFrom 1 none (Text.lines first ++ Text.lines second) =
      joinFrom 1 none (Text.lines first) ++
        joinFrom (1 + (Text.lines first).length) none (Text.lines second) :=
    joinFrom_append _ hClosed
  rw [ofText, Text.lines_append second (hEnd.imp_right And.left), hJoin, ofText, ofText,
    ← joinFrom_shift]
  rfl

end LogicalLine

def Instruction.shift (k : Nat) (i : Instruction) : Instruction :=
  { i with line := i.line + k }

def ParseError.shift (k : Nat) (e : ParseError) : ParseError :=
  { e with line := e.line + k }

/-- A line further down is read like the line itself. Only the line number of
the instruction, or of the error, is another. -/
theorem Instruction.ofLine_shift (k : Nat) (l : LogicalLine) :
    ofLine (l.shift k) = ((ofLine l).map (shift k)).mapError (ParseError.shift k) := by
  have hContent : (l.shift k).content = l.content := rfl
  rw [ofLine, ofLine, hContent]
  cases keyword? l.content with
  | none => rfl
  | some pair =>
      obtain ⟨word, rest⟩ := pair
      dsimp only
      split
      · rfl
      · split
        · rfl
        · rfl

/-- Lines further down are read alike, and the first error is the same one at
its new place. -/
theorem instructionsOf_shift (k : Nat) (lines : List LogicalLine) :
    instructionsOf (lines.map (LogicalLine.shift k)) =
      ((instructionsOf lines).map (List.map (Instruction.shift k))).mapError
        (ParseError.shift k) := by
  induction lines with
  | nil => rfl
  | cons l rest ih =>
      have hIdle : (l.shift k).isIdle = l.isIdle := rfl
      rw [List.map_cons, instructionsOf, instructionsOf, hIdle, ih, Instruction.ofLine_shift]
      split
      · rfl
      · cases Instruction.ofLine l with
        | error e => rfl
        | ok i =>
            cases instructionsOf rest with
            | error e => rfl
            | ok others => rfl

/-- Reading stops at the first line that is refused, and goes on where the lines
before are all read. -/
theorem instructionsOf_append (first second : List LogicalLine) :
    instructionsOf (first ++ second) =
      (instructionsOf first).bind fun instructions =>
        (instructionsOf second).map (instructions ++ ·) := by
  induction first with
  | nil =>
      cases hSecond : instructionsOf second with
      | error e => simp [instructionsOf, hSecond, Except.bind, Except.map]
      | ok others => simp [instructionsOf, hSecond, Except.bind, Except.map]
  | cons l rest ih =>
      rw [List.cons_append, instructionsOf, instructionsOf, ih]
      split
      · rfl
      · cases Instruction.ofLine l with
        | error e => rfl
        | ok i =>
            cases instructionsOf rest with
            | error e => rfl
            | ok read =>
                cases instructionsOf second with
                | error e => rfl
                | ok others => rfl

/-- Two files in one are read as each is by itself. What is read of the second,
and an error in it, moves down by the number of lines of the first; an error in
the first hides the second. -/
theorem parse_append_of_not_endsPending {first : Text} (second : Text)
    (hEnd : first = [] ∨
      first.getLast? = some '\n' ∧ ¬ LogicalLine.EndsPending (Text.lines first)) :
    (∀ before after, parse first = .ok before → parse second = .ok after →
      parse (first ++ second) =
        .ok (before ++ after.map (Instruction.shift (Text.lines first).length))) ∧
    (∀ before e, parse first = .ok before → parse second = .error e →
      parse (first ++ second) = .error (e.shift (Text.lines first).length)) ∧
    (∀ e, parse first = .error e → parse (first ++ second) = .error e) := by
  have hBoth : parse (first ++ second) =
      (parse first).bind fun before =>
        (((parse second).map
          (List.map (Instruction.shift (Text.lines first).length))).mapError
            (ParseError.shift (Text.lines first).length)).map (before ++ ·) := by
    rw [parse, LogicalLine.ofText_append second hEnd, instructionsOf_append,
      instructionsOf_shift]
    rfl
  refine ⟨?_, ?_, ?_⟩
  · intro before after hFirst hSecond
    rw [hBoth, hFirst, hSecond]
    rfl
  · intro before e hFirst hSecond
    rw [hBoth, hFirst, hSecond]
    rfl
  · intro e hFirst
    rw [hBoth, hFirst]
    rfl

/-- A file whose last instruction goes on after a comment. -/
def commentedRun : Text :=
  "FROM a:1\nRUN b \\\n# note\n c\n".toList

def commentedInstructions : List Instruction :=
  [⟨"FROM".toList, .text "a:1".toList, 1, "FROM a:1".toList⟩,
    ⟨"RUN".toList, .text "b   c".toList, 2, "RUN b \\\n# note\n c".toList⟩]

set_option maxRecDepth 4000 in
/-- A comment and a backslash before it do not stand in the way, as long as the
last line ends the instruction. Below stand a file that is read, one with an
error, and one whose error comes first. -/
theorem parse_commentedRun_append :
    ¬ LogicalLine.EndsPending (Text.lines commentedRun) ∧
    parse (commentedRun ++ "\nuser d".toList) = .ok
      (commentedInstructions ++
        [⟨"USER".toList, .text "d".toList, 6, "user d".toList⟩]) ∧
    parse (commentedRun ++ "\nuser d\nUSER\n".toList) =
      .error ⟨.missingArguments "USER".toList, 7⟩ ∧
    parse (commentedRun ++ "USER\n".toList ++ commentedRun) =
      .error ⟨.missingArguments "USER".toList, 5⟩ := by
  have hEnd : commentedRun.getLast? = some '\n' := by decide
  have hPending : ¬ LogicalLine.EndsPending (Text.lines commentedRun) := by
    rw [← LogicalLine.leavesOpen_iff_endsPending]
    decide
  have hFirst : parse commentedRun = .ok commentedInstructions := by decide +kernel
  have hSecond : parse "\nuser d".toList =
      .ok [⟨"USER".toList, .text "d".toList, 2, "user d".toList⟩] := by decide +kernel
  have hBroken : parse "\nuser d\nUSER\n".toList =
      .error ⟨.missingArguments "USER".toList, 3⟩ := by decide +kernel
  have hBoth : parse (commentedRun ++ "USER\n".toList) =
      .error ⟨.missingArguments "USER".toList, 5⟩ := by decide +kernel
  refine ⟨hPending, ?_, ?_, ?_⟩
  · exact (parse_append_of_not_endsPending _ (.inr ⟨hEnd, hPending⟩)).1 _ _ hFirst hSecond
  · exact (parse_append_of_not_endsPending _ (.inr ⟨hEnd, hPending⟩)).2.1 _ _ hFirst hBroken
  · refine (parse_append_of_not_endsPending _ (.inr ⟨by decide, ?_⟩)).2.2 _ hBoth
    rw [← LogicalLine.leavesOpen_iff_endsPending]
    decide

end Drydock
