import Drydock.Proofs.Block

/-! The division of a text into logical lines. The physical lines fall into
consecutive blocks, one for each logical line: a comment by itself, or the lines
from one that is no comment up to the first that neither is a comment nor goes
on. Read by line numbers instead of from a list, the same logical lines come out
and no number lies behind the last line. -/
namespace Drydock.LogicalLine

/-- What a physical line adds to the content: its text up to the blanks at its
end, with a space in place of a last backslash. -/
def addition (physical : Text) : Text :=
  if (Text.trimEnd physical).getLast? = some '\\' then (Text.trimEnd physical).dropLast ++ [' ']
  else Text.trimEnd physical

/-- Whether a physical line ends the logical line that it belongs to. -/
def ends (physical : Text) : Bool :=
  !isComment physical && (Text.trimEnd physical).getLast? != some '\\'

/-- What the physical lines that are no comments add to the content. -/
def contentOf (lines : List Text) : Text :=
  (lines.filter (!isComment ·)).flatMap addition

section Content

variable {physical part : Text} {lines : List Text}

theorem contentOf_comment (h : isComment physical = true) :
    contentOf (physical :: lines) = contentOf lines := by
  simp [contentOf, h]

/-- A continued line adds its text with a space for the backslash. -/
theorem contentOf_continued (hComment : isComment physical = false)
    (hPart : continued? physical = some part) :
    contentOf (physical :: lines) = part ++ contentOf lines := by
  obtain ⟨kept, rfl, hTrim⟩ := continued?_eq_some_iff.mp hPart
  simp [contentOf, hComment, addition, hTrim]

/-- A line that is not continued adds its text without the blanks at its end. -/
theorem contentOf_ended (hComment : isComment physical = false)
    (hPart : continued? physical = none) :
    contentOf (physical :: lines) = Text.trimEnd physical ++ contentOf lines := by
  have hLast := continued?_eq_none_iff.mp hPart
  simp [contentOf, hComment, addition, hLast]

/-- A line ends its logical line exactly where joining closes it there. -/
theorem ends_eq : ends physical = !(isComment physical || (continued? physical).isSome) := by
  cases hPart : continued? physical with
  | none => simp [ends, continued?_eq_none_iff.mp hPart]
  | some part =>
      obtain ⟨kept, -, hTrim⟩ := continued?_eq_some_iff.mp hPart
      simp [ends, hTrim]

end Content

/-- Lines that one logical line goes through: only the last may end it, and does
unless nothing comes after. -/
structure GoesThrough (lines : List Text) (atEnd : Prop) : Prop where
  goesOn : ∀ physical ∈ lines.dropLast, ends physical = false
  stops : (∃ last ∈ lines.getLast?, ends last = true) ∨ atEnd

namespace GoesThrough

variable {lines : List Text} {atEnd : Prop}

theorem imp {later : Prop} (h : GoesThrough lines atEnd) (hImp : atEnd → later) :
    GoesThrough lines later :=
  ⟨h.goesOn, h.stops.imp_right hImp⟩

theorem cons {physical : Text} (h : GoesThrough lines atEnd) (hOn : ends physical = false) :
    GoesThrough (physical :: lines) atEnd := by
  cases lines with
  | nil =>
      refine ⟨by simp, .inr ?_⟩
      simpa using h.stops
  | cons second rest =>
      refine ⟨?_, ?_⟩
      · rw [List.dropLast_cons_of_ne_nil (by simp), List.forall_mem_cons]
        exact ⟨hOn, h.goesOn⟩
      · simpa [List.getLast?_cons_cons] using h.stops

theorem singleton {physical : Text} (h : ends physical = true) : GoesThrough [physical] atEnd :=
  ⟨by simp, .inl ⟨physical, rfl, h⟩⟩

end GoesThrough

/-- A logical line goes through its block, and its content is what the block
adds. The block ends before the text does only where a line ends the logical
line. -/
theorem goesThrough_block (lines : List Text) :
    GoesThrough (block lines) (lines.drop (block lines).length = []) ∧
      gathered lines = contentOf (block lines) := by
  induction lines with
  | nil => exact ⟨⟨by simp [block], .inr rfl⟩, rfl⟩
  | cons physical rest ih =>
      obtain ⟨hThrough, hGathered⟩ := ih
      rw [gathered, block]
      cases hComment : isComment physical with
      | true =>
          rw [if_pos rfl, Bool.true_or, if_pos rfl, contentOf_comment hComment]
          exact ⟨hThrough.cons (by simp [ends, hComment]), hGathered⟩
      | false =>
          cases hPart : continued? physical with
          | none =>
              rw [if_neg (by simp), if_neg (by simp), contentOf_ended hComment hPart]
              exact ⟨.singleton (by simp [ends_eq, hComment, hPart]), by simp [contentOf]⟩
          | some part =>
              refine ⟨hThrough.cons (by simp [ends_eq, hPart]), ?_⟩
              simp [contentOf_continued hComment hPart, hGathered]

/-- Lines that a logical line goes through are its block. Whether the last of
them ends it makes no difference, as nothing comes after. -/
theorem block_eq_self {lines : List Text} (h : ∀ physical ∈ lines.dropLast, ends physical = false) :
    block lines = lines := by
  induction lines with
  | nil => rfl
  | cons physical rest ih =>
      cases rest with
      | nil => simp [block]
      | cons second rest =>
          rw [List.dropLast_cons_of_ne_nil (by simp), List.forall_mem_cons] at h
          obtain ⟨hOn, hRest⟩ := h
          rw [ends_eq, Bool.not_eq_false'] at hOn
          rw [block, if_pos hOn, ih hRest]

def IsRemark (b : List Text) : Prop :=
  ∃ comment, b = [comment] ∧ isComment comment = true

/-- A block that begins with a line which is no comment and reaches to the first
line that ends the logical line, or to the end of the text. -/
structure IsJoined (b : List Text) (atEnd : Prop) : Prop extends GoesThrough b atEnd where
  begins : ∃ first more, b = first :: more ∧ isComment first = false

/-- The logical line that a block of physical lines makes up. -/
structure Covers (l : LogicalLine) (b : List Text) (atEnd : Prop) : Prop where
  source_eq : l.source = Text.trimEnd (Text.join ['\n'] b)
  kind : (∃ comment, b = [comment] ∧ isComment comment = true ∧ l.content = Text.trim comment) ∨
    (IsJoined b atEnd ∧ l.content = Text.trim (contentOf b))

/-- The source of some lines is the lines joined by line feeds, with one more at
the end. -/
theorem sourceOf_eq_join {b : List Text} (h : b ≠ []) :
    sourceOf b = Text.join ['\n'] b ++ ['\n'] := by
  induction b with
  | nil => exact absurd rfl h
  | cons physical rest ih =>
      cases rest with
      | nil => simp [sourceOf, Text.join]
      | cons second rest =>
          rw [sourceOf_cons, ih (by simp), Text.join]
          simp

/-- The line feed at the end of the source goes with the trimming. -/
theorem trimEnd_sourceOf {b : List Text} (h : b ≠ []) :
    Text.trimEnd (sourceOf b) = Text.trimEnd (Text.join ['\n'] b) := by
  have hFeed : Text.isBlank '\n' = true := by decide
  rw [sourceOf_eq_join h, Text.trimEnd_append_of_blank (by simp [hFeed])]

namespace Covers

variable {l : LogicalLine} {b : List Text} {atEnd : Prop}

theorem imp {later : Prop} (h : Covers l b atEnd) (hImp : atEnd → later) : Covers l b later := by
  refine ⟨h.source_eq, h.kind.imp_right ?_⟩
  rintro ⟨hJoined, hContent⟩
  exact ⟨⟨hJoined.imp hImp, hJoined.begins⟩, hContent⟩

theorem ne_nil (h : Covers l b atEnd) : b ≠ [] := by
  rcases h.kind with ⟨comment, rfl, -⟩ | ⟨⟨-, first, more, rfl, -⟩, -⟩
  · simp
  · simp

/-- Only a comment is taken for one. What is joined from several lines does not
begin with the sign of a comment, even if a line in the middle does. -/
theorem isRemark (h : Covers l b atEnd) (hHash : l.content.head? = some '#') : IsRemark b := by
  rcases h.kind with ⟨comment, hBlock, hComment, -⟩ | ⟨hJoined, hContent⟩
  · exact ⟨comment, hBlock, hComment⟩
  · have hHead := head?_gathered b
    rw [(goesThrough_block b).2, block_eq_self hJoined.goesOn, ← Text.head?_trim, ← hContent]
      at hHead
    exact absurd hHash hHead

/-- A logical line holds nothing to be read where it is blank or a comment by
itself. -/
theorem isIdle_iff (h : Covers l b atEnd) : l.isIdle = true ↔ l.content = [] ∨ IsRemark b := by
  rw [isIdle, Bool.or_eq_true, List.isEmpty_iff, decide_eq_true_iff]
  constructor
  · rintro (hNil | hHash)
    · exact .inl hNil
    · exact .inr (h.isRemark hHash)
  · rintro (hNil | ⟨comment, rfl, hComment⟩)
    · exact .inl hNil
    · rcases h.kind with ⟨same, hSame, -, hContent⟩ | ⟨hJoined, -⟩
      · obtain ⟨rfl, -⟩ := List.cons.inj hSame
        refine .inr ?_
        rw [hContent, Text.head?_trim]
        simpa [isComment] using hComment
      · obtain ⟨first, more, hCons, hFirst⟩ := hJoined.begins
        obtain ⟨rfl, -⟩ := List.cons.inj hCons
        simp [hComment] at hFirst

end Covers

/-- Where no logical line is open, the next block makes up the first logical
line, and the reading goes on afresh behind it. -/
theorem joinFrom_closed_eq (n : Nat) {lines : List Text} (hNe : lines ≠ []) :
    ∃ l b rest, lines = b ++ rest ∧ l.line = n ∧ Covers l b (rest = []) ∧
      joinFrom n none lines = l :: joinFrom (n + b.length) none rest := by
  obtain ⟨physical, lines, rfl⟩ := List.exists_cons_of_ne_nil hNe
  cases hComment : isComment physical with
  | true =>
      have hFeed : Text.isBlank '\n' = true := by decide
      refine ⟨_, [physical], lines, rfl, rfl, ⟨?_, .inl ⟨physical, rfl, hComment, ?_⟩⟩,
        joinFrom_comment_closed hComment lines⟩
      · simp [Draft.finish, Draft.add, Draft.empty, Text.join, Text.trimEnd_append_of_blank, hFeed]
      · simp [Draft.finish, Draft.add, Draft.empty, Text.trim_trimEnd]
  | false =>
      obtain ⟨hThrough, hGathered⟩ := goesThrough_block (physical :: lines)
      have hSplit := List.prefix_iff_eq_append.mp (isPrefix_block (physical :: lines))
      refine ⟨_, block (physical :: lines), _, hSplit.symm, rfl, ⟨?_, .inr ⟨⟨hThrough, ?_⟩, ?_⟩⟩,
        joinFrom_closed n lines hComment⟩
      · exact trimEnd_sourceOf (by simp [block])
      · exact ⟨physical, _, rfl, hComment⟩
      · exact congrArg Text.trim hGathered

/-- Blocks of physical lines, the first of which has number `n`, and the logical
lines that they make up one by one. -/
inductive Division : Nat → List (List Text) → List LogicalLine → Prop where
  | nil {n : Nat} : Division n [] []
  | cons {n : Nat} {b : List Text} {l : LogicalLine} {blocks : List (List Text)}
      {logical : List LogicalLine} (hLine : l.line = n) (hCovers : Covers l b (blocks = []))
      (hRest : Division (n + b.length) blocks logical) : Division n (b :: blocks) (l :: logical)

namespace Division

variable {n : Nat} {blocks : List (List Text)} {logical : List LogicalLine}

theorem length_eq (h : Division n blocks logical) : blocks.length = logical.length := by
  induction h with
  | nil => rfl
  | cons _ _ _ ih => simp [ih]

/-- No block is empty, so every logical line covers at least one physical
line. -/
theorem nil_notMem (h : Division n blocks logical) : [] ∉ blocks := by
  induction h with
  | nil => simp
  | cons _ hCovers _ ih => simp [hCovers.ne_nil.symm, ih]

theorem eq_nil (h : Division n blocks logical) (hFlatten : blocks.flatten = []) : blocks = [] := by
  cases h with
  | nil => rfl
  | cons _ hCovers _ => exact absurd (List.append_eq_nil_iff.mp hFlatten).1 hCovers.ne_nil

/-- The logical line at a place is made up by the block at this place, and
numbered by the lines of the blocks before. -/
theorem covers_getElem? (h : Division n blocks logical) {j : Nat} {b : List Text}
    (hBlock : blocks[j]? = some b) :
    ∃ l, logical[j]? = some l ∧ l.line = n + (blocks.take j).flatten.length ∧
      Covers l b (j + 1 = blocks.length) := by
  induction h generalizing j with
  | nil => simp at hBlock
  | @cons n first l blocks logical hLine hCovers hRest ih =>
      cases j with
      | zero =>
          obtain rfl : first = b := by simpa using hBlock
          refine ⟨l, rfl, by simpa using hLine, hCovers.imp ?_⟩
          rintro rfl
          rfl
      | succ j =>
          obtain ⟨m, hm, hNumber, hCovers⟩ := ih (by simpa using hBlock)
          refine ⟨m, by simpa using hm, ?_, hCovers.imp ?_⟩
          · rw [hNumber, List.take_succ_cons, List.flatten_cons, List.length_append]
            omega
          · intro hLast
            simpa using hLast

end Division

/-- Physical lines fall into blocks that make up the logical lines, whatever
their number. The induction is on the number of lines, since a block may take
more than one. -/
theorem exists_division (n : Nat) (lines : List Text) :
    ∃ blocks, blocks.flatten = lines ∧ Division n blocks (joinFrom n none lines) := by
  induction hLength : lines.length using Nat.strong_induction_on generalizing n lines with
  | _ length ih =>
      by_cases hNe : lines = []
      · subst hNe
        exact ⟨[], rfl, .nil⟩
      · obtain ⟨l, b, rest, rfl, hLine, hCovers, hJoin⟩ := joinFrom_closed_eq n hNe
        have hShorter : rest.length < length := by
          have hPos := List.length_pos_of_ne_nil hCovers.ne_nil
          rw [← hLength, List.length_append]
          omega
        obtain ⟨blocks, rfl, hRest⟩ := ih rest.length hShorter (n + b.length) rest rfl
        rw [hJoin]
        exact ⟨b :: blocks, rfl, .cons hLine (hCovers.imp hRest.eq_nil) hRest⟩

section ByNumber

/-- Take in physical lines from number `i` on, counted from zero, until one ends
the logical line. The result has the number behind them; there is none where a
line that is not there is asked for. -/
def gatherAt? (lines : List Text) (i : Nat) (draft : Draft) : Option (Draft × Nat) :=
  match lines[i]? with
  | none => none
  | some physical =>
    if isComment physical then
      if draft.content.isEmpty then some (draft.add physical (Text.trimEnd physical), i + 1)
      else if lines.length ≤ i + 1 then some (draft.add physical [], i + 1)
      else gatherAt? lines (i + 1) (draft.add physical [])
    else
      match continued? physical with
      | none => some (draft.add physical (Text.trimEnd physical), i + 1)
      | some part =>
        if lines.length ≤ i + 1 then some (draft.add physical part, i + 1)
        else gatherAt? lines (i + 1) (draft.add physical part)
termination_by lines.length - i

/-- At least one line is taken in, so the reading by number comes to an end. -/
theorem lt_of_gatherAt? {lines : List Text} {i next : Nat} {draft result : Draft}
    (h : gatherAt? lines i draft = some (result, next)) : i < next := by
  fun_induction gatherAt? lines i draft with
  | case1 => simp at h
  | case4 _ _ _ _ _ _ _ ih => exact Nat.lt_of_succ_lt (ih h)
  | case7 _ _ _ _ _ _ _ _ ih => exact Nat.lt_of_succ_lt (ih h)
  | _ =>
      obtain ⟨-, rfl⟩ := Prod.mk.inj (Option.some.inj h)
      exact Nat.lt_succ_self _

def joinAt? (lines : List Text) (i : Nat) : Option (List LogicalLine) :=
  if i < lines.length then
    match hGather : gatherAt? lines i (Draft.empty (i + 1)) with
    | none => none
    | some (draft, next) =>
      have := lt_of_gatherAt? hGather
      (joinAt? lines next).map (draft.finish :: ·)
  else some []
termination_by lines.length - i

/-- Reading by number takes the same block and leaves the same draft. A draft is
empty exactly where no logical line is open. -/
theorem gatherAt?_append (before : List Text) {lines : List Text} (hNe : lines ≠ []) (n : Nat)
    (draft? : Option Draft) (hDraft : ∀ draft ∈ draft?, draft.content ≠ []) :
    ∃ result b rest, lines = b ++ rest ∧
      gatherAt? (before ++ lines) before.length (draft?.getD (Draft.empty n)) =
        some (result, before.length + b.length) ∧
      joinFrom n draft? lines = result.finish :: joinFrom (n + b.length) none rest := by
  induction lines generalizing before n draft? with
  | nil => exact absurd rfl hNe
  | cons physical lines ih =>
      have hAt : (before ++ physical :: lines)[before.length]? = some physical := by simp
      -- a line that does not end the logical line is followed by what the others add, if any
      have hOn : ∀ draft : Draft, draft.content ≠ [] →
          joinFrom n draft? (physical :: lines) = joinFrom (n + 1) (some draft) lines →
          ∃ result b rest, physical :: lines = b ++ rest ∧
            (if (before ++ physical :: lines).length ≤ before.length + 1 then
              some (draft, before.length + 1)
            else gatherAt? (before ++ physical :: lines) (before.length + 1) draft) =
              some (result, before.length + b.length) ∧
            joinFrom n draft? (physical :: lines) =
              result.finish :: joinFrom (n + b.length) none rest := by
        intro draft hContent hJoin
        by_cases hLast : lines = []
        · subst hLast
          exact ⟨draft, [physical], [], rfl, by simp, hJoin⟩
        · obtain ⟨result, b, rest, rfl, hGather, hRest⟩ :=
            ih (before ++ [physical]) hLast (n + 1) (some draft) (by simpa using hContent)
          refine ⟨result, physical :: b, rest, rfl, ?_, ?_⟩
          · have hPos := List.length_pos_of_ne_nil hLast
            rw [if_neg (by simp only [List.length_append, List.length_cons] at hPos ⊢; omega)]
            simpa [Nat.add_assoc, Nat.add_comm 1] using hGather
          · rw [hJoin, hRest, List.length_cons, Nat.add_assoc, Nat.add_comm 1]
      rw [gatherAt?, hAt]
      dsimp only
      cases hComment : isComment physical with
      | true =>
          cases draft? with
          | none =>
              exact ⟨_, [physical], lines, rfl, by simp [Draft.empty],
                joinFrom_comment_closed hComment lines⟩
          | some draft =>
              have hContent := hDraft draft rfl
              have hNonempty : draft.content.isEmpty = false := by simpa using hContent
              rw [if_pos rfl, Option.getD_some, hNonempty, if_neg (by simp)]
              exact hOn _ (by simpa [Draft.add] using hContent)
                (joinFrom_comment_open hComment lines)
      | false =>
          rw [if_neg (by simp)]
          cases hPart : continued? physical with
          | none => exact ⟨_, [physical], lines, rfl, rfl, joinFrom_ended hComment hPart lines⟩
          | some part =>
              obtain ⟨kept, rfl, -⟩ := continued?_eq_some_iff.mp hPart
              exact hOn _ (by simp [Draft.add]) (joinFrom_continued hComment hPart lines)

/-- Reading by number never asks for a line that is not there, and gives the
logical lines that joining gives. -/
theorem joinAt?_append (before lines : List Text) :
    joinAt? (before ++ lines) before.length = some (joinFrom (before.length + 1) none lines) := by
  induction hLength : lines.length using Nat.strong_induction_on generalizing before lines with
  | _ length ih =>
      rw [joinAt?]
      by_cases hNe : lines = []
      · subst hNe
        rw [if_neg (by simp)]
        rfl
      · obtain ⟨result, b, rest, rfl, hGather, hJoin⟩ :=
          gatherAt?_append before hNe (before.length + 1) none (by simp)
        have hNext := lt_of_gatherAt? hGather
        have hShorter : rest.length < length := by
          rw [← hLength, List.length_append]
          omega
        have hRest := ih rest.length hShorter (before ++ b) rest rfl
        rw [List.append_assoc, List.length_append] at hRest
        rw [if_pos (by simp only [List.length_append]; omega), hJoin]
        split
        · rename_i hNone
          exact absurd (hNone.symm.trans hGather) (by simp)
        · rename_i draft next hSome
          obtain ⟨rfl, rfl⟩ := Prod.mk.inj (Option.some.inj (hSome.symm.trans hGather))
          rw [hRest, Option.map_some, Nat.add_right_comm]

end ByNumber

/-- The physical lines of a text fall into blocks, one for each logical line,
and reading them by number needs none beyond the last. -/
theorem ofText_partition (text : Text) :
    ∃ blocks : List (List Text),
      blocks.flatten = Text.lines text ∧ [] ∉ blocks ∧ blocks.length = (ofText text).length ∧
      (∀ j b, blocks[j]? = some b →
        ∃ l, (ofText text)[j]? = some l ∧
          l.line = 1 + (blocks.take j).flatten.length ∧ l.line ≤ (Text.lines text).length ∧
          Covers l b (j + 1 = blocks.length) ∧
          (l.content.head? = some '#' → IsRemark b) ∧
          (l.isIdle = true ↔ l.content = [] ∨ IsRemark b)) ∧
      joinAt? (Text.lines text) 0 = some (ofText text) := by
  obtain ⟨blocks, hFlatten, hDivision⟩ := exists_division 1 (Text.lines text)
  refine ⟨blocks, hFlatten, hDivision.nil_notMem, hDivision.length_eq, ?_, joinAt?_append [] _⟩
  intro j b hBlock
  obtain ⟨l, hl, hLine, hCovers⟩ := hDivision.covers_getElem? hBlock
  refine ⟨l, hl, hLine, ?_, hCovers, hCovers.isRemark, hCovers.isIdle_iff⟩
  obtain ⟨hLt, rfl⟩ := List.getElem?_eq_some_iff.mp hBlock
  have hPos := List.length_pos_of_ne_nil hCovers.ne_nil
  have hSplit : (blocks.take j).flatten ++ (blocks[j] ++ (blocks.drop (j + 1)).flatten) =
      Text.lines text := by
    rw [← hFlatten, ← List.flatten_cons, List.getElem_cons_drop, ← List.flatten_append,
      List.take_append_drop]
  rw [hLine, ← hSplit, List.length_append, List.length_append]
  omega

end Drydock.LogicalLine
