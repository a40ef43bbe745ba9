import Drydock.Proofs.Precheck
import Drydock.Validator

/-! The order of keywords in a plain file, one without continued lines and
here-documents. Such a file passes the first check when its first words are some
ARG, one FROM and then any keywords. A word that only begins like HEALTHCHECK is
not counted. -/
namespace Drydock

/-- The first words of the lines that are neither blank nor a comment. -/
def leadWords (lines : List Text) : List Text :=
  (lines.filter Precheck.isActive).map Text.firstWord

/-- Some ARG, one FROM, and then any keywords, in letters of either case. -/
def IsOrdered (words : List Text) : Prop :=
  ∃ args base rest, words = args ++ base :: rest ∧
    (∀ w ∈ args, Text.sameLetters w "ARG".toList = true) ∧
    Text.sameLetters base "FROM".toList = true ∧ ∀ w ∈ rest, isKeyword w = true

/-- A word that is no keyword but begins with one, HEALTHCHECK. -/
def isExcused (word : Text) : Bool :=
  !isKeyword word && Text.sameLetters (word.take 11) "HEALTHCHECK".toList

/-- What may follow in a file, given whether a FROM came before. -/
def MayFollow (fromSeen : Bool) (words : List Text) : Prop :=
  if fromSeen then ∀ w ∈ words, isKeyword w = true else IsOrdered words

/-- A file that is at its end must have had its FROM. -/
theorem mayFollow_nil {fromSeen : Bool} : MayFollow fromSeen [] ↔ fromSeen = true := by
  cases fromSeen with
  | true => simp [MayFollow]
  | false => simp [MayFollow, IsOrdered]

/-- The order of keywords said of one word at a time, as the check goes through
them: the word is a keyword, it is FROM or ARG as long as no FROM came before,
and the rest may follow it. -/
theorem mayFollow_cons {fromSeen : Bool} {word : Text} {words : List Text} :
    MayFollow fromSeen (word :: words) ↔
      isKeyword word = true ∧
        (fromSeen = true ∨ Text.upper word = "FROM".toList ∨ Text.upper word = "ARG".toList) ∧
        MayFollow (fromSeen || Text.upper word = "FROM".toList) words := by
  cases fromSeen with
  | true => simp [MayFollow]
  | false =>
      constructor
      · rintro ⟨args, base, rest, hWords, hArgs, hBase, hRest⟩
        cases args with
        | nil =>
            obtain ⟨rfl, rfl⟩ := List.cons.inj hWords
            have hFrom : Text.upper word = "FROM".toList := Text.sameLetters_iff_upper.mp hBase
            refine ⟨isKeyword_of_upper_eq (by decide) hFrom, .inr (.inl hFrom), ?_⟩
            simpa [MayFollow, hFrom] using hRest
        | cons arg args =>
            obtain ⟨rfl, rfl⟩ := List.cons.inj hWords
            have hArg : Text.upper word = "ARG".toList :=
              Text.sameLetters_iff_upper.mp (hArgs word (by simp))
            refine ⟨isKeyword_of_upper_eq (by decide) hArg, .inr (.inr hArg), ?_⟩
            have hOrdered : IsOrdered (args ++ base :: rest) :=
              ⟨args, base, rest, rfl, fun w hw => hArgs w (by simp [hw]), hBase, hRest⟩
            simpa [MayFollow, hArg] using hOrdered
      · rintro ⟨-, hName, hRest⟩
        rcases hName with hSeen | hFrom | hArg
        · simp at hSeen
        · refine ⟨[], word, words, rfl, by simp, Text.sameLetters_iff_upper.mpr hFrom, ?_⟩
          simpa [MayFollow, hFrom] using hRest
        · have hOrdered : IsOrdered words := by simpa [MayFollow, hArg] using hRest
          obtain ⟨args, base, rest, rfl, hArgs, hBase, hTail⟩ := hOrdered
          refine ⟨word :: args, base, rest, rfl, ?_, hBase, hTail⟩
          intro w hw
          rcases List.mem_cons.mp hw with rfl | hw
          · exact Text.sameLetters_iff_upper.mpr hArg
          · exact hArgs w hw

theorem Heredoc.prefix_of_operand? {e rest : Text} (h : Heredoc.operand? e = some rest) :
    "<<".toList <+: e := by
  unfold Heredoc.operand? at h
  split at h
  · exact ⟨_, rfl⟩
  · simp at h

/-- A text without the operator opens no here-document. -/
theorem Heredoc.delimiters_eq_nil {s : Text} (h : Text.occursIn "<<".toList s = false) :
    Heredoc.delimiters s = [] := by
  rw [Heredoc.delimiters, List.filterMap_eq_nil_iff]
  intro e he
  rw [Heredoc.delimiter?]
  cases hOperand : Heredoc.operand? e with
  | none => rfl
  | some rest =>
      have hInfix := (Heredoc.prefix_of_operand? hOperand).isInfix.trans
        (Text.mem_endings_iff.mp he).isInfix
      rw [Text.occursIn_iff.mpr hInfix] at h
      exact absurd h (by simp)

/-- Whether a line begins with HEALTHCHECK can be seen from its first word, as
no letter of it is a blank. The word may go on after these letters. -/
theorem Diagnostic.beginsHealthcheck_eq (line : Text) :
    beginsHealthcheck line =
      Text.sameLetters ((Text.firstWord line).take 11) "HEALTHCHECK".toList := by
  rw [beginsHealthcheck, Text.firstWord_eq_firstRun, Text.firstRun, List.take_takeWhile,
    Bool.eq_iff_iff]
  constructor
  · intro h
    have hAlpha := Text.isAlpha_of_sameLetters h (by simp)
    have hRun : ∀ c ∈ (Text.trimStart line).take 11, (!Text.isBlank c) = true := by
      intro c hc
      simp [Text.isBlank_of_isAlpha (hAlpha c hc)]
    rwa [List.takeWhile_eq_self_iff.mpr hRun]
  · intro h
    have hLength := congrArg List.length (Text.sameLetters_iff.mp h)
    simp only [Text.lower, List.length_map] at hLength
    have hPrefix := List.takeWhile_prefix (!Text.isBlank ·) (l := (Text.trimStart line).take 11)
    have hSame := hPrefix.eq_of_length_le (by rw [hLength]; simp)
    rwa [hSame] at h

namespace Precheck

/-- Of the remarks on a keyword, only that it comes before the first FROM
forbids further checks. -/
theorem filter_remarks_eq_nil_iff {lines : List Text} {line : Nat} {fromSeen : Bool}
    {word name : Text} :
    (remarks line fromSeen word name).filter (Diagnostic.blocks lines) = [] ↔
      fromSeen = true ∨ name = "FROM".toList ∨ name = "ARG".toList := by
  rw [List.filter_eq_nil_iff]
  constructor
  · intro h
    by_contra hNot
    simp only [not_or] at hNot
    obtain ⟨hSeen, hFrom, hArg⟩ := hNot
    refine h ⟨.instructionBeforeFrom, line, Diagnostic.structural,
      String.ofList name ++ " instruction before the first FROM"⟩ ?_ rfl
    simp only [remarks, List.mem_append, List.mem_ite_nil_left, List.mem_singleton,
      Bool.or_eq_true, decide_eq_true_eq]
    exact .inl (.inr ⟨by simp only [not_or]; exact ⟨⟨hSeen, hFrom⟩, hArg⟩, trivial⟩)
  · intro h d hd
    simp only [remarks, List.mem_append, List.mem_ite_nil_left, List.mem_ite_nil_right,
      List.mem_singleton, Bool.or_eq_true, decide_eq_true_eq] at hd
    rcases hd with (⟨-, rfl⟩ | ⟨hNot, -⟩) | ⟨-, rfl⟩
    · exact Bool.false_ne_true
    · exact absurd (or_assoc.mpr h) hNot
    · exact Bool.false_ne_true

/-- What the check makes of a line that begins and ends with one physical line:
it remarks on the first word and is between lines again. -/
theorem step_of_plain {n : Nat} {physical : Text} {fromSeen : Bool}
    (hBegins : beginsLine ⟨fromSeen, [], none⟩ physical = true)
    (hEnds : LogicalLine.continued? physical = none)
    (hPlain : Text.occursIn "<<".toList physical = false) :
    step n physical ⟨fromSeen, [], none⟩ =
      if isKeyword (Text.firstWord physical) then
        (⟨fromSeen || Text.upper (Text.firstWord physical) = "FROM".toList, [], none⟩,
          remarks n fromSeen (Text.firstWord physical) (Text.upper (Text.firstWord physical)))
      else (⟨fromSeen, [], none⟩,
        [⟨.invalidInstruction, n, Diagnostic.structural,
          "Invalid instruction: " ++ String.ofList (Text.firstWord physical)⟩]) := by
  have hPrefix : Text.trimEnd physical <+: physical := List.rdropWhile_prefix ..
  have hNone : Heredoc.delimiters (Text.trimEnd physical) = [] := by
    apply Heredoc.delimiters_eq_nil
    cases hOccurs : Text.occursIn "<<".toList (Text.trimEnd physical) with
    | false => rfl
    | true =>
        have hInfix := (Text.occursIn_iff.mp hOccurs).trans hPrefix.isInfix
        rw [Text.occursIn_iff.mpr hInfix] at hPlain
        exact hPlain
  have hWord : (Text.words (Text.trimEnd physical)).head?.getD [] = Text.firstWord physical :=
    Text.firstWord_trimEnd physical
  rw [step_begins hBegins, extend_eq, hEnds]
  dsimp only
  rw [List.nil_append, judge, hWord, hNone]
  cases hKeyword : isKeyword (Text.firstWord physical) with
  | true => simp only [Bool.not_true, Bool.false_eq_true, if_false, if_true, ite_self,
      List.append_nil]
  | false => rfl

/-- Between lines and outside here-documents, every physical line that holds
something begins one. -/
theorem beginsLine_between (fromSeen : Bool) (physical : Text) :
    beginsLine ⟨fromSeen, [], none⟩ physical = isActive physical := by
  simp [beginsLine]

/-- Blank lines and comments between lines change nothing and give rise to no
remark. -/
theorem step_of_inactive {n : Nat} {physical : Text} {fromSeen : Bool}
    (h : isActive physical = false) :
    step n physical ⟨fromSeen, [], none⟩ = (⟨fromSeen, [], none⟩, []) := by
  have hIdle : (Text.trim physical).isEmpty ∨ (Text.trim physical).head? = some '#' := by
    by_cases hBlank : (Text.trim physical).isEmpty = true
    · exact .inl hBlank
    · exact .inr (by simpa [isActive, hBlank] using h)
  simp only [step, Bool.or_eq_true, decide_eq_true_eq]
  exact if_pos hIdle

/-- The check of a plain file forbids nothing exactly when its first words may
follow, those left out that are excused. By induction on the lines, with whether
a FROM came before as the only state that is left in a plain file. -/
theorem filter_checkFrom_eq_nil_iff {lines before rest : List Text} {fromSeen : Bool}
    (hLines : lines = before ++ rest)
    (hEnds : ∀ line ∈ rest, LogicalLine.continued? line = none)
    (hPlain : ∀ line ∈ rest, Text.occursIn "<<".toList line = false) :
    (checkFrom (1 + before.length) ⟨fromSeen, [], none⟩ rest).filter
        (Diagnostic.blocks lines) = [] ↔
      MayFollow fromSeen ((leadWords rest).filter (!isExcused ·)) := by
  induction rest generalizing before fromSeen with
  | nil =>
      rw [leadWords, List.filter_nil, List.map_nil, List.filter_nil, mayFollow_nil]
      cases fromSeen with
      | true => simp [checkFrom, finish, missingFrom]
      | false => simp [checkFrom, finish, missingFrom, Diagnostic.blocks]
  | cons physical rest ih =>
      have hNext : lines = (before ++ [physical]) ++ rest := by simp [hLines]
      have hLength : 1 + before.length + 1 = 1 + (before ++ [physical]).length := by
        simp only [List.length_append, List.length_singleton]
        omega
      have hRest : ∀ {seen : Bool},
          (checkFrom (1 + before.length + 1) ⟨seen, [], none⟩ rest).filter
              (Diagnostic.blocks lines) = [] ↔
            MayFollow seen ((leadWords rest).filter (!isExcused ·)) := by
        rw [hLength]
        exact ih hNext (fun line hl => hEnds line (by simp [hl]))
          (fun line hl => hPlain line (by simp [hl]))
      rw [checkFrom]
      cases hActive : isActive physical with
      | false =>
          have hWords : leadWords (physical :: rest) = leadWords rest := by
            simp [leadWords, hActive]
          rw [step_of_inactive hActive, hWords]
          exact hRest
      | true =>
          have hWords : leadWords (physical :: rest) =
              Text.firstWord physical :: leadWords rest := by
            simp [leadWords, hActive]
          have hStep := step_of_plain (n := 1 + before.length)
            ((beginsLine_between fromSeen physical).trans hActive)
            (hEnds physical (by simp)) (hPlain physical (by simp))
          rw [hStep, hWords]
          cases hKeyword : isKeyword (Text.firstWord physical) with
          | true =>
              have hKept : isExcused (Text.firstWord physical) = false := by
                simp [isExcused, hKeyword]
              rw [if_pos rfl, List.filter_append, List.append_eq_nil_iff,
                filter_remarks_eq_nil_iff, hRest, List.filter_cons_of_pos (by simp [hKept]),
                mayFollow_cons]
              simp only [hKeyword, true_and]
          | false =>
              rw [if_neg (by simp), List.filter_append, List.append_eq_nil_iff, hRest]
              have hLine : lines[before.length]? = some physical := by
                rw [hLines]
                simp
              have hBlocks : ∀ message, Diagnostic.blocks lines
                  ⟨.invalidInstruction, 1 + before.length, Diagnostic.structural, message⟩ =
                    !isExcused (Text.firstWord physical) := by
                intro message
                simp [Diagnostic.blocks, hLine, Diagnostic.beginsHealthcheck_eq, isExcused,
                  hKeyword]
              cases hExcused : isExcused (Text.firstWord physical) with
              | true =>
                  rw [List.filter_cons_of_neg (by simp [hBlocks, hExcused]),
                    List.filter_cons_of_neg (by simp [hExcused])]
                  simp
              | false =>
                  rw [List.filter_cons_of_pos (by simp [hBlocks, hExcused]),
                    List.filter_cons_of_pos (by simp [hExcused]), mayFollow_cons]
                  simp [hKeyword]

end Precheck

end Drydock
