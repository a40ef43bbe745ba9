import Mathlib
import Drydock.Text.Blank
import Drydock.Text.Letter
import Drydock.Text.Lines

/-! Facts about trimming, first words, letters and lines. Trailing blanks go by
`List.rdropWhile`, so that its lemmas apply. -/
namespace Drydock.Text

theorem isBlank_space : isBlank ' ' = true := by
  decide

/-- Trimming at the end is Mathlib's `List.rdropWhile`, though it is computed by
turning the text round twice. -/
theorem trimEnd_eq_rdropWhile (s : Text) : trimEnd s = s.rdropWhile isBlank := rfl

theorem trimStart_cons_of_blank {c : Char} (h : isBlank c = true) (s : Text) :
    trimStart (c :: s) = trimStart s :=
  List.dropWhile_cons_of_pos h

theorem trimStart_cons_of_not_blank {c : Char} (h : isBlank c = false) (s : Text) :
    trimStart (c :: s) = c :: s :=
  List.dropWhile_cons_of_neg (by simp [h])

/-- Blanks in front are all that trimming at the front takes away, whatever
comes after them. -/
theorem trimStart_append_of_blank {gap : Text} (h : ∀ c ∈ gap, isBlank c = true) (s : Text) :
    trimStart (gap ++ s) = trimStart s :=
  List.dropWhile_append_of_pos h

/-- At least one blank in front makes a text begin with a blank, whatever the
text is. This is how a gap after a keyword or a word is recognised. -/
theorem head?_append_of_gap {gap : Text} (hNe : gap ≠ []) (hGap : ∀ c ∈ gap, isBlank c = true)
    (s : Text) : (gap ++ s).head?.all isBlank = true := by
  rw [List.head?_append_of_ne_nil _ hNe, List.head?_eq_some_head hNe]
  exact hGap _ (List.head_mem hNe)

/-- What holds of the first character of two texts, if they have one, holds of
the first character of both together. -/
theorem all_head?_append {p : Char → Bool} {s t : Text} (hs : s.head?.all p = true)
    (ht : t.head?.all p = true) : (s ++ t).head?.all p = true := by
  cases s with
  | nil => exact ht
  | cons c s => exact hs

/-- Where a blank comes first, what follows the blanks is the text without its
leading ones. -/
theorem afterBlanks?_eq_some {s : Text} (hNe : s ≠ []) (hHead : s.head?.all isBlank = true) :
    afterBlanks? s = some (trimStart s) := by
  cases s with
  | nil => exact absurd rfl hNe
  | cons c cs =>
      have hc : isBlank c = true := by simpa using hHead
      rw [afterBlanks?, if_pos hc, trimStart_cons_of_blank hc]

/-- Trimming at the front leaves nothing exactly where all is blank, the empty
text included. -/
theorem trimStart_eq_nil_iff {s : Text} : trimStart s = [] ↔ ∀ c ∈ s, isBlank c = true :=
  List.dropWhile_eq_nil_iff

/-- What comes after a text that is not blank has no influence on its front. -/
theorem trimStart_append {s : Text} (h : trimStart s ≠ []) (t : Text) :
    trimStart (s ++ t) = trimStart s ++ t := by
  have hDrop : s.dropWhile isBlank ≠ [] := h
  simp [trimStart, List.dropWhile_append, hDrop]

/-- Trimming at the end leaves nothing exactly where all is blank, so both
trimmings empty the same texts. -/
theorem trimEnd_eq_nil_iff {s : Text} : trimEnd s = [] ↔ ∀ c ∈ s, isBlank c = true :=
  List.rdropWhile_eq_nil_iff

/-- Blanks at the end go, and those before them which then come last go with
them. -/
theorem trimEnd_append_of_blank {gap : Text} (h : ∀ c ∈ gap, isBlank c = true) (s : Text) :
    trimEnd (s ++ gap) = trimEnd s := by
  have hReverse : ∀ c ∈ gap.reverse, isBlank c = true := by simpa using h
  rw [trimEnd, List.reverse_append, List.dropWhile_append_of_pos hReverse]
  rfl

/-- What stands before a text that is not blank is out of reach of the trimming.
Without the condition the trimming would go on into the text before. -/
theorem trimEnd_append {s t : Text} (h : trimEnd t ≠ []) :
    trimEnd (s ++ t) = s ++ trimEnd t := by
  have hDrop : t.reverse.dropWhile isBlank ≠ [] := by simpa [trimEnd] using h
  simp [trimEnd, List.dropWhile_append, hDrop]

/-- A text is its trimmed form with blanks after it, so nothing else was taken
away. -/
theorem exists_trimEnd_append (s : Text) :
    ∃ gap : Text, (∀ c ∈ gap, isBlank c = true) ∧ s = trimEnd s ++ gap :=
  ⟨s.rtakeWhile isBlank, fun _ hc => List.mem_rtakeWhile_imp hc,
    List.rdropWhile_append_rtakeWhile.symm⟩

/-- A text is its trimmed form with blanks before it. -/
theorem exists_append_trimStart (s : Text) :
    ∃ gap : Text, (∀ c ∈ gap, isBlank c = true) ∧ s = gap ++ trimStart s :=
  ⟨s.takeWhile isBlank, fun _ hc => List.mem_takeWhile_imp hc,
    List.takeWhile_append_dropWhile.symm⟩

/-- What is left after trimming at the front does not begin with a blank. -/
theorem isBlank_of_head?_trimStart {s : Text} {c : Char}
    (h : (trimStart s).head? = some c) : isBlank c = false := by
  have hNot := List.head?_dropWhile_not isBlank s
  rw [trimStart] at h
  simpa [h] using hNot

/-- What is left after trimming at the end does not end with a blank. -/
theorem isBlank_of_getLast?_trimEnd {s : Text} {c : Char}
    (h : (trimEnd s).getLast? = some c) : isBlank c = false := by
  have hNot := List.head?_dropWhile_not isBlank s.reverse
  rw [trimEnd, List.getLast?_reverse] at h
  simpa [h] using hNot

/-- What `List.dropWhile` leaves begins with a character that fails the test, or
is empty. -/
theorem all_head?_dropWhile (p : Char → Bool) (s : Text) :
    (s.dropWhile p).head?.all (!p ·) = true := by
  have hNot := List.head?_dropWhile_not p s
  cases hHead : (s.dropWhile p).head? with
  | none => rfl
  | some c => simpa [hHead] using hNot

theorem trimStart_trimStart (s : Text) : trimStart (trimStart s) = trimStart s :=
  List.dropWhile_idempotent ..

theorem trimEnd_trimEnd (s : Text) : trimEnd (trimEnd s) = trimEnd s :=
  List.rdropWhile_idempotent ..

/-- A text that is empty or ends in a character other than a blank is not
changed by trimming at the end. -/
theorem trimEnd_eq_self {s : Text} (h : s.getLast?.all (!isBlank ·) = true) :
    trimEnd s = s := by
  rw [trimEnd_eq_rdropWhile, List.rdropWhile_eq_self_iff]
  intro hNe
  rw [List.getLast?_eq_some_getLast hNe] at h
  simpa using h

/-- A text without a blank at either end is not changed by trimming. -/
theorem trim_eq_self {s : Text} (hHead : s.head?.all (!isBlank ·) = true)
    (hLast : s.getLast?.all (!isBlank ·) = true) : trim s = s := by
  have hStart : trimStart s = s := by
    cases s with
    | nil => rfl
    | cons c s => exact trimStart_cons_of_not_blank (by simpa using hHead) s
  rw [trim, hStart, trimEnd_eq_self hLast]

theorem trimEnd_of_trim {s : Text} (h : trim s = s) : trimEnd s = s := by
  rw [← h, trim, trimEnd_trimEnd]

/-- Trimming leaves nothing exactly where all is blank. The two ends are trimmed
one after the other, and the second finds what the first has left. -/
theorem trim_eq_nil_iff {s : Text} : trim s = [] ↔ ∀ c ∈ s, isBlank c = true := by
  constructor
  · intro h
    rw [trim, trimEnd_eq_nil_iff] at h
    have hHead : (trimStart s).head? = none := by
      cases hs : (trimStart s).head? with
      | none => rfl
      | some c =>
          have hc := isBlank_of_head?_trimStart hs
          have hBlank := h c (List.mem_of_mem_head? hs)
          simp [hc] at hBlank
    exact trimStart_eq_nil_iff.mp (List.head?_eq_none_iff.mp hHead)
  · intro h
    rw [trim, trimStart_eq_nil_iff.mpr h]
    rfl

/-- Blanks at the end have no influence on what blanks are at the front, so the
two ends may be trimmed in either order. -/
theorem trimStart_trimEnd (s : Text) : trimStart (trimEnd s) = trimEnd (trimStart s) := by
  obtain ⟨gap, hGap, hs⟩ := exists_append_trimStart s
  by_cases hNil : trimStart s = []
  · have hBlank := trimStart_eq_nil_iff.mp hNil
    rw [hNil, trimEnd_eq_nil_iff.mpr hBlank]
    rfl
  · have hTrim : trimEnd (trimStart s) ≠ [] := by
      intro hEnd
      have hAll : ∀ c ∈ s, isBlank c = true := trim_eq_nil_iff.mp hEnd
      exact hNil (trimStart_eq_nil_iff.mpr hAll)
    have hEnd : trimEnd s = gap ++ trimEnd (trimStart s) := by
      conv_lhs => rw [hs]
      exact trimEnd_append hTrim
    rw [hEnd, trimStart_append_of_blank hGap]
    -- the first character is not blank and the trimming at the end leaves it
    cases hHead : trimStart s with
    | nil => exact absurd hHead hNil
    | cons c cs =>
        have hc : isBlank c = false :=
          isBlank_of_head?_trimStart (s := s) (by rw [hHead]; rfl)
        have hKeep : trimEnd (c :: cs) ≠ [] := by rwa [← hHead]
        have hPrefix : trimEnd (c :: cs) <+: c :: cs := List.rdropWhile_prefix ..
        cases hCore : trimEnd (c :: cs) with
        | nil => exact absurd hCore hKeep
        | cons d ds =>
            rw [hCore, List.cons_prefix_cons] at hPrefix
            rw [hPrefix.1]
            exact trimStart_cons_of_not_blank hc ds

/-- A text is its trimmed form with blanks around it. -/
theorem exists_trim_append (s : Text) :
    ∃ gap trail : Text, (∀ c ∈ gap, isBlank c = true) ∧ (∀ c ∈ trail, isBlank c = true) ∧
      s = gap ++ (trim s ++ trail) := by
  obtain ⟨gap, hGap, hStart⟩ := exists_append_trimStart s
  obtain ⟨trail, hTrail, hEnd⟩ := exists_trimEnd_append (trimStart s)
  exact ⟨gap, trail, hGap, hTrail, by rw [trim, ← hEnd, ← hStart]⟩

/-- Blanks around a text make no difference to its trimmed form. -/
theorem trim_append_of_blank {gap s trail : Text} (hGap : ∀ c ∈ gap, isBlank c = true)
    (hTrail : ∀ c ∈ trail, isBlank c = true) : trim (gap ++ (s ++ trail)) = trim s := by
  rw [trim, trimStart_append_of_blank hGap, ← trimStart_trimEnd, trimEnd_append_of_blank hTrail,
    trimStart_trimEnd, trim]

/-- A text that was trimmed at its end already has the same trimmed form. -/
theorem trim_trimEnd (s : Text) : trim (trimEnd s) = trim s := by
  rw [trim, trimStart_trimEnd, trimEnd_trimEnd]
  rfl

theorem trimStart_trim (s : Text) : trimStart (trim s) = trim s := by
  rw [trim, trimStart_trimEnd, trimStart_trimStart]

theorem trim_trim (s : Text) : trim (trim s) = trim s := by
  rw [trim, trimStart_trim, trim, trimEnd_trimEnd]

theorem trim_infix (s : Text) : trim s <:+: s :=
  (List.rdropWhile_prefix ..).isInfix.trans (List.dropWhile_suffix _).isInfix

/-- Trimming takes nothing away but blanks: any other character of a text is
still there. -/
theorem mem_trim {s : Text} {c : Char} (hMem : c ∈ s) (hc : isBlank c = false) : c ∈ trim s := by
  obtain ⟨lead, hLead, hs⟩ := exists_append_trimStart s
  obtain ⟨trail, hTrail, hStart⟩ := exists_trimEnd_append (trimStart s)
  rw [hs, hStart] at hMem
  rcases List.mem_append.mp hMem with h | h
  · simp [hLead c h] at hc
  · rcases List.mem_append.mp h with h | h
    · exact h
    · simp [hTrail c h] at hc

/-- Trimming keeps the first character that is not blank. -/
theorem head?_trim (s : Text) : (trim s).head? = (trimStart s).head? := by
  obtain ⟨gap, hGap, hs⟩ := exists_trimEnd_append (trimStart s)
  cases hTrim : trim s with
  | nil =>
      rw [trimStart_eq_nil_iff.mpr (trim_eq_nil_iff.mp hTrim)]
  | cons c cs =>
      rw [hs, show trimEnd (trimStart s) = c :: cs from hTrim]
      rfl

/-- The first word of a text, which is empty when all is blank. -/
def firstWord (s : Text) : Text :=
  (words s).head?.getD []

/-- The first word begins after the leading blanks and ends before the next
one. -/
theorem firstWord_eq_firstRun (s : Text) : firstWord s = firstRun (trimStart s) := by
  rw [firstWord]
  induction s with
  | nil => rfl
  | cons c cs ih =>
      by_cases hBlank : isBlank c = true
      · rw [words, if_pos hBlank, trimStart_cons_of_blank hBlank, ih]
      · have hc : isBlank c = false := by simpa using hBlank
        rw [words, if_neg hBlank, trimStart_cons_of_not_blank hc]
        cases cs with
        | nil => simp [firstRun, words, hc]
        | cons d ds =>
            cases hd : isBlank d with
            | true => simp [firstRun, hc, hd]
            | false =>
                rw [trimStart_cons_of_not_blank hd] at ih
                simp only [List.head?_cons, Option.all_some, hd, Bool.false_eq_true, if_false]
                cases hWords : words (d :: ds) with
                | nil =>
                    rw [hWords] at ih
                    simp [firstRun, hd] at ih
                | cons word rest =>
                    rw [hWords] at ih
                    simp only [List.head?_cons, Option.getD_some] at ih
                    simp [extendFirst, ih, firstRun, hc]

/-- Of a word with a blank or the end after it, the leading run is the word. -/
theorem firstRun_append {word rest : Text} (hWord : ∀ c ∈ word, isBlank c = false)
    (hRest : rest.head?.all isBlank = true) : firstRun (word ++ rest) = word := by
  have hRun : ∀ c ∈ word, (!isBlank c) = true := by simpa using hWord
  rw [firstRun, List.takeWhile_append_of_pos hRun]
  cases rest with
  | nil => simp
  | cons c cs =>
      have hc : isBlank c = true := by simpa using hRest
      simp [hc]

theorem head?_firstWord (s : Text) : (firstWord s).head? = (trimStart s).head? := by
  rw [firstWord_eq_firstRun, firstRun, List.head?_takeWhile]
  cases hHead : (trimStart s).head? with
  | none => rfl
  | some c => simp [isBlank_of_head?_trimStart hHead]

/-- There is no first word exactly where all is blank. -/
theorem firstWord_eq_nil_iff {s : Text} : firstWord s = [] ↔ ∀ c ∈ s, isBlank c = true := by
  rw [← List.head?_eq_none_iff, head?_firstWord, List.head?_eq_none_iff, trimStart_eq_nil_iff]

theorem firstWord_append_of_blank {gap : Text} (h : ∀ c ∈ gap, isBlank c = true) (s : Text) :
    firstWord (gap ++ s) = firstWord s := by
  rw [firstWord_eq_firstRun, firstWord_eq_firstRun, trimStart_append_of_blank h]

/-- A blank ends the first word, whatever comes after it. Where there is no word
yet, the text after the blank would supply one. -/
theorem firstWord_append_of_ne_nil {s : Text} {c : Char} (hWord : firstWord s ≠ [])
    (hc : isBlank c = true) (t : Text) : firstWord (s ++ c :: t) = firstWord s := by
  have hStart : trimStart s ≠ [] := by
    intro hNil
    exact hWord (firstWord_eq_nil_iff.mpr (trimStart_eq_nil_iff.mp hNil))
  rw [firstWord_eq_firstRun, firstWord_eq_firstRun, trimStart_append hStart, firstRun,
    firstRun, List.takeWhile_append]
  split
  · rename_i hLength
    have hAll : List.takeWhile (!isBlank ·) (trimStart s) = trimStart s :=
      (List.takeWhile_prefix _).eq_of_length hLength
    rw [hAll]
    simp [hc]
  · rfl

/-- Trailing blanks have no part in the first word, whether there is one or
not. -/
theorem firstWord_trimEnd (s : Text) : firstWord (trimEnd s) = firstWord s := by
  obtain ⟨gap, hGap, hs⟩ := exists_trimEnd_append s
  by_cases hNil : firstWord (trimEnd s) = []
  · have hBlank := firstWord_eq_nil_iff.mp hNil
    rw [hNil, hs, firstWord_append_of_blank hBlank, firstWord_eq_nil_iff.mpr hGap]
  · cases gap with
    | nil => rw [hs, List.append_nil, trimEnd_trimEnd]
    | cons c cs =>
        conv_rhs => rw [hs]
        exact (firstWord_append_of_ne_nil hNil (hGap c (by simp)) cs).symm

theorem firstWord_trimStart (s : Text) : firstWord (trimStart s) = firstWord s := by
  rw [firstWord_eq_firstRun, firstWord_eq_firstRun, trimStart_trimStart]

theorem firstWord_trim (s : Text) : firstWord (trim s) = firstWord s := by
  rw [trim, firstWord_trimEnd, firstWord_trimStart]

/-- A line feed ends the first line. The line may not end in a carriage return,
which would be taken for a part of the line end. -/
theorem lines_append_feed {line : Text} (rest : Text) (hFeed : '\n' ∉ line)
    (hReturn : line.getLast? ≠ some '\r') :
    lines (line ++ '\n' :: rest) = line :: lines rest := by
  induction line with
  | nil => rfl
  | cons c cs ih =>
      have hc : c ≠ '\n' := fun h => hFeed (by simp [h])
      cases cs with
      | nil =>
          have hr : c ≠ '\r' := by simpa using hReturn
          simp [lines, hr]
      | cons d ds =>
          have hd : d ≠ '\n' := fun h => hFeed (by simp [h])
          have hTail := ih (fun h => hFeed (by simp [h])) (by simpa using hReturn)
          rw [List.cons_append] at hTail
          rw [List.cons_append, List.cons_append, lines, hTail]
          · exact hc
          · intro cs _ hEq
            exact hd (List.cons.inj hEq).1

/-- A text without a line feed is one line, carriage returns included, unless it
is empty and has none. -/
theorem lines_of_no_feed {line : Text} (hNe : line ≠ []) (hFeed : '\n' ∉ line) :
    lines line = [line] := by
  induction line with
  | nil => exact absurd rfl hNe
  | cons c cs ih =>
      have hc : c ≠ '\n' := fun h => hFeed (by simp [h])
      cases cs with
      | nil => simp [lines]
      | cons d ds =>
          have hd : d ≠ '\n' := fun h => hFeed (by simp [h])
          have hTail := ih (by simp) (fun h => hFeed (by simp [h]))
          rw [lines, hTail]
          · exact hc
          · intro cs _ hEq
            exact hd (List.cons.inj hEq).1

/-- A character that neither the pieces nor the separator have is not in the
joined text. -/
theorem not_mem_join {c : Char} {sep : Text} (hSep : c ∉ sep) {pieces : List Text}
    (h : ∀ s ∈ pieces, c ∉ s) : c ∉ join sep pieces := by
  induction pieces with
  | nil => simp [join]
  | cons s rest ih =>
      have hRest := ih fun t ht => h t (by simp [ht])
      cases rest with
      | nil => exact h s (by simp)
      | cons t rest =>
          rw [join, List.mem_append, List.mem_append, not_or, not_or]
          exact ⟨⟨h s (by simp), hSep⟩, hRest⟩

/-- Lines joined by line feeds come apart again. None of them may be empty,
since an empty last line would not count, and none may end in a carriage
return. -/
theorem lines_join {pieces : List Text} (hNe : ∀ s ∈ pieces, s ≠ [])
    (hFeed : ∀ s ∈ pieces, '\n' ∉ s) (hReturn : ∀ s ∈ pieces, s.getLast? ≠ some '\r') :
    lines (join ['\n'] pieces) = pieces := by
  induction pieces with
  | nil => rfl
  | cons s rest ih =>
      cases rest with
      | nil => exact lines_of_no_feed (hNe s (by simp)) (hFeed s (by simp))
      | cons t rest =>
          have hRest := ih (fun u hu => hNe u (by simp [hu]))
            (fun u hu => hFeed u (by simp [hu])) (fun u hu => hReturn u (by simp [hu]))
          rw [join, List.append_assoc, List.singleton_append,
            lines_append_feed _ (hFeed s (by simp)) (hReturn s (by simp)), hRest]

/-- A line feed after the last line makes no further line. Here lines may be
empty, the last one too. -/
theorem lines_join_append {pieces : List Text} (hNil : pieces ≠ [])
    (hFeed : ∀ s ∈ pieces, '\n' ∉ s) (hReturn : ∀ s ∈ pieces, s.getLast? ≠ some '\r') :
    lines (join ['\n'] pieces ++ ['\n']) = pieces := by
  induction pieces with
  | nil => exact absurd rfl hNil
  | cons s rest ih =>
      cases rest with
      | nil => exact lines_append_feed [] (hFeed s (by simp)) (hReturn s (by simp))
      | cons t rest =>
          have hRest := ih (by simp) (fun u hu => hFeed u (by simp [hu]))
            (fun u hu => hReturn u (by simp [hu]))
          rw [join, List.append_assoc, List.append_assoc, List.singleton_append,
            lines_append_feed _ (hFeed s (by simp)) (hReturn s (by simp)), hRest]

/-- No line of a text has a line feed in it. -/
theorem not_mem_of_mem_lines {t line : Text} (h : line ∈ lines t) : '\n' ∉ line := by
  fun_induction lines t generalizing line with
  | case1 => simp at h
  | case2 cs ih =>
      rcases List.mem_cons.mp h with rfl | h
      · simp
      · exact ih h
  | case3 cs ih =>
      rcases List.mem_cons.mp h with rfl | h
      · simp
      · exact ih h
  | case4 c cs hc _ hNil ih =>
      obtain rfl : line = [c] := by simpa using h
      simpa using fun h => hc h.symm
  | case5 c cs hc _ first rest hLines ih =>
      rcases List.mem_cons.mp h with rfl | h
      · have hFirst : '\n' ∉ first := ih (by rw [hLines]; simp)
        simpa [hFirst] using fun h => hc h.symm
      · exact ih (by rw [hLines]; simp [h])

theorem afterFeeds_eq_nil {s : Text} (h : '\n' ∉ s) : afterFeeds s = [] := by
  induction s with
  | nil => rfl
  | cons c cs ih =>
      have hc : c ≠ '\n' := fun hEq => h (by simp [hEq])
      rw [afterFeeds, if_neg hc]
      exact ih fun hMem => h (by simp [hMem])

theorem startsWith_iff {lead s : Text} : startsWith lead s = true ↔ lead <+: s := by
  rw [startsWith, Option.isSome_iff_exists]
  constructor
  · rintro ⟨rest, h⟩
    exact ⟨rest, (after?_eq_some_iff.mp h).symm⟩
  · rintro ⟨rest, h⟩
    exact ⟨rest, after?_eq_some_iff.mpr h.symm⟩

/-- Standing somewhere in a text is being an infix of it, so that the lemmas
about infixes apply to the search. -/
theorem occursIn_iff {part s : Text} : occursIn part s = true ↔ part <:+: s := by
  induction s with
  | nil => simp [occursIn]
  | cons c cs ih => simp [occursIn, startsWith_iff, List.infix_cons_iff, ih]

/-- The endings of a text are its suffixes, from the text itself down to the
empty one. -/
theorem mem_endings_iff {s e : Text} : e ∈ endings s ↔ e <:+ s := by
  induction s with
  | nil => simp [endings]
  | cons c cs ih => simp [endings, List.suffix_cons_iff, ih]

theorem lower_upper (s : Text) : lower (upper s) = lower s := by
  simp [lower, upper, Function.comp_def]

theorem upper_lower (s : Text) : upper (lower s) = upper s := by
  simp [lower, upper, Function.comp_def]

/-- Texts that agree in small letters agree in capitals, and the other way
round. -/
theorem sameLetters_iff_upper {s t : Text} : sameLetters s t = true ↔ upper s = upper t := by
  rw [sameLetters_iff]
  constructor
  · intro h
    rw [← upper_lower s, h, upper_lower]
  · intro h
    rw [← lower_upper s, h, lower_upper]

/-- What agrees with a word of letters up to case is itself made of letters. The
letters meant are `A` to `Z`; no other character is changed by either case. -/
theorem isAlpha_of_sameLetters {s t : Text} (h : sameLetters s t = true)
    (hAlpha : ∀ c ∈ t, c.isAlpha = true) : ∀ c ∈ s, c.isAlpha = true := by
  intro c hc
  have hMem : c.toLower ∈ lower t := by
    rw [← sameLetters_iff.mp h]
    exact List.mem_map_of_mem hc
  obtain ⟨d, hd, hEq⟩ := List.mem_map.mp hMem
  have hLetter := hAlpha d hd
  rwa [← Char.isAlpha_toLower_eq_isAlpha, hEq, Char.isAlpha_toLower_eq_isAlpha] at hLetter

/-- The letters by their code points, for arithmetic on characters. -/
theorem isAlpha_bounds {c : Char} (h : c.isAlpha = true) :
    65 ≤ c.toNat ∧ c.toNat ≤ 90 ∨ 97 ≤ c.toNat ∧ c.toNat ≤ 122 := by
  simpa [Char.isAlpha, Char.isUpper, Char.isLower, UInt32.le_iff_toNat_le] using h

theorem isDigit_bounds {c : Char} (h : c.isDigit = true) : 48 ≤ c.toNat ∧ c.toNat ≤ 57 := by
  simpa [Char.isDigit, UInt32.le_iff_toNat_le] using h

/-- No letter is blank, by comparison of code points with all blanks of
Unicode. -/
theorem isBlank_of_isAlpha {c : Char} (h : c.isAlpha = true) : isBlank c = false := by
  have hBounds := isAlpha_bounds h
  simp only [isBlank, Bool.or_eq_false_iff, Bool.and_eq_false_iff, decide_eq_false_iff_not,
    beq_eq_false_iff_ne]
  omega

/-- In ASCII folding is taking the small letter: both characters that fold in
another way lie beyond it. -/
theorem fold_of_lt {c : Char} (h : c.toNat < 128) : fold c = c.toLower := by
  have hLong : c ≠ '\u017F' := by
    rintro rfl
    revert h
    decide
  have hKelvin : c ≠ '\u212A' := by
    rintro rfl
    revert h
    decide
  rw [fold, if_neg hLong, if_neg hKelvin]

/-- Where letters of a text agree up to case, a search without regard to case
finds them and leaves what comes after. -/
theorem afterFolded?_append {lead s : Text} (h : s.map fold = lead) (rest : Text) :
    afterFolded? lead (s ++ rest) = some rest := by
  induction s generalizing lead with
  | nil =>
      subst h
      cases rest <;> rfl
  | cons c s ih =>
      subst h
      rw [List.map_cons, List.cons_append, afterFolded?, if_pos rfl, ih rfl]

/-- Reading without regard to case succeeds exactly where the front of the text
folds to what is looked for. The length of the front is that of `lead`, so it is
found at most once. -/
theorem afterFolded?_eq_some_iff {lead s rest : Text} :
    afterFolded? lead s = some rest ↔ ∃ front, s = front ++ rest ∧ front.map fold = lead := by
  constructor
  · intro h
    induction lead generalizing s with
    | nil => exact ⟨[], by simpa [afterFolded?] using h, rfl⟩
    | cons p lead ih =>
        cases s with
        | nil => simp [afterFolded?] at h
        | cons c s =>
            rw [afterFolded?] at h
            split at h
            · rename_i hFold
              obtain ⟨front, rfl, rfl⟩ := ih h
              exact ⟨c :: front, rfl, by rw [List.map_cons, hFold]⟩
            · simp at h
  · rintro ⟨front, rfl, hFold⟩
    exact afterFolded?_append hFold rest

end Drydock.Text
