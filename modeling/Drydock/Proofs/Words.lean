import Drydock.Proofs.Text

/-! Words of a text. A text is read word by word, and a word is a run of
characters between blanks or ends. So what begins somewhere in a text and is
over before the next blank begins somewhere in one of its words. -/
namespace Drydock.Text

/-- A word with a blank or the end after it is the first of the words, and the
others are those of the rest. -/
theorem words_append {word rest : Text} (hNe : word ≠ [])
    (hWord : ∀ c ∈ word, isBlank c = false) (hRest : rest.head?.all isBlank = true) :
    words (word ++ rest) = word :: words rest := by
  induction word with
  | nil => exact absurd rfl hNe
  | cons c word ih =>
      have hc : ¬ isBlank c = true := by simp [hWord c (by simp)]
      rw [List.cons_append, words, if_neg hc]
      cases word with
      | nil => rw [List.nil_append, if_pos hRest]
      | cons d word =>
          have hd : isBlank d = false := hWord d (by simp)
          have hTail := ih (by simp) fun e he => hWord e (List.mem_cons_of_mem _ he)
          rw [if_neg (by simp [hd]), hTail]
          rfl

theorem words_append_of_blank {gap : Text} (hGap : ∀ c ∈ gap, isBlank c = true) (s : Text) :
    words (gap ++ s) = words s := by
  induction gap with
  | nil => rfl
  | cons c gap ih =>
      rw [List.cons_append, words, if_pos (hGap c (by simp))]
      exact ih fun d hd => hGap d (List.mem_cons_of_mem _ hd)

/-- A text of blanks has no words, and neither has the empty one. -/
theorem words_of_blank {s : Text} (h : ∀ c ∈ s, isBlank c = true) : words s = [] := by
  simpa [words] using words_append_of_blank h []

theorem words_trimStart (s : Text) : words (trimStart s) = words s := by
  obtain ⟨gap, hGap, hSplit⟩ := exists_append_trimStart s
  conv_rhs => rw [hSplit]
  exact (words_append_of_blank hGap _).symm

/-- Induction over a text word by word: it is blank, or it has a first word and
a rest that a blank begins. The induction is on the length, since the rest is no
tail of the text as a list. -/
theorem induction_on_words {motive : Text → Prop} (s : Text)
    (blank : ∀ s, (∀ c ∈ s, isBlank c = true) → motive s)
    (word : ∀ gap word rest, (∀ c ∈ gap, isBlank c = true) → word ≠ [] →
      (∀ c ∈ word, isBlank c = false) → rest.head?.all isBlank = true → motive rest →
      motive (gap ++ (word ++ rest))) : motive s := by
  induction hLength : s.length using Nat.strong_induction_on generalizing s with
  | _ n ih =>
    obtain ⟨gap, hGap, hSplit⟩ := exists_append_trimStart s
    have hRun : trimStart s = firstRun (trimStart s) ++ (trimStart s).dropWhile (!isBlank ·) :=
      List.takeWhile_append_dropWhile.symm
    by_cases hNil : firstRun (trimStart s) = []
    · rw [← firstWord_eq_firstRun] at hNil
      exact blank s (firstWord_eq_nil_iff.mp hNil)
    · have hCount := congrArg List.length (hSplit.trans (congrArg (gap ++ ·) hRun))
      have hPositive := List.length_pos_iff.mpr hNil
      simp only [List.length_append] at hCount
      have hStep := word gap _ _ hGap hNil (fun c hc => by simpa using List.mem_takeWhile_imp hc)
        (by simpa using all_head?_dropWhile (!isBlank ·) (trimStart s)) (ih _ (by omega) _ rfl)
      rwa [← hRun, ← hSplit] at hStep

/-- A blank divides the words before it from those after it, so no word goes
across it. -/
theorem words_append_cons {c : Char} (hc : isBlank c = true) (s t : Text) :
    words (s ++ c :: t) = words s ++ words t := by
  have hBlank : words (c :: t) = words t := by rw [words, if_pos hc]
  induction s using induction_on_words with
  | blank s h => rw [words_append_of_blank h, words_of_blank h, hBlank, List.nil_append]
  | word gap word rest hGap hNe hWord hRest ih =>
      have hMore : (rest ++ c :: t).head?.all isBlank = true := all_head?_append hRest hc
      rw [List.append_assoc, List.append_assoc, words_append_of_blank hGap,
        words_append_of_blank hGap, words_append hNe hWord hMore, words_append hNe hWord hRest,
        ih, List.cons_append]

/-- Blanks at the ends make no words and take none away. -/
theorem words_trim (s : Text) : words (trim s) = words s := by
  obtain ⟨gap, trail, hGap, hTrail, hSplit⟩ := exists_trim_append s
  conv_rhs => rw [hSplit]
  rw [words_append_of_blank hGap]
  cases trail with
  | nil => rw [List.append_nil]
  | cons c trail =>
      rw [words_append_cons (hTrail c (by simp)),
        words_of_blank fun d hd => hTrail d (List.mem_cons_of_mem _ hd), List.append_nil]

/-- Words joined by single spaces come apart again. The empty text is no word,
and a word with a blank in it would come apart further. -/
theorem words_join {pieces : List Text} (hNe : ∀ s ∈ pieces, s ≠ [])
    (hBlank : ∀ s ∈ pieces, ∀ c ∈ s, isBlank c = false) :
    words (join [' '] pieces) = pieces := by
  induction pieces with
  | nil => rfl
  | cons s rest ih =>
      have hWord : words s = [s] := by
        have hNil : ([] : Text).head?.all isBlank = true := rfl
        simpa [words] using words_append (hNe s (by simp)) (hBlank s (by simp)) hNil
      have hRest := ih (fun t ht => hNe t (by simp [ht])) fun t ht => hBlank t (by simp [ht])
      cases rest with
      | nil => exact hWord
      | cons t rest =>
          rw [join, List.append_assoc, List.singleton_append, words_append_cons isBlank_space,
            hWord, hRest, List.singleton_append]

/-- The words of a text are its runs of characters between blanks or ends. A run
is taken as a whole: on both sides of it there is a blank or an end. -/
theorem mem_words_iff {s word : Text} :
    word ∈ words s ↔ word ≠ [] ∧ (∀ c ∈ word, isBlank c = false) ∧
      ∃ before after : Text, s = before ++ (word ++ after) ∧
        before.getLast?.all isBlank = true ∧ after.head?.all isBlank = true := by
  constructor
  · intro h
    induction s using induction_on_words with
    | blank s hBlank =>
        rw [words_of_blank hBlank] at h
        simp at h
    | word gap first rest hGap hNe hFirst hRest ih =>
        rw [words_append_of_blank hGap, words_append hNe hFirst hRest] at h
        rcases List.mem_cons.mp h with rfl | h
        · refine ⟨hNe, hFirst, gap, rest, rfl, ?_, hRest⟩
          cases hLast : gap.getLast? with
          | none => rfl
          | some c => simpa using hGap c (List.mem_of_getLast? hLast)
        · obtain ⟨hSome, hWord, before, after, rfl, hBefore, hAfter⟩ := ih h
          refine ⟨hSome, hWord, gap ++ (first ++ before), after, by simp, ?_, hAfter⟩
          cases before with
          | nil =>
              -- the rest begins with a blank, and a word with another character
              obtain ⟨c, cs, rfl⟩ := List.exists_cons_of_ne_nil hSome
              simp [hWord c (by simp)] at hRest
          | cons d before =>
              rw [← List.append_assoc, List.getLast?_append_cons]
              exact hBefore
  · rintro ⟨hNe, hWord, before, after, rfl, hBefore, hAfter⟩
    have hHere : word ∈ words (word ++ after) := by
      rw [words_append hNe hWord hAfter]
      simp
    rcases List.eq_nil_or_concat' before with rfl | ⟨front, c, rfl⟩
    · exact hHere
    · have hc : isBlank c = true := by simpa using hBefore
      rw [List.append_assoc, List.singleton_append, words_append_cons hc]
      exact List.mem_append_right _ hHere

/-- A search that sees nothing beyond the next blank succeeds in a text where it
succeeds in one of the words. Both sides range over all places, in the text and
in its words. -/
theorem exists_suffix_iff_exists_mem_words {found : Text → Bool} {s : Text}
    (hNil : found [] = false) (hRun : ∀ e, found e = found (firstRun e)) :
    (∃ e, e <:+ s ∧ found e = true) ↔
      ∃ word ∈ words s, ∃ e, e <:+ word ∧ found e = true := by
  constructor
  · rintro ⟨e, ⟨front, rfl⟩, hFound⟩
    rw [hRun] at hFound
    have hNe : firstRun e ≠ [] := by
      intro hEmpty
      rw [hEmpty, hNil] at hFound
      simp at hFound
    -- the word begins after the last blank in front of the place
    refine ⟨front.rtakeWhile (!isBlank ·) ++ firstRun e, mem_words_iff.mpr ⟨by simp [hNe], ?_,
      front.rdropWhile (!isBlank ·), e.dropWhile (!isBlank ·), ?_, ?_, ?_⟩, firstRun e,
      List.suffix_append _ _, hFound⟩
    · intro c hc
      rcases List.mem_append.mp hc with hc | hc
      · simpa using List.mem_rtakeWhile_imp hc
      · simpa using List.mem_takeWhile_imp hc
    · rw [firstRun, List.append_assoc, List.takeWhile_append_dropWhile, ← List.append_assoc,
        List.rdropWhile_append_rtakeWhile]
    · rw [List.rdropWhile, List.getLast?_reverse]
      simpa using all_head?_dropWhile (!isBlank ·) front.reverse
    · simpa using all_head?_dropWhile (!isBlank ·) e
  · rintro ⟨word, hMem, e, ⟨front, rfl⟩, hFound⟩
    obtain ⟨-, hWord, before, after, rfl, -, hAfter⟩ := mem_words_iff.mp hMem
    have hEnd : ∀ c ∈ e, isBlank c = false := fun c hc => hWord c (List.mem_append_right _ hc)
    refine ⟨e ++ after, ⟨before ++ front, by simp⟩, ?_⟩
    rwa [hRun, firstRun_append hEnd hAfter]

end Drydock.Text
