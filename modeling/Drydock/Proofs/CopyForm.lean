import Drydock.Proofs.CopyOrder
import Drydock.Proofs.ListSyntax
import Drydock.Proofs.Words

/-! COPY with its operands in a list of strings. The list is kept as text, and
the words of the text begin and end with signs of the list, so none of them is a
path that the order of COPY instructions depends on. The same operands by
themselves are such paths. -/
namespace Drydock

/-- A path as an operand of COPY that needs no quotes and is no option. -/
structure Copy.IsOperand (path : Text) : Prop where
  ne_nil : path ≠ []
  isBlank_eq_false : ∀ c ∈ path, Text.isBlank c = false
  quote_notMem : '"' ∉ path
  backslash_notMem : '\\' ∉ path
  not_option : ¬ "--".toList <+: path

namespace ExecForm

def signs : List Char :=
  ['[', ']', '"', ',']

theorem isAlpha_of_mem_signs : ∀ c ∈ signs, c.isAlpha = false := by
  simp [signs, Char.isAlpha, Char.isUpper, Char.isLower]

/-- Beside a blank, and at either end, there is nothing but signs and blanks. -/
def Fenced (s : Text) : Prop :=
  ∀ before c after, s = before ++ c :: after → Text.isBlank c = false →
    before.getLast?.all Text.isBlank = true ∨ after.head?.all Text.isBlank = true → c ∈ signs

theorem fenced_of_blank {s : Text} (h : ∀ c ∈ s, Text.isBlank c = true) : Fenced s := by
  intro before c after hSplit hc
  have hBlank := h c (by simp [hSplit])
  rw [hc] at hBlank
  nomatch hBlank

theorem fenced_sign {c : Char} (h : c ∈ signs) : Fenced [c] := by
  intro before d after hSplit _ _
  have hMem : d ∈ [c] := by simp [hSplit]
  rwa [List.mem_singleton.mp hMem]

/-- Fenced texts can be put together. At the seam each brings a sign or a blank,
or has nothing there. -/
theorem Fenced.append {s t : Text} (hs : Fenced s) (ht : Fenced t) : Fenced (s ++ t) := by
  intro before c after hSplit hc hBeside
  rcases List.append_eq_append_iff.mp hSplit with ⟨more, rfl, rfl⟩ | ⟨more, rfl, hMore⟩
  · -- the character is in the second text
    apply ht more c after rfl hc
    refine hBeside.imp_left fun hBefore => ?_
    cases more with
    | nil => rfl
    | cons d more => rwa [List.getLast?_append_cons] at hBefore
  · cases more with
    | nil =>
        apply ht [] c after hMore.symm hc
        exact .inl rfl
    | cons d more =>
        obtain ⟨rfl, rfl⟩ := List.cons.inj hMore
        apply hs before c more rfl hc
        refine hBeside.imp_right fun hAfter => ?_
        cases more with
        | nil => rfl
        | cons e more => exact hAfter

/-- What is in quotes is fenced where it has no blanks in it. -/
theorem fenced_quoted {item : Text} (h : ∀ c ∈ item, Text.isBlank c = false) :
    Fenced ('"' :: (item ++ ['"'])) := by
  have hNone : ∀ c ∈ '"' :: (item ++ ['"']), ¬ Text.isBlank c = true := by
    intro c hc hBlank
    rcases List.mem_cons.mp hc with rfl | hc
    · revert hBlank
      decide
    · rcases List.mem_append.mp hc with hc | hc
      · rw [h c hc] at hBlank
        nomatch hBlank
      · rw [List.mem_singleton.mp hc] at hBlank
        revert hBlank
        decide
  intro before c after hSplit _ hBeside
  rw [hSplit] at hNone
  rcases hBeside with hBefore | hAfter
  · cases hLast : before.getLast? with
    | none =>
        rw [List.getLast?_eq_none_iff.mp hLast] at hSplit
        rw [← (List.cons.inj hSplit).1]
        decide
    | some d =>
        rw [hLast] at hBefore
        exact absurd hBefore (hNone d (List.mem_append_left _ (List.mem_of_getLast? hLast)))
  · cases after with
    | nil =>
        have hEnd := congrArg List.getLast? hSplit
        rw [← List.cons_append, List.getLast?_concat, List.getLast?_concat] at hEnd
        rw [← Option.some.inj hEnd]
        decide
    | cons d after => exact absurd hAfter (hNone d (by simp))

/-- The commas between fenced pieces are signs themselves. -/
theorem fenced_join {pieces : List Text} (h : ∀ s ∈ pieces, Fenced s) :
    Fenced (Text.join [','] pieces) := by
  induction pieces with
  | nil => exact fenced_of_blank (by simp [Text.join])
  | cons s rest ih =>
      have hRest := ih fun t ht => h t (by simp [ht])
      cases rest with
      | nil => exact h s (by simp)
      | cons t rest =>
          rw [Text.join]
          exact ((h s (by simp)).append (fenced_sign (by simp [signs]))).append hRest

/-- Every word of a fenced text begins and ends with a sign, so it is no path by
itself. -/
theorem Fenced.signs_of_mem_words {s word : Text} (h : Fenced s) (hWord : word ∈ Text.words s) :
    ∃ first ∈ signs, ∃ last ∈ signs, word.head? = some first ∧ word.getLast? = some last := by
  obtain ⟨hNe, hBlank, before, after, rfl, hBefore, hAfter⟩ := Text.mem_words_iff.mp hWord
  refine ⟨word.head hNe, ?_, word.getLast hNe, ?_, List.head?_eq_some_head hNe,
    List.getLast?_eq_some_getLast hNe⟩
  · apply h before _ (word.tail ++ after) _ (hBlank _ (List.head_mem hNe)) (.inl hBefore)
    rw [← List.cons_append, List.cons_head_tail]
  · apply h (before ++ word.dropLast) _ after _ (hBlank _ (List.getLast_mem hNe)) (.inr hAfter)
    calc before ++ (word ++ after)
        = before ++ ((word.dropLast ++ [word.getLast hNe]) ++ after) := by
          rw [List.dropLast_append_getLast]
      _ = before ++ word.dropLast ++ word.getLast hNe :: after := by simp

/-- What stands for text without blanks, quotes and backslashes is that text. No
escape stands for a character that could be written plainly here. -/
theorem Piece.text_eq_meaning (p : Piece) (hBlank : ∀ c ∈ p.meaning, Text.isBlank c = false)
    (hQuote : '"' ∉ p.meaning) (hBackslash : '\\' ∉ p.meaning) : p.text = p.meaning := by
  cases p with
  | plain c => rfl
  | escape c =>
      exfalso
      rw [meaning] at hBlank hQuote hBackslash
      split_ifs at hBlank hQuote hBackslash with hFeed hTab hReturn hSelf
      · simp [Text.isBlank] at hBlank
      · simp [Text.isBlank] at hBlank
      · simp [Text.isBlank] at hBlank
      · rcases hSelf with rfl | rfl
        · simp at hBackslash
        · simp at hQuote
      · simp at hBackslash

/-- An operand is written in a list as it is. -/
theorem Element.text_eq (e : Element) (h : Copy.IsOperand e.meaning) :
    e.text = e.before ++ ('"' :: (e.meaning ++ ['"']) ++ e.after) := by
  have hPieces : e.pieces.flatMap Piece.text = e.meaning := by
    apply List.flatMap_congr
    intro p hp
    have hSub : ∀ c ∈ p.meaning, c ∈ e.meaning := fun c hc => List.mem_flatMap.mpr ⟨p, hp, hc⟩
    exact p.text_eq_meaning (fun c hc => h.isBlank_eq_false c (hSub c hc))
      (fun hMem => h.quote_notMem (hSub _ hMem)) (fun hMem => h.backslash_notMem (hSub _ hMem))
  rw [text, hPieces]
  simp

theorem isBlank_of_space_or_tab {gap : Text} (h : ∀ c ∈ gap, c = ' ' ∨ c = '\t') :
    ∀ c ∈ gap, Text.isBlank c = true := by
  intro c hc
  rcases h c hc with rfl | rfl
  · decide
  · decide

/-- The quotes around an operand fence it, since it has no blanks inside. -/
theorem Element.fenced_text (e : Element) (h : Copy.IsOperand e.meaning) : Fenced e.text := by
  rw [e.text_eq h]
  exact (fenced_of_blank (isBlank_of_space_or_tab e.isGap_before)).append
    ((fenced_quoted h.isBlank_eq_false).append
      (fenced_of_blank (isBlank_of_space_or_tab e.isGap_after)))

theorem Element.backslash_notMem_text (e : Element) (h : Copy.IsOperand e.meaning) :
    '\\' ∉ e.text := by
  have hGap : ∀ gap : Text, (∀ c ∈ gap, c = ' ' ∨ c = '\t') → '\\' ∉ gap :=
    fun gap hGap hMem => absurd (hGap _ hMem) (by decide)
  rw [e.text_eq h]
  simp [hGap _ e.isGap_before, hGap _ e.isGap_after, h.backslash_notMem]

namespace Listing

variable {l : Listing}

/-- A list of operands is fenced, with any gaps inside it. -/
theorem fenced_text (h : ∀ item ∈ l.items, Copy.IsOperand item) : Fenced l.text := by
  have hOpen : Fenced ['['] := fenced_sign (by decide)
  have hClose : Fenced [']'] := fenced_sign (by decide)
  cases l with
  | empty gap trail hGap hTrail =>
      exact hOpen.append ((fenced_of_blank (isBlank_of_space_or_tab hGap)).append
        (hClose.append (fenced_of_blank hTrail)))
  | elements first more trail hTrail =>
      refine hOpen.append ((fenced_join ?_).append (hClose.append (fenced_of_blank hTrail)))
      intro s hs
      obtain ⟨e, he, rfl⟩ := List.mem_map.mp hs
      exact e.fenced_text (h _ (List.mem_map_of_mem he))

/-- No escape is needed for operands, so a list of them does not continue its
line. -/
theorem backslash_notMem_text (h : ∀ item ∈ l.items, Copy.IsOperand item) : '\\' ∉ l.text := by
  have hBlank : ∀ gap : Text, (∀ c ∈ gap, Text.isBlank c = true) → '\\' ∉ gap :=
    fun gap hGap hMem => absurd (hGap _ hMem) (by decide)
  cases l with
  | empty gap trail hGap hTrail =>
      simp [text, hBlank gap (isBlank_of_space_or_tab hGap), hBlank trail hTrail]
  | elements first more trail hTrail =>
      have hJoin : '\\' ∉ Text.join [','] ((first :: more).map Element.text) := by
        apply Text.not_mem_join (by decide)
        intro s hs
        obtain ⟨e, he, rfl⟩ := List.mem_map.mp hs
        exact e.backslash_notMem_text (h _ (List.mem_map_of_mem he))
      simpa [text, hBlank trail hTrail] using hJoin

end Listing

end ExecForm

namespace Copy

section Words

variable {i : Instruction} {s : Text}

/-- The sources of a COPY that is kept as text: its words without the options
and without the last one. -/
theorem sources_of_text (h : i.args = .text s) :
    sources i = ((Text.words s).filter (!Text.startsWith "--".toList ·)).dropLast := by
  have hValue : i.value = s := by rw [Instruction.value, h, Arguments.flat]
  rw [sources, hValue]
  simp [h]

theorem fromStage_of_text (h : i.args = .text s) :
    fromStage i = (Text.words s).any (Text.startsWith "--from".toList) := by
  have hValue : i.value = s := by rw [Instruction.value, h, Arguments.flat]
  rw [fromStage, hValue]

/-- No word of a list is taken for the tree or for the path of a manifest. The
tree ends in a dot or a slash and a manifest in a letter, and none of these is a
sign. -/
theorem copiesTreeOrManifest_of_fenced (hArgs : i.args = .text (Text.trim s))
    (h : ExecForm.Fenced s) : copiesTreeOrManifest i = false := by
  have hWords : ∀ path ∈ sources i, path ∈ Text.words s := by
    intro path hPath
    rw [sources_of_text hArgs, Text.words_trim] at hPath
    exact (List.mem_filter.mp (List.mem_of_mem_dropLast hPath)).1
  have hTree : copiesTree i = false := by
    rw [copiesTree, Bool.and_eq_false_iff]
    right
    apply List.any_eq_false.mpr
    intro path hPath
    obtain ⟨first, hFirst, -, -, hHead, -⟩ := h.signs_of_mem_words (hWords path hPath)
    intro hDot
    rw [Bool.or_eq_true, decide_eq_true_eq, decide_eq_true_eq] at hDot
    rcases hDot with rfl | rfl
    · obtain rfl : '.' = first := Option.some.inj hHead
      exact absurd hFirst (by decide)
    · obtain rfl : '.' = first := Option.some.inj hHead
      exact absurd hFirst (by decide)
  have hManifest : copiesManifest i = false := by
    rw [copiesManifest, Bool.and_eq_false_iff]
    right
    apply List.any_eq_false.mpr
    intro path hPath
    obtain ⟨-, -, last, hLast, -, hEnd⟩ := h.signs_of_mem_words (hWords path hPath)
    have hAlpha : last.isAlpha = false := ExecForm.isAlpha_of_mem_signs last hLast
    have hStar : (last != '*') = true := by
      apply bne_iff_ne.mpr
      rintro rfl
      exact absurd hLast (by decide)
    obtain ⟨front, rfl⟩ := List.getLast?_eq_some_iff.mp hEnd
    -- without its stars the word still ends with the sign
    have hFilter : (front ++ [last]).filter (· != '*') = front.filter (· != '*') ++ [last] := by
      rw [List.filter_append, List.filter_singleton, hStar]
      rfl
    have hEnds : ∀ front : Text, ¬ isManifest (front ++ [last]) = true := by
      intro front hManifest
      have hLetter := isAlpha_of_isManifest hManifest
      rw [List.getLast?_concat, Option.any_some, hAlpha] at hLetter
      nomatch hLetter
    rw [Bool.or_eq_true, hFilter, not_or]
    exact ⟨hEnds _, hEnds _⟩
  rw [copiesTreeOrManifest, hTree, hManifest]
  rfl

/-- Operands by themselves are the words of the text, and all but the last are
sources. -/
theorem sources_of_operands {operands : List Text} (h : ∀ path ∈ operands, IsOperand path)
    (hArgs : i.args = .text (Text.trim (Text.join [' '] operands))) :
    sources i = operands.dropLast ∧ fromStage i = false := by
  have hWords : Text.words (Text.trim (Text.join [' '] operands)) = operands := by
    rw [Text.words_trim]
    exact Text.words_join (fun path hPath => (h path hPath).ne_nil)
      fun path hPath => (h path hPath).isBlank_eq_false
  constructor
  · rw [sources_of_text hArgs, hWords, List.filter_eq_self.mpr]
    intro path hPath
    rw [Bool.not_eq_true', ← Bool.not_eq_true, Text.startsWith_iff]
    exact (h path hPath).not_option
  · rw [fromStage_of_text hArgs, hWords]
    apply List.any_eq_false.mpr
    intro path hPath
    rw [Text.startsWith_iff]
    have hFrom : "--".toList <+: "--from".toList := by decide
    exact fun hStage => (h path hPath).not_option (hFrom.trans hStage)

end Words

end Copy

end Drydock
