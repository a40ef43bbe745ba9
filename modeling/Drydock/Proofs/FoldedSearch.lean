import Drydock.Proofs.Block

/-! Searches without regard to case. Only letters have other characters that
fold to them, so signs and blanks are found as they are. What a search looks for
ends before a blank where it has none in it, and it stands in a piece between
commas where it has no comma. -/
namespace Drydock

namespace Text

/-- Two letters apart, folding is nothing but taking the small letter. What
folds to neither `s` nor `k` is not one of the two characters from beyond
ASCII. -/
theorem fold_eq_toLower {c : Char} (hS : fold c ≠ 's') (hK : fold c ≠ 'k') :
    fold c = c.toLower := by
  have hLong : c ≠ 'ſ' := fun h => hS (by rw [h]; rfl)
  have hKelvin : c ≠ 'K' := fun h => hK (by rw [h]; rfl)
  rw [fold, if_neg hLong, if_neg hKelvin]

/-- What folds to something else than a letter is that itself. -/
theorem fold_of_not_isLower {c : Char} (h : (fold c).isLower = false) : fold c = c := by
  have hLower : fold c = c.toLower := by
    apply fold_eq_toLower
    · intro hs
      simp [hs] at h
    · intro hk
      simp [hk] at h
  rw [hLower, Char.isLower_toLower_eq_isAlpha] at h
  rw [hLower]
  apply Char.toLower_eq_of_not_isUpper
  intro hUpper
  simp [Char.isAlpha, hUpper] at h

/-- Small letters stand for themselves, so a word in small letters is found
where it is written. -/
theorem fold_of_isLower {c : Char} (h : c.isLower = true) : fold c = c := by
  have hAlpha : c.isAlpha = true := by simp [Char.isAlpha, h]
  have hBounds := isAlpha_bounds hAlpha
  rw [fold_of_lt (by omega)]
  exact Char.toLower_eq_of_not_isUpper (Char.not_isUpper_of_isLower h)

theorem fold_of_isAlpha {c : Char} (h : c.isAlpha = true) : fold c = c.toLower := by
  have hBounds := isAlpha_bounds h
  exact fold_of_lt (by omega)

/-- Blanks fold to themselves: neither of the two characters that fold from
beyond ASCII is blank. -/
theorem fold_of_isBlank {c : Char} (h : isBlank c = true) : fold c = c := by
  apply fold_of_not_isLower
  rw [← Bool.not_eq_true]
  intro hLower
  unfold fold at hLower
  split at hLower
  · rename_i hLong
    rw [hLong] at h
    exact absurd h (by decide)
  · split at hLower
    · rename_i hKelvin
      rw [hKelvin] at h
      exact absurd h (by decide)
    · rw [Char.isLower_toLower_eq_isAlpha] at hLower
      simp [isBlank_of_isAlpha hLower] at h

/-- What is read without blanks is read before the next one. So the text after
the first blank may be left out. -/
theorem afterFolded?_firstRun {lead : Text} (hLead : ∀ c ∈ lead, isBlank c = false) (s : Text) :
    afterFolded? lead (firstRun s) = (afterFolded? lead s).map firstRun := by
  induction lead generalizing s with
  | nil => simp [afterFolded?]
  | cons p lead ih =>
      cases s with
      | nil => rfl
      | cons c s =>
          cases hc : isBlank c with
          | true =>
              have hOther : fold c ≠ p := by
                rw [fold_of_isBlank hc]
                intro hEq
                simp [hEq, hLead p (by simp)] at hc
              simp [firstRun, hc, afterFolded?, hOther]
          | false =>
              have hTail := ih (fun d hd => hLead d (List.mem_cons_of_mem _ hd)) s
              rw [firstRun] at hTail
              rw [firstRun, List.takeWhile_cons_of_pos (by simp [hc]), afterFolded?, afterFolded?,
                hTail]
              split <;> rfl

/-- A text ends in another, up to case, where some last part of it folds to the
other. -/
theorem endsFolded_iff {tail s : Text} :
    endsFolded tail s = true ↔ ∃ front last : Text, s = front ++ last ∧ last.map fold = tail := by
  rw [endsFolded, List.any_eq_true]
  constructor
  · rintro ⟨e, hMem, hEnd⟩
    obtain ⟨front, rfl⟩ := mem_endings_iff.mp hMem
    obtain ⟨last, rfl, hFold⟩ := afterFolded?_eq_some_iff.mp (beq_iff_eq.mp hEnd)
    exact ⟨front, last, by rw [List.append_nil], hFold⟩
  · rintro ⟨front, last, rfl, hFold⟩
    refine ⟨last, mem_endings_iff.mpr (List.suffix_append _ _), beq_iff_eq.mpr ?_⟩
    exact afterFolded?_eq_some_iff.mpr ⟨last, by rw [List.append_nil], hFold⟩

/-- A search on one line goes over all endings of the text, as long as there is
no line feed to stop at. -/
theorem anyInLine_iff {found : Text → Bool} {s : Text} (h : '\n' ∉ s) :
    anyInLine found s = true ↔ ∃ e, e <:+ s ∧ found e = true := by
  induction s with
  | nil => simp [anyInLine]
  | cons c s ih =>
      have hc : c ≠ '\n' := fun hEq => h (by simp [hEq])
      rw [anyInLine, Bool.or_eq_true, Bool.and_eq_true, ih fun hMem => h (by simp [hMem])]
      simp [List.suffix_cons_iff, hc, or_and_right, exists_or]

/-- Nothing is found exactly where no ending of the text begins with what is
looked for. -/
theorem afterFirstFolded?_eq_none_iff {part s : Text} :
    afterFirstFolded? part s = none ↔ ∀ e, e <:+ s → afterFolded? part e = none := by
  induction s with
  | nil => simp [afterFirstFolded?]
  | cons c s ih =>
      rw [afterFirstFolded?]
      cases hHere : afterFolded? part (c :: s) with
      | none => simp [List.suffix_cons_iff, ih, hHere]
      | some rest =>
          refine iff_of_false (by simp) fun hNone => ?_
          simp [hNone _ List.suffix_rfl] at hHere

/-- What stands at the front is the first to be found. -/
theorem afterFirstFolded?_of_afterFolded? {part s rest : Text}
    (h : afterFolded? part s = some rest) : afterFirstFolded? part s = some rest := by
  cases s with
  | nil => exact h
  | cons c s => rw [afterFirstFolded?, h]

/-- Pieces that are joined by a separator come apart again if none of them has
the separator in it. There has to be at least one, since the empty text has one
piece. -/
theorem splitAt_join {sep : Char} {pieces : List Text} (hNe : pieces ≠ [])
    (h : ∀ piece ∈ pieces, sep ∉ piece) : splitAt sep (join [sep] pieces) = pieces := by
  induction pieces with
  | nil => exact absurd rfl hNe
  | cons piece rest ih =>
      cases rest with
      | nil => exact splitAt_of_not_mem (h piece (by simp))
      | cons next rest =>
          rw [join, List.append_assoc, List.singleton_append,
            splitAt_append (h piece (by simp)),
            ih (by simp) fun other hOther => h other (List.mem_cons_of_mem _ hOther)]

/-- A text without the separator that stands in the joined pieces stands in one
of them. -/
theorem exists_infix_of_infix_join {sep : Char} {part : Text} {pieces : List Text}
    (hPart : part ≠ []) (hSep : sep ∉ part) (h : part <:+: join [sep] pieces) :
    ∃ piece ∈ pieces, part <:+: piece := by
  induction pieces with
  | nil => exact absurd (List.infix_nil.mp h) hPart
  | cons piece rest ih =>
      cases rest with
      | nil => exact ⟨piece, by simp, h⟩
      | cons next rest =>
          rw [join, List.append_assoc, List.singleton_append] at h
          rcases infix_of_infix_append_cons h hSep with hHere | hLater
          · exact ⟨piece, by simp, hHere⟩
          · obtain ⟨other, hMem, hOther⟩ := ih hLater
            exact ⟨other, List.mem_cons_of_mem _ hMem, hOther⟩

section Pieces

variable {part piece : Text}

/-- What has no comma is read from a piece without looking at the comma after it
or beyond. -/
theorem isSome_afterFolded?_append_comma (hPart : ',' ∉ part) (hPiece : ',' ∉ piece)
    (rest : Text) :
    (afterFolded? part (piece ++ ',' :: rest)).isSome = (afterFolded? part piece).isSome := by
  induction part generalizing piece with
  | nil => simp [afterFolded?]
  | cons p part ih =>
      rw [List.mem_cons, not_or] at hPart
      cases piece with
      | nil =>
          have hComma : fold ',' ≠ p := hPart.1
          simp [afterFolded?, hComma]
      | cons c piece =>
          rw [List.mem_cons, not_or] at hPiece
          rw [List.cons_append, afterFolded?, afterFolded?]
          split
          · exact ih hPart.2 hPiece.2
          · rfl

/-- What begins with a comma is not found before the first one. -/
theorem afterFirstFolded?_append_comma (part : Text) (hPiece : ',' ∉ piece) (rest : Text) :
    afterFirstFolded? (',' :: part) (piece ++ rest) = afterFirstFolded? (',' :: part) rest := by
  induction piece with
  | nil => rfl
  | cons c piece ih =>
      rw [List.mem_cons, not_or] at hPiece
      have hOther : fold c ≠ ',' := by
        intro hFold
        have hSelf := fold_of_not_isLower (c := c) (by rw [hFold]; rfl)
        exact hPiece.1 (hFold.symm.trans hSelf)
      rw [List.cons_append, afterFirstFolded?, afterFolded?, if_neg hOther]
      exact ih hPiece.2

/-- A text begins one of the pieces between commas where it begins the whole or
comes right after a comma. -/
theorem isSome_or_isSome_join {pieces : List Text} (part : Text) (hPart : ',' ∉ part)
    (hNe : pieces ≠ []) (hPieces : ∀ piece ∈ pieces, ',' ∉ piece) :
    ((afterFolded? part (join [','] pieces)).isSome ||
        (afterFirstFolded? (',' :: part) (join [','] pieces)).isSome) =
      pieces.any (fun piece => (afterFolded? part piece).isSome) := by
  have hOne : ∀ piece ∈ pieces, (afterFirstFolded? (',' :: part) piece).isSome = false := by
    intro piece hMem
    have hNone := afterFirstFolded?_append_comma part (hPieces piece hMem) []
    rw [List.append_nil] at hNone
    rw [hNone]
    rfl
  induction pieces with
  | nil => exact absurd rfl hNe
  | cons piece rest ih =>
      have hPiece := hPieces piece (by simp)
      cases rest with
      | nil => simp [join, hOne piece (by simp)]
      | cons next rest =>
          have hRest := ih (by simp)
            (fun other hOther => hPieces other (List.mem_cons_of_mem _ hOther))
            (fun other hOther => hOne other (List.mem_cons_of_mem _ hOther))
          have hComma : fold ',' = ',' := rfl
          rw [join, List.append_assoc, List.singleton_append,
            isSome_afterFolded?_append_comma hPart hPiece,
            afterFirstFolded?_append_comma part hPiece, List.any_cons, ← hRest, afterFirstFolded?,
            afterFolded?, if_pos hComma]
          cases afterFolded? part (join [','] (next :: rest)) with
          | none => simp
          | some found => simp

end Pieces

end Text

end Drydock
