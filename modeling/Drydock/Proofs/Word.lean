import Drydock.Proofs.Text
import Drydock.Text.Word

/-! Searches that go by the character before a place: at the beginning of a
word, or after a blank. `anyAfter` is their common form, and what it finds is a
split of the text. -/
namespace Drydock.Text

/-- Whether `found` holds of an ending that comes right after a character which
is `ok`. `start` tells whether the text itself counts. -/
def anyAfter (ok : Char → Bool) (found : Text → Bool) (start : Bool) : Text → Bool
  | [] => start && found []
  | c :: cs => (start && found (c :: cs)) || anyAfter ok found (ok c) cs

/-- Whether the place after a text is `ok`, given whether the place before it
is. -/
def okAfter (ok : Char → Bool) (start : Bool) (front : Text) : Bool :=
  (front.getLast?.map ok).getD start

section Scan

variable {ok : Char → Bool} {found : Text → Bool} {start : Bool}

theorem okAfter_cons (c : Char) (front : Text) :
    okAfter ok start (c :: front) = okAfter ok (ok c) front := by
  cases hLast : front.getLast? with
  | none => simp [okAfter, List.getLast?_cons, hLast]
  | some d => simp [okAfter, List.getLast?_cons, hLast]

/-- Whether a place behind a text counts is settled by the last character before
it, and by `start` only where there is none. -/
theorem okAfter_append (first second : Text) :
    okAfter ok start (first ++ second) = okAfter ok (okAfter ok start first) second := by
  induction first generalizing start with
  | nil => rfl
  | cons c first ih => rw [List.cons_append, okAfter_cons, okAfter_cons, ih]

/-- What is looked for stands behind some part of the text, at a place that
counts. This says the search as one split of the text. -/
theorem anyAfter_iff {s : Text} :
    anyAfter ok found start s = true ↔
      ∃ front rest, s = front ++ rest ∧ okAfter ok start front = true ∧ found rest = true := by
  induction s generalizing start with
  | nil =>
      rw [anyAfter, Bool.and_eq_true]
      constructor
      · rintro ⟨hStart, hFound⟩
        exact ⟨[], [], rfl, hStart, hFound⟩
      · rintro ⟨front, rest, hSplit, hStart, hFound⟩
        obtain ⟨rfl, rfl⟩ := List.append_eq_nil_iff.mp hSplit.symm
        exact ⟨hStart, hFound⟩
  | cons c cs ih =>
      rw [anyAfter, Bool.or_eq_true, Bool.and_eq_true, ih]
      constructor
      · rintro (⟨hStart, hFound⟩ | ⟨front, rest, rfl, hOk, hFound⟩)
        · exact ⟨[], c :: cs, rfl, hStart, hFound⟩
        · exact ⟨c :: front, rest, rfl, by rwa [okAfter_cons], hFound⟩
      · rintro ⟨front, rest, hSplit, hOk, hFound⟩
        cases front with
        | nil =>
            rw [List.nil_append] at hSplit
            subst hSplit
            exact .inl ⟨hOk, hFound⟩
        | cons d front =>
            obtain ⟨rfl, rfl⟩ := List.cons.inj hSplit
            exact .inr ⟨front, rest, rfl, by rwa [okAfter_cons] at hOk, hFound⟩

/-- What is found in a text is found with more text in front, provided the place
where the text begins counts after it. -/
theorem anyAfter_append {front s : Text}
    (h : anyAfter ok found (okAfter ok start front) s = true) :
    anyAfter ok found start (front ++ s) = true := by
  obtain ⟨before, rest, rfl, hOk, hFound⟩ := anyAfter_iff.mp h
  refine anyAfter_iff.mpr ⟨front ++ before, rest, by simp, ?_, hFound⟩
  rwa [okAfter_append]

/-- Nothing is lost where the text itself is allowed to count. -/
theorem anyAfter_mono {start' : Bool} {s : Text} (hStart : start = true → start' = true)
    (h : anyAfter ok found start s = true) : anyAfter ok found start' s = true := by
  cases s with
  | nil =>
      rw [anyAfter, Bool.and_eq_true] at h ⊢
      exact ⟨hStart h.1, h.2⟩
  | cons c s =>
      rw [anyAfter, Bool.or_eq_true, Bool.and_eq_true] at h ⊢
      exact h.imp_left fun hHere => ⟨hStart hHere.1, hHere.2⟩

/-- What is looked for begins with a certain letter. -/
structure BeginsWith (found : Text → Bool) (first : Char) : Prop where
  isAlpha : first.isAlpha = true
  nil : found [] = false
  head : ∀ {c s}, found (c :: s) = true → c = first

/-- Nothing is found where that letter does not stand, so a text without it in
front can be left out of the search. -/
theorem BeginsWith.anyAfter_of_append {first : Char} {front s : Text}
    (hBegins : BeginsWith found first) (hNone : first ∉ front)
    (h : anyAfter ok found start (front ++ s) = true) :
    anyAfter ok found (okAfter ok start front) s = true := by
  induction front generalizing start with
  | nil => exact h
  | cons c front ih =>
      rw [List.mem_cons, not_or] at hNone
      have hHere : found (c :: (front ++ s)) = false := by
        rw [← Bool.not_eq_true]
        exact fun hFound => hNone.1 (hBegins.head hFound).symm
      rw [List.cons_append, anyAfter, hHere, Bool.and_false, Bool.false_or] at h
      rw [okAfter_cons]
      exact ih hNone.2 h

/-- Nothing is found in a text without that letter. -/
theorem BeginsWith.mem_of_anyAfter {first : Char} {s : Text} (hBegins : BeginsWith found first)
    (h : anyAfter ok found start s = true) : first ∈ s := by
  by_contra hNone
  rw [← List.append_nil s] at h
  have hEnd := hBegins.anyAfter_of_append hNone h
  simp [anyAfter, hBegins.nil] at hEnd

end Scan

/-- The search at beginnings of words is the general one, where a place counts
after every character that is not part of a word. -/
theorem anyAtWordStart_eq (found : Text → Bool) (inWord : Bool) (s : Text) :
    anyAtWordStart found inWord s = anyAfter (!isWord ·) found (!inWord) s := by
  induction s generalizing inWord with
  | nil => rfl
  | cons c cs ih => rw [anyAtWordStart, anyAfter, ih]

/-- What is looked for at the beginning of a word has no word character before
it. -/
theorem anyAtWordStart_iff {found : Text → Bool} {s : Text} :
    anyAtWordStart found false s = true ↔
      ∃ front rest, s = front ++ rest ∧ front.getLast?.all (!isWord ·) = true ∧
        found rest = true := by
  rw [anyAtWordStart_eq, anyAfter_iff]
  refine exists_congr fun front => exists_congr fun rest => ?_
  cases hLast : front.getLast? with
  | none => simp [okAfter, hLast]
  | some c => simp [okAfter, hLast]

/-- The blanks beyond U+007F lie between the ranges of word characters. -/
theorem inRanges_wordRanges_of_blank :
    ∀ n ∈ [0x85, 0xA0, 0x1680, 0x2028, 0x2029, 0x202F, 0x205F, 0x3000] ++
      List.range' 0x2000 11, inRanges n wordRanges = false := by
  decide +kernel

/-- A blank is no character of a word. In ASCII the code points are compared,
and beyond it each blank is looked up in the table of ranges. -/
theorem isWord_of_isBlank {c : Char} (h : isBlank c = true) : isWord c = false := by
  simp only [isBlank, Bool.or_eq_true, Bool.and_eq_true, decide_eq_true_eq, beq_iff_eq] at h
  rw [isWord]
  by_cases hAscii : c.toNat < 0x80
  · have hLow : c.toNat ≤ 32 := by omega
    have hUnderscore : c ≠ '_' := by
      rintro rfl
      revert hLow
      decide
    have hAlphanum : c.isAlphanum = false := by
      simp only [Char.isAlphanum, Char.isAlpha, Char.isUpper, Char.isLower, Char.isDigit,
        UInt32.le_iff_toNat_le]
      simp
      omega
    rw [if_pos hAscii, hAlphanum]
    simpa using hUnderscore
  · rw [if_neg hAscii]
    apply inRanges_wordRanges_of_blank
    simp only [List.mem_append, List.mem_cons, List.not_mem_nil, or_false, List.mem_range'_1]
    omega

/-- The letters `A` to `Z` in either case are characters of words. -/
theorem isWord_of_isAlpha {c : Char} (h : c.isAlpha = true) : isWord c = true := by
  have hBounds := isAlpha_bounds h
  rw [isWord, if_pos (by omega)]
  simp [Char.isAlphanum, h]

/-- A text ends like its last part, and like the part before if that is
empty. -/
theorem all_getLast?_append {ok : Char → Bool} {front s : Text} (h : s.getLast?.all ok = true)
    (hFront : s = [] → front.getLast?.all ok = true) : (front ++ s).getLast?.all ok = true := by
  cases hLast : s.getLast? with
  | none =>
      obtain rfl := List.getLast?_eq_none_iff.mp hLast
      simpa using hFront rfl
  | some c => simpa [List.getLast?_append, hLast] using h

/-- A text that ends in a blank or is empty ends no word. -/
theorem all_not_isWord_of_blank {last? : Option Char} (h : last?.all isBlank = true) :
    last?.all (!isWord ·) = true := by
  cases last? with
  | none => rfl
  | some c =>
      have hc : isBlank c = true := by simpa using h
      simp [isWord_of_isBlank hc]

end Drydock.Text
