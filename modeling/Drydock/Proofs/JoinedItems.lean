import Drydock.Proofs.ExecForm
import Drydock.Proofs.Word

/-! The items of a list of strings joined with spaces, beside the text they were
read from. Quotes, commas and gaps give way to single spaces and escapes to what
they stand for. What is searched for in the text at certain places is then found
in the joined items as well, and a word of the joined items stands in the
text. -/
namespace Drydock.ExecForm

/-- The text of a list from within an item on, with what remains there of the
joined items. -/
inductive Inside : Text → Text → Prop where
  | plain {c : Char} {raw value : Text} (hQuote : c ≠ '"') (hBackslash : c ≠ '\\')
      (hRest : Inside raw value) : Inside (c :: raw) (c :: value)
  | escape (c : Char) {raw value : Text} (hRest : Inside raw value) :
      Inside ('\\' :: c :: raw) (unescape c ++ value)
  | next {gap gap' raw value : Text} (hGap : ∀ c ∈ gap, isGap c = true)
      (hGap' : ∀ c ∈ gap', isGap c = true) (hRest : Inside raw value) :
      Inside ('"' :: (gap ++ ',' :: (gap' ++ '"' :: raw))) (' ' :: value)
  | last {rest : Text} (hRest : Closes rest) : Inside ('"' :: rest) []

theorem not_mem_of_isAlpha {gap : Text} {c : Char} (hGap : ∀ c ∈ gap, isGap c = true)
    (hc : c.isAlpha = true) : c ∉ gap := by
  intro hMem
  rcases isGap_iff.mp (hGap c hMem) with rfl | rfl
  · exact absurd hc (by decide)
  · exact absurd hc (by decide)

/-- No letter follows the last item, so nothing that begins with a letter is
found there. -/
theorem Closes.not_mem_of_isAlpha {rest : Text} {c : Char} (h : Closes rest)
    (hc : c.isAlpha = true) : c ∉ rest := by
  obtain ⟨hGap, hTrail⟩ := h
  have hBlank := Text.isBlank_of_isAlpha hc
  rw [List.mem_append, List.mem_cons]
  rintro (hMem | rfl | hMem)
  · exact ExecForm.not_mem_of_isAlpha hGap hc hMem
  · exact absurd hc (by decide)
  · simp [hTrail c hMem] at hBlank

/-- The text of an item, with what comes after it, goes along with the item and
what comes after that. -/
theorem Encodes.inside {raw item rest value : Text} (hItem : Encodes raw item)
    (hRest : Inside rest value) : Inside (raw ++ rest) (item ++ value) := by
  induction hItem with
  | nil => exact hRest
  | plain hQuote hBackslash _ ih => exact .plain hQuote hBackslash ih
  | escape c _ ih =>
      rw [List.append_assoc]
      exact .escape c ih

theorem Items.ne_nil {s : Text} {items : List Text} (h : Items s items) : items ≠ [] := by
  cases h <;> simp

/-- From the first quote on, the text of items goes along with the items joined
by spaces. -/
theorem Items.exists_inside {s : Text} {items : List Text} (h : Items s items) :
    ∃ gap raw, s = gap ++ '"' :: raw ∧ (∀ c ∈ gap, isGap c = true) ∧
      Inside raw (Text.join [' '] items) := by
  induction h with
  | @last gap raw item rest hGap hItem hRest =>
      have hInside := hItem.inside (.last hRest)
      exact ⟨gap, _, rfl, hGap, by simpa [Text.join] using hInside⟩
  | @more gap raw item gap' rest items hGap hItem hGap' hRest ih =>
      obtain ⟨lead, raw', hSplit, hLead, hInside⟩ := ih
      have hJoin : Text.join [' '] (item :: items) = item ++ ' ' :: Text.join [' '] items := by
        cases items with
        | nil => exact absurd rfl hRest.ne_nil
        | cons second items => simp [Text.join]
      refine ⟨gap, _, rfl, hGap, ?_⟩
      rw [hJoin, hSplit]
      exact hItem.inside (.next hGap' hLead hInside)

/-- The characters that are written as they are and divide no items. -/
def isPlain (c : Char) : Bool :=
  c != '"' && c != '\\' && c != ' ' && c != '\n' && c != '\t' && c != '\r'

/-- An escape begins with a character that is not plain, and leaves at most the
escaped one. So no plain text arises from an escape but a single character after
a backslash. -/
theorem exists_unescape_eq (c : Char) :
    ∃ d tail, unescape c = d :: tail ∧ isPlain d = false ∧ Text.isWord d = false ∧
      (tail = [] ∨ tail = [c]) := by
  unfold unescape
  split
  case h_6 => exact ⟨'\\', [c], rfl, by decide, by decide, .inr rfl⟩
  all_goals exact ⟨_, [], rfl, by decide, by decide, .inl rfl⟩

namespace Inside

variable {raw value : Text}

/-- Plain characters of the text stand unchanged among the joined items, and the
rest of the text goes along with the rest of them. -/
theorem exists_of_append {lit rest : Text} (hLit : lit.all isPlain = true)
    (h : Inside (lit ++ rest) value) : ∃ tail, value = lit ++ tail ∧ Inside rest tail := by
  induction lit generalizing value with
  | nil => exact ⟨value, rfl, h⟩
  | cons c lit ih =>
      rw [List.all_cons, Bool.and_eq_true] at hLit
      rw [List.cons_append] at h
      generalize hTail : lit ++ rest = text at h
      cases h with
      | plain _ _ hRest =>
          subst hTail
          obtain ⟨tail, rfl, hTail⟩ := ih hLit.2 hRest
          exact ⟨tail, rfl, hTail⟩
      | escape => simp [isPlain] at hLit
      | next => simp [isPlain] at hLit
      | last => simp [isPlain] at hLit

/-- A blank of the text inside an item is a blank among the joined items. -/
theorem isBlank_head? (h : Inside raw value) (hBlank : raw.head?.any Text.isBlank = true) :
    value.head?.any Text.isBlank = true := by
  cases h with
  | plain => exact hBlank
  | escape => simp [Text.isBlank] at hBlank
  | next => simp [Text.isBlank] at hBlank
  | last => simp [Text.isBlank] at hBlank

/-- A word of the text ends among the joined items too: what comes next there is
the same character, an escaped one, or the space between two items. -/
theorem wordEnds (h : Inside raw value) (hEnds : Text.wordEnds raw = true) :
    Text.wordEnds value = true := by
  cases h with
  | plain => exact hEnds
  | escape c =>
      obtain ⟨d, tail, hEscape, -, hWord, -⟩ := exists_unescape_eq c
      simp [Text.wordEnds, hEscape, hWord]
  | next =>
      have hSpace : Text.isWord ' ' = false := by decide
      simp [Text.wordEnds, hSpace]
  | last => rfl

/-- A plain beginning of the joined items begins the text as well. -/
theorem isPrefix_raw {part : Text} (h : Inside raw value) (hPart : part.all isPlain = true)
    (hIn : part <+: value) : part <+: raw := by
  induction h generalizing part with
  | plain _ _ _ ih =>
      cases part with
      | nil => exact List.nil_prefix
      | cons d part =>
          rw [List.all_cons, Bool.and_eq_true] at hPart
          obtain ⟨rfl, hTail⟩ := List.cons_prefix_cons.mp hIn
          exact List.cons_prefix_cons.mpr ⟨rfl, ih hPart.2 hTail⟩
  | escape c _ _ =>
      obtain ⟨d, tail, hEscape, hSpecial, -⟩ := exists_unescape_eq c
      rw [hEscape, List.cons_append] at hIn
      cases part with
      | nil => exact List.nil_prefix
      | cons e part =>
          obtain ⟨rfl, -⟩ := List.cons_prefix_cons.mp hIn
          simp [hSpecial] at hPart
  | next =>
      cases part with
      | nil => exact List.nil_prefix
      | cons d part =>
          obtain ⟨rfl, -⟩ := List.cons_prefix_cons.mp hIn
          simp [isPlain] at hPart
  | last =>
      rw [List.prefix_nil.mp hIn]
      exact List.nil_prefix

/-- A word of the joined items stands in the text. Its first character may be
escaped there, which is why the word is looked for and not its place. -/
theorem isInfix_raw {part : Text} (h : Inside raw value) (hPart : part.all isPlain = true)
    (hNe : part ≠ []) (hIn : part <:+: value) : part <:+: raw := by
  obtain ⟨first, more, rfl⟩ := List.exists_cons_of_ne_nil hNe
  have hFirst : isPlain first = true := by
    rw [List.all_cons, Bool.and_eq_true] at hPart
    exact hPart.1
  -- nothing begins at a character that is not plain
  have hSkip : ∀ {d : Char} {s : Text}, isPlain d = false → first :: more <:+: d :: s →
      first :: more <:+: s := by
    intro d s hd hIn
    rcases List.infix_cons_iff.mp hIn with hHere | hLater
    · obtain ⟨rfl, -⟩ := List.cons_prefix_cons.mp hHere
      simp [hFirst] at hd
    · exact hLater
  induction h with
  | plain hQuote hBackslash hRest ih =>
      rcases List.infix_cons_iff.mp hIn with hHere | hLater
      · exact (isPrefix_raw (.plain hQuote hBackslash hRest) hPart hHere).isInfix
      · exact List.infix_cons (ih hLater)
  | @escape c raw value hRest ih =>
      obtain ⟨d, tail, hEscape, hSpecial, -, hTail⟩ := exists_unescape_eq c
      rw [hEscape, List.cons_append] at hIn
      have hIn := hSkip hSpecial hIn
      rcases hTail with rfl | rfl
      · exact List.infix_cons (List.infix_cons (ih hIn))
      · rcases List.infix_cons_iff.mp hIn with hHere | hLater
        · obtain ⟨rfl, hMore⟩ := List.cons_prefix_cons.mp hHere
          rw [List.all_cons, Bool.and_eq_true] at hPart
          have hMoreRaw := isPrefix_raw hRest hPart.2 hMore
          exact List.infix_cons (List.cons_prefix_cons.mpr ⟨rfl, hMoreRaw⟩).isInfix
        · exact List.infix_cons (List.infix_cons (ih hLater))
  | next _ _ _ ih =>
      have hLater := ih (hSkip (by decide) hIn)
      exact List.infix_cons (List.infix_append_of_infix_right
        (List.infix_cons (List.infix_append_of_infix_right (List.infix_cons hLater))))
  | last => simp at hIn

/-- What begins with a letter and is found after certain characters of the text
is found after such characters of the joined items too. A backslash and a letter
may stand for a blank, so no letter may be one of those characters. -/
theorem anyAfter {ok : Char → Bool} {found : Text → Bool} {first : Char} {start start' : Bool}
    (h : Inside raw value) (hBegins : Text.BeginsWith found first)
    (hKept : unescape first = ['\\', first])
    (hFound : ∀ {raw value}, Inside raw value → found raw = true → found value = true)
    (hSpace : ok ' ' = true) (hLetter : ∀ c, c.isAlpha = true → ok c = false)
    (hStart : start = true → start' = true) (hRaw : Text.anyAfter ok found start raw = true) :
    Text.anyAfter ok found start' value = true := by
  have hAlpha := hBegins.isAlpha
  have hOther : ∀ c : Char, c.isAlpha = false → first ≠ c := by
    rintro c hc rfl
    simp [hAlpha] at hc
  induction h generalizing start start' with
  | @plain c raw value hQuote hBackslash hRest ih =>
      rw [Text.anyAfter, Bool.or_eq_true, Bool.and_eq_true] at hRaw ⊢
      rcases hRaw with ⟨hOk, hHere⟩ | hLater
      · exact .inl ⟨hStart hOk, hFound (.plain hQuote hBackslash hRest) hHere⟩
      · exact .inr (ih id hLater)
  | @escape c raw value hRest ih =>
      have hFront : first ∉ ['\\'] := by simp [hOther]
      have hRaw := hBegins.anyAfter_of_append hFront hRaw
      rw [Text.anyAfter, Bool.or_eq_true, Bool.and_eq_true] at hRaw
      rcases hRaw with ⟨hOk, hHere⟩ | hLater
      · obtain rfl := hBegins.head hHere
        have hPlain : Inside (c :: raw) (c :: value) :=
          .plain (hOther '"' (by decide)) (hOther '\\' (by decide)) hRest
        rw [hKept]
        simp only [List.cons_append, List.nil_append, Text.anyAfter, Bool.or_eq_true,
          Bool.and_eq_true]
        exact .inr (.inl ⟨hOk, hFound hPlain hHere⟩)
      · apply Text.anyAfter_append
        refine ih ?_ hLater
        intro hOk
        unfold unescape
        split
        case h_1 => simp [hLetter 'n' (by decide)] at hOk
        case h_2 => simp [hLetter 't' (by decide)] at hOk
        case h_3 => simp [hLetter 'r' (by decide)] at hOk
        all_goals exact hOk
  | @next gap gap' raw value hGap hGap' hRest ih =>
      have hFront : '"' :: (gap ++ ',' :: (gap' ++ '"' :: raw)) =
          ('"' :: (gap ++ ',' :: (gap' ++ ['"']))) ++ raw := by simp
      rw [hFront] at hRaw
      have hLater := hBegins.anyAfter_of_append
        (by simp [hOther, not_mem_of_isAlpha hGap hAlpha, not_mem_of_isAlpha hGap' hAlpha]) hRaw
      rw [Text.anyAfter, Bool.or_eq_true]
      exact .inr (ih (fun _ => hSpace) hLater)
  | @last rest hRest =>
      have hMem := hBegins.mem_of_anyAfter hRaw
      simp [hOther, hRest.not_mem_of_isAlpha hAlpha] at hMem

end Inside

end Drydock.ExecForm
