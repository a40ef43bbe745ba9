import Drydock.Proofs.Assignments
import Drydock.Proofs.Word

/-! How a text divides into assignments. Between them stand only blanks and
equals signs without a key. Every text divides in this way and is read
accordingly, so nothing of it is lost: what is read of an assignment can be
found again at its place in the text. -/
namespace Drydock.Assignments

/-- The ways to write a value. In a loose form only a gap divides it from its
key. -/
inductive Form where
  | bare
  | quoted
  | unclosed
  | loose (gap : Text)
  | looseQuoted (gap : Text)

namespace Form

def tail : Form → Text → Text
  | .bare, value => '=' :: value
  | .quoted, value => '=' :: '"' :: (value ++ ['"'])
  | .unclosed, value => '=' :: '"' :: value
  | .loose gap, value => gap ++ value
  | .looseQuoted gap, value => gap ++ '"' :: (value ++ ['"'])

def Fits : Form → Text → Prop
  | .bare, value => (∀ c ∈ value, Text.isBlank c = false) ∧ value.head? ≠ some '"'
  | .quoted, value => IsBody value
  | .unclosed, value => IsBody value ∨ ∃ body, IsBody body ∧ value = body ++ ['\\']
  | .loose gap, value =>
    (∀ c ∈ gap, Text.isBlank c = true) ∧ (gap = [] → value = []) ∧ Text.trim value = value ∧
      ∀ inner, value ≠ '"' :: (inner ++ ['"'])
  | .looseQuoted gap, _ => gap ≠ [] ∧ ∀ c ∈ gap, Text.isBlank c = true

/-- What may follow such a value. Only a bare or quoted one leaves room for more
assignments. -/
def MayPrecede : Form → Text → Prop
  | .bare, rest => rest.head?.all Text.isBlank = true
  | .quoted, _ => True
  | .unclosed, rest => rest = []
  | .loose _, rest => ∀ c ∈ rest, Text.isBlank c = true
  | .looseQuoted _, rest => ∀ c ∈ rest, Text.isBlank c = true

end Form

/-- An assignment as it is written. -/
structure Piece where
  key : Text
  value : Text
  form : Form
  key_ne_nil : key ≠ []
  isKeyChar_key : ∀ c ∈ key, isKeyChar c = true
  fits : form.Fits value

namespace Piece

def pair (p : Piece) : Text × Text :=
  (p.key, p.value)

def text (p : Piece) : Text :=
  p.key ++ p.form.tail p.value

end Piece

/-- A text that divides into these assignments, with gaps before, between and
after them. -/
inductive Layout : Text → List Piece → Prop where
  | done {gap : Text} (hGap : ∀ c ∈ gap, isKeyChar c = false) : Layout gap []
  | piece {gap rest : Text} {p : Piece} {pieces : List Piece}
      (hGap : ∀ c ∈ gap, isKeyChar c = false) (hNext : p.form.MayPrecede rest)
      (hRest : Layout rest pieces) : Layout (gap ++ (p.text ++ rest)) (p :: pieces)

section Reading

theorem read_of_blank {s : Text} (h : ∀ c ∈ s, Text.isBlank c = true) : read s = [] := by
  rw [← List.append_nil s, read_append_of_blank h]
  rfl

/-- Without a closing quote the value is all the rest. A last backslash escapes
nothing and belongs to the value. -/
theorem IsBody.inQuotes_eq {body : Text} (h : IsBody body) {last : Text}
    (hLast : last = [] ∨ last = ['\\']) : inQuotes (body ++ last) = (body ++ last, []) := by
  induction h with
  | nil => rcases hLast with rfl | rfl <;> rfl
  | plain hQuote hBackslash _ ih =>
      rw [List.cons_append, inQuotes, ih]
      · exact hQuote
      · intro d s hc
        exact absurd hc hBackslash
  | escape c _ ih => rw [List.cons_append, List.cons_append, inQuotes, ih]

/-- A blank after the key makes all the rest its value, and nothing is left to
be read. -/
theorem inKey_blank {c : Char} (h : Text.isBlank c = true) (s : Text) :
    inKey (c :: s) = ([], looseValue s, []) := by
  rw [inKey.eq_def]
  split
  case h_4 hCons =>
    obtain ⟨rfl, rfl⟩ := List.cons.inj hCons
    rw [if_pos h]
  case h_1 hNil => exact absurd hNil (by simp)
  all_goals
    rename_i hCons
    obtain ⟨rfl, -⟩ := List.cons.inj hCons
    exact absurd h (by decide)

theorem inKey_of_blank {s : Text} (h : ∀ c ∈ s, Text.isBlank c = true) :
    inKey s = ([], [], []) := by
  cases s with
  | nil => rfl
  | cons c s =>
      rw [inKey_blank (h c (by simp)), looseValue,
        Text.trim_eq_nil_iff.mpr fun d hd => h d (by simp [hd])]

/-- A value after a gap is kept as it is, trimmed, when it is not in quotes on
both sides. -/
theorem looseValue_of_trim {s value : Text} (hTrim : Text.trim s = value)
    (hPlain : ∀ inner, value ≠ '"' :: (inner ++ ['"'])) : looseValue s = value := by
  rw [looseValue, hTrim]
  split
  · rename_i inner
    rw [Text.dropLast?, if_neg, Option.getD_none]
    intro hLast
    apply hPlain inner.dropLast
    rw [List.dropLast_append_getLast? _ hLast]
  · rfl

/-- A value after a gap loses the quotes around it, if it has them at both
ends. -/
theorem looseValue_of_trim_quoted {s value : Text}
    (hTrim : Text.trim s = '"' :: (value ++ ['"'])) : looseValue s = value := by
  rw [looseValue, hTrim]
  simp [Text.dropLast?]

/-- The value is read from what is written after the key, and the reading goes
on behind it. One case for each form, with the condition that the form puts on
what follows. -/
theorem Form.inKey_tail {form : Form} {value rest : Text} (hFits : form.Fits value)
    (hNext : form.MayPrecede rest) : inKey (form.tail value ++ rest) = ([], value, read rest) := by
  cases form with
  | bare =>
      obtain ⟨hValue, hQuote⟩ := hFits
      rw [tail, List.cons_append, inKey_equals (head?_append_ne_quote hQuote hNext),
        inBare_append hValue hNext]
  | quoted =>
      have hBody : IsBody value := hFits
      rw [tail, List.cons_append, List.cons_append, List.append_assoc, inKey_quote]
      exact congrArg _ (hBody.inQuotes_append rest)
  | unclosed =>
      obtain rfl : rest = [] := hNext
      rw [tail, List.append_nil, inKey_quote]
      rcases hFits with hBody | ⟨body, hBody, rfl⟩
      · have hRead := hBody.inQuotes_eq (.inl rfl)
        rw [List.append_nil] at hRead
        exact congrArg _ hRead
      · exact congrArg _ (hBody.inQuotes_eq (.inr rfl))
  | loose gap =>
      obtain ⟨hGap, hNil, hTrim, hPlain⟩ := hFits
      have hRest : ∀ c ∈ rest, Text.isBlank c = true := hNext
      rw [tail, read_of_blank hRest]
      cases gap with
      | nil =>
          rw [hNil rfl]
          exact inKey_of_blank hRest
      | cons c gap =>
          have hTrimmed : Text.trim (gap ++ (value ++ rest)) = value := by
            rw [Text.trim_append_of_blank (fun d hd => hGap d (by simp [hd])) hRest, hTrim]
          rw [List.cons_append, List.cons_append, List.append_assoc, inKey_blank (hGap c (by simp)),
            looseValue_of_trim hTrimmed hPlain]
  | looseQuoted gap =>
      obtain ⟨hNe, hGap⟩ := hFits
      have hRest : ∀ c ∈ rest, Text.isBlank c = true := hNext
      rw [tail, read_of_blank hRest]
      cases gap with
      | nil => exact absurd rfl hNe
      | cons c gap =>
          have hTrimmed : Text.trim (gap ++ ('"' :: (value ++ ['"']) ++ rest)) =
              '"' :: (value ++ ['"']) := by
            rw [Text.trim_append_of_blank (fun d hd => hGap d (by simp [hd])) hRest]
            apply Text.trim_eq_self
            · rfl
            · simp [List.getLast?_cons, Text.isBlank]
          rw [List.cons_append, List.cons_append, List.append_assoc, inKey_blank (hGap c (by simp)),
            looseValue_of_trim_quoted hTrimmed]

/-- An assignment is read as it is written, in any of the forms, and what may
follow it is read next. -/
theorem Piece.read_append (p : Piece) {rest : Text} (hNext : p.form.MayPrecede rest) :
    read (p.text ++ rest) = p.pair :: read rest := by
  cases hKey : p.key with
  | nil => exact absurd hKey p.key_ne_nil
  | cons c key =>
      have hStart : (c == '=' || Text.isBlank c) = false := by
        simpa [isKeyChar] using p.isKeyChar_key c (by simp [hKey])
      have hMore : ∀ d ∈ key, isKeyChar d = true := fun d hd =>
        p.isKeyChar_key d (by simp [hKey, hd])
      rw [text, hKey, List.cons_append, List.cons_append, read, if_neg (by simp [hStart]),
        List.append_assoc, inKey_append hMore, Form.inKey_tail p.fits hNext, pair, hKey]
      simp

/-- A text is read as the assignments that it divides into. So no text divides
in two ways with different assignments. -/
theorem Layout.read_eq {s : Text} {pieces : List Piece} (h : Layout s pieces) :
    read s = pieces.map Piece.pair := by
  induction h with
  | @done gap hGap =>
      rw [← List.append_nil gap, read_append_of_gap hGap]
      rfl
  | piece hGap hNext _ ih =>
      rw [read_append_of_gap hGap, Piece.read_append _ hNext, ih]
      rfl

end Reading

section Dividing

/-- Every text has a closing quote or is the value of an unclosed one. A
backslash at the very end is the third case, since it has nothing to escape. -/
theorem exists_body : ∀ s : Text,
    (∃ body rest, s = body ++ '"' :: rest ∧ IsBody body) ∨ Form.unclosed.Fits s
  | [] => .inr (.inl .nil)
  | c :: cs => by
      by_cases hQuote : c = '"'
      · subst hQuote
        exact .inl ⟨[], cs, rfl, .nil⟩
      · by_cases hBackslash : c = '\\'
        · subst hBackslash
          cases cs with
          | nil => exact .inr (.inr ⟨[], .nil, rfl⟩)
          | cons d cs =>
              rcases exists_body cs with ⟨body, rest, rfl, hBody⟩ | hBody | ⟨body, hBody, rfl⟩
              · exact .inl ⟨'\\' :: d :: body, rest, rfl, .escape d hBody⟩
              · exact .inr (.inl (.escape d hBody))
              · exact .inr (.inr ⟨'\\' :: d :: body, .escape d hBody, rfl⟩)
        · rcases exists_body cs with ⟨body, rest, rfl, hBody⟩ | hBody | ⟨body, hBody, rfl⟩
          · exact .inl ⟨c :: body, rest, rfl, .plain hQuote hBackslash hBody⟩
          · exact .inr (.inl (.plain hQuote hBackslash hBody))
          · exact .inr (.inr ⟨c :: body, .plain hQuote hBackslash hBody, rfl⟩)

/-- After a key and an equals sign there is always a value: bare, in quotes, or
in quotes that are not closed. -/
theorem Form.exists_tail_equals (s : Text) :
    ∃ form value rest, '=' :: s = Form.tail form value ++ rest ∧ form.Fits value ∧
      form.MayPrecede rest := by
  by_cases hQuote : s.head? = some '"'
  · obtain ⟨s, rfl⟩ := List.head?_eq_some_iff.mp hQuote
    rcases exists_body s with ⟨body, rest, rfl, hBody⟩ | hUnclosed
    · exact ⟨.quoted, body, rest, by simp [tail], hBody, trivial⟩
    · exact ⟨.unclosed, s, [], by simp [tail], hUnclosed, rfl⟩
  · refine ⟨.bare, Text.firstRun s, s.dropWhile (!Text.isBlank ·), ?_, ⟨?_, ?_⟩, ?_⟩
    · simp [tail, Text.firstRun]
    · intro c hc
      simpa using List.mem_takeWhile_imp hc
    · intro hHead
      cases s with
      | nil => simp [Text.firstRun] at hHead
      | cons c s =>
          by_cases hc : Text.isBlank c = true
          · simp [Text.firstRun, hc] at hHead
          · simp [Text.firstRun, hc] at hHead
            exact hQuote (by simp [hHead])
    · simpa [MayPrecede] using Text.all_head?_dropWhile (!Text.isBlank ·) s

/-- Whatever comes after a key is a value in one of the forms and what may
follow it, so no text is left over or refused. -/
theorem Form.exists_tail {s : Text} (h : s.head?.all (!isKeyChar ·) = true) :
    ∃ form value rest, s = Form.tail form value ++ rest ∧ form.Fits value ∧
      form.MayPrecede rest := by
  cases s with
  | nil =>
      exact ⟨.loose [], [], [], rfl, ⟨by simp, fun _ => rfl, rfl, by simp⟩, by simp [MayPrecede]⟩
  | cons c s =>
      by_cases hEquals : c = '='
      · subst hEquals
        exact exists_tail_equals s
      · have hBlank : Text.isBlank c = true := by
          simpa [isKeyChar, hEquals] using h
        obtain ⟨gap, trail, hGap, hTrail, hSplit⟩ := Text.exists_trim_append s
        have hGaps : ∀ d ∈ c :: gap, Text.isBlank d = true :=
          List.forall_mem_cons.mpr ⟨hBlank, hGap⟩
        by_cases hQuoted : ∃ inner, Text.trim s = '"' :: (inner ++ ['"'])
        · obtain ⟨inner, hInner⟩ := hQuoted
          rw [hInner] at hSplit
          exact ⟨.looseQuoted (c :: gap), inner, trail, by simp [tail, hSplit],
            ⟨by simp, hGaps⟩, hTrail⟩
        · rw [not_exists] at hQuoted
          refine ⟨.loose (c :: gap), Text.trim s, trail, ?_, ⟨hGaps, by simp, ?_, hQuoted⟩, hTrail⟩
          · rw [tail, List.cons_append, List.cons_append, List.append_assoc, ← hSplit]
          · rw [← Text.trim_append_of_blank hGap hTrail, ← hSplit]

/-- Every text divides into assignments. The induction is on its length: each
assignment takes at least the first character of its key. -/
theorem exists_layout (s : Text) : ∃ pieces, Layout s pieces := by
  induction hLength : s.length using Nat.strong_induction_on generalizing s with
  | _ n ih =>
      -- up to the first character of a key there is only a gap
      have hGap : ∀ c ∈ s.takeWhile (!isKeyChar ·), isKeyChar c = false := by
        intro c hc
        simpa using List.mem_takeWhile_imp hc
      have hSplit : s.takeWhile (!isKeyChar ·) ++ s.dropWhile (!isKeyChar ·) = s :=
        List.takeWhile_append_dropWhile
      cases hAfter : s.dropWhile (!isKeyChar ·) with
      | nil =>
          rw [hAfter, List.append_nil] at hSplit
          rw [hSplit] at hGap
          exact ⟨[], .done hGap⟩
      | cons c t =>
          have hc : isKeyChar c = true := by
            have hStop := Text.all_head?_dropWhile (!isKeyChar ·) s
            simpa [hAfter] using hStop
          have hKey : ∀ d ∈ c :: t.takeWhile isKeyChar, isKeyChar d = true :=
            List.forall_mem_cons.mpr ⟨hc, fun d hd => List.mem_takeWhile_imp hd⟩
          obtain ⟨form, value, rest, hTail, hFits, hNext⟩ :=
            Form.exists_tail (Text.all_head?_dropWhile isKeyChar t)
          have hText : s = s.takeWhile (!isKeyChar ·) ++
              ((c :: t.takeWhile isKeyChar) ++ form.tail value ++ rest) := by
            rw [List.append_assoc, ← hTail, List.cons_append, List.takeWhile_append_dropWhile,
              ← hAfter, hSplit]
          have hShorter : rest.length < n := by
            rw [← hLength, hText]
            simp only [List.length_append, List.length_cons]
            omega
          obtain ⟨pieces, hRest⟩ := ih rest.length hShorter rest rfl
          let p : Piece := ⟨c :: t.takeWhile isKeyChar, value, form, by simp, hKey, hFits⟩
          have hNextPiece : p.form.MayPrecede rest := hNext
          rw [hText]
          exact ⟨p :: pieces, .piece hGap hNextPiece hRest⟩

/-- What divides assignments divides words as well. -/
theorem isWord_of_not_isKeyChar {c : Char} (h : isKeyChar c = false) : Text.isWord c = false := by
  rw [isKeyChar, Bool.and_eq_false_iff] at h
  rcases h with hEquals | hBlank
  · obtain rfl : c = '=' := by simpa using hEquals
    decide
  · exact Text.isWord_of_isBlank (by simpa using hBlank)

/-- A key follows directly only on a closing quote. -/
theorem Form.eq_quoted {form : Form} {c : Char} {rest : Text} (hc : isKeyChar c = true)
    (hNext : form.MayPrecede (c :: rest)) : form = .quoted := by
  have hBlank := isBlank_of_isKeyChar hc
  cases form with
  | quoted => rfl
  | bare => simp [MayPrecede, hBlank] at hNext
  | unclosed => simp [MayPrecede] at hNext
  | loose gap => simp [MayPrecede, hBlank] at hNext
  | looseQuoted gap => simp [MayPrecede, hBlank] at hNext

/-- An assignment stands at some place of the text where no word reaches into
it. So a search at beginnings of words that finds it by itself finds it in the
text. -/
theorem Layout.exists_split {s : Text} {pieces : List Piece} {p : Piece} (h : Layout s pieces)
    (hMem : p ∈ pieces) :
    ∃ front back, s = front ++ (p.text ++ back) ∧ front.getLast?.all (!Text.isWord ·) = true := by
  induction h with
  | done => simp at hMem
  | @piece gap rest q pieces hGap hNext hRest ih =>
      rcases List.mem_cons.mp hMem with rfl | hMem
      · refine ⟨gap, rest, rfl, (Option.all_eq_true _ _).mpr ?_⟩
        intro c hc
        simp [isWord_of_not_isKeyChar (hGap c (List.mem_of_getLast? hc))]
      · obtain ⟨front, back, rfl, hFront⟩ := ih hMem
        refine ⟨gap ++ q.text ++ front, back, by simp, ?_⟩
        refine Text.all_getLast?_append hFront ?_
        rintro rfl
        obtain ⟨c, key, hKey⟩ := List.exists_cons_of_ne_nil p.key_ne_nil
        have hForm : q.form = .quoted := by
          rw [List.nil_append, Piece.text, hKey] at hNext
          exact Form.eq_quoted (p.isKeyChar_key c (by simp [hKey])) hNext
        have hQuote : Text.isWord '"' = false := by decide
        simp [Piece.text, hForm, Form.tail, List.getLast?_append, List.getLast?_cons, hQuote]

end Dividing

end Drydock.Assignments
