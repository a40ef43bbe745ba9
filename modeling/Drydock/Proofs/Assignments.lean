import Drydock.Dockerfile.Assignments
import Drydock.Proofs.Text

/-! Assignments as they are written and what is read from them. A key is any
text without blanks and equals signs. A value is written bare, when it has no
blank and does not begin with a quote, or in quotes, when it has neither quotes
nor backslashes. -/
namespace Drydock.Assignments

def isKeyChar (c : Char) : Bool :=
  c != '=' && !Text.isBlank c

theorem isBlank_of_isKeyChar {c : Char} (h : isKeyChar c = true) : Text.isBlank c = false := by
  simp only [isKeyChar, Bool.and_eq_true, Bool.not_eq_true'] at h
  exact h.2

theorem isKeyChar_of_isBlank {c : Char} (h : Text.isBlank c = true) : isKeyChar c = false := by
  simp [isKeyChar, h]

/-- Blanks and stray equals signs are passed over, in any order and number,
until a character comes with which a key can begin. -/
theorem read_append_of_gap {gap : Text} (h : ∀ c ∈ gap, isKeyChar c = false) (s : Text) :
    read (gap ++ s) = read s := by
  induction gap with
  | nil => rfl
  | cons c gap ih =>
      have hc : (c == '=' || Text.isBlank c) = true := by
        have hOff := h c (by simp)
        rw [isKeyChar, Bool.and_eq_false_iff] at hOff
        simpa using hOff
      rw [List.cons_append, read, if_pos hc]
      exact ih fun d hd => h d (by simp [hd])

theorem read_append_of_blank {gap : Text} (h : ∀ c ∈ gap, Text.isBlank c = true) (s : Text) :
    read (gap ++ s) = read s :=
  read_append_of_gap (fun c hc => isKeyChar_of_isBlank (h c hc)) s

/-- Blanks in front make no difference to what is read. -/
theorem read_trimStart (s : Text) : read (Text.trimStart s) = read s := by
  obtain ⟨gap, hGap, hs⟩ := Text.exists_append_trimStart s
  conv_rhs => rw [hs]
  exact (read_append_of_blank hGap _).symm

/-- A character that may stand in a key is taken into it. -/
theorem inKey_cons {c : Char} (h : isKeyChar c = true) (s : Text) :
    inKey (c :: s) = (c :: (inKey s).1, (inKey s).2) := by
  have hBlank := isBlank_of_isKeyChar h
  rw [inKey.eq_def]
  split
  case h_4 hCons =>
    obtain ⟨rfl, rfl⟩ := List.cons.inj hCons
    simp [hBlank]
  case h_1 hNil => exact absurd hNil (by simp)
  all_goals
    rename_i hCons
    obtain ⟨rfl, -⟩ := List.cons.inj hCons
    exact absurd h (by decide)

theorem inKey_quote (s : Text) : inKey ('=' :: '"' :: s) = ([], inQuotes s) := rfl

/-- After the equals sign a value is read bare unless a quote comes next. -/
theorem inKey_equals {s : Text} (h : s.head? ≠ some '"') : inKey ('=' :: s) = ([], inBare s) := by
  rw [inKey.eq_def]
  split
  case h_1 hNil => exact absurd hNil (by simp)
  case h_2 hCons =>
    obtain ⟨-, rfl⟩ := List.cons.inj hCons
    exact absurd rfl h
  case h_3 hCons =>
    obtain ⟨-, rfl⟩ := List.cons.inj hCons
    rfl
  case h_4 _ hEquals hCons =>
    obtain ⟨rfl, -⟩ := List.cons.inj hCons
    exact absurd rfl hEquals

/-- A key is read up to the equals sign after it, whatever follows there. -/
theorem inKey_append {key : Text} (h : ∀ c ∈ key, isKeyChar c = true) (s : Text) :
    inKey (key ++ s) = (key ++ (inKey s).1, (inKey s).2) := by
  induction key with
  | nil => rfl
  | cons c key ih =>
      rw [List.cons_append, inKey_cons (h c (by simp)), ih fun d hd => h d (by simp [hd])]
      rfl

/-- A key and what its equals sign leads to make one assignment, and the rest is
read after it. -/
theorem read_key {key s : Text} (hNe : key ≠ []) (h : ∀ c ∈ key, isKeyChar c = true) :
    read (key ++ '=' :: s) =
      (key ++ (inKey ('=' :: s)).1, (inKey ('=' :: s)).2.1) :: (inKey ('=' :: s)).2.2 := by
  cases key with
  | nil => exact absurd rfl hNe
  | cons c key =>
      have hc := h c (by simp)
      have hStart : (c == '=' || Text.isBlank c) = false := by
        simpa [isKeyChar] using hc
      rw [List.cons_append, read, if_neg (by simp [hStart]),
        inKey_append fun d hd => h d (by simp [hd])]
      rfl

/-- A bare value ends at a blank or at the end of the text. It may be empty, and
it may have quotes and equals signs in it. -/
theorem inBare_append {value rest : Text} (h : ∀ c ∈ value, Text.isBlank c = false)
    (hRest : rest.head?.all Text.isBlank = true) :
    inBare (value ++ rest) = (value, read rest) := by
  induction value with
  | nil =>
      cases rest with
      | nil => rfl
      | cons c rest =>
          have hc : Text.isBlank c = true := by simpa using hRest
          rw [List.nil_append, inBare, if_pos hc, read, if_pos (by simp [hc])]
  | cons c value ih =>
      rw [List.cons_append, inBare, if_neg (by simp [h c (by simp)]),
        ih fun d hd => h d (by simp [hd])]

/-- What may stand between two quotes: a quote only after a backslash. -/
inductive IsBody : Text → Prop where
  | nil : IsBody []
  | plain {c : Char} {body : Text} (hQuote : c ≠ '"') (hBackslash : c ≠ '\\')
      (hBody : IsBody body) : IsBody (c :: body)
  | escape (c : Char) {body : Text} (hBody : IsBody body) : IsBody ('\\' :: c :: body)

/-- A quoted value ends at the quote after it. Escaped characters stay escaped
in what is read: only the enclosing quotes are taken away. -/
theorem IsBody.inQuotes_append {body : Text} (h : IsBody body) (rest : Text) :
    inQuotes (body ++ '"' :: rest) = (body, read rest) := by
  induction h with
  | nil => rfl
  | plain hQuote hBackslash _ ih =>
      rw [List.cons_append, inQuotes, ih]
      · exact hQuote
      · intro d s hc
        exact absurd hc hBackslash
  | escape c _ ih => rw [List.cons_append, List.cons_append, inQuotes, ih]

/-- Without quotes and backslashes anything may stand between two quotes. -/
theorem isBody_of_plain {value : Text} (h : ∀ c ∈ value, c ≠ '"' ∧ c ≠ '\\') : IsBody value := by
  induction value with
  | nil => exact .nil
  | cons c value ih =>
      obtain ⟨hQuote, hBackslash⟩ := h c (by simp)
      exact .plain hQuote hBackslash (ih fun d hd => h d (by simp [hd]))

/-- An empty value is followed by a blank and not by a quote. -/
theorem head?_append_ne_quote {value rest : Text} (hQuote : value.head? ≠ some '"')
    (hRest : rest.head?.all Text.isBlank = true) : (value ++ rest).head? ≠ some '"' := by
  intro hHead
  cases value with
  | nil =>
      rw [List.nil_append] at hHead
      rw [hHead] at hRest
      exact absurd hRest (by decide)
  | cons c value => exact hQuote hHead

/-- An assignment without quotes is read as its key and value, and reading goes
on with what follows it. -/
theorem read_bare {key value rest : Text} (hNe : key ≠ [])
    (hKey : ∀ c ∈ key, isKeyChar c = true) (hValue : ∀ c ∈ value, Text.isBlank c = false)
    (hQuote : value.head? ≠ some '"') (hRest : rest.head?.all Text.isBlank = true) :
    read (key ++ '=' :: (value ++ rest)) = (key, value) :: read rest := by
  rw [read_key hNe hKey, inKey_equals (head?_append_ne_quote hQuote hRest),
    inBare_append hValue hRest, List.append_nil]

/-- An assignment with its value in quotes is read as its key and value. Unlike
a bare one it may be followed by anything. -/
theorem read_quoted {key value : Text} (hNe : key ≠ [])
    (hKey : ∀ c ∈ key, isKeyChar c = true) (hValue : ∀ c ∈ value, c ≠ '"' ∧ c ≠ '\\')
    (rest : Text) :
    read (key ++ '=' :: '"' :: (value ++ '"' :: rest)) = (key, value) :: read rest := by
  rw [read_key hNe hKey, inKey_quote, (isBody_of_plain hValue).inQuotes_append, List.append_nil]

def quoted (pair : Text × Text) : Text :=
  pair.1 ++ '=' :: '"' :: (pair.2 ++ ['"'])

/-- Assignments as they are written, with single spaces between them. -/
def written (pairs : List (Text × Text)) : Text :=
  Text.join [' '] (pairs.map quoted)

theorem written_cons_cons (p q : Text × Text) (rest : List (Text × Text)) :
    written (p :: q :: rest) = quoted p ++ ([' '] ++ written (q :: rest)) := by
  simp [written, Text.join]

/-- The assignments that can be written in quotes. -/
structure IsQuotable (pair : Text × Text) : Prop where
  key_ne_nil : pair.1 ≠ []
  isKeyChar_key : ∀ c ∈ pair.1, isKeyChar c = true
  isPlain_value : ∀ c ∈ pair.2, c ≠ '"' ∧ c ≠ '\\' ∧ c ≠ '\n'

/-- An assignment that can be written in quotes is read back from there,
whatever follows. -/
theorem IsQuotable.read_quoted_append {pair : Text × Text} (h : IsQuotable pair) (rest : Text) :
    read (quoted pair ++ rest) = pair :: read rest := by
  have hValue : ∀ c ∈ pair.2, c ≠ '"' ∧ c ≠ '\\' := by
    intro c hc
    obtain ⟨hQuote, hBackslash, -⟩ := h.isPlain_value c hc
    exact ⟨hQuote, hBackslash⟩
  have hRead := read_quoted h.key_ne_nil h.isKeyChar_key hValue rest
  simpa [quoted] using hRead

/-- Assignments that are written in quotes are read back as they were, in the
same order and with values that may be empty or have blanks in them. -/
theorem read_written {pairs : List (Text × Text)} (h : ∀ p ∈ pairs, IsQuotable p) :
    read (written pairs) = pairs := by
  induction pairs with
  | nil => rfl
  | cons p rest ih =>
      have hPair := (h p (by simp)).read_quoted_append
      cases rest with
      | nil => simpa [written, Text.join, read] using hPair []
      | cons q rest =>
          have hRest := ih fun r hr => h r (by simp [hr])
          have hGap : ∀ c ∈ [' '], Text.isBlank c = true := by simp [Text.isBlank]
          rw [written_cons_cons, hPair, read_append_of_blank hGap, hRest]

theorem IsQuotable.not_mem_quoted {pair : Text × Text} (h : IsQuotable pair) :
    '\n' ∉ quoted pair := by
  have hKey : '\n' ∉ pair.1 := fun hMem => absurd (h.isKeyChar_key _ hMem) (by decide)
  have hValue : '\n' ∉ pair.2 := fun hMem => (h.isPlain_value _ hMem).2.2 rfl
  simp [quoted, hKey, hValue]

/-- Written assignments stay on one line. -/
theorem not_mem_written {pairs : List (Text × Text)} (h : ∀ p ∈ pairs, IsQuotable p) :
    '\n' ∉ written pairs := by
  apply Text.not_mem_join (by decide)
  intro s hs
  obtain ⟨p, hp, rfl⟩ := List.mem_map.mp hs
  exact (h p hp).not_mem_quoted

/-- Written assignments end with the quote of the last value, so no backslash
continues the line. -/
theorem getLast?_written {pairs : List (Text × Text)} (hNe : pairs ≠ []) :
    (written pairs).getLast? = some '"' := by
  induction pairs with
  | nil => exact absurd rfl hNe
  | cons p rest ih =>
      cases rest with
      | nil => simp [written, Text.join, quoted, List.getLast?_cons]
      | cons q rest =>
          rw [written_cons_cons, List.getLast?_append, List.getLast?_append, ih (by simp)]
          rfl

theorem mem_written {pairs : List (Text × Text)} (hNe : pairs ≠ []) : '=' ∈ written pairs := by
  cases pairs with
  | nil => exact absurd rfl hNe
  | cons p rest =>
      cases rest with
      | nil => simp [written, Text.join, quoted]
      | cons q rest => simp [written_cons_cons, quoted]

/-- Written assignments have no blank at either end, so trimming keeps them as
they are. -/
theorem trim_written {pairs : List (Text × Text)} (hNe : pairs ≠ [])
    (h : ∀ p ∈ pairs, IsQuotable p) : Text.trim (written pairs) = written pairs := by
  apply Text.trim_eq_self
  · cases pairs with
    | nil => exact absurd rfl hNe
    | cons p rest =>
        obtain ⟨hKeyNe, hKey, -⟩ := h p (by simp)
        cases hText : p.1 with
        | nil => exact absurd hText hKeyNe
        | cons c cs =>
            have hc := isBlank_of_isKeyChar (hKey c (by simp [hText]))
            cases rest with
            | nil => simp [written, Text.join, quoted, hText, hc]
            | cons q rest => simp [written_cons_cons, quoted, hText, hc]
  · rw [getLast?_written hNe]
    decide

/-- An assignment that is written without quotes, with the blanks before it. -/
structure Bare where
  gap : Text
  key : Text
  value : Text
  gap_ne_nil : gap ≠ []
  isBlank_gap : ∀ c ∈ gap, Text.isBlank c = true
  key_ne_nil : key ≠ []
  isKeyChar_key : ∀ c ∈ key, isKeyChar c = true
  isBlank_value : ∀ c ∈ value, Text.isBlank c = false
  head?_value : value.head? ≠ some '"'

namespace Bare

def text (a : Bare) : Text :=
  a.gap ++ a.key ++ '=' :: a.value

def pair (a : Bare) : Text × Text :=
  (a.key, a.value)

def texts (as : List Bare) : Text :=
  as.flatMap text

/-- Assignments without quotes bring their gaps along, so a blank comes first if
there are any. -/
theorem head?_texts (as : List Bare) : (texts as).head?.all Text.isBlank = true := by
  cases as with
  | nil => rfl
  | cons a as =>
      rw [texts, List.flatMap_cons, text, List.append_assoc, List.append_assoc]
      exact Text.head?_append_of_gap a.gap_ne_nil a.isBlank_gap _

/-- Assignments end with a character that is not blank. -/
theorem trimEnd_texts (as : List Bare) : Text.trimEnd (texts as) = texts as := by
  induction as with
  | nil => rfl
  | cons a as ih =>
      rw [texts, List.flatMap_cons, ← texts]
      by_cases hNil : texts as = []
      · have hLast : Text.trimEnd ('=' :: a.value) = '=' :: a.value := by
          apply Text.trimEnd_eq_self
          cases hValue : a.value.getLast? with
          | none =>
              rw [List.getLast?_eq_none_iff.mp hValue]
              decide
          | some c =>
              have hc := a.isBlank_value c (List.mem_of_getLast? hValue)
              simp [List.getLast?_cons, hValue, hc]
        rw [hNil, List.append_nil, text, Text.trimEnd_append (by simp [hLast]), hLast]
      · rw [Text.trimEnd_append (by rwa [ih]), ih]

/-- Assignments written without quotes are read as they are written. Each ends
at the gap of the next one. -/
theorem read_texts (as : List Bare) : read (texts as) = as.map pair := by
  induction as with
  | nil => rfl
  | cons a as ih =>
      rw [texts, List.flatMap_cons, ← texts, text, List.append_assoc, List.append_assoc,
        read_append_of_blank a.isBlank_gap, List.cons_append,
        read_bare a.key_ne_nil a.isKeyChar_key a.isBlank_value a.head?_value (head?_texts as), ih]
      rfl

/-- The same after trimming, with blanks behind the last assignment. -/
theorem read_trim_texts (as : List Bare) {trail : Text}
    (hTrail : ∀ c ∈ trail, Text.isBlank c = true) :
    read (Text.trim (texts as ++ trail)) = as.map pair := by
  rw [Text.trim, ← Text.trimStart_trimEnd, Text.trimEnd_append_of_blank hTrail, trimEnd_texts,
    read_trimStart, read_texts]

end Bare

end Drydock.Assignments
