import Drydock.Json.Reader
import Drydock.Json.Writer
import Drydock.Proofs.Text

/-! What is written as JSON is read back, on one line or on many. A value is
read off the front of a text, so the statements carry the rest of the text along
and say what the rest must not begin with: a number would go on at a digit, a
point or an exponent. -/
namespace Drydock

theorem Text.hexValue?_hexDigit {n : Nat} (h : n < 16) : hexValue? (hexDigit n) = some n := by
  revert n
  decide

namespace Json

section Strings

/-- An escape that begins with two zeros is read as the code unit that its last
two digits were written for. -/
theorem unit?_hexDigit {n : Nat} (h : n < 256) :
    unit? '0' '0' (Text.hexDigit (n / 16)) (Text.hexDigit (n % 16)) = some n := by
  have hZero : Text.hexValue? '0' = some 0 := by decide
  have hHigh := Text.hexValue?_hexDigit (n := n / 16) (by omega)
  have hLow := Text.hexValue?_hexDigit (n := n % 16) (by omega)
  simp only [unit?, Text.hexNumber?, List.foldlM_cons, List.foldlM_nil, hZero, hHigh, hLow,
    Option.map_some, Option.bind_eq_bind, Option.bind_some, Option.pure_def, Option.some.injEq]
  omega

/-- Each character is read back from its written form as one code unit, be it a
short escape, one of four digits or the character itself. -/
theorem units?_escape_append (c : Char) (s : Text) :
    units? (escape c ++ s) = (units? s).map (fun (us, r) => (c.toNat :: us, r)) := by
  by_cases hQuote : c = '"'
  · subst hQuote
    rfl
  by_cases hSlash : c = '\\'
  · subst hSlash
    rfl
  by_cases hControl : c.toNat < 0x20
  · by_cases hShort : c ∈ ['\x08', '\t', '\n', '\x0C', '\r']
    · simp only [List.mem_cons, List.not_mem_nil, or_false] at hShort
      rcases hShort with rfl | rfl | rfl | rfl | rfl
      all_goals rfl
    · have hEscape : escape c =
          ['\\', 'u', '0', '0', Text.hexDigit (c.toNat / 16), Text.hexDigit (c.toNat % 16)] := by
        simp only [List.mem_cons, List.not_mem_nil, or_false, not_or] at hShort
        simp [escape, hQuote, hSlash, hControl, hShort]
      rw [hEscape]
      simp only [List.cons_append, List.nil_append, units?]
      rw [unit?_hexDigit (by omega)]
  · have hEscape : escape c = [c] := by simp [escape, hQuote, hSlash, hControl]
    rw [hEscape, List.singleton_append, units?]
    · simp [hControl, hSlash]
    · exact hQuote
    · intro _ _ _ _ _ hc
      exact absurd hc hSlash
    · intro _ _ hc
      exact absurd hc hSlash

/-- A character is no half of a surrogate pair. -/
theorem not_isHigh_and_not_isLow (c : Char) : isHigh c.toNat = false ∧ isLow c.toNat = false := by
  have hValid : c.toNat < 0xD800 ∨ 0xDFFF < c.toNat ∧ c.toNat < 0x110000 := c.valid
  constructor
  · simp only [isHigh, Bool.and_eq_false_iff, decide_eq_false_iff_not]
    omega
  · simp only [isLow, Bool.and_eq_false_iff, decide_eq_false_iff_not]
    omega

/-- The code units of a text stand for the text, since none of them is half of a
pair. -/
theorem ofUnits?_map_toNat (s : Text) : ofUnits? (s.map Char.toNat) = some s := by
  induction s with
  | nil => rfl
  | cons c rest ih =>
      obtain ⟨hHigh, hLow⟩ := not_isHigh_and_not_isLow c
      cases rest with
      | nil => simp [ofUnits?, hHigh, hLow]
      | cons d rest =>
          rw [List.map_cons, List.map_cons, ofUnits?, ← List.map_cons, ih]
          simp [hHigh, hLow]

/-- A string is read back from its written form after the opening quote, up to
the closing one and whatever follows. -/
theorem inString?_append (s r : Text) :
    inString? (s.flatMap escape ++ '"' :: r) = some (some s, r) := by
  have hUnits : units? (s.flatMap escape ++ '"' :: r) = some (s.map Char.toNat, r) := by
    induction s with
    | nil => rfl
    | cons c s ih => rw [List.flatMap_cons, List.append_assoc, units?_escape_append, ih]; rfl
  simp only [inString?, hUnits, Option.map_some, ofUnits?_map_toNat]

end Strings

section Numbers

/-- A number other than zero does not begin with a zero. -/
theorem head?_toDigits {n : Nat} (h : 0 < n) : (Nat.toDigits 10 n).head? ≠ some '0' := by
  induction n using Nat.strong_induction_on with
  | _ n ih =>
      by_cases hLt : n < 10
      · rw [Nat.toDigits_of_lt_base hLt]
        simp only [List.head?_cons, ne_eq, Option.some.injEq, Nat.digitChar_eq_zero]
        omega
      · rw [Nat.toDigits_of_base_le (by omega) (by omega),
          List.head?_append_of_ne_nil _ Nat.toDigits_ne_nil]
        exact ih (n / 10) (by omega) (by omega)

/-- The rest of a text after a value: the end, white space, a comma or a closing
bracket. -/
def EndsValue (rest : Text) : Prop :=
  rest.head?.all (fun c => isSpace c || c == ',' || c == ']' || c == '\x7d') = true

theorem EndsValue.head_cases {c : Char} {rest : Text} (h : EndsValue (c :: rest)) :
    c = ' ' ∨ c = '\n' ∨ c = '\t' ∨ c = '\r' ∨ c = ',' ∨ c = ']' ∨ c = '\x7d' := by
  simpa [EndsValue, isSpace, or_assoc] using h

/-- Digits are read up to what ends a value, which is no digit. -/
theorem digits?_append {ds rest : Text} (hNe : ds ≠ []) (hDigits : ∀ c ∈ ds, c.isDigit = true)
    (hRest : EndsValue rest) : digits? (ds ++ rest) = some (ds, rest) := by
  have hStop : rest.takeWhile Char.isDigit = [] ∧ rest.dropWhile Char.isDigit = rest := by
    cases rest with
    | nil => exact ⟨rfl, rfl⟩
    | cons c rest =>
        have hc : c.isDigit = false := by
          rcases hRest.head_cases with rfl | rfl | rfl | rfl | rfl | rfl | rfl
          all_goals rfl
        simp [hc]
  rw [digits?, List.takeWhile_append_of_pos hDigits, List.dropWhile_append_of_pos hDigits,
    hStop.1, hStop.2, List.append_nil]
  cases ds with
  | nil => exact absurd rfl hNe
  | cons d ds => rfl

theorem isDigit_of_mem_toDigits {n : Nat} {c : Char} (h : c ∈ Nat.toDigits 10 n) :
    c.isDigit = true :=
  Nat.isDigit_of_mem_toDigits (by omega) (by omega) h

theorem exists_toDigits_eq_cons (n : Nat) :
    ∃ d ds, Nat.toDigits 10 n = d :: ds ∧ d.isDigit = true := by
  obtain ⟨d, ds, hCons⟩ := List.exists_cons_of_ne_nil (Nat.toDigits_ne_nil (n := n) (b := 10))
  exact ⟨d, ds, hCons, isDigit_of_mem_toDigits (n := n) (by simp [hCons])⟩

/-- The digits of a number are read as a whole: zero is written alone, and no
other number begins with it. -/
theorem whole?_toDigits (n : Nat) {rest : Text} (hRest : EndsValue rest) :
    whole? (Nat.toDigits 10 n ++ rest) = some (Nat.toDigits 10 n, rest) := by
  rcases Nat.eq_zero_or_pos n with rfl | hPos
  · rfl
  · rw [whole?]
    · exact digits?_append Nat.toDigits_ne_nil (fun _ => isDigit_of_mem_toDigits) hRest
    · intro tail hZero
      apply head?_toDigits hPos
      rw [← List.head?_append_of_ne_nil _ Nat.toDigits_ne_nil, hZero]
      rfl

theorem fraction?_of_endsValue {rest : Text} (hRest : EndsValue rest) :
    fraction? rest = some ([], rest) := by
  cases rest with
  | nil => rfl
  | cons c rest =>
      rcases hRest.head_cases with rfl | rfl | rfl | rfl | rfl | rfl | rfl
      all_goals rfl

theorem exponent?_of_endsValue {rest : Text} (hRest : EndsValue rest) :
    exponent? rest = some ([], rest) := by
  cases rest with
  | nil => rfl
  | cons c rest =>
      rcases hRest.head_cases with rfl | rfl | rfl | rfl | rfl | rfl | rfl
      all_goals rfl

/-- Minus zero is no integer, and it is not written. -/
theorem unsigned?_toDigits {negative : Bool} {n : Nat} {rest : Text}
    (hSign : negative = true → n ≠ 0) (hRest : EndsValue rest) :
    unsigned? negative (Nat.toDigits 10 n ++ rest) =
      some (.int (if negative then -(n : Int) else n), rest) := by
  simpa [unsigned?, whole?_toDigits n hRest, fraction?_of_endsValue hRest,
    exponent?_of_endsValue hRest, Nat.ofDigitChars_ten_toDigits] using hSign

/-- An integer is read back with its sign. -/
theorem number?_scalar (i : Int) {rest : Text} (hRest : EndsValue rest) :
    number? (scalar (.int i) ++ rest) = some (.int i, rest) := by
  cases i with
  | ofNat n =>
      rw [scalar, Nat.toList_repr, number?]
      · exact unsigned?_toDigits (by simp) hRest
      · intro tail hMinus
        obtain ⟨d, ds, hCons, hDigit⟩ := exists_toDigits_eq_cons n
        rw [hCons] at hMinus
        obtain ⟨rfl, -⟩ := List.cons.inj hMinus
        exact absurd hDigit (by decide)
  | negSucc n =>
      rw [scalar, Nat.toList_repr, List.cons_append, number?]
      exact unsigned?_toDigits (fun _ => by omega) hRest

end Numbers

section Values

theorem skipSpace_skipSpace (s : Text) : skipSpace (skipSpace s) = skipSpace s :=
  List.dropWhile_idempotent ..

/-- At a digit or a sign there is a number. -/
theorem value?_eq_number? {steps : Nat} {c : Char} {s : Text} (h : c.isDigit = true ∨ c = '-') :
    value? (steps + 1) (c :: s) = number? (c :: s) := by
  have hSpace : isSpace c = false := by
    rw [← Bool.not_eq_true]
    intro hc
    simp only [isSpace, Bool.or_eq_true, beq_iff_eq, or_assoc] at hc
    rcases hc with rfl | rfl | rfl | rfl
    all_goals exact absurd h (by decide)
  rw [value?, skipSpace_cons hSpace]
  split
  case h_7 => rfl
  all_goals
    rename_i hEq
    obtain ⟨rfl, -⟩ := List.cons.inj hEq
    exact absurd h (by decide)

/-- The text is read as the value wherever it stands at the front of a text. Two
steps for each character are enough. -/
def Reads (j : Json) (s : Text) : Prop :=
  ∀ steps rest, 2 * s.length ≤ steps → EndsValue rest → value? steps (s ++ rest) = some (j, rest)

/-- A text that is not empty is granted at least one step. With this the
induction over the steps is opened in one place. -/
theorem Reads.intro {j : Json} {s : Text} (hNe : s ≠ [])
    (h : ∀ steps rest, 2 * s.length ≤ steps + 1 → EndsValue rest →
      value? (steps + 1) (s ++ rest) = some (j, rest)) : Reads j s := by
  intro steps rest hSteps hRest
  have hPos := List.length_pos_of_ne_nil hNe
  cases steps with
  | zero => omega
  | succ steps => exact h steps rest hSteps hRest

theorem reads_null : Reads .null (scalar .null) := by
  apply Reads.intro (by simp [scalar])
  intro steps rest _ _
  rfl

theorem reads_bool (b : Bool) : Reads (.bool b) (scalar (.bool b)) := by
  apply Reads.intro (by cases b <;> simp [scalar])
  intro steps rest _ _
  cases b with
  | false => rfl
  | true => rfl

theorem reads_int (i : Int) : Reads (.int i) (scalar (.int i)) := by
  have hHead : ∃ c s, scalar (.int i) = c :: s ∧ (c.isDigit = true ∨ c = '-') := by
    cases i with
    | ofNat n =>
        obtain ⟨d, ds, hCons, hDigit⟩ := exists_toDigits_eq_cons n
        exact ⟨d, ds, by rw [scalar, Nat.toList_repr, hCons], .inl hDigit⟩
    | negSucc n => exact ⟨'-', _, rfl, .inr rfl⟩
  obtain ⟨c, s, hCons, hc⟩ := hHead
  apply Reads.intro (by simp [hCons])
  intro steps rest _ hRest
  rw [← number?_scalar i hRest, hCons, List.cons_append]
  exact value?_eq_number? hc

theorem reads_str (s : String) : Reads (.str s) (scalar (.str s)) := by
  apply Reads.intro (by simp [scalar, quote])
  intro steps rest _ _
  have hText : scalar (.str s) ++ rest = '"' :: (s.toList.flatMap escape ++ '"' :: rest) := by
    simp [scalar, quote]
  rw [hText, value?, skipSpace_cons (by decide)]
  simp only [inString?_append, Option.map_some, ofString, String.ofList_toList]

end Values

section Sequences

/-- A value may be followed by white space and what ends it. -/
theorem endsValue_append {gap rest : Text} {c : Char} (hGap : ∀ d ∈ gap, isSpace d = true)
    (hc : c = ',' ∨ c = ']' ∨ c = '\x7d') : EndsValue (gap ++ c :: rest) := by
  cases gap with
  | nil => rcases hc with rfl | rfl | rfl <;> rfl
  | cons d gap => simp [EndsValue, hGap d (by simp)]

/-- A value with white space around it is read up to what comes next. -/
theorem Reads.value?_between {j : Json} {s : Text} (h : Reads j s) {steps : Nat}
    {before after rest : Text} {c : Char} (hSteps : 2 * s.length ≤ steps)
    (hBefore : ∀ d ∈ before, isSpace d = true) (hAfter : ∀ d ∈ after, isSpace d = true)
    (hc : c = ',' ∨ c = ']' ∨ c = '\x7d') :
    value? steps (before ++ (s ++ (after ++ c :: rest))) = some (j, after ++ c :: rest) := by
  rw [value?_congr (skipSpace_append hBefore _)]
  exact h steps _ hSteps (endsValue_append hAfter hc)

/-- The text, up to and with the closing bracket, is read as the items of an
array. -/
def ReadsItems (js : List Json) (s : Text) : Prop :=
  ∀ steps rest, 2 * s.length < steps → items? steps (s ++ rest) = some (js, rest)

/-- The last item of an array is read together with the closing bracket. -/
theorem Reads.lastItem {j : Json} {s before after : Text} (h : Reads j s)
    (hBefore : ∀ c ∈ before, isSpace c = true) (hAfter : ∀ c ∈ after, isSpace c = true) :
    ReadsItems [j] (before ++ (s ++ (after ++ [']']))) := by
  intro steps rest hSteps
  cases steps with
  | zero => omega
  | succ steps =>
      simp only [List.length_append, List.append_assoc, List.singleton_append] at hSteps ⊢
      rw [items?, h.value?_between (by omega) hBefore hAfter (.inr (.inl rfl))]
      simp only [skipSpace_append hAfter, skipSpace_cons (c := ']') rfl]

/-- An item before others is read up to its comma. Each pass takes a step and
the comma grants two. -/
theorem Reads.consItem {j : Json} {js : List Json} {s t before : Text} (h : Reads j s)
    (hItems : ReadsItems js t) (hBefore : ∀ c ∈ before, isSpace c = true) :
    ReadsItems (j :: js) (before ++ (s ++ ',' :: t)) := by
  intro steps rest hSteps
  cases steps with
  | zero => omega
  | succ steps =>
      have hText : before ++ (s ++ ',' :: t) ++ rest =
          before ++ (s ++ ([] ++ ',' :: (t ++ rest))) := by simp
      have hNone : ∀ c ∈ ([] : Text), isSpace c = true := by simp
      simp only [List.length_append, List.length_cons] at hSteps
      rw [hText, items?, h.value?_between (by omega) hBefore hNone (.inl rfl)]
      simp only [List.nil_append, skipSpace_cons (c := ',') rfl]
      rw [hItems steps rest (by omega)]
      rfl

theorem name?_quote (name : String) (rest : Text) :
    name? (quote name ++ ':' :: rest) = some (some name.toList, rest) := by
  have hText : quote name ++ ':' :: rest =
      '"' :: (name.toList.flatMap escape ++ '"' :: ':' :: rest) := by
    simp [quote]
  rw [hText, name?, inString?_append]
  simp only [skipSpace_cons (c := ':') rfl]

/-- The text, up to and with the closing brace, is read as the members of an
object. -/
def ReadsMembers (members : List (String × Json)) (s : Text) : Prop :=
  ∀ steps rest, 2 * s.length < steps →
    members? steps (s ++ rest) = some (members.map (fun m => (some m.1.toList, m.2)), rest)

def member (gap : Text) (name : String) (s : Text) : Text :=
  quote name ++ ':' :: (gap ++ s)

/-- The name of a member is read up to its colon, with white space before it. -/
theorem name?_member {before gap s : Text} (name : String)
    (hBefore : ∀ c ∈ before, isSpace c = true) :
    name? (skipSpace (before ++ member gap name s)) = some (some name.toList, gap ++ s) := by
  have hSkip : skipSpace (member gap name s) = member gap name s :=
    skipSpace_cons (c := '"') rfl _
  rw [skipSpace_append hBefore, hSkip, member, name?_quote]

/-- The last member of an object is read together with the closing brace. -/
theorem Reads.lastMember {j : Json} {s before gap after : Text} (h : Reads j s) (name : String)
    (hBefore : ∀ c ∈ before, isSpace c = true) (hGap : ∀ c ∈ gap, isSpace c = true)
    (hAfter : ∀ c ∈ after, isSpace c = true) :
    ReadsMembers [(name, j)] (before ++ (member gap name s ++ (after ++ ['\x7d']))) := by
  intro steps rest hSteps
  cases steps with
  | zero => omega
  | succ steps =>
      have hText : before ++ (member gap name s ++ (after ++ ['\x7d'])) ++ rest =
          before ++ member gap name (s ++ (after ++ '\x7d' :: rest)) := by simp [member]
      have hLength : 2 * s.length ≤ steps := by
        simp only [member, List.length_append, List.length_cons] at hSteps
        omega
      rw [hText, members?, name?_member name hBefore]
      simp only [h.value?_between hLength hGap hAfter (.inr (.inr rfl)), skipSpace_append hAfter,
        skipSpace_cons (c := '\x7d') rfl]
      rfl

/-- A member before others is read up to its comma. -/
theorem Reads.consMember {j : Json} {members : List (String × Json)} {s t before gap : Text}
    (h : Reads j s) (name : String) (hMembers : ReadsMembers members t)
    (hBefore : ∀ c ∈ before, isSpace c = true) (hGap : ∀ c ∈ gap, isSpace c = true) :
    ReadsMembers ((name, j) :: members) (before ++ (member gap name s ++ ',' :: t)) := by
  intro steps rest hSteps
  cases steps with
  | zero => omega
  | succ steps =>
      have hText : before ++ (member gap name s ++ ',' :: t) ++ rest =
          before ++ member gap name (s ++ ([] ++ ',' :: (t ++ rest))) := by simp [member]
      have hNone : ∀ c ∈ ([] : Text), isSpace c = true := by simp
      simp only [member, List.length_append, List.length_cons] at hSteps
      have hLength : 2 * s.length ≤ steps := by omega
      rw [hText, members?, name?_member name hBefore]
      simp only [h.value?_between hLength hGap hNone (.inl rfl)]
      simp only [List.nil_append, skipSpace_cons (c := ',') rfl]
      rw [hMembers steps rest (by omega)]
      rfl

theorem value?_of_bracket {steps : Nat} {s rest : Text} (h : skipSpace s = ']' :: rest) :
    value? steps s = none := by
  cases steps with
  | zero => rw [value?]
  | succ steps =>
      rw [value?, h]
      rfl

/-- With the opening bracket, items are an array. -/
theorem ReadsItems.reads {js : List Json} {s : Text} (h : ReadsItems js s) :
    Reads (.arr js) ('[' :: s) := by
  apply Reads.intro (by simp)
  intro steps rest hSteps _
  have hItems := h steps rest (by simp only [List.length_cons] at hSteps; omega)
  rw [List.cons_append, value?_array]
  split
  · rename_i r hBracket
    -- the array is not empty, since its items are read from the same text
    cases steps with
    | zero => simp [items?] at hItems
    | succ steps => simp [items?, value?_of_bracket hBracket] at hItems
  · rw [items?_congr (skipSpace_skipSpace _), hItems]
    rfl

theorem ofMembers_map (members : List (String × Json)) :
    ofMembers (members.map (fun m => (some m.1.toList, m.2))) = .obj members := by
  have hAll : (members.map (fun m => (some m.1.toList, m.2))).mapM
      (fun (name, j) => name.map (fun n => (String.ofList n, j))) = some members := by
    induction members with
    | nil => rfl
    | cons m members ih => simp [ih]
  rw [ofMembers, hAll]

/-- With the opening brace, members are an object. -/
theorem ReadsMembers.reads {members : List (String × Json)} {s : Text}
    (h : ReadsMembers members s) : Reads (.obj members) ('\x7b' :: s) := by
  apply Reads.intro (by simp)
  intro steps rest hSteps _
  have hMembers := h steps rest (by simp only [List.length_cons] at hSteps; omega)
  rw [List.cons_append, value?_object]
  split
  · rename_i r hBrace
    cases steps with
    | zero => simp [members?] at hMembers
    | succ steps => simp [members?, hBrace, name?] at hMembers
  · rw [members?_congr (skipSpace_skipSpace _), hMembers, Option.map_some]
    simp only [ofMembers_map]

/-- A sequence with commas in between is read when its last entry is, and an
entry before others that are. -/
theorem read_join {α : Type} {Read : List α → Text → Prop} {write : α → Text} {xs : List α}
    {before gap after : Text} {close : Char} (hNe : xs ≠ [])
    (hBefore : ∀ c ∈ before, isSpace c = true) (hGap : ∀ c ∈ gap, isSpace c = true)
    (hLast : ∀ x ∈ xs, ∀ front, (∀ c ∈ front, isSpace c = true) →
      Read [x] (front ++ (write x ++ (after ++ [close]))))
    (hCons : ∀ x ∈ xs, ∀ others t front, Read others t → (∀ c ∈ front, isSpace c = true) →
      Read (x :: others) (front ++ (write x ++ ',' :: t))) :
    Read xs (before ++ (Text.join (',' :: gap) (xs.map write) ++ (after ++ [close]))) := by
  induction xs generalizing before with
  | nil => exact absurd rfl hNe
  | cons x xs ih =>
      cases xs with
      | nil => exact hLast x (by simp) before hBefore
      | cons y ys =>
          have hRest := ih (by simp) hGap (fun z hz => hLast z (by simp [hz]))
            (fun z hz => hCons z (by simp [hz]))
          have hText := hCons x (by simp) _ _ before hRest hBefore
          simpa [Text.join] using hText

theorem reads_emptyArray : Reads (.arr []) ['[', ']'] := by
  apply Reads.intro (by simp)
  intro steps rest _ _
  rfl

theorem reads_emptyObject : Reads (.obj []) ['\x7b', '\x7d'] := by
  apply Reads.intro (by simp)
  intro steps rest _ _
  rfl

/-- An array is read back from its items, with white space in every place where
a writer puts some. -/
theorem reads_array {write : Json → Text} {items : List Json} (before gap after : Text)
    (hNe : items ≠ []) (hRead : ∀ j ∈ items, Reads j (write j))
    (hBefore : ∀ c ∈ before, isSpace c = true) (hGap : ∀ c ∈ gap, isSpace c = true)
    (hAfter : ∀ c ∈ after, isSpace c = true) :
    Reads (.arr items)
      ('[' :: (before ++ (Text.join (',' :: gap) (items.map write) ++ (after ++ [']'])))) := by
  apply ReadsItems.reads
  apply read_join hNe hBefore hGap
  · intro j hj front hFront
    exact (hRead j hj).lastItem hFront hAfter
  · intro j hj others t front hOthers hFront
    exact (hRead j hj).consItem hOthers hFront

/-- An object is read back from its members, with white space in every place
where a writer puts some. -/
theorem reads_object {write : Json → Text} {members : List (String × Json)}
    (before colonGap gap after : Text) (hNe : members ≠ [])
    (hRead : ∀ m ∈ members, Reads m.2 (write m.2))
    (hBefore : ∀ c ∈ before, isSpace c = true) (hColon : ∀ c ∈ colonGap, isSpace c = true)
    (hGap : ∀ c ∈ gap, isSpace c = true) (hAfter : ∀ c ∈ after, isSpace c = true) :
    Reads (.obj members)
      ('\x7b' :: (before ++
        (Text.join (',' :: gap) (members.map fun m => member colonGap m.1 (write m.2)) ++
          (after ++ ['\x7d'])))) := by
  apply ReadsMembers.reads
  apply read_join hNe hBefore hGap
  · intro m hm front hFront
    exact (hRead m hm).lastMember m.1 hFront hColon hAfter
  · intro m hm others t front hOthers hFront
    exact (hRead m hm).consMember m.1 hOthers hFront hColon

end Sequences

section Writers

/-- The values that have a text of their own: their numbers are integers, and
their strings stand for texts. -/
inductive IsPlain : Json → Prop where
  | null : IsPlain .null
  | bool (b : Bool) : IsPlain (.bool b)
  | int (i : Int) : IsPlain (.int i)
  | str (s : String) : IsPlain (.str s)
  | arr {items : List Json} (h : ∀ j ∈ items, IsPlain j) : IsPlain (.arr items)
  | obj {members : List (String × Json)} (h : ∀ m ∈ members, IsPlain m.2) : IsPlain (.obj members)

/-- The compact form of items, said without recursion so that it is read like
any sequence with commas. -/
theorem compactItems_eq_join (js : List Json) :
    compactItems js = Text.join [','] (js.map compact) := by
  induction js with
  | nil => rfl
  | cons j js ih =>
      cases js with
      | nil => rfl
      | cons k js => simp [compactItems, Text.join, ih]

theorem compactMembers_eq_join (members : List (String × Json)) :
    compactMembers members =
      Text.join [','] (members.map fun m => member [] m.1 (compact m.2)) := by
  induction members with
  | nil => rfl
  | cons m members ih =>
      cases members with
      | nil => rfl
      | cons n members => simp [compactMembers, Text.join, member, ih]

theorem prettyItems_eq_join (level : Nat) (js : List Json) :
    prettyItems level js = Text.join (',' :: newLine level) (js.map (pretty level)) := by
  induction js with
  | nil => rfl
  | cons j js ih =>
      cases js with
      | nil => rfl
      | cons k js => simp [prettyItems, Text.join, ih]

theorem prettyMembers_eq_join (level : Nat) (members : List (String × Json)) :
    prettyMembers level members =
      Text.join (',' :: newLine level)
        (members.map fun m => member [' '] m.1 (pretty level m.2)) := by
  induction members with
  | nil => rfl
  | cons m members ih =>
      cases members with
      | nil => rfl
      | cons n members => simp [prettyMembers, Text.join, member, ih]

/-- Every plain value is read back from its compact form. The induction is on
the value, with one case for each way to be plain. -/
theorem IsPlain.reads_compact {j : Json} (h : IsPlain j) : Reads j (compact j) := by
  induction h with
  | null => exact reads_null
  | bool b => exact reads_bool b
  | int i => exact reads_int i
  | str s => exact reads_str s
  | @arr items _ ih =>
      cases items with
      | nil => exact reads_emptyArray
      | cons j js =>
          have hReads := reads_array [] [] [] (List.cons_ne_nil j js) ih (by simp)
            (by simp) (by simp)
          simpa [compact, compactItems_eq_join] using hReads
  | @obj members _ ih =>
      cases members with
      | nil => exact reads_emptyObject
      | cons m ms =>
          have hReads := reads_object [] [] [] [] (List.cons_ne_nil m ms) ih (by simp)
            (by simp) (by simp) (by simp)
          simpa [compact, compactMembers_eq_join] using hReads

theorem isSpace_of_mem_newLine {level : Nat} {c : Char} (h : c ∈ newLine level) :
    isSpace c = true := by
  rcases List.mem_cons.mp h with rfl | h
  · rfl
  · obtain ⟨-, rfl⟩ := List.mem_replicate.mp h
    rfl

/-- Every plain value is read back from its form on many lines, at any level of
indentation. -/
theorem IsPlain.reads_pretty {j : Json} (h : IsPlain j) (level : Nat) :
    Reads j (pretty level j) := by
  induction h generalizing level with
  | null => exact reads_null
  | bool b => exact reads_bool b
  | int i => exact reads_int i
  | str s => exact reads_str s
  | @arr items _ ih =>
      cases items with
      | nil => exact reads_emptyArray
      | cons j js =>
          have hReads := reads_array (newLine (level + 1)) (newLine (level + 1)) (newLine level)
            (List.cons_ne_nil j js) (fun k hk => ih k hk (level + 1))
            (fun _ => isSpace_of_mem_newLine) (fun _ => isSpace_of_mem_newLine)
            (fun _ => isSpace_of_mem_newLine)
          simpa [pretty, prettyItems_eq_join] using hReads
  | @obj members _ ih =>
      cases members with
      | nil => exact reads_emptyObject
      | cons m ms =>
          have hReads := reads_object (newLine (level + 1)) [' '] (newLine (level + 1))
            (newLine level) (List.cons_ne_nil m ms)
            (fun n hn => ih n hn (level + 1)) (fun _ => isSpace_of_mem_newLine) (by simp [isSpace])
            (fun _ => isSpace_of_mem_newLine) (fun _ => isSpace_of_mem_newLine)
          simpa [pretty, prettyMembers_eq_join] using hReads

/-- A text that is read as a value, with white space after it, stands for the
value. The steps that a whole text is granted are always enough. -/
theorem Reads.parse?_append {j : Json} {s trail : Text} (h : Reads j s)
    (hTrail : ∀ c ∈ trail, isSpace c = true) : parse? (s ++ trail) = some j := by
  have hEnds : EndsValue trail := by
    cases trail with
    | nil => rfl
    | cons c trail => simp [EndsValue, hTrail c (by simp)]
  have hValue := h (2 * (s ++ trail).length + 2) trail (by simp; omega) hEnds
  have hNone : skipSpace trail = [] := by simpa [skipSpace] using hTrail
  rw [parse?, hValue]
  simp [hNone]

end Writers

end Json

end Drydock
