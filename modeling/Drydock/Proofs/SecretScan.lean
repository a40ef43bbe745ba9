import Drydock.Proofs.AssignmentLayout
import Drydock.Proofs.Block
import Drydock.Proofs.Secret

/-! Secrets as the check of the instructions and the scan of the lines see them.
The check looks at each assignment as it was read, with an equals sign put
between its key and its value. The scan looks at the line as it is written. So
an assignment that looks like a secret is found on its line too, unless the line
mounts a secret or the equals sign is not written. -/
namespace Drydock

/-- After a text without `c`, the next `c` stands first or has the other one
behind it. -/
theorem Text.append_cons_eq_cases {c : Char} {s t a b : Text} (hNone : c ∉ s)
    (h : s ++ c :: t = a ++ c :: b) :
    (a = s ∧ b = t) ∨ ∃ more, a = s ++ c :: more ∧ t = more ++ c :: b := by
  rcases List.append_eq_append_iff.mp h with ⟨es, rfl, hEnd⟩ | ⟨es, rfl, hEnd⟩
  · cases es with
    | nil => exact .inl ⟨by simp, (List.cons.inj hEnd).2.symm⟩
    | cons d es =>
        obtain ⟨rfl, rfl⟩ := List.cons.inj hEnd
        exact .inr ⟨es, rfl, rfl⟩
  · cases es with
    | nil => exact .inl ⟨by simp, (List.cons.inj hEnd).2⟩
    | cons d es =>
        obtain ⟨rfl, -⟩ := List.cons.inj hEnd
        exact absurd (by simp) hNone

namespace Secret

theorem isAlpha_of_isLower_toLower {c : Char} (h : c.toLower.isLower = true) :
    c.isAlpha = true := by
  rw [Char.isAlpha, Bool.or_eq_true]
  by_cases hUpper : c.isUpper = true
  · exact .inl hUpper
  · refine .inr ?_
    rwa [Char.toLower_eq_of_not_isUpper hUpper] at h

theorem isBlank_of_isNameChar {c : Char} (h : isNameChar c = true) : Text.isBlank c = false := by
  rw [isNameChar, Bool.or_eq_true, Bool.or_eq_true, Text.isFoldedLetter, Text.fold] at h
  rcases h with (hLetter | hDigit) | hUnderscore
  · split at hLetter
    · subst c
      decide
    · split at hLetter
      · subst c
        decide
      · exact Text.isBlank_of_isAlpha (isAlpha_of_isLower_toLower hLetter)
  · have hBounds := Text.isDigit_bounds hDigit
    simp [Text.isBlank]
    omega
  · obtain rfl : c = '_' := by simpa using hUnderscore
    decide

/-- The rest of a name, an equals sign that blanks may surround, and a value.
The value may be anything that is not blank altogether. -/
theorem assigns_iff {s : Text} :
    assigns s = true ↔
      ∃ more gap value, s = more ++ (gap ++ '=' :: value) ∧ (∀ c ∈ more, isNameChar c = true) ∧
        (∀ c ∈ gap, Text.isBlank c = true) ∧ Text.trimStart value ≠ [] := by
  rw [assigns]
  constructor
  · intro h
    split at h
    · rename_i value hSign
      obtain ⟨gap, hGap, hSplit⟩ := Text.exists_append_trimStart (s.dropWhile isNameChar)
      refine ⟨s.takeWhile isNameChar, gap, value, ?_, ?_, hGap, by simpa using h⟩
      · rw [← hSign, ← hSplit, List.takeWhile_append_dropWhile]
      · exact fun c hc => List.mem_takeWhile_imp hc
    · simp at h
  · rintro ⟨more, gap, value, rfl, hMore, hGap, hValue⟩
    have hDrop : (gap ++ '=' :: value).dropWhile isNameChar = gap ++ '=' :: value := by
      cases gap with
      | nil => exact List.dropWhile_cons_of_neg (by decide)
      | cons c gap =>
          apply List.dropWhile_cons_of_neg
          intro hc
          have hBlank := hGap c (by simp)
          simp [isBlank_of_isNameChar hc] at hBlank
    rw [List.dropWhile_append_of_pos hMore, hDrop, Text.trimStart_append_of_blank hGap,
      Text.trimStart_cons_of_not_blank (by decide)]
    simpa using hValue

def IsCredentialName (name : Text) : Prop :=
  ∃ lead mention more, name = lead ++ (mention ++ more) ∧ (∀ c ∈ lead, isNameChar c = true) ∧
    mention.map Text.fold ∈ credentials ∧ ∀ c ∈ more, isNameChar c = true

/-- A credential is told by its folded letters, and what follows it has to
assign. -/
theorem beginsCredential_iff {s : Text} :
    beginsCredential s = true ↔
      ∃ mention rest, s = mention ++ rest ∧ mention.map Text.fold ∈ credentials ∧
        assigns rest = true := by
  rw [beginsCredential, List.any_eq_true]
  constructor
  · rintro ⟨word, hWord, h⟩
    split at h
    · rename_i rest hRest
      obtain ⟨mention, rfl, rfl⟩ := Text.afterFolded?_eq_some_iff.mp hRest
      exact ⟨mention, rest, rfl, hWord, h⟩
    · simp at h
  · rintro ⟨mention, rest, rfl, hWord, h⟩
    refine ⟨_, hWord, ?_⟩
    rw [Text.afterFolded?_append rfl]
    exact h

/-- A credential in the name that begins a text may have characters of a name
before it. As a hyphen is none, it stands inside a mention only. -/
theorem inName_iff {s : Text} :
    inName s = true ↔
      ∃ lead rest, s = lead ++ rest ∧ (∀ c ∈ lead, isNameChar c = true) ∧
        beginsCredential rest = true := by
  constructor
  · intro h
    induction s with
    | nil => simp [inName] at h
    | cons c s ih =>
        rw [inName, Bool.or_eq_true, Bool.and_eq_true] at h
        rcases h with hHere | ⟨hc, hLater⟩
        · exact ⟨[], c :: s, rfl, by simp, hHere⟩
        · obtain ⟨lead, rest, rfl, hLead, hRest⟩ := ih hLater
          exact ⟨c :: lead, rest, rfl, List.forall_mem_cons.mpr ⟨hc, hLead⟩, hRest⟩
  · rintro ⟨lead, rest, rfl, hLead, hRest⟩
    apply inName_append hLead hRest
    rintro rfl
    exact absurd hRest (by decide)

/-- A text looks like a secret where a name that mentions a credential begins a
word and is assigned to. -/
theorem looksSecret_iff {s : Text} :
    looksSecret s = true ↔
      ∃ front name gap value, s = front ++ (name ++ (gap ++ '=' :: value)) ∧
        front.getLast?.all (!Text.isWord ·) = true ∧ IsCredentialName name ∧
        (∀ c ∈ gap, Text.isBlank c = true) ∧ Text.trimStart value ≠ [] := by
  rw [looksSecret, Text.anyAtWordStart_iff]
  constructor
  · rintro ⟨front, text, rfl, hFront, hName⟩
    obtain ⟨lead, begins, rfl, hLead, hBegins⟩ := inName_iff.mp hName
    obtain ⟨mention, rest, rfl, hMention, hAssigns⟩ := beginsCredential_iff.mp hBegins
    obtain ⟨more, gap, value, rfl, hMore, hGap, hValue⟩ := assigns_iff.mp hAssigns
    exact ⟨front, lead ++ (mention ++ more), gap, value, by simp, hFront,
      ⟨lead, mention, more, rfl, hLead, hMention, hMore⟩, hGap, hValue⟩
  · rintro ⟨front, name, gap, value, rfl, hFront,
      ⟨lead, mention, more, rfl, hLead, hMention, hMore⟩, hGap, hValue⟩
    refine ⟨front, _, rfl, hFront, inName_iff.mpr ⟨lead, mention ++ (more ++ (gap ++ '=' :: value)),
      by simp, hLead, beginsCredential_iff.mpr ⟨mention, _, rfl, hMention, ?_⟩⟩⟩
    exact assigns_iff.mpr ⟨more, gap, value, rfl, hMore, hGap, hValue⟩

/-- Without an equals sign nothing looks like a secret. -/
theorem mem_of_looksSecret {s : Text} (h : looksSecret s = true) : '=' ∈ s := by
  obtain ⟨front, name, gap, value, rfl, -⟩ := looksSecret_iff.mp h
  simp

/-- What looks like a secret does so within any text, unless a word is
lengthened. -/
theorem looksSecret_append {front s : Text} (hFront : front.getLast?.all (!Text.isWord ·) = true)
    (h : looksSecret s = true) (back : Text) : looksSecret (front ++ (s ++ back)) = true := by
  obtain ⟨before, name, gap, value, rfl, hBefore, hName, hGap, hValue⟩ := looksSecret_iff.mp h
  refine looksSecret_iff.mpr ⟨front ++ before, name, gap, value ++ back, by simp,
    Text.all_getLast?_append hBefore fun _ => hFront, hName, hGap, ?_⟩
  simp [Text.trimStart_append hValue, hValue]

theorem not_mem_credentials : ∀ word ∈ credentials, '=' ∉ word := by
  decide

/-- A name that mentions a credential ends before the sign of its assignment. -/
theorem IsCredentialName.not_mem {name : Text} (h : IsCredentialName name) : '=' ∉ name := by
  obtain ⟨lead, mention, more, rfl, hLead, hMention, hMore⟩ := h
  have hSign : ¬ isNameChar '=' = true := by decide
  rw [List.mem_append, List.mem_append]
  rintro (hMem | hMem | hMem)
  · exact hSign (hLead _ hMem)
  · exact not_mem_credentials _ hMention (List.mem_map.mpr ⟨'=', hMem, rfl⟩)
  · exact hSign (hMore _ hMem)

/-- A key that ends in a word which mentions a credential. -/
def EndsInCredential (key : Text) : Prop :=
  ∃ front name, key = front ++ name ∧ front.getLast?.all (!Text.isWord ·) = true ∧
    IsCredentialName name

/-- An assignment looks like a secret for its key or for its value alone, since
a name that is assigned to has no sign in it and so reaches over none. -/
theorem endsInCredential_or_of_looksSecret {key value : Text}
    (hKey : ∀ c ∈ key, Assignments.isKeyChar c = true)
    (h : looksSecret (key ++ '=' :: value) = true) :
    EndsInCredential key ∨ looksSecret value = true := by
  obtain ⟨front, name, gap, rest, hSplit, hFront, hName, hGap, hRest⟩ := looksSecret_iff.mp h
  have hSign : '=' ∉ key := fun hMem => absurd (hKey _ hMem) (by decide)
  have hOther : '=' ∉ name ++ gap := by
    rw [List.mem_append, not_or]
    exact ⟨hName.not_mem, fun hMem => absurd (hGap _ hMem) (by decide)⟩
  -- the sign after the name is the one after the key, or it comes later
  have hSigns : key ++ '=' :: value = (front ++ (name ++ gap)) ++ '=' :: rest := by
    simpa using hSplit
  rcases Text.append_cons_eq_cases hSign hSigns with ⟨hHere, rfl⟩ | ⟨later, hLater, rfl⟩
  · -- no blank stands before it then, since there is none in the key
    have hNone : gap = [] := by
      rw [List.eq_nil_iff_forall_not_mem]
      intro c hc
      have hBlank := Assignments.isBlank_of_isKeyChar (hKey c (by simp [← hHere, hc]))
      simp [hGap c hc] at hBlank
    subst hNone
    exact .inl ⟨front, name, by simpa using hHere.symm, hFront, hName⟩
  · rcases List.append_eq_append_iff.mp hLater with ⟨es, -, hName'⟩ | ⟨es, rfl, hEnd⟩
    · exact absurd (by simp [hName']) hOther
    · cases es with
      | nil =>
          rw [List.nil_append] at hEnd
          exact absurd (by simp [← hEnd]) hOther
      | cons c es =>
          obtain ⟨rfl, rfl⟩ := List.cons.inj hEnd
          refine .inr (looksSecret_iff.mpr ⟨es, name, gap, rest, by simp, ?_, hName, hGap, hRest⟩)
          cases hLast : es.getLast? with
          | none => rfl
          | some d => simpa [List.getLast?_append, List.getLast?_cons, hLast] using hFront

/-- The name of an assigned variable is found before a written sign. -/
theorem EndsInCredential.looksSecret {key front gap value : Text} (h : EndsInCredential key)
    (hFront : front.getLast?.all (!Text.isWord ·) = true)
    (hGap : ∀ c ∈ gap, Text.isBlank c = true) (hValue : Text.trimStart value ≠ []) :
    looksSecret (front ++ (key ++ (gap ++ '=' :: value))) = true := by
  obtain ⟨before, name, rfl, hBefore, hName⟩ := h
  have hAlone : Secret.looksSecret (before ++ (name ++ (gap ++ '=' :: value))) = true :=
    looksSecret_iff.mpr ⟨before, name, gap, value, rfl, hBefore, hName, hGap, hValue⟩
  simpa using looksSecret_append hFront hAlone []

end Secret

namespace Assignments

/-- A value that is not empty stands in the text with no word before it. -/
theorem Form.exists_value_split {form : Form} {value : Text} (hFits : form.Fits value)
    (hNe : value ≠ []) :
    ∃ lead trail, form.tail value = lead ++ (value ++ trail) ∧
      lead.getLast?.any (!Text.isWord ·) = true := by
  have hGapEnd : ∀ {gap : Text}, gap ≠ [] → (∀ c ∈ gap, Text.isBlank c = true) →
      gap.getLast?.any (!Text.isWord ·) = true := by
    intro gap hGapNe hGap
    rw [List.getLast?_eq_some_getLast hGapNe]
    simp [Text.isWord_of_isBlank (hGap _ (List.getLast_mem hGapNe))]
  cases form with
  | bare => exact ⟨['='], [], by simp [tail], by decide⟩
  | quoted => exact ⟨['=', '"'], ['"'], rfl, by decide⟩
  | unclosed => exact ⟨['=', '"'], [], by simp [tail], by decide⟩
  | loose gap =>
      obtain ⟨hGap, hNil, -⟩ := hFits
      exact ⟨gap, [], by simp [tail], hGapEnd (fun h => hNe (hNil h)) hGap⟩
  | looseQuoted gap =>
      refine ⟨gap ++ ['"'], ['"'], by simp [tail], ?_⟩
      have hQuote : Text.isWord '"' = false := by decide
      simp [hQuote]

namespace Piece

/-- Whether an equals sign is written after the key, with something behind it.
Blanks may surround the sign. -/
def isSigned (p : Piece) : Bool :=
  match Text.trimStart (p.form.tail p.value) with
  | '=' :: rest => !(Text.trimStart rest).isEmpty
  | _ => false

/-- Where a sign is written, what comes after the key is a gap, the sign and
something more. -/
theorem exists_of_isSigned {p : Piece} (h : p.isSigned = true) :
    ∃ gap rest, p.form.tail p.value = gap ++ '=' :: rest ∧
      (∀ c ∈ gap, Text.isBlank c = true) ∧ Text.trimStart rest ≠ [] := by
  obtain ⟨gap, hGap, hSplit⟩ := Text.exists_append_trimStart (p.form.tail p.value)
  rw [isSigned] at h
  split at h
  · rename_i rest hSign
    rw [hSign] at hSplit
    exact ⟨gap, rest, hSplit, hGap, by simpa using h⟩
  · simp at h

/-- An assignment that looks like a secret as it is read does so as it is
written, if its sign is written or its value gives it away. -/
theorem looksSecret_text {p : Piece} {front : Text}
    (hFront : front.getLast?.all (!Text.isWord ·) = true)
    (hSecret : Secret.looksSecret (Arguments.assignment p.pair) = true)
    (hShown : p.isSigned = true ∨ Secret.looksSecret p.value = true) (back : Text) :
    Secret.looksSecret (front ++ (p.text ++ back)) = true := by
  -- a value that looks like a secret by itself does so wherever it stands
  have hValue : Secret.looksSecret p.value = true →
      Secret.looksSecret (front ++ (p.text ++ back)) = true := by
    intro hValue
    have hNe : p.value ≠ [] := by
      intro hNil
      rw [hNil] at hValue
      exact absurd hValue (by decide)
    obtain ⟨lead, trail, hTail, hLead⟩ := Form.exists_value_split p.fits hNe
    have hBefore : (front ++ p.key ++ lead).getLast?.all (!Text.isWord ·) = true := by
      cases hLast : lead.getLast? with
      | none => simp [hLast] at hLead
      | some c => simpa [List.getLast?_append, hLast] using hLead
    simpa [text, hTail] using Secret.looksSecret_append hBefore hValue (trail ++ back)
  rcases hShown with hSigned | hShown
  · rcases Secret.endsInCredential_or_of_looksSecret p.isKeyChar_key hSecret with hKey | hAlone
    · obtain ⟨gap, rest, hTail, hGap, hRest⟩ := exists_of_isSigned hSigned
      have hMore : Text.trimStart (rest ++ back) ≠ [] := by
        simp [Text.trimStart_append hRest, hRest]
      simpa [text, hTail] using hKey.looksSecret hFront hGap hMore
    · exact hValue hAlone
  · exact hValue hShown

end Piece

end Assignments

namespace Instruction

/-- The instruction sets variables, and this is one of the assignments that its
line divides into. -/
structure Assigns (i : Instruction) (p : Assignments.Piece) : Prop where
  sets : (i.is "ENV" || i.is "ARG") = true
  laid_out : ∃ word args pieces, keyword? (Text.trim i.source) = some (word, args) ∧
    Assignments.Layout args pieces ∧ i.args = .assignments (pieces.map Assignments.Piece.pair) ∧
    p ∈ pieces

/-- The line has the option of a secret mount, or the assignment goes without a
sign and has a value that gives nothing away. -/
def Hides (i : Instruction) (p : Assignments.Piece) : Prop :=
  Text.occursIn "--mount=type=secret".toList i.source = true ∨
    (p.isSigned = false ∧ Secret.looksSecret p.value = false)

theorem upper_eq_of_sets {i : Instruction} {word : Text} (hName : i.name = Text.upper word)
    (h : (i.is "ENV" || i.is "ARG") = true) :
    Text.upper word = "ENV".toList ∨ Text.upper word = "ARG".toList := by
  rw [Bool.or_eq_true] at h
  exact h.imp (upper_eq_of_is hName) (upper_eq_of_is hName)

/-- The arguments of an instruction that sets variables are assignments, unless
there is no equals sign at all. An ARG without one declares a variable and gives
it no value. -/
theorem argumentsOf_of_sets (args : Text) {name : Text}
    (h : name = "ENV".toList ∨ name = "ARG".toList) :
    argumentsOf name args = .assignments (Assignments.read args) ∨
      (argumentsOf name args = .text args ∧ '=' ∉ args) := by
  rcases h with rfl | rfl
  · exact .inl rfl
  · by_cases hSign : '=' ∈ args
    · exact .inl (by simp [argumentsOf, takesAssignments, hSign])
    · exact .inr ⟨by simp [argumentsOf, takesAssignments, takesExecForm, hSign], hSign⟩

/-- The source of an instruction on one line, without the blanks around it,
begins with its keyword. -/
theorem keyword?_source {i : Instruction} {line word rest : Text}
    (hSource : i.source = Text.trimEnd line) (hTrim : Text.trim line = word ++ rest)
    (hWord : isKeyword word = true) (hRest : rest.head?.all Text.isBlank = true) :
    keyword? (Text.trim i.source) = some (word, Text.trim rest) := by
  obtain ⟨c, cs, hCons, -⟩ := exists_cons_of_isKeyword hWord
  rw [hSource, Text.trim_trimEnd, hTrim]
  exact keyword?_append (by simp [hCons]) (isAlpha_of_isKeyword hWord) hRest

/-- An assignment stands on the line of its instruction with no word before
it. -/
theorem Assigns.exists_split {i : Instruction} {p : Assignments.Piece} (h : i.Assigns p)
    {line word rest : Text} (hSource : i.source = Text.trimEnd line)
    (hTrim : Text.trim line = word ++ rest) (hWord : isKeyword word = true)
    (hRest : rest.head?.all Text.isBlank = true) :
    ∃ front back, Text.trim line = front ++ (p.text ++ back) ∧
      front.getLast?.all (!Text.isWord ·) = true := by
  obtain ⟨word', args, pieces, hKeyword, hLayout, -, hMem⟩ := h.laid_out
  rw [keyword?_source hSource hTrim hWord hRest] at hKeyword
  obtain ⟨-, rfl⟩ := Prod.mk.inj (Option.some.inj hKeyword)
  obtain ⟨front, back, hArgs, hFront⟩ := hLayout.exists_split hMem
  obtain ⟨gap, trail, hGap, -, hAround⟩ := Text.exists_trim_append rest
  rw [hArgs] at hAround
  refine ⟨word ++ gap ++ front, back ++ trail, by rw [hTrim, hAround]; simp, ?_⟩
  refine Text.all_getLast?_append hFront ?_
  -- an assignment that comes first has the blanks after the keyword before it
  rintro rfl
  have hNe : gap ≠ [] := by
    rintro rfl
    obtain ⟨c, key, hKey⟩ := List.exists_cons_of_ne_nil p.key_ne_nil
    have hc := Assignments.isBlank_of_isKeyChar (p.isKeyChar_key c (by simp [hKey]))
    simp [hAround, Assignments.Piece.text, hKey, hc] at hRest
  rw [List.getLast?_append_of_ne_nil _ hNe, List.getLast?_eq_some_getLast hNe]
  simp [Text.isWord_of_isBlank (hGap _ (List.getLast_mem hNe))]

end Instruction

theorem isBlank_mountOption : ∀ c ∈ "--mount=type=secret".toList, Text.isBlank c = false := by
  have hAll : "--mount=type=secret".toList.all (!Text.isBlank ·) = true := by decide
  intro c hc
  simpa using List.all_eq_true.mp hAll c hc

section File

variable {content : Text} {instructions : List Instruction}
  (hParse : parse content = .ok instructions)
  (hEnds : ∀ line ∈ Text.lines content, (Text.trimEnd line).getLast? ≠ some '\\')

include hParse hEnds

/-- The rule fails for an assignment that looks like a secret. -/
theorem noSecrets_fails_iff_assigns :
    (Rule.noSecrets.evaluate instructions).passed = false ↔
      ∃ i ∈ instructions, ∃ p, i.Assigns p ∧
        Secret.looksSecret (Arguments.assignment p.pair) = true := by
  have hFails : (Rule.noSecrets.evaluate instructions).passed = false ↔
      (Rule.settings instructions).any Secret.looksSecret = true := by
    simp [Rule.passed_evaluate, Rule.noSecrets]
  rw [hFails, List.any_eq_true]
  constructor
  · rintro ⟨setting, hSetting, hSecret⟩
    rw [Rule.settings, List.mem_flatMap] at hSetting
    obtain ⟨i, hi, hSetting⟩ := hSetting
    obtain ⟨hMem, hSets⟩ := List.mem_filter.mp hi
    obtain ⟨before, line, more, word, rest, -, -, hSource, hTrim, hWord, hRest, hName, hArgs⟩ :=
      exists_line_of_instruction hParse hEnds hMem
    have hForm := Instruction.argumentsOf_of_sets (Text.trim rest)
      (Instruction.upper_eq_of_sets hName hSets)
    rw [← hArgs] at hForm
    rcases hForm with hRead | ⟨hText, hSign⟩
    · obtain ⟨pieces, hLayout⟩ := Assignments.exists_layout (Text.trim rest)
      rw [hLayout.read_eq] at hRead
      rw [hRead, List.mem_map] at hSetting
      obtain ⟨pair, hPair, rfl⟩ := hSetting
      obtain ⟨p, hp, rfl⟩ := List.mem_map.mp hPair
      have hKeyword := Instruction.keyword?_source hSource hTrim hWord hRest
      exact ⟨i, hMem, p, ⟨hSets, word, _, pieces, hKeyword, hLayout, hRead, hp⟩, hSecret⟩
    · -- without an equals sign nothing looks like a secret
      rw [Instruction.value, hText] at hSetting
      obtain rfl : setting = Text.trim rest := List.mem_singleton.mp hSetting
      exact absurd (Secret.mem_of_looksSecret hSecret) hSign
  · rintro ⟨i, hMem, p, hAssigns, hSecret⟩
    obtain ⟨word, args, pieces, -, -, hArgs, hp⟩ := hAssigns.laid_out
    refine ⟨Arguments.assignment p.pair, ?_, hSecret⟩
    rw [Rule.settings, List.mem_flatMap]
    refine ⟨i, List.mem_filter.mpr ⟨hMem, hAssigns.sets⟩, ?_⟩
    rw [hArgs]
    exact List.mem_map_of_mem (List.mem_map_of_mem hp)

/-- Unless its line hides it, an assignment that looks like a secret is reported
at the line of its instruction. -/
theorem exists_mem_scan_of_assigns {i : Instruction} {p : Assignments.Piece}
    (hMem : i ∈ instructions) (hAssigns : i.Assigns p)
    (hSecret : Secret.looksSecret (Arguments.assignment p.pair) = true) (hShown : ¬ i.Hides p) :
    ∃ f ∈ LineScan.scan (BuildKit.detect content) content,
      f.rule = "no-secrets" ∧ f.passed = false ∧ f.line = some i.line := by
  rw [Instruction.Hides, not_or, not_and_or, Bool.not_eq_true, Bool.not_eq_false,
    Bool.not_eq_false] at hShown
  obtain ⟨hMount, hSign⟩ := hShown
  obtain ⟨before, line, more, word, rest, hLines, hLine, hSource, hTrim, hWord, hRest, hName, -⟩ :=
    exists_line_of_instruction hParse hEnds hMem
  have hFeed : '\n' ∉ line := Text.not_mem_of_mem_lines (by rw [hLines]; simp)
  obtain ⟨front, back, hSplit, hFront⟩ := hAssigns.exists_split hSource hTrim hWord hRest
  have hLooks : Secret.looksSecret (Text.trim line) = true := by
    rw [hSplit]
    exact Assignments.Piece.looksSecret_text hFront hSecret hSign back
  have hNoMount : Text.occursIn "--mount=type=secret".toList line = false := by
    rwa [← Text.occursIn_trim isBlank_mountOption, ← Text.trim_trimEnd,
      Text.occursIn_trim isBlank_mountOption, ← hSource]
  obtain ⟨f, hFound, hBreaks, hNumber⟩ := Secret.exists_mem_scanLine (1 + before.length)
    (Instruction.upper_eq_of_sets hName hAssigns.sets) hTrim hFeed hNoMount hLooks
  rw [← hLine] at hNumber
  exact ⟨f, LineScan.mem_scan _ hLines hFound, hBreaks.rule_eq, hBreaks.not_passed, hNumber⟩

end File

/-- Where no line is continued, the check of the instructions finds a secret
exactly when an assignment looks like one, and the scan of the lines reports
each such assignment at its line unless the line hides it. -/
theorem scan_reports_assigned_secret {content : Text} {instructions : List Instruction}
    (hParse : parse content = .ok instructions)
    (hEnds : ∀ line ∈ Text.lines content, (Text.trimEnd line).getLast? ≠ some '\\') :
    ((Rule.noSecrets.evaluate instructions).passed = false ↔
      ∃ i ∈ instructions, ∃ p, i.Assigns p ∧
        Secret.looksSecret (Arguments.assignment p.pair) = true) ∧
    ∀ i ∈ instructions, ∀ p, i.Assigns p →
      Secret.looksSecret (Arguments.assignment p.pair) = true → ¬ i.Hides p →
      ∃ f ∈ LineScan.scan (BuildKit.detect content) content,
        f.rule = "no-secrets" ∧ f.passed = false ∧ f.line = some i.line := by
  refine ⟨noSecrets_fails_iff_assigns hParse hEnds, ?_⟩
  intro i hMem p hAssigns hSecret hShown
  exact exists_mem_scan_of_assigns hParse hEnds hMem hAssigns hSecret hShown

/-- The first assignment of `passwordFile`, which the next one follows at
once. -/
def quotedPiece : Assignments.Piece :=
  ⟨"MODE".toList, "b c".toList, .quoted, by simp, by simp [Assignments.isKeyChar, Text.isBlank],
    .plain (by decide) (by decide) (.plain (by decide) (by decide)
      (.plain (by decide) (by decide) .nil))⟩

/-- The second one, with blanks around its sign. -/
def passwordPiece : Assignments.Piece :=
  ⟨"DB_PASSWORD".toList, "= x".toList, .loose [' '], by simp,
    List.all_eq_true.mp (by decide), by simp [Text.isBlank], by simp, by decide, by simp⟩

def passwordFile : Text :=
  "FROM a:1\n env MODE=\"b c\"DB_PASSWORD = x\n".toList

def passwordInstruction : Instruction :=
  ⟨"ENV".toList, .assignments [quotedPiece.pair, passwordPiece.pair], 2,
    " env MODE=\"b c\"DB_PASSWORD = x".toList⟩

theorem assigns_passwordInstruction : passwordInstruction.Assigns passwordPiece := by
  refine ⟨by decide, "env".toList, "MODE=\"b c\"DB_PASSWORD = x".toList,
    [quotedPiece, passwordPiece], by decide, ?_, rfl, by simp⟩
  have hNone : ∀ c ∈ ([] : Text), Assignments.isKeyChar c = false := by simp
  have hEnd : passwordPiece.form.MayPrecede [] := List.forall_mem_nil _
  have hNext : quotedPiece.form.MayPrecede ([] ++ (passwordPiece.text ++ [])) := trivial
  exact .piece hNone hNext (.piece hNone hEnd (.done hNone))

set_option maxRecDepth 8000 in
/-- The second assignment follows the quotes of the first at once. It is read by
itself and reported all the same. -/
theorem scan_reports_passwordFile :
    (∃ instructions, parse passwordFile = .ok instructions ∧
      (Rule.noSecrets.evaluate instructions).passed = false) ∧
    ∃ f ∈ LineScan.scan (BuildKit.detect passwordFile) passwordFile,
      f.rule = "no-secrets" ∧ f.passed = false ∧ f.line = some 2 := by
  have hParse : parse passwordFile =
      .ok [⟨"FROM".toList, .text "a:1".toList, 1, "FROM a:1".toList⟩, passwordInstruction] := by
    decide +kernel
  have hSecret : Secret.looksSecret (Arguments.assignment passwordPiece.pair) = true := by decide
  have hShown : ¬ passwordInstruction.Hides passwordPiece := by
    rw [Instruction.Hides]
    decide
  obtain ⟨hFails, hReports⟩ := scan_reports_assigned_secret hParse (by decide)
  refine ⟨⟨_, hParse, hFails.mpr ⟨passwordInstruction, by simp, passwordPiece,
    assigns_passwordInstruction, hSecret⟩⟩, ?_⟩
  exact hReports passwordInstruction (by simp) passwordPiece assigns_passwordInstruction hSecret
    hShown

/-- The check of the instructions finds a secret in a file without continued
lines, and the scan of the lines finds none. -/
def MissesSecret (content : Text) : Prop :=
  (∀ line ∈ Text.lines content, (Text.trimEnd line).getLast? ≠ some '\\') ∧
  (∃ instructions, parse content = .ok instructions ∧
    (Rule.noSecrets.evaluate instructions).passed = false) ∧
  ¬ ∃ f ∈ LineScan.scan (BuildKit.detect content) content,
    f.rule = "no-secrets" ∧ f.passed = false

def looseFile : Text :=
  "FROM a:1\nENV PASSWORD hunter2\n".toList

/-- A file that sets the option of a secret mount as a value. -/
def mountFile : Text :=
  "FROM a:1\nENV TOKEN_FLAGS=--mount=type=secret,id=a\n".toList

set_option maxRecDepth 8000 in
/-- Both ways in which a line can hide a secret occur: an assignment without a
sign, and a value that holds the option of a secret mount. -/
theorem missesSecret_looseFile_and_mountFile :
    MissesSecret looseFile ∧ MissesSecret mountFile := by
  constructor
  · refine ⟨by decide, ⟨[⟨"FROM".toList, .text "a:1".toList, 1, "FROM a:1".toList⟩,
      ⟨"ENV".toList, .assignments [("PASSWORD".toList, "hunter2".toList)], 2,
        "ENV PASSWORD hunter2".toList⟩], ?_, ?_⟩, ?_⟩
    · decide +kernel
    · decide
    · decide +kernel
  · refine ⟨by decide, ⟨[⟨"FROM".toList, .text "a:1".toList, 1, "FROM a:1".toList⟩,
      ⟨"ENV".toList,
        .assignments [("TOKEN_FLAGS".toList, "--mount=type=secret,id=a".toList)], 2,
        "ENV TOKEN_FLAGS=--mount=type=secret,id=a".toList⟩], ?_, ?_⟩, ?_⟩
    · decide +kernel
    · decide
    · decide +kernel

end Drydock
