import Drydock.Proofs.SecretScan
import Drydock.Proofs.Words

/-! The name that a verdict on secrets gives. An assignment is found by a key
that may have a hyphen in the mention of a credential, and may have other words
before it. What is named has letters, digits and underscores only, and it is
looked for word by word. So the key is named when it is such a name itself,
unless its value begins with a blank and has a word that is taken for the
culprit. -/
namespace Drydock

namespace Secret

/-- The name of a variable: a letter or an underscore, and then also digits. -/
structure IsVariableName (name : Text) : Prop where
  head? : name.head?.any isVariableStart = true
  isVariableChar_of_mem : ∀ c ∈ name, isVariableChar c = true

theorem isVariableChar_of_isVariableStart {c : Char} (h : isVariableStart c = true) :
    isVariableChar c = true := by
  rw [isVariableStart, Bool.or_eq_true] at h
  rw [isVariableChar, Char.isAlphanum, Bool.or_eq_true, Bool.or_eq_true]
  exact h.imp_left .inl

theorem isKeyChar_of_isVariableChar {c : Char} (h : isVariableChar c = true) :
    Assignments.isKeyChar c = true := by
  have hBlank := isBlank_of_isNameChar (isNameChar_of_isVariableChar h)
  have hSign : c ≠ '=' := by
    rintro rfl
    exact absurd h (by decide)
  simp [Assignments.isKeyChar, hBlank, hSign]

theorem IsVariableName.sign_notMem {name : Text} (h : IsVariableName name) : '=' ∉ name :=
  fun hMem => absurd (h.isVariableChar_of_mem _ hMem) (by decide)

/-- A name with the sign right after it is the first one that is assigned to,
since the search takes the longest name from the first character on. -/
theorem IsVariableName.assignedName?_append {name : Text} (h : IsVariableName name)
    (rest : Text) : assignedName? (name ++ '=' :: rest) = some name := by
  have hSign : ¬ isVariableChar '=' = true := by decide
  cases name with
  | nil => exact absurd h.head? (by simp)
  | cons c cs =>
      have hStart : isVariableStart c = true := by simpa using h.head?
      have hMore : ∀ d ∈ cs, isVariableChar d = true :=
        fun d hd => h.isVariableChar_of_mem d (List.mem_cons_of_mem _ hd)
      rw [List.cons_append, assignedName?, List.dropWhile_append_of_pos hMore,
        List.takeWhile_append_of_pos hMore, List.dropWhile_cons_of_neg hSign,
        List.takeWhile_cons_of_neg hSign]
      simp [hStart]

/-- Whatever is found to be assigned to is the name of a variable. -/
theorem isVariableName_of_assignedName? {s name : Text} (h : assignedName? s = some name) :
    IsVariableName name := by
  induction s with
  | nil => simp [assignedName?] at h
  | cons c cs ih =>
      rw [assignedName?] at h
      split at h
      · rename_i hHere
        rw [Bool.and_eq_true] at hHere
        obtain rfl := Option.some.inj h
        refine ⟨by simpa using hHere.1, ?_⟩
        intro d hd
        rcases List.mem_cons.mp hd with rfl | hd
        · exact isVariableChar_of_isVariableStart hHere.1
        · exact List.mem_takeWhile_imp hd
      · exact ih h

/-- So is the name that is held responsible, be it that of a word or of the
whole text. -/
theorem isVariableName_of_holder? {s name : Text} (h : holder? s = some name) :
    IsVariableName name := by
  rw [holder?] at h
  split at h
  · rename_i found hFound
    obtain rfl := Option.some.inj h
    obtain ⟨word, -, hName⟩ := Option.bind_eq_some_iff.mp hFound
    exact isVariableName_of_assignedName? hName
  · exact isVariableName_of_assignedName? h

/-- Without anything after its sign a key is no secret. -/
theorem looksSecret_bare_key {key : Text} (hSign : '=' ∉ key) :
    looksSecret (key ++ ['=']) = false := by
  rw [← Bool.not_eq_true, looksSecret_iff]
  rintro ⟨front, name, gap, value, hSplit, -, -, -, hValue⟩
  have hSigns : key ++ '=' :: [] = (front ++ (name ++ gap)) ++ '=' :: value := by
    simpa using hSplit
  rcases Text.append_cons_eq_cases hSign hSigns with ⟨-, rfl⟩ | ⟨more, -, hMore⟩
  · exact hValue rfl
  · simp at hMore

/-- The value hides the key: a blank begins it, and the first of its words that
looks like a secret by itself assigns to another name. -/
def Hides (key value : Text) : Prop :=
  value.head?.any Text.isBlank = true ∧
    ∃ word name, (Text.words value).find? looksSecret = some word ∧
      assignedName? word = some name ∧ name ≠ key

section Named

variable {key value : Text} (hName : IsVariableName key)

include hName

theorem IsVariableName.isBlank_key_append {run : Text} (hRun : ∀ c ∈ run, Text.isBlank c = false) :
    ∀ c ∈ key ++ '=' :: run, Text.isBlank c = false := by
  intro c hc
  rcases List.mem_append.mp hc with hc | hc
  · exact isBlank_of_isNameChar (isNameChar_of_isVariableChar (hName.isVariableChar_of_mem c hc))
  · rcases List.mem_cons.mp hc with rfl | hc
    · decide
    · exact hRun c hc

/-- With a value that begins at once, the word with the key is the culprit. It
looks like a secret by itself, and no word comes before it. -/
theorem IsVariableName.holder?_of_not_blank (hKey : EndsInCredential key) (hNe : value ≠ [])
    (hValue : value.head?.any Text.isBlank = false) :
    holder? (key ++ '=' :: value) = some key := by
  have hRun : ∀ c ∈ Text.firstRun value, Text.isBlank c = false := by
    intro c hc
    simpa using List.mem_takeWhile_imp hc
  have hRest : (value.dropWhile (!Text.isBlank ·)).head?.all Text.isBlank = true := by
    simpa using Text.all_head?_dropWhile (!Text.isBlank ·) value
  have hSplit : key ++ '=' :: value =
      (key ++ '=' :: Text.firstRun value) ++ value.dropWhile (!Text.isBlank ·) := by
    simp [Text.firstRun]
  have hWords : Text.words (key ++ '=' :: value) =
      (key ++ '=' :: Text.firstRun value) ::
        Text.words (value.dropWhile (!Text.isBlank ·)) := by
    rw [hSplit, Text.words_append (by simp) (hName.isBlank_key_append hRun) hRest]
  have hLooks : looksSecret (key ++ '=' :: Text.firstRun value) = true := by
    obtain ⟨c, cs, rfl⟩ := List.exists_cons_of_ne_nil hNe
    have hc : Text.isBlank c = false := by simpa using hValue
    have hFirst : Text.trimStart (Text.firstRun (c :: cs)) ≠ [] := by
      simp [Text.firstRun, hc, Text.trimStart_cons_of_not_blank hc]
    have hAlone : looksSecret ([] ++ (key ++ ([] ++ '=' :: Text.firstRun (c :: cs)))) = true :=
      hKey.looksSecret rfl (by simp) hFirst
    exact hAlone
  rw [holder?, hWords, List.find?_cons_of_pos hLooks, Option.bind_some,
    hName.assignedName?_append]

/-- With a blank after the sign, the words of the value come before the key. The
word of the key ends at its sign, so it assigns nothing and does not look like a
secret by itself. -/
theorem IsVariableName.holder?_of_blank (hValue : value.head?.any Text.isBlank = true) :
    holder? (key ++ '=' :: value) =
      some ((((Text.words value).find? looksSecret).bind assignedName?).getD key) := by
  have hRest : value.head?.all Text.isBlank = true := by
    cases value with
    | nil => rfl
    | cons c cs => exact hValue
  have hWords : Text.words (key ++ '=' :: value) = (key ++ ['=']) :: Text.words value := by
    have hSplit : key ++ '=' :: value = (key ++ ['=']) ++ value := by simp
    rw [hSplit, Text.words_append (by simp) (hName.isBlank_key_append (by simp)) hRest]
  rw [holder?, hWords, List.find?_cons_of_neg (by simp [looksSecret_bare_key hName.sign_notMem])]
  cases ((Text.words value).find? looksSecret).bind assignedName? with
  | some name => rfl
  | none => exact hName.assignedName?_append value

end Named

/-- The key of an assignment is named when it is the name of a variable that the
value does not hide. The key has to look like a secret with any value, or else
the value may be to blame alone. -/
theorem holder?_eq_key_iff {key value : Text} (hKey : looksSecret (key ++ "=x".toList) = true)
    (hSecret : looksSecret (key ++ '=' :: value) = true) :
    holder? (key ++ '=' :: value) = some key ↔ IsVariableName key ∧ ¬ Hides key value := by
  constructor
  · intro h
    have hName := isVariableName_of_holder? h
    refine ⟨hName, ?_⟩
    rintro ⟨hBlank, word, name, hWord, hFound, hOther⟩
    rw [hName.holder?_of_blank hBlank, hWord, Option.bind_some, hFound] at h
    exact hOther (Option.some.inj h)
  · rintro ⟨hName, hShown⟩
    have hChars : ∀ c ∈ key, Assignments.isKeyChar c = true :=
      fun c hc => isKeyChar_of_isVariableChar (hName.isVariableChar_of_mem c hc)
    cases hBlank : value.head?.any Text.isBlank with
    | false =>
        -- the value that stands in for any other is no secret, so the mention is in the key
        have hEnds : EndsInCredential key := by
          rcases endsInCredential_or_of_looksSecret hChars hKey with hEnds | hAlone
          · exact hEnds
          · exact absurd hAlone (by decide)
        have hNe : value ≠ [] := by
          rintro rfl
          rw [looksSecret_bare_key hName.sign_notMem] at hSecret
          exact absurd hSecret (by simp)
        exact hName.holder?_of_not_blank hEnds hNe hBlank
    | true =>
        rw [hName.holder?_of_blank hBlank]
        cases hFound : ((Text.words value).find? looksSecret).bind assignedName? with
        | none => rfl
        | some name =>
            obtain ⟨word, hWord, hAssigned⟩ := Option.bind_eq_some_iff.mp hFound
            by_cases hEq : name = key
            · rw [Option.getD_some, hEq]
            · exact absurd ⟨hBlank, word, name, hWord, hAssigned, hEq⟩ hShown

end Secret

/-- In the order in which they are written, this is the first assignment that
looks like a secret. -/
structure Rule.FirstSecret (instructions : List Instruction) (pair : Text × Text) : Prop where
  exists_split : ∃ before i after front back, instructions = before ++ i :: after ∧
    (i.is "ENV" || i.is "ARG") = true ∧ i.args = .assignments (front ++ pair :: back) ∧
    (∀ s ∈ Rule.settings before, Secret.looksSecret s = false) ∧
    ∀ p ∈ front, Secret.looksSecret (Arguments.assignment p) = false
  looksSecret : Secret.looksSecret (Arguments.assignment pair) = true

theorem Rule.settings_append (first second : List Instruction) :
    settings (first ++ second) = settings first ++ settings second := by
  rw [settings, settings, settings, List.filter_append, List.flatMap_append]

/-- In the list of all settings, which the rule goes through, the first secret
is the first that looks like one. -/
theorem Rule.FirstSecret.find?_settings {instructions : List Instruction} {pair : Text × Text}
    (h : FirstSecret instructions pair) :
    (settings instructions).find? Secret.looksSecret = some (Arguments.assignment pair) := by
  obtain ⟨before, i, after, front, back, rfl, hSets, hArgs, hBefore, hFront⟩ := h.exists_split
  have hHere : settings (i :: after) =
      front.map Arguments.assignment ++
        Arguments.assignment pair :: (back.map Arguments.assignment ++ settings after) := by
    have hKept : (i :: after).filter (fun i => i.is "ENV" || i.is "ARG") =
        i :: after.filter (fun i => i.is "ENV" || i.is "ARG") :=
      List.filter_cons_of_pos hSets
    rw [settings, hKept, List.flatMap_cons, hArgs]
    simp [settings]
  have hNone : (settings before).find? Secret.looksSecret = none := by
    rw [List.find?_eq_none]
    intro s hs
    simp [hBefore s hs]
  have hNoneFront : (front.map Arguments.assignment).find? Secret.looksSecret = none := by
    rw [List.find?_eq_none]
    intro s hs
    obtain ⟨p, hp, rfl⟩ := List.mem_map.mp hs
    simp [hFront p hp]
  rw [settings_append, hHere, List.find?_append, hNone, Option.none_or, List.find?_append,
    hNoneFront, Option.none_or, List.find?_cons_of_pos h.looksSecret]

/-- The verdict on secrets gives the name that is held responsible, in its
details and at the end of its message, or leaves both out. -/
theorem Rule.FirstSecret.evaluate_eq {instructions : List Instruction} {pair : Text × Text}
    (h : FirstSecret instructions pair) :
    noSecrets.evaluate instructions =
      (Secret.holder? (Arguments.assignment pair)).elim (noSecrets.failure noSecrets.message)
        fun name =>
          { noSecrets.failure (noSecrets.message ++ ": " ++ String.ofList name) with
            details := some (String.ofList name) } := by
  have hFound := h.find?_settings
  have hHolds : noSecrets.holds instructions = false := by
    have hAny : (settings instructions).any Secret.looksSecret = true :=
      List.any_eq_true.mpr ⟨_, List.mem_of_find?_eq_some hFound, h.looksSecret⟩
    simp [noSecrets, hAny]
  have hCulprit : noSecrets.culprit?.bind (· instructions) =
      Secret.holder? (Arguments.assignment pair) := by
    show secretHolder? instructions = _
    rw [secretHolder?, hFound, Option.bind_some]
  rw [evaluate, if_neg (by simp [hHolds]), hCulprit]
  cases Secret.holder? (Arguments.assignment pair) with
  | some name => rfl
  | none => rfl

/-- When the first assignment that looks like a secret does so for its key, the
verdict names the key if and only if it is the name of a variable and the value
does not hide it. Whatever is named is the name of a variable and ends the
message. -/
theorem Rule.noSecrets_names_key_iff {instructions : List Instruction} {key value : Text}
    (hFirst : FirstSecret instructions (key, value))
    (hKey : Secret.looksSecret (key ++ "=x".toList) = true) :
    (noSecrets.evaluate instructions).passed = false ∧
    ((noSecrets.evaluate instructions).details = some (String.ofList key) ∧
        (noSecrets.evaluate instructions).message =
          "✗ Potential secret hardcoded in ENV/ARG: " ++ String.ofList key ↔
      Secret.IsVariableName key ∧ ¬ Secret.Hides key value) ∧
    ∀ name : Text, (noSecrets.evaluate instructions).details = some (String.ofList name) →
      Secret.IsVariableName name ∧
        (noSecrets.evaluate instructions).message =
          "✗ Potential secret hardcoded in ENV/ARG: " ++ String.ofList name := by
  have hIff := Secret.holder?_eq_key_iff hKey hFirst.looksSecret
  have hEvaluate := hFirst.evaluate_eq
  rw [show Arguments.assignment (key, value) = key ++ '=' :: value from rfl] at hEvaluate
  rw [hEvaluate, ← hIff]
  cases hHolder : Secret.holder? (key ++ '=' :: value) with
  | none =>
      refine ⟨rfl, ?_, ?_⟩
      · exact iff_of_false (fun h => nomatch h.1) (by simp)
      · intro name h
        nomatch h
  | some found =>
      -- the mark and the message of the rule make up the beginning of the message
      have hMessage : "✗ " ++ (noSecrets.message ++ ": " ++ String.ofList found) =
          "✗ Potential secret hardcoded in ENV/ARG: " ++ String.ofList found := by
        rw [← String.append_assoc, ← String.append_assoc]
        rfl
      refine ⟨rfl, ?_, ?_⟩
      · constructor
        · rintro ⟨hDetails, -⟩
          rw [String.ofList_injective (Option.some.inj hDetails)]
        · intro h
          obtain rfl := Option.some.inj h
          exact ⟨rfl, hMessage⟩
      · intro name hDetails
        obtain rfl : found = name := String.ofList_injective (Option.some.inj hDetails)
        exact ⟨Secret.isVariableName_of_holder? hHolder, hMessage⟩

def Rule.environment (pairs : List (Text × Text)) : List Instruction :=
  [.make "ENV".toList (.assignments pairs) 1]

/-- The first secret of a lone instruction is the first among its
assignments. -/
theorem Rule.firstSecret_environment (front back : List (Text × Text)) {pair : Text × Text}
    (hFront : ∀ p ∈ front, Secret.looksSecret (Arguments.assignment p) = false)
    (hPair : Secret.looksSecret (Arguments.assignment pair) = true) :
    FirstSecret (environment (front ++ pair :: back)) pair :=
  ⟨⟨[], .make "ENV".toList (.assignments (front ++ pair :: back)) 1, [], front, back, rfl, rfl, rfl,
    by simp [settings], hFront⟩, hPair⟩

/-- The second variable has a value that begins with a blank and assigns to
another. -/
def Rule.spacedToken : List Instruction :=
  environment [("A".toList, "b".toList), ("DB_TOKEN".toList, " c d=e".toList)]

/-- A value that begins with a blank hides the key only if one of its words
looks like a secret. Here none does, and the key is named. -/
theorem Rule.noSecrets_names_spacedToken :
    FirstSecret spacedToken ("DB_TOKEN".toList, " c d=e".toList) ∧
    Secret.looksSecret ("DB_TOKEN".toList ++ "=x".toList) = true ∧
    (noSecrets.evaluate spacedToken).details = some "DB_TOKEN" ∧
    (noSecrets.evaluate spacedToken).message =
      "✗ Potential secret hardcoded in ENV/ARG: DB_TOKEN" := by
  have hFirst : FirstSecret spacedToken ("DB_TOKEN".toList, " c d=e".toList) :=
    firstSecret_environment [("A".toList, "b".toList)] [] (by decide) (by decide)
  have hKey : Secret.looksSecret ("DB_TOKEN".toList ++ "=x".toList) = true := by decide
  have hName : Secret.IsVariableName "DB_TOKEN".toList :=
    ⟨by decide, List.all_eq_true.mp (by decide)⟩
  have hShown : ¬ Secret.Hides "DB_TOKEN".toList " c d=e".toList := by
    rintro ⟨-, word, -, hWord, -⟩
    have hNone : (Text.words " c d=e".toList).find? Secret.looksSecret = none := by decide
    rw [hNone] at hWord
    nomatch hWord
  exact ⟨hFirst, hKey, (noSecrets_names_key_iff hFirst hKey).2.1.mpr ⟨hName, hShown⟩⟩

/-- Of a key with a hyphen only the end is named, and in place of a hidden key
the name that hides it. -/
theorem Rule.noSecrets_misnames_hyphen_and_hidden :
    (FirstSecret (environment [("api-key".toList, "abc".toList)])
        ("api-key".toList, "abc".toList) ∧
      Secret.looksSecret ("api-key".toList ++ "=x".toList) = true ∧
      (noSecrets.evaluate (environment [("api-key".toList, "abc".toList)])).details =
        some "key") ∧
    FirstSecret (environment [("TOKEN".toList, " PASSWORD=y".toList)])
        ("TOKEN".toList, " PASSWORD=y".toList) ∧
      Secret.looksSecret ("TOKEN".toList ++ "=x".toList) = true ∧
      (noSecrets.evaluate (environment [("TOKEN".toList, " PASSWORD=y".toList)])).details =
        some "PASSWORD" := by
  refine ⟨⟨?_, by decide, by decide⟩, ?_, by decide, by decide⟩
  · exact firstSecret_environment [] [] (by simp) (by decide)
  · exact firstSecret_environment [] [] (by simp) (by decide)

end Drydock
