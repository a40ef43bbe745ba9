import Drydock.Dockerfile.BuildKit
import Drydock.Proofs.FoldedSearch

/-! Options that mount something. An option is one word, and its fields stand
between commas. It is found at the front of the word and nowhere else in it, and
its type is found wherever the field for it stands. -/
namespace Drydock

namespace BuildKit

/-- A field of a mount: a key in small letters and a value. -/
structure Field where
  key : Text
  value : Text
  key_ne_nil : key ≠ []
  value_ne_nil : value ≠ []
  isLower_key : ∀ c ∈ key, c.isLower = true
  value_chars : ∀ c ∈ value, c.isAlphanum = true ∨ c ∈ ['/', '.', '_', '-']

def mountTypes : List Text :=
  ["bind", "cache", "tmpfs", "secret", "ssh"].map String.toList

/-- An option that mounts something. One of its fields may name the type, in
letters of either case. -/
structure Mount where
  fields : List Field
  fields_ne_nil : fields ≠ []
  countP_type : fields.countP (·.key = "type".toList) ≤ 1
  mem_mountTypes : ∀ f ∈ fields, f.key = "type".toList → Text.lower f.value ∈ mountTypes

/-- However its letters are written, the option ends in its sign. -/
theorem exists_word_of_fold {front : Text} (h : front.map Text.fold = "--mount=".toList) :
    ∃ word, front = word ++ ['='] ∧ word.map Text.fold = "--mount".toList := by
  have hLast : front.map Text.fold = "--mount".toList ++ ['='] := h
  obtain ⟨word, sign, rfl, hWord, hSign⟩ := List.map_eq_append_iff.mp hLast
  obtain ⟨c, rfl, hc⟩ := List.map_eq_singleton_iff.mp hSign
  have hSelf : Text.fold c = c := Text.fold_of_not_isLower (by rw [hc]; rfl)
  exact ⟨word, by rw [← hc, hSelf], hWord⟩

/-- Where the option begins a text, its word reaches to the first sign. -/
theorem fold_before_of_isSome {s : Text}
    (h : (Text.afterFolded? "--mount=".toList s).isSome = true) :
    (Text.before '=' s).map Text.fold = "--mount".toList := by
  obtain ⟨rest, hRest⟩ := Option.isSome_iff_exists.mp h
  obtain ⟨front, rfl, hFront⟩ := Text.afterFolded?_eq_some_iff.mp hRest
  obtain ⟨word, rfl, hWord⟩ := exists_word_of_fold hFront
  have hSign : ∀ c ∈ word, (c != '=') = true := by
    intro c hc
    rw [bne_iff_ne]
    rintro rfl
    have hMem : Text.fold '=' ∈ word.map Text.fold := List.mem_map_of_mem hc
    rw [hWord] at hMem
    exact absurd hMem (by decide)
  rw [Text.before, List.append_assoc, List.singleton_append, List.takeWhile_append_of_pos hSign,
    List.takeWhile_cons_of_neg (by simp), List.append_nil, hWord]

namespace Field

def text (f : Field) : Text :=
  f.key ++ '=' :: f.value

/-- The characters of a value lie in a range of ASCII without the sign, so they
are neither blanks nor commas. -/
theorem value_bounds (f : Field) {c : Char} (hc : c ∈ f.value) :
    45 ≤ c.toNat ∧ c.toNat ≤ 122 ∧ c.toNat ≠ 61 := by
  rcases f.value_chars c hc with hAlphanum | hMark
  · rw [Char.isAlphanum, Bool.or_eq_true] at hAlphanum
    rcases hAlphanum with hAlpha | hDigit
    · have hBounds := Text.isAlpha_bounds hAlpha
      omega
    · have hBounds := Text.isDigit_bounds hDigit
      omega
  · fin_cases hMark <;> decide

theorem sign_notMem_value (f : Field) : '=' ∉ f.value :=
  fun hMem => (f.value_bounds hMem).2.2 rfl

theorem notMem_key {c : Char} (f : Field) (hc : c.isLower = false) : c ∉ f.key := by
  intro hMem
  simp [f.isLower_key c hMem] at hc

/-- A key and what may begin its value are looked for in a field where the key
is. The search is for one text across the sign, and as neither key has a sign,
the two signs meet. -/
theorem afterFolded?_text (f : Field) (key value : Text) (hKey : '=' ∉ key) :
    Text.afterFolded? (key ++ '=' :: value) f.text =
      if f.key = key then Text.afterFolded? value f.value else none := by
  have hLower := f.isLower_key
  rw [text]
  generalize f.key = own at hLower
  induction own generalizing key with
  | nil =>
      cases key with
      | nil => rfl
      | cons p key =>
          have hOther : Text.fold '=' ≠ p := fun h => hKey (h ▸ List.mem_cons_self)
          simp [Text.afterFolded?, hOther]
  | cons c own ih =>
      have hSelf := Text.fold_of_isLower (hLower c (by simp))
      cases key with
      | nil =>
          have hOther : c ≠ '=' := by
            intro h
            have hSign := hLower c (by simp)
            rw [h] at hSign
            exact absurd hSign (by decide)
          simp [Text.afterFolded?, hSelf, hOther]
      | cons p key =>
          have hTail := ih key (fun h => hKey (List.mem_cons_of_mem _ h))
            fun d hd => hLower d (List.mem_cons_of_mem _ hd)
          rw [List.cons_append, List.cons_append, Text.afterFolded?, hSelf, hTail]
          by_cases hc : c = p
          · simp [hc]
          · simp [hc]

theorem char_cases (f : Field) {c : Char} (hc : c ∈ f.text) :
    c.isLower = true ∨ c = '=' ∨ c ∈ f.value := by
  rw [text, List.mem_append, List.mem_cons] at hc
  exact hc.imp_left (f.isLower_key c)

theorem isBlank_text (f : Field) : ∀ c ∈ f.text, Text.isBlank c = false := by
  intro c hc
  rcases f.char_cases hc with hLower | rfl | hValue
  · exact Text.isBlank_of_isAlpha (by simp [Char.isAlpha, hLower])
  · decide
  · have hBounds := f.value_bounds hValue
    simp only [Text.isBlank, Bool.or_eq_false_iff, Bool.and_eq_false_iff, decide_eq_false_iff_not,
      beq_eq_false_iff_ne]
    omega

theorem comma_notMem_text (f : Field) : ',' ∉ f.text := by
  intro hMem
  rcases f.char_cases hMem with hLower | hSign | hValue
  · exact absurd hLower (by decide)
  · exact absurd hSign (by decide)
  · have hBounds := f.value_bounds hValue
    exact absurd hBounds.1 (by decide)

/-- No field holds the option itself: a hyphen would have to stand in its
key. -/
theorem not_infix_text (f : Field) {front : Text}
    (hFront : front.map Text.fold = "--mount=".toList) : ¬ front <:+: f.text := by
  rintro ⟨before, after, hText⟩
  obtain ⟨word, rfl, hWord⟩ := exists_word_of_fold hFront
  have hSplit : f.key ++ '=' :: f.value = (before ++ word) ++ '=' :: after := by
    rw [← text, ← hText]
    simp
  obtain ⟨hKey, -, -⟩ := (List.append_cons_inj_of_notMem (f.notMem_key rfl)
    f.sign_notMem_value).mp hSplit
  have hHyphen : '-' ∈ word.map Text.fold := by
    rw [hWord]
    decide
  obtain ⟨d, hd, hFold⟩ := List.mem_map.mp hHyphen
  have hLower := f.isLower_key d (by rw [hKey]; exact List.mem_append_right _ hd)
  rw [← Text.fold_of_isLower hLower, hFold] at hLower
  exact absurd hLower (by decide)

end Field

/-- The name of a type is made of letters, so it is read to its end. -/
theorem isAlpha_of_lower_mem_mountTypes {value : Text} (h : Text.lower value ∈ mountTypes) :
    ∀ c ∈ value, c.isAlpha = true := by
  have hTypes : ∀ name ∈ mountTypes, ∀ c ∈ name, c.isLower = true := by simp [mountTypes]
  intro c hc
  rw [← Char.isLower_toLower_eq_isAlpha]
  exact hTypes _ h _ (List.mem_map_of_mem hc)

/-- A type is told from the others by how it begins, since no other one begins
with `secret`. -/
theorem isSome_afterFolded?_secret {value : Text} (h : Text.lower value ∈ mountTypes) :
    (Text.afterFolded? "secret".toList value).isSome = true ↔
      Text.lower value = "secret".toList := by
  have hAlpha := isAlpha_of_lower_mem_mountTypes h
  have hFold : ∀ part : Text, (∀ c ∈ part, c ∈ value) →
      part.map Text.fold = Text.lower part := by
    intro part hPart
    apply List.map_congr_left
    intro c hc
    exact Text.fold_of_isAlpha (hAlpha c (hPart c hc))
  constructor
  · intro hSome
    obtain ⟨rest, hRest⟩ := Option.isSome_iff_exists.mp hSome
    obtain ⟨front, rfl, hFront⟩ := Text.afterFolded?_eq_some_iff.mp hRest
    rw [hFold front fun c hc => List.mem_append_left _ hc] at hFront
    have hLower : Text.lower (front ++ rest) = "secret".toList ++ Text.lower rest := by
      rw [← hFront]
      exact List.map_append
    rw [hLower] at h ⊢
    simpa [mountTypes] using h
  · intro hSecret
    have hRead := Text.afterFolded?_append ((hFold value fun _ hc => hc).trans hSecret) []
    rw [List.append_nil] at hRead
    rw [hRead]
    rfl

theorem isBlank_mount : ∀ c ∈ "--mount=".toList, Text.isBlank c = false := by
  simp [Text.isBlank]

/-- Whether a secret mount begins a text is decided before the next blank. -/
theorem beginsSecretMount_firstRun (s : Text) :
    beginsSecretMount s = beginsSecretMount (Text.firstRun s) := by
  have hSecret : ∀ c ∈ "type=secret".toList, Text.isBlank c = false := by simp [Text.isBlank]
  have hRuns : ∀ rest : Text, Text.firstRun (Text.firstRun rest) = Text.firstRun rest :=
    fun _ => List.takeWhile_idem
  rw [beginsSecretMount, beginsSecretMount, Text.afterFolded?_firstRun isBlank_mount]
  cases Text.afterFolded? "--mount=".toList s with
  | none => rfl
  | some rest =>
      dsimp only [Option.map_some]
      rw [Text.afterFolded?_firstRun hSecret, hRuns, Option.isSome_map]

theorem isSome_of_beginsSecretMount {s : Text} (h : beginsSecretMount s = true) :
    (Text.afterFolded? "--mount=".toList s).isSome = true := by
  rw [beginsSecretMount] at h
  split at h
  · rename_i rest hRest
    rw [hRest]
    rfl
  · simp at h

namespace Mount

/-- What stands after the sign of the option. -/
def spec (m : Mount) : Text :=
  Text.join [','] (m.fields.map Field.text)

def text (m : Mount) : Text :=
  "--mount=".toList ++ m.spec

def HasType (m : Mount) (name : String) : Prop :=
  ∃ f ∈ m.fields, f.key = "type".toList ∧ Text.lower f.value = name.toList

/-- The mount names no type, or another one than that of a secret. -/
def IsPlain (m : Mount) : Prop :=
  (∀ f ∈ m.fields, f.key ≠ "type".toList) ∨
    ∃ f ∈ m.fields, f.key = "type".toList ∧ Text.lower f.value ≠ "secret".toList

theorem isBlank_text (m : Mount) : ∀ c ∈ m.text, Text.isBlank c = false := by
  intro c hc
  rw [← Bool.not_eq_true]
  intro hBlank
  rcases List.mem_append.mp hc with hc | hc
  · simp [isBlank_mount c hc] at hBlank
  · revert hc
    apply Text.not_mem_join
    · rintro hComma
      rw [List.mem_singleton.mp hComma] at hBlank
      exact absurd hBlank (by decide)
    · intro piece hPiece hMem
      obtain ⟨f, -, rfl⟩ := List.mem_map.mp hPiece
      simp [f.isBlank_text c hMem] at hBlank

theorem text_ne_nil (m : Mount) : m.text ≠ [] :=
  List.append_ne_nil_of_left_ne_nil (by decide) _

theorem afterFolded?_text (m : Mount) :
    Text.afterFolded? "--mount=".toList m.text = some m.spec :=
  Text.afterFolded?_append (by decide) m.spec

/-- The option is not found anywhere inside of what follows it. It would have to
lie within one field, as it has no comma in it. -/
theorem afterFolded?_of_suffix_spec (m : Mount) {e : Text} (h : e <:+ m.spec) :
    Text.afterFolded? "--mount=".toList e = none := by
  rw [Option.eq_none_iff_forall_ne_some]
  intro rest hRest
  obtain ⟨front, rfl, hFront⟩ := Text.afterFolded?_eq_some_iff.mp hRest
  have hInfix : front <:+: Text.join [','] (m.fields.map Field.text) :=
    (List.prefix_append front rest).isInfix.trans h.isInfix
  have hNe : front ≠ [] := by
    rintro rfl
    simp at hFront
  have hComma : ',' ∉ front := by
    intro hMem
    have hFold : ',' ∈ front.map Text.fold := List.mem_map_of_mem (f := Text.fold) hMem
    rw [hFront] at hFold
    exact absurd hFold (by decide)
  obtain ⟨piece, hPiece, hInPiece⟩ := Text.exists_infix_of_infix_join hNe hComma hInfix
  obtain ⟨f, -, rfl⟩ := List.mem_map.mp hPiece
  exact f.not_infix_text hFront hInPiece

/-- The option is found at the front of a mount and nowhere else in it. -/
theorem eq_text_of_suffix (m : Mount) {e : Text} (hSuffix : e <:+ m.text)
    (h : (Text.afterFolded? "--mount=".toList e).isSome = true) : e = m.text := by
  obtain ⟨before, hText⟩ := hSuffix
  have hSplit : before ++ e = "--mount".toList ++ '=' :: m.spec := hText
  have hWord := fold_before_of_isSome h
  rcases List.append_eq_append_iff.mp hSplit with ⟨part, hPart, rfl⟩ | ⟨part, -, hSign⟩
  · -- all of the word is needed up to the sign
    have hNone : ∀ c ∈ part, (c != '=') = true := by
      intro c hc
      have hMem : c ∈ "--mount".toList := by
        rw [hPart]
        exact List.mem_append_right _ hc
      rw [bne_iff_ne]
      rintro rfl
      exact absurd hMem (by decide)
    rw [Text.before, List.takeWhile_append_of_pos hNone, List.takeWhile_cons_of_neg (by simp),
      List.append_nil] at hWord
    have hLength := congrArg List.length hWord
    rw [List.length_map] at hLength
    have hEq : part = "--mount".toList :=
      List.IsSuffix.eq_of_length ⟨before, hPart.symm⟩ hLength
    rw [hEq]
    rfl
  · cases part with
    | nil =>
        rw [List.nil_append] at hSign
        rw [← hSign] at hWord
        simp [Text.before] at hWord
    | cons c part =>
        have hSpec := (List.cons.inj hSign).2
        rw [m.afterFolded?_of_suffix_spec ⟨part, hSpec.symm⟩] at h
        simp at h

theorem spec_ne_nil (m : Mount) : m.spec ≠ [] := by
  obtain ⟨f, rest, hFields⟩ := List.exists_cons_of_ne_nil m.fields_ne_nil
  rw [spec, hFields]
  cases rest with
  | nil => simp [Text.join, Field.text]
  | cons g rest => simp [Text.join, Field.text]

/-- From the word of a mount all its fields are taken. -/
theorem mountSpec?_text (m : Mount) : mountSpec? m.text = some m.spec := by
  obtain ⟨c, cs, hSpec⟩ := List.exists_cons_of_ne_nil m.spec_ne_nil
  rw [mountSpec?, Text.afterFirstFolded?_of_afterFolded? m.afterFolded?_text, hSpec]

theorem comma_notMem_pieces (m : Mount) : ∀ piece ∈ m.fields.map Field.text, ',' ∉ piece := by
  intro piece hPiece
  obtain ⟨f, -, rfl⟩ := List.mem_map.mp hPiece
  exact f.comma_notMem_text

theorem pieces_ne_nil (m : Mount) : m.fields.map Field.text ≠ [] := by
  simpa using m.fields_ne_nil

/-- A secret mount is one that has the type, as its first field or as a later
one. -/
theorem beginsSecretMount_text (m : Mount) :
    beginsSecretMount m.text = true ↔ m.HasType "secret" := by
  have hSpec : Text.firstRun m.spec = m.spec := by
    rw [Text.firstRun, List.takeWhile_eq_self_iff]
    intro c hc
    simp [m.isBlank_text c (List.mem_append_right _ hc)]
  have hField : ∀ f ∈ m.fields,
      (Text.afterFolded? "type=secret".toList f.text).isSome = true ↔
        f.key = "type".toList ∧ Text.lower f.value = "secret".toList := by
    intro f hMem
    have hText : Text.afterFolded? "type=secret".toList f.text =
        if f.key = "type".toList then Text.afterFolded? "secret".toList f.value else none :=
      f.afterFolded?_text "type".toList "secret".toList (by decide)
    rw [hText]
    by_cases hKey : f.key = "type".toList
    · rw [if_pos hKey, isSome_afterFolded?_secret (m.mem_mountTypes f hMem hKey)]
      exact (and_iff_right hKey).symm
    · rw [if_neg hKey]
      exact iff_of_false (by simp) fun h => hKey h.1
  have hAny : beginsSecretMount m.text =
      (m.fields.map Field.text).any
        (fun piece => (Text.afterFolded? "type=secret".toList piece).isSome) := by
    rw [← Text.isSome_or_isSome_join "type=secret".toList (by decide) m.pieces_ne_nil
      m.comma_notMem_pieces, beginsSecretMount, m.afterFolded?_text]
    dsimp only
    rw [hSpec]
    rfl
  rw [hAny, List.any_map, List.any_eq_true]
  constructor
  · intro h
    obtain ⟨f, hMem, hFound⟩ := h
    exact ⟨f, hMem, (hField f hMem).mp hFound⟩
  · intro h
    obtain ⟨f, hMem, hType⟩ := h
    exact ⟨f, hMem, (hField f hMem).mpr hType⟩

/-- The type of a mount is the value of the first field that has one. -/
theorem mountType?_spec (m : Mount) :
    mountType? m.spec = (m.fields.find? (·.key = "type".toList)).map Field.value := by
  have hField : ∀ f ∈ m.fields, typeOf? f.text =
      if f.key = "type".toList then some f.value else none := by
    intro f hMem
    have hText : Text.afterFolded? "type=".toList f.text =
        if f.key = "type".toList then Text.afterFolded? [] f.value else none :=
      f.afterFolded?_text "type".toList [] (by decide)
    rw [typeOf?, hText]
    by_cases hKey : f.key = "type".toList
    · have hAlpha := isAlpha_of_lower_mem_mountTypes (m.mem_mountTypes f hMem hKey)
      have hAll : f.value.takeWhile Text.isFoldedLetter = f.value := by
        rw [List.takeWhile_eq_self_iff]
        intro c hc
        rw [Text.isFoldedLetter, Text.fold_of_isAlpha (hAlpha c hc),
          Char.isLower_toLower_eq_isAlpha]
        exact hAlpha c hc
      rw [if_pos hKey, if_pos hKey]
      simp [Text.afterFolded?, hAll, f.value_ne_nil]
    · rw [if_neg hKey, if_neg hKey]
  rw [mountType?, spec, Text.splitAt_join m.pieces_ne_nil m.comma_notMem_pieces,
    List.findSome?_map]
  generalize m.fields = fields at hField
  induction fields with
  | nil => rfl
  | cons f rest ih =>
      have hRest := ih fun g hg => hField g (List.mem_cons_of_mem _ hg)
      rw [List.findSome?_cons, List.find?_cons, Function.comp_apply, hField f (by simp)]
      by_cases hKey : f.key = "type".toList
      · rw [if_pos hKey, decide_eq_true hKey]
        rfl
      · rw [if_neg hKey, decide_eq_false hKey]
        exact hRest

/-- A mount names its type in one field only. -/
theorem eq_of_key_type (m : Mount) {f g : Field} (hf : f ∈ m.fields) (hg : g ∈ m.fields)
    (hfType : f.key = "type".toList) (hgType : g.key = "type".toList) : f = g := by
  have hCount := m.countP_type
  rw [List.countP_eq_length_filter] at hCount
  have hTypes : ∀ {k : Field}, k ∈ m.fields → k.key = "type".toList →
      k ∈ m.fields.filter (·.key = "type".toList) :=
    fun hk hType => List.mem_filter.mpr ⟨hk, decide_eq_true hType⟩
  have hfMem := hTypes hf hfType
  have hgMem := hTypes hg hgType
  cases hTyped : m.fields.filter (·.key = "type".toList) with
  | nil =>
      rw [hTyped] at hfMem
      simp at hfMem
  | cons first rest =>
      rw [hTyped, List.length_cons] at hCount
      obtain rfl : rest = [] := List.length_eq_zero_iff.mp (by omega)
      rw [hTyped, List.mem_singleton] at hfMem hgMem
      rw [hfMem, hgMem]

/-- With one type at most, the first one found is the only one, and to have no
type means that none is found. -/
theorem isPlain_iff (m : Mount) :
    m.IsPlain ↔ (mountType? m.spec).all (!Text.sameLetters · "secret".toList) = true := by
  have hLower : Text.lower "secret".toList = "secret".toList := by decide
  rw [m.mountType?_spec, IsPlain]
  cases hFind : m.fields.find? (·.key = "type".toList) with
  | none =>
      refine iff_of_true (.inl ?_) rfl
      intro f hMem
      simpa using List.find?_eq_none.mp hFind f hMem
  | some f =>
      have hMem := List.mem_of_find?_eq_some hFind
      have hKey : f.key = "type".toList := by simpa using List.find?_some hFind
      have hOnly : ∀ g ∈ m.fields, g.key = "type".toList → g = f :=
        fun g hg hType => m.eq_of_key_type hg hMem hType hKey
      simp only [Option.map_some, Option.all_some, Bool.not_eq_true', ← Bool.not_eq_true,
        Text.sameLetters_iff, hLower]
      constructor
      · intro h
        rcases h with hNone | ⟨g, hg, hType, hOther⟩
        · exact absurd hKey (hNone f hMem)
        · rwa [hOnly g hg hType] at hOther
      · intro hOther
        exact .inr ⟨f, hMem, hKey, hOther⟩

end Mount

end BuildKit

end Drydock
