import Drydock.Proofs.CopyOrder
import Drydock.Proofs.FoldedSearch
import Drydock.Proofs.RootUser

/-! Base images. A FROM names one image, between its options and the name of its
stage. The tag or digest of an image stands after its last slash, but a colon
before that slash, as in the port of a registry, makes the image count as pinned
too. -/
namespace Drydock

namespace Image

/-- The words of a FROM: options, the image, and after `as` in letters of either
case the name of the stage. -/
structure Parts where
  options : List Text
  operands : List Text
  stage : List Text
  isOption : ∀ word ∈ options, "--".toList <+: word
  head?_operands : ∀ word ∈ operands.head?, ¬ "--".toList <+: word
  lower_operand : ∀ word ∈ operands, Text.lower word ≠ "as".toList
  lower_head?_stage : ∀ word ∈ stage.head?, Text.lower word = "as".toList

namespace Parts

def words (p : Parts) : List Text :=
  p.options ++ (p.operands ++ p.stage)

def image (p : Parts) : Text :=
  Text.join [' '] p.operands

end Parts

def Names (args image : Text) : Prop :=
  ∃ p : Parts, Text.words args = p.words ∧ p.image = image

/-- Whether the image ends in the tag `latest`, in letters of either case. -/
def EndsInLatest (image : Text) : Prop :=
  ∃ front tag : Text, image = front ++ tag ∧ tag.map Text.fold = ":latest".toList

def HasTag (image : Text) : Prop :=
  ':' ∈ Copy.fileName image ∨ '@' ∈ Copy.fileName image

/-- Whether there is a colon before a slash, as where the host of a registry has
a port. -/
def HasPort (image : Text) : Prop :=
  ∃ host path : Text, image = host ++ '/' :: path ∧ ':' ∈ host

theorem isLatest_iff {image : Text} : isLatest image = true ↔ EndsInLatest image :=
  Text.endsFolded_iff

/-- A colon stands after the last slash, where it begins a tag or is part of a
digest, or a slash follows it. -/
theorem colon_mem_iff {image : Text} :
    ':' ∈ image ↔ ':' ∈ Copy.fileName image ∨ HasPort image := by
  obtain ⟨front, hSplit, hFront⟩ := Copy.exists_append_fileName image
  constructor
  · intro hMem
    rw [hSplit] at hMem
    rcases List.mem_append.mp hMem with hMem | hMem
    · right
      obtain ⟨host, c, rfl⟩ := (List.eq_nil_or_concat front).resolve_left (List.ne_nil_of_mem hMem)
      obtain rfl : c = '/' := by simpa using hFront
      refine ⟨host, Copy.fileName image, by simpa using hSplit, ?_⟩
      simpa using hMem
    · exact .inl hMem
  · rintro (hMem | ⟨host, path, rfl, hMem⟩)
    · rw [hSplit]
      exact List.mem_append_right _ hMem
    · exact List.mem_append_left _ hMem

/-- Where the only colon of an image is that of a port, the image counts as
pinned without a tag. -/
theorem isPinned_iff {image : Text} :
    isPinned image = true ↔
      (':' ∈ Copy.fileName image ∨ HasPort image) ∧ ¬ EndsInLatest image := by
  rw [isPinned, Bool.and_eq_true, List.contains_iff_mem, colon_mem_iff, Bool.not_eq_true',
    ← Bool.not_eq_true, isLatest_iff]

/-- The options end where the image begins, or the stage where there is no
image. -/
theorem Parts.head?_after_options (p : Parts) :
    ∀ word ∈ (p.operands ++ p.stage).head?, ¬ "--".toList <+: word := by
  intro word hWord
  cases hOperands : p.operands with
  | nil =>
      rw [hOperands] at hWord
      have hAs := p.lower_head?_stage word hWord
      rintro ⟨rest, rfl⟩
      simp [Text.lower] at hAs
  | cons first operands =>
      rw [hOperands] at hWord
      apply p.head?_operands word
      rw [hOperands]
      exact hWord

theorem not_sameLetters_as_iff {word : Text} :
    (!Text.sameLetters word "as".toList) = true ↔ Text.lower word ≠ "as".toList := by
  rw [Bool.not_eq_true', ← Bool.not_eq_true, Text.sameLetters_iff]
  rfl

/-- However the words of a FROM are divided, the image is found to be what is
between the options and the stage. -/
theorem Parts.reference_eq (p : Parts) {args : Text} (h : Text.words args = p.words) :
    reference args = p.image := by
  have hDrop : p.words.dropWhile (Text.startsWith "--".toList) = p.operands ++ p.stage := by
    rw [words, List.dropWhile_append_of_pos
      fun word hWord => Text.startsWith_iff.mpr (p.isOption word hWord)]
    have hHead := p.head?_after_options
    cases hRest : p.operands ++ p.stage with
    | nil => rfl
    | cons word rest =>
        apply List.dropWhile_cons_of_neg
        rw [Text.startsWith_iff]
        exact hHead word (by rw [hRest]; rfl)
  have hTake : (p.operands ++ p.stage).takeWhile
      (fun word => !Text.sameLetters word "as".toList) = p.operands := by
    rw [List.takeWhile_append_of_pos
      fun word hWord => not_sameLetters_as_iff.mpr (p.lower_operand word hWord)]
    have hHead := p.lower_head?_stage
    cases hStage : p.stage with
    | nil => exact List.append_nil _
    | cons word rest =>
        rw [List.takeWhile_cons_of_neg, List.append_nil]
        rw [not_sameLetters_as_iff, not_not]
        exact hHead word (by rw [hStage]; rfl)
  show Text.join [' '] (((Text.words args).dropWhile _).takeWhile _) = p.image
  rw [h, hDrop, hTake, image]

/-- The words of every FROM can be divided in this way, also those that name no
image. -/
theorem exists_parts (words : List Text) : ∃ p : Parts, words = p.words := by
  have hHead : ∀ (stops : Text → Bool) (list : List Text),
      ∀ word ∈ (list.dropWhile stops).head?, ¬ stops word = true := by
    intro stops list word hWord
    have hStops := List.head?_dropWhile_not stops list
    rw [Option.mem_def.mp hWord] at hStops
    simpa using hStops
  let rest := words.dropWhile (Text.startsWith "--".toList)
  refine ⟨⟨words.takeWhile (Text.startsWith "--".toList),
    rest.takeWhile (fun word => !Text.sameLetters word "as".toList),
    rest.dropWhile (fun word => !Text.sameLetters word "as".toList), ?_, ?_, ?_, ?_⟩, ?_⟩
  · intro word hWord
    exact Text.startsWith_iff.mp (List.mem_takeWhile_imp hWord)
  · intro word hWord
    rw [List.head?_takeWhile, Option.mem_filter_iff] at hWord
    rw [← Text.startsWith_iff]
    exact hHead _ _ word hWord.1
  · intro word hWord
    have hAs := List.mem_takeWhile_imp hWord
    exact not_sameLetters_as_iff.mp hAs
  · intro word hWord
    have hAs := hHead _ _ word hWord
    rwa [not_sameLetters_as_iff, not_not] at hAs
  · rw [Parts.words, List.takeWhile_append_dropWhile, List.takeWhile_append_dropWhile]

/-- The image that a FROM names is determined by its arguments: the division
exists and is found. -/
theorem names_iff {args image : Text} : Names args image ↔ reference args = image := by
  constructor
  · rintro ⟨p, hWords, rfl⟩
    exact p.reference_eq hWords
  · rintro rfl
    obtain ⟨p, hWords⟩ := exists_parts (Text.words args)
    exact ⟨p, hWords, (p.reference_eq hWords).symm⟩

/-- What follows FROM on the lines that begin with it. -/
def fromArguments (content : Text) : List Text :=
  ((LogicalLine.ofText content).filter (LogicalLine.begins "FROM".toList)).map fun l =>
    Text.trim (l.content.drop 4)

/-- The arguments of a FROM are what follows the four letters of its keyword. -/
theorem value_of_ofLine {l : LogicalLine} {i : Instruction} (h : Instruction.ofLine l = .ok i)
    (hFrom : l.begins "FROM".toList = true) : i.value = Text.trim (l.content.drop 4) := by
  rw [Instruction.begins_of_ofLine h (by decide) (by simp) (by decide)] at hFrom
  obtain ⟨word, rest, hContent, -, -, -, rfl⟩ := Instruction.ofLine_eq_ok_iff.mp h
  have hUpper : Text.upper word = "FROM".toList := Instruction.upper_eq_of_is rfl hFrom
  have hLength : word.length = 4 := by
    simpa [Text.upper] using congrArg List.length hUpper
  rw [hContent, List.drop_left' hLength, hUpper]
  rfl

/-- The FROM instructions of a file are read from the lines that begin with
FROM, one from each and in their order. -/
theorem map_value_named_from {content : Text} {instructions : List Instruction}
    (h : parse content = .ok instructions) :
    (named "FROM" instructions).map Instruction.value = fromArguments content := by
  let read (r : Except ParseError Instruction) : Text :=
    (r.toOption.map Instruction.value).getD []
  have hLines := map_ofLine_begins "FROM" h (by decide) (by simp) (by decide)
  calc (named "FROM" instructions).map Instruction.value
      = ((named "FROM" instructions).map Except.ok).map read := by
        rw [List.map_map]
        rfl
    _ = (((LogicalLine.ofText content).filter (LogicalLine.begins "FROM".toList)).map
          Instruction.ofLine).map read := by rw [hLines]
    _ = fromArguments content := by
        rw [List.map_map]
        apply List.map_congr_left
        intro l hMem
        have hRead : Instruction.ofLine l ∈ (named "FROM" instructions).map Except.ok := by
          rw [← hLines]
          exact List.mem_map_of_mem hMem
        obtain ⟨i, -, hOk⟩ := List.mem_map.mp hRead
        show read (Instruction.ofLine l) = _
        rw [← hOk]
        exact value_of_ofLine hOk.symm (List.mem_filter.mp hMem).2

end Image

/-- A file passes exactly when each of its images has a colon and none ends in
`latest`. The colon may stand before the last slash, so of a file that passes
all images have a tag or digest exactly when those with a colon there do. -/
theorem Rule.passed_pinnedBaseImage_iff {content : Text} {instructions : List Instruction}
    (h : parse content = .ok instructions) :
    (named "FROM" instructions).map Instruction.value = Image.fromArguments content ∧
    ((pinnedBaseImage.evaluate instructions).passed = true ↔
      ∀ args ∈ Image.fromArguments content, ∃ image, Image.Names args image ∧
        (':' ∈ Copy.fileName image ∨ Image.HasPort image) ∧ ¬ Image.EndsInLatest image) ∧
    ((pinnedBaseImage.evaluate instructions).passed = true →
      ((∀ args ∈ Image.fromArguments content, ∃ image, Image.Names args image ∧
          Image.HasTag image ∧ ¬ Image.EndsInLatest image) ↔
        ∀ args ∈ Image.fromArguments content, ∀ image, Image.Names args image →
          Image.HasPort image → Image.HasTag image)) := by
  have hArgs := Image.map_value_named_from h
  have hPassed : (pinnedBaseImage.evaluate instructions).passed = true ↔
      ∀ args ∈ Image.fromArguments content, Image.isPinned (Image.reference args) = true := by
    rw [passed_evaluate, ← hArgs]
    simp [pinnedBaseImage]
  refine ⟨hArgs, ?_, ?_⟩
  · rw [hPassed]
    simp [Image.names_iff, Image.isPinned_iff]
  · intro hPass
    simp only [Image.names_iff, exists_eq_left', forall_eq']
    constructor
    · intro hTags args hMem _
      exact (hTags args hMem).1
    · intro hPorts args hMem
      obtain ⟨hColon | hPort, hLatest⟩ := Image.isPinned_iff.mp (hPassed.mp hPass args hMem)
      · exact ⟨.inl hColon, hLatest⟩
      · exact ⟨hPorts args hMem hPort, hLatest⟩

/-- A stage with a tag, and another whose registry has a port and whose image
has a digest. -/
def stagedFile : Text :=
  "FROM --platform=x node:20 AS build\nfrom r:5000/a@sha256:c\n".toList

def stagedInstructions : List Instruction :=
  [⟨"FROM".toList, .text "--platform=x node:20 AS build".toList, 1,
      "FROM --platform=x node:20 AS build".toList⟩,
    ⟨"FROM".toList, .text "r:5000/a@sha256:c".toList, 2, "from r:5000/a@sha256:c".toList⟩]

/-- A file with two stages, an option, and an image that has a port and a
digest. -/
theorem Rule.passed_pinnedBaseImage_stagedFile :
    parse stagedFile = .ok stagedInstructions ∧
    (pinnedBaseImage.evaluate stagedInstructions).passed = true ∧
    Image.HasPort "r:5000/a@sha256:c".toList ∧
    Image.HasTag "r:5000/a@sha256:c".toList ∧ ¬ Image.EndsInLatest "r:5000/a@sha256:c".toList := by
  have hParse : parse stagedFile = .ok stagedInstructions := by decide +kernel
  have hArgs : Image.fromArguments stagedFile =
      ["--platform=x node:20 AS build".toList, "r:5000/a@sha256:c".toList] := by decide +kernel
  have hPassed : (pinnedBaseImage.evaluate stagedInstructions).passed = true := by decide +kernel
  obtain ⟨-, -, hTags⟩ := passed_pinnedBaseImage_iff hParse
  have hMem : "r:5000/a@sha256:c".toList ∈ Image.fromArguments stagedFile := by simp [hArgs]
  refine ⟨hParse, hPassed, ⟨"r:5000".toList, "a@sha256:c".toList, rfl, by simp⟩, ?_⟩
  obtain ⟨image, hNames, hImage⟩ := (hTags hPassed).mpr (by
    intro args hArg image hNames _
    rw [← Image.names_iff.mp hNames, Image.HasTag]
    rw [hArgs, List.mem_pair] at hArg
    rcases hArg with rfl | rfl
    · decide
    · decide) _ hMem
  obtain rfl : "r:5000/a@sha256:c".toList = image := Image.names_iff.mp hNames
  exact hImage

/-- The only colon of this image belongs to the port of its registry. -/
theorem Rule.passed_pinnedBaseImage_untagged :
    parse "FROM localhost:5000/app\n".toList = .ok
      [⟨"FROM".toList, .text "localhost:5000/app".toList, 1, "FROM localhost:5000/app".toList⟩] ∧
    (pinnedBaseImage.evaluate
      [⟨"FROM".toList, .text "localhost:5000/app".toList, 1,
        "FROM localhost:5000/app".toList⟩]).passed = true ∧
    Image.Names "localhost:5000/app".toList "localhost:5000/app".toList ∧
    ¬ Image.HasTag "localhost:5000/app".toList := by
  refine ⟨by decide +kernel, by decide +kernel, Image.names_iff.mpr (by decide), ?_⟩
  rw [Image.HasTag]
  decide

end Drydock
