import Drydock.Proofs.MountOption
import Drydock.Proofs.Words

/-! Mounts on the line of a RUN. Every option is a word by itself, and the
command after the options holds none. So the line is told to mount a secret, or
something else, exactly where one of its options does. -/
namespace Drydock

namespace BuildKit

/-- Blanks that divide what stands before them from what comes after, on one
line. -/
structure Gap where
  text : Text
  text_ne_nil : text ≠ []
  isBlank_text : ∀ c ∈ text, Text.isBlank c = true
  feed_notMem : '\n' ∉ text

/-- A RUN with mounts before its command. The command mentions no further
mount. -/
structure MountLine where
  mounts : List (Gap × Mount)
  gap : Gap
  command : Text
  feed_notMem : '\n' ∉ command
  mount_notMem : ¬ "--mount=".toList <:+: Text.lower command

theorem Gap.head?_append (g : Gap) (s : Text) :
    (g.text ++ s).head?.all Text.isBlank = true :=
  Text.head?_append_of_gap g.text_ne_nil g.isBlank_text s

namespace MountLine

def arguments (l : MountLine) : Text :=
  l.mounts.flatMap (fun placed => placed.1.text ++ placed.2.text) ++ (l.gap.text ++ l.command)

def text (l : MountLine) : Text :=
  "RUN".toList ++ l.arguments

theorem head?_placed (mounts : List (Gap × Mount)) {rest : Text}
    (hRest : rest.head?.all Text.isBlank = true) :
    (mounts.flatMap (fun placed => placed.1.text ++ placed.2.text) ++ rest).head?.all
      Text.isBlank = true := by
  cases mounts with
  | nil => exact hRest
  | cons placed mounts =>
      rw [List.flatMap_cons, List.append_assoc, List.append_assoc]
      exact placed.1.head?_append _

/-- Every mount is a word by itself, since it has no blanks inside and a gap
before it. -/
theorem words_arguments (l : MountLine) :
    Text.words l.arguments = l.mounts.map (·.2.text) ++ Text.words l.command := by
  rw [arguments]
  induction l.mounts with
  | nil => exact Text.words_append_of_blank l.gap.isBlank_text l.command
  | cons placed rest ih =>
      have hNext := head?_placed rest (l.gap.head?_append l.command)
      rw [List.flatMap_cons, List.append_assoc, List.append_assoc,
        Text.words_append_of_blank placed.1.isBlank_text,
        Text.words_append placed.2.text_ne_nil placed.2.isBlank_text hNext, ih, List.map_cons,
        List.cons_append]

/-- The command of the line has no place where the option begins. -/
theorem afterFolded?_of_mem_words (l : MountLine) {word e : Text}
    (hMem : word ∈ Text.words l.command) (hSuffix : e <:+ word) :
    Text.afterFolded? "--mount=".toList e = none := by
  rw [Option.eq_none_iff_forall_ne_some]
  intro rest hRest
  obtain ⟨front, rfl, hFront⟩ := Text.afterFolded?_eq_some_iff.mp hRest
  obtain ⟨-, -, before, after, hSplit, -, -⟩ := Text.mem_words_iff.mp hMem
  have hInfix : front <:+: l.command := by
    have hWord : word <:+: l.command := ⟨before, after, by simp [hSplit]⟩
    exact ((List.prefix_append front rest).isInfix.trans hSuffix.isInfix).trans hWord
  have hLower : Text.lower front = "--mount=".toList := by
    rw [← hFront]
    apply List.map_congr_left
    intro c hc
    have hFold : Text.fold c ∈ front.map Text.fold := List.mem_map_of_mem hc
    rw [hFront] at hFold
    refine (Text.fold_eq_toLower ?_ ?_).symm
    · intro hs
      rw [hs] at hFold
      exact absurd hFold (by decide)
    · intro hk
      rw [hk] at hFold
      exact absurd hFold (by decide)
  apply l.mount_notMem
  rw [← hLower]
  exact hInfix.map Char.toLower

theorem feed_notMem_arguments (l : MountLine) : '\n' ∉ l.arguments := by
  intro hMem
  rw [arguments, List.mem_append, List.mem_append, List.mem_flatMap] at hMem
  rcases hMem with ⟨placed, -, hPlaced⟩ | hGap | hCommand
  · rcases List.mem_append.mp hPlaced with hGap | hMount
    · exact placed.1.feed_notMem hGap
    · exact absurd (placed.2.isBlank_text _ hMount) (by decide)
  · exact l.gap.feed_notMem hGap
  · exact l.feed_notMem hCommand

theorem head?_arguments (l : MountLine) : l.arguments.head?.all Text.isBlank = true :=
  head?_placed l.mounts (l.gap.head?_append l.command)

theorem words_text (l : MountLine) :
    Text.words l.text = "RUN".toList :: Text.words l.arguments :=
  Text.words_append (by decide) (by simp [Text.isBlank]) l.head?_arguments

/-- Secret mounts are looked for in the words after the keyword. -/
theorem hasSecretMount_text (l : MountLine) :
    hasSecretMount l.text = true ↔
      ∃ word ∈ Text.words l.arguments, ∃ e, e <:+ word ∧ beginsSecretMount e = true := by
  have hFeed : '\n' ∉ l.text := by
    rw [text, List.mem_append, not_or]
    exact ⟨by decide, l.feed_notMem_arguments⟩
  have hKeyword : afterKeyword? "run" l.text = some l.arguments := by
    have hRun : isKeyword "RUN".toList = true := by decide
    rw [afterKeyword?, text, trimStart_append_of_isKeyword hRun]
    exact Text.afterFolded?_append (by decide) l.arguments
  have hBlanks : Text.afterBlanks? l.arguments = some (Text.trimStart l.arguments) :=
    Text.afterBlanks?_eq_some (by simp [arguments, l.gap.text_ne_nil]) l.head?_arguments
  have hStart : '\n' ∉ Text.trimStart l.arguments :=
    fun hMem => l.feed_notMem_arguments ((List.dropWhile_suffix _).subset hMem)
  rw [hasSecretMount, anyInRun, Text.lineStarts, Text.afterFeeds_eq_nil hFeed, List.any_cons,
    List.any_nil, Bool.or_false, hKeyword, Option.bind_some, hBlanks]
  dsimp only
  rw [Text.anyInLine_iff hStart,
    Text.exists_suffix_iff_exists_mem_words rfl beginsSecretMount_firstRun, Text.words_trimStart]

/-- Among the words after the keyword, only the mounts can be found to begin
with the option. -/
theorem exists_mem_words_iff (l : MountLine) :
    (∃ word ∈ Text.words l.arguments, ∃ e, e <:+ word ∧ beginsSecretMount e = true) ↔
      ∃ placed ∈ l.mounts, placed.2.HasType "secret" := by
  rw [l.words_arguments]
  constructor
  · intro h
    obtain ⟨word, hWord, e, hSuffix, hFound⟩ := h
    have hSome := isSome_of_beginsSecretMount hFound
    rcases List.mem_append.mp hWord with hMount | hCommand
    · obtain ⟨placed, hMem, rfl⟩ := List.mem_map.mp hMount
      rw [placed.2.eq_text_of_suffix hSuffix hSome, placed.2.beginsSecretMount_text] at hFound
      exact ⟨placed, hMem, hFound⟩
    · rw [l.afterFolded?_of_mem_words hCommand hSuffix] at hSome
      simp at hSome
  · intro h
    obtain ⟨placed, hMem, hType⟩ := h
    exact ⟨placed.2.text, List.mem_append_left _ (List.mem_map_of_mem hMem), _, List.suffix_rfl,
      placed.2.beginsSecretMount_text.mpr hType⟩

/-- What is written out as a secret mount is found as one. -/
theorem exists_of_occursIn (l : MountLine)
    (h : Text.occursIn "--mount=type=secret".toList l.text = true) :
    ∃ word ∈ Text.words l.arguments, ∃ e, e <:+ word ∧ beginsSecretMount e = true := by
  obtain ⟨before, after, hText⟩ := Text.occursIn_iff.mp h
  have hFound :
      beginsSecretMount ("--mount=".toList ++ ("type=secret".toList ++ after)) = true := by
    rw [beginsSecretMount, Text.afterFolded?_append (by decide)]
    dsimp only
    rw [Text.afterFolded?_append (by decide)]
    rfl
  have hSuffix : "--mount=".toList ++ ("type=secret".toList ++ after) <:+ l.text :=
    ⟨before, by rw [← hText, List.append_assoc]; rfl⟩
  have hWords := (Text.exists_suffix_iff_exists_mem_words rfl beginsSecretMount_firstRun).mp
    ⟨_, hSuffix, hFound⟩
  rw [l.words_text] at hWords
  obtain ⟨word, hWord, e, hEnd, hBegins⟩ := hWords
  rcases List.mem_cons.mp hWord with rfl | hWord
  · -- the keyword is too short for the option
    have hLong := congrArg List.length (fold_before_of_isSome (isSome_of_beginsSecretMount hBegins))
    rw [List.length_map] at hLong
    have hTake : (Text.before '=' e).length ≤ e.length := (List.takeWhile_prefix _).length_le
    have hShort := hEnd.length_le
    have hThree : "RUN".toList.length = 3 := rfl
    have hSeven : "--mount".toList.length = 7 := rfl
    omega
  · exact ⟨word, hWord, e, hEnd, hBegins⟩

/-- A line is taken to mount a secret when one of its mounts has that type. The
test for the option written out adds nothing on such a line. -/
theorem isSecretMountLine_text (l : MountLine) :
    isSecretMountLine l.text = true ↔ ∃ placed ∈ l.mounts, placed.2.HasType "secret" := by
  rw [isSecretMountLine, Bool.or_eq_true, l.hasSecretMount_text, ← l.exists_mem_words_iff]
  exact or_iff_left_of_imp l.exists_of_occursIn

/-- The mounts of the line are those that its words hold. -/
theorem filterMap_mountSpec? (l : MountLine) :
    (Text.words l.text).filterMap mountSpec? = l.mounts.map (·.2.spec) := by
  have hCommand : (Text.words l.command).filterMap mountSpec? = [] := by
    rw [List.filterMap_eq_nil_iff]
    intro word hWord
    have hNone := Text.afterFirstFolded?_eq_none_iff.mpr fun e he =>
      l.afterFolded?_of_mem_words hWord he
    rw [mountSpec?, hNone]
  have hRun : mountSpec? "RUN".toList = none := by decide
  have hMount : mountSpec? ∘ (fun placed : Gap × Mount => placed.2.text) =
      fun placed => some placed.2.spec := by
    funext placed
    exact placed.2.mountSpec?_text
  rw [l.words_text, l.words_arguments, List.filterMap_cons, hRun, List.filterMap_append, hCommand,
    List.append_nil, List.filterMap_map, hMount, List.filterMap_eq_map']

/-- A line is taken to mount something else when one of its mounts is plain. It
may mount a secret besides. -/
theorem hasPlainMount_text (l : MountLine) :
    hasPlainMount l.text = true ↔ ∃ placed ∈ l.mounts, placed.2.IsPlain := by
  rw [hasPlainMount, l.filterMap_mountSpec?, List.any_map, List.any_eq_true]
  apply exists_congr
  intro placed
  rw [placed.2.isPlain_iff, Function.comp_apply]
  cases mountType? placed.2.spec with
  | none => exact Iff.rfl
  | some name => exact Iff.rfl

end MountLine

/-- On the line of a RUN each mount is classified by its own fields: the line is
taken to mount a secret exactly where a mount has that type, and something else
exactly where a mount has another type or none. -/
theorem isSecretMountLine_and_hasPlainMount_iff (l : MountLine) :
    (isSecretMountLine l.text = true ↔ ∃ placed ∈ l.mounts, placed.2.HasType "secret") ∧
    (hasPlainMount l.text = true ↔
      ∃ placed ∈ l.mounts, (∀ f ∈ placed.2.fields, f.key ≠ "type".toList) ∨
        ∃ f ∈ placed.2.fields, f.key = "type".toList ∧
          Text.lower f.value ≠ "secret".toList) :=
  ⟨l.isSecretMountLine_text, l.hasPlainMount_text⟩

/-- A secret whose type comes last and in capitals. -/
def secretMount : Mount where
  fields :=
    [⟨"id".toList, "n-1".toList, by decide, by decide, by simp, by simp⟩,
      ⟨"type".toList, "SECRET".toList, by decide, by decide, by simp, by simp⟩]
  fields_ne_nil := by simp
  countP_type := by decide
  mem_mountTypes := by simp [mountTypes, Text.lower]

/-- A directory, without a type but with a value that sounds like one. -/
def untypedMount : Mount where
  fields := [⟨"from".toList, "secret".toList, by decide, by decide, by simp, by simp⟩]
  fields_ne_nil := by simp
  countP_type := by decide
  mem_mountTypes := by simp

def spaces (n : Nat) : Gap where
  text := List.replicate (n + 1) ' '
  text_ne_nil := by simp
  isBlank_text := by simp [Text.isBlank_space]
  feed_notMem := by simp

/-- Mounts before a command that speaks of secrets itself. -/
def secretLine (mounts : List Mount) : MountLine where
  mounts := mounts.map (spaces 1, ·)
  gap := spaces 0
  command := "cat --mount type=secret".toList
  feed_notMem := by decide
  mount_notMem := by decide

/-- Neither a value that reads like a type nor a command that speaks of mounts
has a part in it. -/
theorem isSecretMountLine_and_hasPlainMount_secretLine :
    (secretLine [secretMount, untypedMount]).text =
      "RUN  --mount=id=n-1,type=SECRET  --mount=from=secret cat --mount type=secret".toList ∧
    (isSecretMountLine (secretLine [secretMount, untypedMount]).text = true ∧
      hasPlainMount (secretLine [secretMount, untypedMount]).text = true) ∧
    (isSecretMountLine (secretLine [untypedMount]).text = false ∧
      hasPlainMount (secretLine [secretMount]).text = false) := by
  have hBoth := isSecretMountLine_and_hasPlainMount_iff (secretLine [secretMount, untypedMount])
  have hUntyped := isSecretMountLine_and_hasPlainMount_iff (secretLine [untypedMount])
  have hSecret := isSecretMountLine_and_hasPlainMount_iff (secretLine [secretMount])
  refine ⟨by decide, ⟨hBoth.1.mpr ?_, hBoth.2.mpr ?_⟩, ?_, ?_⟩
  · exact ⟨(spaces 1, secretMount), by simp [secretLine],
      by simp [Mount.HasType, secretMount, Text.lower]⟩
  · exact ⟨(spaces 1, untypedMount), by simp [secretLine], .inl (by simp [untypedMount])⟩
  · rw [← Bool.not_eq_true, hUntyped.1]
    simp [secretLine, Mount.HasType, untypedMount]
  · rw [← Bool.not_eq_true, hSecret.2]
    simp [secretLine, secretMount, Text.lower]

end BuildKit

end Drydock
