import Mathlib
import Drydock.CommandLine.Reader
import Drydock.Host.Memory
import Drydock.Run

/-! Settings and what a command line puts in their place. Settings that are read
from a file have been looked at, and so has every threshold that a command line
gives; the name of the linter on a command line is taken as it is. So what a run
goes by is acceptable unless that name is blank. -/
namespace Drydock

open Relation (ReflTransGen)

namespace Settings

/-- Settings as they have to be: a threshold that a score can reach, and a
linter with a name. -/
structure IsValid (s : Settings) : Prop where
  threshold_le : ∀ t ∈ s.output.threshold, t ≤ 100
  binary_ne_nil : Text.trim s.linter.binary.toList ≠ []

/-- Settings have no fault exactly when they are valid: the threshold and the
name of the linter are all that is looked at. -/
theorem fault?_eq_none_iff {s : Settings} : s.fault? = none ↔ s.IsValid := by
  rw [fault?]
  split
  · rename_i threshold hFilter
    obtain ⟨hThreshold, hAbove⟩ := Option.filter_eq_some_iff.mp hFilter
    simp only [reduceCtorEq, false_iff]
    intro hValid
    have hAtMost := hValid.threshold_le threshold hThreshold
    simp at hAbove
    omega
  · rename_i hFilter
    have hThreshold : ∀ t ∈ s.output.threshold, t ≤ 100 := by
      simpa [Option.filter_eq_none_iff] using hFilter
    split
    · rename_i hBlank
      simp only [reduceCtorEq, false_iff]
      exact fun hValid => hValid.binary_ne_nil hBlank
    · rename_i hBinary
      simp only [true_iff]
      exact ⟨hThreshold, hBinary⟩

/-- Settings that a run can begin with. -/
def IsLoaded (s : Settings) : Prop :=
  s = .default ∨ ∃ content, parse content = .ok s

/-- Settings that are read from a file have been looked at for faults. -/
theorem fault?_of_parse {content : Text} {s : Settings} (h : parse content = .ok s) :
    s.fault? = none := by
  rw [parse] at h
  split at h
  · simp at h
  · split at h
    · simp at h
    · split at h
      · simp at h
      · rename_i hFault
        rwa [Except.ok.inj h] at hFault

/-- A run begins with valid settings, the default ones among them. -/
theorem IsLoaded.isValid {s : Settings} (h : s.IsLoaded) : s.IsValid := by
  rcases h with rfl | ⟨content, hParse⟩
  · exact fault?_eq_none_iff.mp (by decide)
  · exact fault?_eq_none_iff.mp (fault?_of_parse hParse)

end Settings

namespace Run

variable {m : Type → Type} [Monad m] [LawfulMonad m]

/-- Reading a file gives settings that were looked at, or an error. Nothing is
assumed about what the file system answers. -/
theorem satisfiesM_readSettings (host : Host m) (path : Text) :
    SatisfiesM (fun answer => ∀ s, answer = .ok s → s.IsLoaded) (readSettings host path) := by
  refine SatisfiesM.bind SatisfiesM.trivial fun text _ => SatisfiesM.pure ?_
  intro s hs
  cases text with
  | error reason => simp [Except.bind] at hs
  | ok content =>
      rw [Except.bind] at hs
      split at hs
      · rename_i hParse
        rw [Except.ok.inj hs] at hParse
        exact .inr ⟨content, hParse⟩
      · simp at hs

/-- So does the search through several places, which falls back to the default
settings. -/
theorem satisfiesM_firstSettings (host : Host m) (places : List Text) :
    SatisfiesM (fun answer => answer.2.IsLoaded) (firstSettings host places) := by
  induction places with
  | nil => exact SatisfiesM.pure (.inl rfl)
  | cons path rest ih =>
      refine SatisfiesM.bind SatisfiesM.trivial fun isPresent _ => ?_
      split
      · refine SatisfiesM.bind (satisfiesM_readSettings host path) fun answer hAnswer => ?_
        split
        · exact SatisfiesM.pure (hAnswer _ rfl)
        · exact SatisfiesM.bind ih fun found hFound => SatisfiesM.pure hFound
      · exact ih

/-- Whatever the system around it answers, a run begins with such settings or
with an error. -/
theorem satisfiesM_settingsFor (host : Host m) (c : CommandLine) :
    SatisfiesM (fun answer => ∀ s, answer.2 = .ok s → s.IsLoaded) (settingsFor host c) := by
  rw [settingsFor]
  split
  · refine SatisfiesM.bind (satisfiesM_readSettings host _) fun answer hAnswer => ?_
    exact SatisfiesM.pure hAnswer
  · refine SatisfiesM.bind SatisfiesM.trivial fun home? _ => ?_
    refine SatisfiesM.bind (satisfiesM_firstSettings host _) fun found hFound => ?_
    refine SatisfiesM.pure ?_
    intro s hs
    rwa [← Except.ok.inj hs]

end Run

namespace CommandLine

/-- One change to a command line that is being read: a slot is filled or a flag
is raised. -/
def Change (c d : CommandLine) : Prop :=
  (∃ slot value, c.fill slot value = .ok d) ∨ ∃ flag, c.raise flag = .ok d

/-- To give a slot its value is one change. A slot that was given before is
refused. -/
theorem changes_of_give {c d : CommandLine} {slot : Slot} {value : String}
    (h : c.give slot value = .ok d) : ReflTransGen Change c d := by
  rw [give] at h
  split at h
  · simp at h
  · exact .single (.inl ⟨slot, value, h⟩)

theorem changes_of_raise {c d : CommandLine} {flag : Flag} (h : c.raise flag = .ok d) :
    ReflTransGen Change c d :=
  .single (.inr ⟨flag, h⟩)

namespace Reading

variable {r t : Reading}

theorem exists_of_bind {α β : Type} {x : Except Halt α} {f : α → Except Halt β} {b : β}
    (h : x.bind f = .ok b) : ∃ a, x = .ok a ∧ f a = .ok b := by
  cases x with
  | error halt => simp [Except.bind] at h
  | ok a => exact ⟨a, rfl, h⟩

theorem exists_of_map {α β : Type} {x : Except Halt α} {f : α → β} {b : β}
    (h : x.map f = .ok b) : ∃ a, x = .ok a ∧ f a = b := by
  cases x with
  | error halt => simp [Except.map] at h
  | ok a => exact ⟨a, rfl, Except.ok.inj h⟩

/-- An option that awaited its value is settled by a change or not at all. -/
theorem changes_of_settle (h : r.settle = .ok t) : ReflTransGen Change r.line t.line := by
  rw [settle] at h
  split at h
  · rw [Except.ok.inj h]
  · simp at h
  · obtain ⟨line, hGive, rfl⟩ := exists_of_map h
    exact changes_of_give hGive

theorem changes_of_raise {flag : Flag} (h : r.raise flag = .ok t) :
    ReflTransGen Change r.line t.line := by
  obtain ⟨settled, hSettle, hRaise⟩ := exists_of_bind h
  obtain ⟨line, hLine, rfl⟩ := exists_of_map hRaise
  exact (changes_of_settle hSettle).trans (CommandLine.changes_of_raise hLine)

theorem changes_of_give {slot : Slot} {value : Text} (h : r.give slot value = .ok t) :
    ReflTransGen Change r.line t.line := by
  obtain ⟨settled, hSettle, hGive⟩ := exists_of_bind h
  obtain ⟨line, hLine, rfl⟩ := exists_of_map hGive
  exact (changes_of_settle hSettle).trans (CommandLine.changes_of_give hLine)

theorem changes_of_await {slot : Slot} (h : r.await slot = .ok t) :
    ReflTransGen Change r.line t.line := by
  obtain ⟨settled, hSettle, rfl⟩ := exists_of_map h
  have hChanges := changes_of_settle hSettle
  exact hChanges

theorem changes_of_place {path : Text} (h : r.place path = .ok t) :
    ReflTransGen Change r.line t.line := by
  rw [place] at h
  split at h
  · simp at h
  · obtain ⟨settled, hSettle, rfl⟩ := exists_of_map h
    have hChanges := changes_of_settle hSettle
    exact hChanges

/-- A long option, with its value after a sign or still to come. -/
theorem changes_of_long {s : Text} (h : r.long s = .ok t) : ReflTransGen Change r.line t.line := by
  rw [long] at h
  split at h
  · simp at h
  · exact changes_of_raise h
  · simp at h
  · exact changes_of_await h
  · exact changes_of_give h

/-- Short options in one word are read letter by letter, which the induction
follows. What comes after one that takes a value is that value. -/
theorem changes_of_short {s : Text} (h : short s r = .ok t) :
    ReflTransGen Change r.line t.line := by
  induction s generalizing r with
  | nil =>
      obtain rfl := Except.ok.inj h
      exact .refl
  | cons c rest ih =>
      rw [short] at h
      split at h
      · simp at h
      · obtain ⟨raised, hRaise, hRest⟩ := exists_of_bind h
        exact (changes_of_raise hRaise).trans (ih hRest)
      · split at h
        · exact changes_of_await h
        · exact changes_of_give h
        · exact changes_of_give h

theorem changes_of_plain {s : Text} (h : r.plain s = .ok t) :
    ReflTransGen Change r.line t.line := by
  rw [plain] at h
  split at h
  · split at h
    · exact changes_of_place h
    · obtain rfl := Except.ok.inj h
      exact .refl
  · exact changes_of_place h

/-- Whatever an argument is, it makes changes to the command line one by one. -/
theorem changes_of_step {argument : String} (h : r.step argument = .ok t) :
    ReflTransGen Change r.line t.line := by
  rw [step] at h
  split at h
  · exact changes_of_plain h
  · split at h
    · obtain rfl := Except.ok.inj h
      exact .refl
    · exact changes_of_long h
    · exact changes_of_short h
    · exact changes_of_plain h

/-- Arguments one after the other only add to the changes. -/
theorem changes_of_foldlM {arguments : List String} (h : arguments.foldlM step r = .ok t) :
    ReflTransGen Change r.line t.line := by
  induction arguments generalizing r with
  | nil =>
      obtain rfl := Except.ok.inj h
      exact .refl
  | cons argument rest ih =>
      rw [List.foldlM_cons] at h
      obtain ⟨next, hStep, hRest⟩ := exists_of_bind h
      exact (changes_of_step hStep).trans (ih hRest)

end Reading

/-- Every command line that is accepted comes about by such changes. -/
theorem changes_of_read {arguments : List String} {c : CommandLine} (h : read arguments = .ok c) :
    ReflTransGen Change empty c := by
  obtain ⟨last, hSettle, rfl⟩ := Reading.exists_of_map h
  obtain ⟨folded, hFold, hSettle⟩ := Reading.exists_of_bind hSettle
  exact (Reading.changes_of_foldlM hFold).trans (Reading.changes_of_settle hSettle)

/-- Only a score that can be reached is taken for a threshold. -/
theorem le_of_threshold? {value : Text} {n : Nat} (h : threshold? value = some n) : n ≤ 100 := by
  rw [threshold?.eq_def] at h
  dsimp only at h
  -- the range is the same after either sign and without one
  split at h
  all_goals
    dsimp only at h
    split at h
    · split at h
      · rename_i hRange
        rw [Bool.and_eq_true, decide_eq_true_iff] at hRange
        rw [← Option.some.inj h]
        exact hRange.1
      · simp at h
    · simp at h

/-- The slots other than the one of the threshold leave it alone. -/
theorem threshold_of_fill {c d : CommandLine} {slot : Slot} {value : String}
    (h : c.fill slot value = .ok d) :
    d.threshold = c.threshold ∨ ∃ score, threshold? value.toList = some score ∧
      d.threshold = some score := by
  rw [fill.eq_def] at h
  cases slot with
  | threshold =>
      dsimp only at h
      split at h
      · rename_i score hScore
        obtain rfl := Except.ok.inj h
        exact .inr ⟨score, hScore, rfl⟩
      · simp at h
  | format =>
      dsimp only at h
      split at h
      · obtain rfl := Except.ok.inj h
        exact .inl rfl
      · simp at h
  | linterBinary =>
      obtain rfl := Except.ok.inj h
      exact .inl rfl
  | platform =>
      obtain rfl := Except.ok.inj h
      exact .inl rfl
  | _ =>
      dsimp only at h
      split at h
      · simp at h
      · obtain rfl := Except.ok.inj h
        exact .inl rfl

theorem threshold_of_raise {c d : CommandLine} {flag : Flag} (h : c.raise flag = .ok d) :
    d.threshold = c.threshold := by
  rw [raise.eq_def] at h
  split at h
  · simp at h
  · cases flag with
    | help => simp at h
    | version => simp at h
    | _ =>
        obtain rfl := Except.ok.inj h
        rfl

/-- A score is looked at where it is given, so no change puts one above 100 on
the command line. -/
theorem Change.threshold_le {c d : CommandLine} (h : Change c d)
    (hThreshold : ∀ t ∈ c.threshold, t ≤ 100) : ∀ t ∈ d.threshold, t ≤ 100 := by
  rcases h with ⟨slot, value, hFill⟩ | ⟨flag, hRaise⟩
  · rcases threshold_of_fill hFill with hSame | ⟨score, hScore, hGiven⟩
    · rwa [hSame]
    · rw [hGiven]
      intro t ht
      obtain rfl := Option.some.inj ht
      exact le_of_threshold? hScore
  · rwa [threshold_of_raise hRaise]

/-- The bound is kept by every change, so it holds of every command line that is
accepted. -/
theorem threshold_le_of_read {arguments : List String} {c : CommandLine}
    (h : read arguments = .ok c) : ∀ t ∈ c.threshold, t ≤ 100 := by
  have hChanges := changes_of_read h
  clear h
  induction hChanges with
  | refl => simp [empty]
  | tail _ hChange ih => exact hChange.threshold_le ih

/-- Put in the place of valid settings, only a blank name of the linter does
harm. -/
theorem isValid_applyTo_iff {s : Settings} {c : CommandLine} (hs : s.IsValid)
    (hThreshold : ∀ t ∈ c.threshold, t ≤ 100) :
    (∀ t ∈ (c.applyTo s).output.threshold, t ≤ 100) ∧
      ((c.applyTo s).IsValid ↔ ∀ binary ∈ c.linterBinary, Text.trim binary.toList ≠ []) := by
  have hApplied : ∀ t ∈ (c.applyTo s).output.threshold, t ≤ 100 := by
    rw [applyTo]
    cases hGiven : c.threshold with
    | none => exact hs.threshold_le
    | some score => simpa [hGiven] using hThreshold
  have hBinary : (c.applyTo s).linter.binary = c.linterBinary.getD s.linter.binary := rfl
  refine ⟨hApplied, ?_⟩
  cases hGiven : c.linterBinary with
  | none =>
      rw [hGiven, Option.getD_none] at hBinary
      simpa using ⟨hApplied, by rw [hBinary]; exact hs.binary_ne_nil⟩
  | some binary =>
      rw [hGiven, Option.getD_some] at hBinary
      constructor
      · intro hValid name hName
        obtain rfl := Option.some.inj hName
        rw [← hBinary]
        exact hValid.binary_ne_nil
      · intro hNames
        refine ⟨hApplied, ?_⟩
        rw [hBinary]
        exact hNames binary rfl

end CommandLine

/-- A run goes by valid settings, whatever file they come from and whatever the
command line puts in their place, unless the command line names a linter by
blanks alone. The threshold is always one that a score can reach. -/
theorem settings_of_run_isValid_iff {m : Type → Type} [Monad m] [LawfulMonad m] (host : Host m)
    {arguments : List String} {c : CommandLine} (hRead : CommandLine.read arguments = .ok c) :
    (∀ s : Settings, s.IsLoaded →
      (∀ t ∈ (c.applyTo s).output.threshold, t ≤ 100) ∧
      ((c.applyTo s).IsValid ↔ ∀ binary ∈ c.linterBinary, Text.trim binary.toList ≠ [])) ∧
    SatisfiesM (fun answer => ∀ s, answer.2 = .ok s → s.IsLoaded) (Run.settingsFor host c) := by
  refine ⟨?_, Run.satisfiesM_settingsFor host c⟩
  intro s hs
  exact CommandLine.isValid_applyTo_iff hs.isValid (CommandLine.threshold_le_of_read hRead)

def namedLine : CommandLine :=
  { CommandLine.empty with linterBinary := some "lint", threshold := some 80 }

def strictProject : Memory :=
  { items := [([Settings.fileName], .file "[output]\nfail_under = 100\n".toUTF8.toList)]
    commands := []
    input := []
    home? := none
    time := ⟨0, 0⟩ }

def strictSettings : Settings :=
  { Settings.default with output := { format := .terminal, threshold := some 100 } }

/-- A file that asks for all points and a command line that asks for fewer and
names a linter. -/
theorem isValid_namedLine_strictSettings :
    CommandLine.read ["--linter-bin", "lint", "--fail-under=+080"] = .ok namedLine ∧
      (Run.settingsFor strictProject.toHost namedLine).run = ([], .ok strictSettings) ∧
      (namedLine.applyTo strictSettings).IsValid := by
  have hRead : CommandLine.read ["--linter-bin", "lint", "--fail-under=+080"] = .ok namedLine := by
    decide +kernel
  have hSettings : (Run.settingsFor strictProject.toHost namedLine).run =
      ([], .ok strictSettings) := by
    decide +kernel
  have hName : ∀ binary ∈ namedLine.linterBinary, Text.trim binary.toList ≠ [] := by
    simp only [namedLine, Option.mem_some_iff, forall_eq']
    decide
  obtain ⟨hApply, hLoaded⟩ := settings_of_run_isValid_iff strictProject.toHost hRead
  have hStrict : strictSettings.IsLoaded :=
    SatisfiesM_Id_eq.mp hLoaded strictSettings (congrArg Prod.snd hSettings)
  exact ⟨hRead, hSettings, (hApply strictSettings hStrict).2.mpr hName⟩

def blankLine : CommandLine :=
  { CommandLine.empty with linterBinary := some " " }

/-- The name that is refused in a file is taken from a command line. -/
theorem fault?_applyTo_blankLine :
    CommandLine.read ["--linter-bin", " "] = .ok blankLine ∧
      Settings.parse [] = .ok .default ∧
      (blankLine.applyTo .default).fault? = some (.invalid "linter.binary" " ") ∧
      Settings.parse "[linter]\nbinary = \" \"\n".toList =
        .error (.invalid "linter.binary" " ") := by
  decide +kernel

end Drydock
