import Mathlib
import Drydock.Report.Terminal

/-! Colours of a report for people. A colour code is an escape character, a
bracket, digits and semicolons, and the letter `m`. Colours put codes around
stretches of the text and change nothing else: without its codes the coloured
text is the plain one, whatever stands next to a code. -/
namespace Drydock

namespace ColorCode

/-- Whether a character may stand between the bracket and the letter of a
code. -/
def isParameter (c : Char) : Bool :=
  c.isDigit || c == ';'

/-- What follows the code at the start of a text, if there is one. The code
takes all digits and semicolons after the bracket. -/
def afterCode? : Text → Option Text
  | '\x1b' :: '[' :: rest => Text.after? ['m'] (rest.dropWhile isParameter)
  | _ => none

/-- A code is an escape character, a bracket, digits and semicolons, and the
letter. Where one begins a text, it ends at one place only. -/
theorem afterCode?_eq_some_iff {s rest : Text} :
    afterCode? s = some rest ↔
      ∃ parameters, (∀ c ∈ parameters, isParameter c = true) ∧
        s = '\x1b' :: '[' :: (parameters ++ 'm' :: rest) := by
  constructor
  · intro h
    rw [afterCode?.eq_def] at h
    split at h
    · rename_i inner
      refine ⟨inner.takeWhile isParameter, fun c hc => List.mem_takeWhile_imp hc, ?_⟩
      have hLetter : inner.dropWhile isParameter = 'm' :: rest := by
        simpa [Text.after?_eq_some_iff] using h
      rw [← hLetter, List.takeWhile_append_dropWhile]
    · simp at h
  · rintro ⟨parameters, hParameters, rfl⟩
    have hStop : ('m' :: rest).dropWhile isParameter = 'm' :: rest :=
      List.dropWhile_cons_of_neg (by decide)
    rw [afterCode?, List.dropWhile_append_of_pos hParameters, hStop]
    simp [Text.after?]

theorem length_of_afterCode? {c : Char} {cs rest : Text} (h : afterCode? (c :: cs) = some rest) :
    rest.length ≤ cs.length := by
  obtain ⟨parameters, -, hCons⟩ := afterCode?_eq_some_iff.mp h
  obtain ⟨-, rfl⟩ := List.cons.inj hCons
  simp only [List.length_cons, List.length_append]
  omega

def strip : Text → Text
  | [] => []
  | c :: cs =>
    match hCode : afterCode? (c :: cs) with
    | some rest =>
      have := length_of_afterCode? hCode
      strip rest
    | none => c :: strip cs
termination_by s => s.length

theorem strip_of_afterCode? {s rest : Text} (h : afterCode? s = some rest) :
    strip s = strip rest := by
  cases s with
  | nil => simp [afterCode?] at h
  | cons c cs =>
      rw [strip]
      split
      · rename_i other hOther
        obtain rfl := Option.some.inj (hOther.symm.trans h)
        rfl
      · rename_i hNone
        exact absurd (hNone.symm.trans h) (by simp)

theorem strip_cons {c : Char} (h : c ≠ '\x1b') (cs : Text) : strip (c :: cs) = c :: strip cs := by
  rw [strip]
  split
  · rename_i hCode
    obtain ⟨parameters, -, hCons⟩ := afterCode?_eq_some_iff.mp hCode
    exact absurd (List.cons.inj hCons).1 h
  · rfl

/-- A code begins with an escape character, so no other text is touched. The
text after it may begin with any characters, as no code reaches back over
them. -/
theorem strip_append {s : Text} (h : '\x1b' ∉ s) (rest : Text) :
    strip (s ++ rest) = s ++ strip rest := by
  induction s with
  | nil => rfl
  | cons c cs ih =>
      obtain ⟨hc, hcs⟩ := not_or.mp (mt List.mem_cons.mpr h)
      rw [List.cons_append, strip_cons (Ne.symm hc), ih hcs, List.cons_append]

/-- A code goes as a whole, whatever comes after it. -/
theorem strip_sequence {parameters : String} (h : ∀ c ∈ parameters.toList, isParameter c = true)
    (rest : Text) : strip (Style.sequence parameters ++ rest) = strip rest := by
  apply strip_of_afterCode?
  rw [afterCode?_eq_some_iff]
  exact ⟨parameters.toList, h, by simp [Style.sequence]⟩

end ColorCode

/-- What a style puts between bracket and letter is digits and semicolons. -/
theorem Style.isParameter_parameters (s : Style) :
    ∀ c ∈ s.parameters.toList, ColorCode.isParameter c = true := by
  apply List.all_eq_true.mp
  cases s with
  | severity severity => cases severity <;> rfl
  | grade grade => cases grade <;> rfl
  | _ => rfl

theorem Style.isParameter_reset : ∀ c ∈ "0".toList, ColorCode.isParameter c = true :=
  List.all_eq_true.mp (by decide)

namespace Fragment

def IsInert (f : Fragment) : Prop :=
  '\x1b' ∉ f.text

@[simp]
theorem isInert_plain {text : String} : (plain text).IsInert ↔ '\x1b' ∉ text.toList := Iff.rfl

@[simp]
theorem isInert_styled {style : Style} {text : String} :
    (styled style text).IsInert ↔ '\x1b' ∉ text.toList := Iff.rfl

theorem render_false (f : Fragment) : f.render false = f.text := by
  rw [render]
  split <;> rfl

/-- From a fragment with its colours the text remains, whatever follows. The
code that ends the colour is complete, so it takes nothing of what comes
next. -/
theorem IsInert.strip_render_append {f : Fragment} (h : f.IsInert) (rest : Text) :
    ColorCode.strip (f.render true ++ rest) = f.text ++ ColorCode.strip rest := by
  cases hStyle : f.style with
  | none =>
      rw [render, hStyle]
      exact ColorCode.strip_append h rest
  | some style =>
      rw [render, hStyle]
      dsimp only
      rw [if_pos rfl, Style.start, Style.reset, List.append_assoc, List.append_assoc,
        ColorCode.strip_sequence style.isParameter_parameters, ColorCode.strip_append h,
        ColorCode.strip_sequence Style.isParameter_reset]

/-- Fragment by fragment, the codes around the text are all that goes. -/
theorem strip_flatMap_render {fragments : List Fragment} (h : ∀ f ∈ fragments, f.IsInert) :
    ColorCode.strip (fragments.flatMap (render true)) = fragments.flatMap (render false) := by
  induction fragments with
  | nil => rw [List.flatMap_nil, List.flatMap_nil, ColorCode.strip]
  | cons f rest ih =>
      obtain ⟨hFirst, hRest⟩ := List.forall_mem_cons.mp h
      rw [List.flatMap_cons, List.flatMap_cons, hFirst.strip_render_append, ih hRest, render_false]

end Fragment

/-- The strings of a finding that are shown to people. The details are none of
them. -/
def Finding.shown (f : Finding) : List String :=
  f.rule :: f.message :: f.suggestions

/-- The strings of a report that are shown to people. -/
def Report.shown (r : Report) : List String :=
  r.findings.flatMap Finding.shown

namespace Report

@[simp]
theorem escape_notMem_toDigits (n : Nat) : '\x1b' ∉ Nat.toDigits 10 n := by
  intro h
  exact absurd (Nat.isDigit_of_mem_toDigits (by omega) (by omega) h) (by decide)

theorem escape_notMem_counted (n : Nat) {unit : String} (h : '\x1b' ∉ unit.toList) :
    '\x1b' ∉ (counted n unit).toList := by
  rw [counted]
  split <;> simp [h]

section Fragments

variable {f : Finding} (h : ∀ s ∈ f.shown, '\x1b' ∉ s.toList)

include h in
/-- A finding that failed is shown without escape characters if its strings have
none. -/
theorem isInert_failureFragments : ∀ g ∈ failureFragments f, g.IsInert := by
  simp only [Finding.shown, List.forall_mem_cons] at h
  obtain ⟨hRule, hMessage, hSuggestions⟩ := h
  have hLabel : '\x1b' ∉ f.severity.label.toList := by cases f.severity <;> decide
  simp only [failureFragments, List.forall_mem_append]
  refine ⟨⟨⟨⟨⟨by simp, ?line⟩, by simp [hLabel, hRule]⟩, ?origin⟩, by simp [hMessage]⟩, ?remedies⟩
  case line => split <;> simp
  case origin => split <;> simp
  case remedies =>
    intro g hg
    obtain ⟨remedy, hRemedy, hIn⟩ := List.mem_flatMap.mp hg
    simp only [List.mem_cons, List.not_mem_nil, or_false] at hIn
    rcases hIn with rfl | rfl | rfl <;> simp [hSuggestions remedy hRemedy]

include h in
theorem isInert_passFragments : ∀ g ∈ passFragments f, g.IsInert := by
  have hMessage := h f.message (by simp [Finding.shown])
  simp [passFragments, hMessage]

theorem isInert_intersperse {sep : Fragment} {fragments : List Fragment} (hSep : sep.IsInert)
    (hAll : ∀ g ∈ fragments, g.IsInert) : ∀ g ∈ fragments.intersperse sep, g.IsInert := by
  induction fragments with
  | nil => simp
  | cons first rest ih =>
      obtain ⟨hFirst, hRest⟩ := List.forall_mem_cons.mp hAll
      cases rest with
      | nil => simpa using hFirst
      | cons second rest =>
          rw [List.intersperse_cons_cons, List.forall_mem_cons, List.forall_mem_cons]
          exact ⟨hFirst, hSep, ih hRest⟩

/-- Counts are shown in digits and fixed words. -/
theorem isInert_countFragments (t : Tally) : ∀ g ∈ countFragments t, g.IsInert := by
  have hListed : ∀ counts : List Fragment, (∀ g ∈ counts, g.IsInert) →
      ∀ g ∈ (if counts.isEmpty then [Fragment.styled .green "no issues"]
        else counts.intersperse (.plain ", ")), g.IsInert := by
    intro counts hCounts
    split
    · simp
    · exact isInert_intersperse (by simp) hCounts
  apply hListed
  simp only [List.forall_mem_append]
  refine ⟨⟨?_, ?_⟩, ?_⟩ <;> split <;> simp [escape_notMem_counted]

end Fragments

/-- Apart from the shown strings there are digits and fixed words only. -/
theorem isInert_fragments {r : Report} {fileName : String} (showPassed : Bool)
    (hName : '\x1b' ∉ fileName.toList) (hShown : ∀ s ∈ r.shown, '\x1b' ∉ s.toList) :
    ∀ g ∈ r.fragments fileName showPassed, g.IsInert := by
  have hFinding : ∀ f ∈ r.findings, ∀ s ∈ f.shown, '\x1b' ∉ s.toList := by
    intro f hf s hs
    exact hShown s (List.mem_flatMap.mpr ⟨f, hf, hs⟩)
  have hFailures : ∀ g ∈ r.failures.flatMap failureFragments, g.IsInert := by
    intro g hg
    obtain ⟨f, hf, hg⟩ := List.mem_flatMap.mp hg
    exact isInert_failureFragments (hFinding f (List.mem_of_mem_filter hf)) g hg
  have hPasses : ∀ g ∈ (if showPassed then
      (r.findings.filter (·.passed)).flatMap passFragments else []), g.IsInert := by
    split
    · intro g hg
      obtain ⟨f, hf, hg⟩ := List.mem_flatMap.mp hg
      exact isInert_passFragments (hFinding f (List.mem_of_mem_filter hf)) g hg
    · simp
  have hGrade : '\x1b' ∉ r.grade.label.toList := by cases r.grade <;> decide
  simp only [fragments, List.forall_mem_append]
  exact ⟨⟨⟨⟨⟨by simp [hName], hFailures⟩, hPasses⟩, by simp [hGrade]⟩,
    isInert_countFragments r.tally⟩, by simp⟩

/-- Colours only add codes: without them the coloured text is the plain one, and
the plain one has none, as long as no string that is shown has an escape
character. Whether what passed is shown makes no difference. -/
theorem strip_terminalText (r : Report) (fileName : String) (showPassed : Bool)
    (hName : '\x1b' ∉ fileName.toList) (hShown : ∀ s ∈ r.shown, '\x1b' ∉ s.toList) :
    ColorCode.strip (r.terminalText fileName true showPassed) =
        r.terminalText fileName false showPassed ∧
      '\x1b' ∉ r.terminalText fileName false showPassed := by
  have hInert := isInert_fragments showPassed hName hShown
  refine ⟨Fragment.strip_flatMap_render hInert, ?_⟩
  intro hMem
  obtain ⟨g, hg, hMem⟩ := List.mem_flatMap.mp hMem
  rw [Fragment.render_false] at hMem
  exact hInert g hg hMem

/-- Names and messages that read like the ends of codes. -/
def deceptiveReport : Report :=
  build
    [{ Finding.fail "0m" .error "[1;31m" "m" with line := some 31, origin := .external },
      .pass "1" .info ";0m"]
    .structured ⟨0, 0⟩

/-- Strings that look like the inside of a code are kept, since no escape
character comes before them. -/
theorem strip_deceptiveReport :
    ColorCode.strip (deceptiveReport.terminalText "0;1m" true true) =
        ("0;1m\n  31: error 0m (external): ✗ [1;31m\n      → m\n  ✓ ;0m\n" ++
          "\nScore: 85/100 Grade: B (1 error)\n").toList ∧
      '\x1b' ∉ deceptiveReport.terminalText "0;1m" false true := by
  have hShown : ∀ s ∈ deceptiveReport.shown, '\x1b' ∉ s.toList := by
    simp [shown, deceptiveReport, build, Finding.shown, Finding.fail, Finding.pass]
  have hStrip := strip_terminalText deceptiveReport "0;1m" true (by decide) hShown
  exact ⟨hStrip.1.trans (by decide +kernel), hStrip.2⟩

end Report

end Drydock
