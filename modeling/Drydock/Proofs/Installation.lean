import Drydock.Proofs.Block
import Drydock.Proofs.Grade
import Drydock.Proofs.JoinedItems

/-! Installations with apt-get, as the check of the instructions and the scan of
the lines see them. Where the scan finds one on a physical line, it is part of
the command that the line belongs to. The option that leaves recommended
packages out counts for the whole command in the check of the instructions and
for its own line in the scan, so the two part where a line break separates the
installation from the option. -/
namespace Drydock

namespace Command

/-- A word is found where it stands and ends, at the end of the text or before
what is no part of a word. -/
theorem beginsWord_iff {word : String} {s : Text} :
    beginsWord word s = true ↔
      ∃ rest, s = word.toList ++ rest ∧ Text.wordEnds rest = true := by
  rw [beginsWord]
  constructor
  · intro h
    split at h
    · rename_i rest hRest
      exact ⟨rest, Text.after?_eq_some_iff.mp hRest, h⟩
    · simp at h
  · rintro ⟨rest, hSplit, hEnds⟩
    rw [Text.after?_eq_some_iff.mpr hSplit]
    exact hEnds

theorem beginsWith_install : Text.BeginsWith (beginsWord "install") 'i' where
  isAlpha := by decide
  nil := by decide
  head h := by
    obtain ⟨rest, hSplit, -⟩ := beginsWord_iff.mp h
    exact (List.cons.inj hSplit).1

/-- The search for `install` is the general one, at the places that come after a
blank. -/
theorem installFollows_eq (afterBlank : Bool) (s : Text) :
    installFollows afterBlank s =
      Text.anyAfter Text.isBlank (beginsWord "install") afterBlank s := by
  induction s generalizing afterBlank with
  | nil => rw [installFollows, Text.anyAfter, beginsWith_install.nil, Bool.and_false]
  | cons c cs ih => rw [installFollows, Text.anyAfter, ih]

/-- An installation at the beginning of a text: the program, a blank, and
somewhere after a blank the subcommand. -/
theorem beginsInstall_iff {s : Text} :
    beginsInstall s = true ↔
      ∃ rest, s = "apt-get".toList ++ rest ∧ rest.head?.any Text.isBlank = true ∧
        installFollows false rest = true := by
  rw [beginsInstall]
  constructor
  · intro h
    split at h
    · rename_i rest hRest
      rw [Bool.and_eq_true] at h
      exact ⟨rest, Text.after?_eq_some_iff.mp hRest, h⟩
    · simp at h
  · rintro ⟨rest, hSplit, hBlank, hFollows⟩
    rw [Text.after?_eq_some_iff.mpr hSplit]
    dsimp only
    rw [hBlank, hFollows]
    rfl

theorem beginsWith_aptGet : Text.BeginsWith beginsInstall 'a' where
  isAlpha := by decide
  nil := by decide
  head h := by
    obtain ⟨rest, hSplit, -⟩ := beginsInstall_iff.mp h
    exact (List.cons.inj hSplit).1

theorem installs_eq (s : Text) :
    installs s = Text.anyAfter (!Text.isWord ·) beginsInstall true s :=
  Text.anyAtWordStart_eq beginsInstall false s

/-- The parts of an installation: the program, blanks or options up to the
subcommand, and what ends the subcommand. -/
theorem installs_iff {s : Text} :
    installs s = true ↔
      ∃ before options after,
        s = before ++ ("apt-get".toList ++ (options ++ ("install".toList ++ after))) ∧
        before.getLast?.all (!Text.isWord ·) = true ∧
        options.head?.any Text.isBlank = true ∧ options.getLast?.any Text.isBlank = true ∧
        Text.wordEnds after = true := by
  rw [installs, Text.anyAtWordStart_iff]
  constructor
  · rintro ⟨before, call, rfl, hBefore, hCall⟩
    obtain ⟨rest, rfl, hBlank, hFollows⟩ := beginsInstall_iff.mp hCall
    rw [installFollows_eq] at hFollows
    obtain ⟨options, word, rfl, hOk, hWord⟩ := Text.anyAfter_iff.mp hFollows
    obtain ⟨after, rfl, hEnds⟩ := beginsWord_iff.mp hWord
    refine ⟨before, options, after, rfl, hBefore, ?_, ?_, hEnds⟩
    · cases options with
      | nil => simp [Text.okAfter] at hOk
      | cons c options => exact hBlank
    · cases hLast : options.getLast? with
      | none => simp [Text.okAfter, hLast] at hOk
      | some c => simpa [Text.okAfter, hLast] using hOk
  · rintro ⟨before, options, after, rfl, hBefore, hHead, hLast, hEnds⟩
    refine ⟨before, _, rfl, hBefore, beginsInstall_iff.mpr ⟨_, rfl, ?_, ?_⟩⟩
    · cases options with
      | nil => simp at hHead
      | cons c options => exact hHead
    · rw [installFollows_eq]
      refine Text.anyAfter_iff.mpr ⟨options, _, rfl, ?_, beginsWord_iff.mpr ⟨after, rfl, hEnds⟩⟩
      cases hEnd : options.getLast? with
      | none => simp [hEnd] at hLast
      | some c => simpa [Text.okAfter, hEnd] using hLast

/-- An installation stays one inside a longer text, unless a word is lengthened:
`myapt-get` is another program, and `installer` another subcommand. -/
theorem installs_append {front s back : Text} (hFront : front.getLast?.all (!Text.isWord ·) = true)
    (hBack : Text.wordEnds back = true) (h : installs s = true) :
    installs (front ++ (s ++ back)) = true := by
  obtain ⟨before, options, after, rfl, hBefore, hHead, hLast, hEnds⟩ := installs_iff.mp h
  refine installs_iff.mpr ⟨front ++ before, options, after ++ back, by simp,
    Text.all_getLast?_append hBefore fun _ => hFront, hHead, hLast, ?_⟩
  cases after with
  | nil => exact hBack
  | cons c after => exact hEnds

/-- No installation begins in front of the first letter of apt-get. -/
theorem installs_of_append_left {front s : Text} (hFront : 'a' ∉ front)
    (h : installs (front ++ s) = true) : installs s = true := by
  rw [installs_eq] at h ⊢
  exact Text.anyAfter_mono (fun _ => rfl) (beginsWith_aptGet.anyAfter_of_append hFront h)

/-- No installation reaches into an ending that the last letter of `install` is
not in. -/
theorem installs_of_append_right {s back : Text} (hBack : 'l' ∉ back)
    (h : installs (s ++ back) = true) : installs s = true := by
  obtain ⟨before, options, after, hSplit, hBefore, hHead, hLast, hEnds⟩ := installs_iff.mp h
  have hWhole : s ++ back =
      (before ++ ("apt-get".toList ++ (options ++ "install".toList))) ++ after := by
    simpa using hSplit
  rcases List.append_eq_append_iff.mp hWhole with ⟨inside, hInside, rfl⟩ | ⟨more, rfl, rfl⟩
  · cases inside using List.reverseRecOn with
    | nil =>
        rw [List.append_nil] at hInside
        exact installs_iff.mpr
          ⟨before, options, [], by simpa using hInside.symm, hBefore, hHead, hLast, rfl⟩
    | append_singleton inside c =>
        obtain rfl : 'l' = c := by
          simpa [List.getLast?_append, List.getLast?_cons] using congrArg List.getLast? hInside
        exact absurd (by simp) hBack
  · refine installs_iff.mpr ⟨before, options, more, by simp, hBefore, hHead, hLast, ?_⟩
    cases more with
    | nil => rfl
    | cons c more => exact hEnds

/-- Blanks around a text neither make an installation nor hide one. -/
theorem installs_trim (s : Text) : installs (Text.trim s) = installs s := by
  obtain ⟨gap, trail, hGap, hTrail, hSplit⟩ := Text.exists_trim_append s
  have hLetter : ∀ {blanks : Text} {c : Char}, (∀ c ∈ blanks, Text.isBlank c = true) →
      c.isAlpha = true → c ∉ blanks := by
    intro blanks c hBlanks hc hMem
    have hBlank := hBlanks c hMem
    simp [Text.isBlank_of_isAlpha hc] at hBlank
  rw [Bool.eq_iff_iff]
  constructor
  · intro h
    rw [hSplit]
    refine installs_append (Text.all_not_isWord_of_blank ?_) (Text.all_not_isWord_of_blank ?_) h
    · exact (Option.all_eq_true _ _).mpr fun c hc => hGap c (List.mem_of_getLast? hc)
    · exact (Option.all_eq_true _ _).mpr fun c hc => hTrail c (List.mem_of_head? hc)
  · intro h
    rw [hSplit] at h
    exact installs_of_append_right (hLetter hTrail (by decide))
      (installs_of_append_left (hLetter hGap (by decide)) h)

theorem ne_nil {s : Text} (h : installs s = true) : s ≠ [] := by
  rintro rfl
  exact absurd h (by decide)

theorem infix_of_installs {s : Text} (h : installs s = true) : "apt-get".toList <:+: s := by
  obtain ⟨before, options, after, rfl, -⟩ := installs_iff.mp h
  exact ⟨before, _, List.append_assoc ..⟩

def optOut : Text :=
  "--no-install-recommends".toList

/-- Recommended packages come along exactly when the text installs and the
option is nowhere in it. It need not belong to the same call. -/
theorem installsRecommended_iff {s : Text} :
    installsRecommended s = true ↔ installs s = true ∧ ¬ optOut <:+: s := by
  rw [installsRecommended, Bool.and_eq_true, Bool.not_eq_true', ← Bool.not_eq_true,
    Text.occursIn_iff]
  rfl

theorem isBlank_optOut : ∀ c ∈ optOut, Text.isBlank c = false := by
  have hAll : optOut.all (!Text.isBlank ·) = true := by decide
  intro c hc
  simpa using List.all_eq_true.mp hAll c hc

/-- Blanks around a text make no difference to what it is found to install, as
the option has none. -/
theorem installsRecommended_trim (s : Text) :
    installsRecommended (Text.trim s) = installsRecommended s := by
  rw [Bool.eq_iff_iff, installsRecommended_iff, installsRecommended_iff, installs_trim,
    Text.infix_trim_iff isBlank_optOut]

/-- Inside a string, an installation is not lost with the escapes: the program,
the blank after it and the subcommand are plain characters. -/
theorem beginsInstall_of_inside {raw value : Text} (h : ExecForm.Inside raw value)
    (hRaw : beginsInstall raw = true) : beginsInstall value = true := by
  obtain ⟨rest, rfl, hBlank, hFollows⟩ := beginsInstall_iff.mp hRaw
  obtain ⟨tail, rfl, hTail⟩ := h.exists_of_append (by decide)
  refine beginsInstall_iff.mpr ⟨tail, rfl, hTail.isBlank_head? hBlank, ?_⟩
  rw [installFollows_eq] at hFollows ⊢
  refine hTail.anyAfter beginsWith_install rfl ?_ (by decide) ?_ id hFollows
  · intro raw value h hRaw
    obtain ⟨rest, rfl, hEnds⟩ := beginsWord_iff.mp hRaw
    obtain ⟨tail, rfl, hTail⟩ := h.exists_of_append (by decide)
    exact beginsWord_iff.mpr ⟨tail, rfl, hTail.wordEnds hEnds⟩
  · intro c hc
    exact Text.isBlank_of_isAlpha hc

/-- A list of strings whose text installs is a command that does. The converse
fails, since the program and the subcommand may be strings of their own. -/
theorem installs_join_of_isList {s : Text} {items : List Text} (h : ExecForm.IsList s items)
    (hInstalls : installs s = true) : installs (Text.join [' '] items) = true := by
  rw [installs_eq] at hInstalls ⊢
  cases h with
  | empty hRest =>
      have hMem := beginsWith_aptGet.mem_of_anyAfter hInstalls
      simp [hRest.not_mem_of_isAlpha beginsWith_aptGet.isAlpha] at hMem
  | items hRest =>
      obtain ⟨gap, raw, rfl, hGap, hInside⟩ := hRest.exists_inside
      have hFront : 'a' ∉ '[' :: (gap ++ ['"']) := by
        simp [ExecForm.not_mem_of_isAlpha hGap beginsWith_aptGet.isAlpha]
      have hSplit : '[' :: (gap ++ '"' :: raw) = '[' :: (gap ++ ['"']) ++ raw := by simp
      rw [hSplit] at hInstalls
      have hRaw := beginsWith_aptGet.anyAfter_of_append hFront hInstalls
      refine hInside.anyAfter beginsWith_aptGet rfl beginsInstall_of_inside (by decide) ?_
        (fun _ => rfl) hRaw
      intro c hc
      simp [Text.isWord_of_isAlpha hc]

/-- A word of a command written as a list of strings stands in the list. -/
theorem infix_of_infix_join {s word : Text} {items : List Text} (h : ExecForm.IsList s items)
    (hWord : word.all ExecForm.isPlain = true) (hNe : word ≠ [])
    (hIn : word <:+: Text.join [' '] items) : word <:+: s := by
  cases h with
  | empty => exact absurd (List.eq_nil_of_infix_nil hIn) hNe
  | items hRest =>
      obtain ⟨gap, raw, rfl, -, hInside⟩ := hRest.exists_inside
      have hRaw := hInside.isInfix_raw hWord hNe hIn
      exact List.infix_cons (List.infix_append_of_infix_right (List.infix_cons hRaw))

end Command

namespace LogicalLine

/-- A physical line that installs is part of a logical line that does. -/
theorem installs_content {lines : List Text} {physical : Text} (hMem : physical ∈ block lines)
    (hComment : isComment physical = false) (h : Command.installs physical = true) :
    Command.installs (Text.trim (gathered lines)) = true := by
  obtain ⟨front, back, hGathered, hFront, hBack⟩ := exists_gathered_eq hMem hComment
  have hKept : Command.installs (kept physical) = true := by
    have hEnd : Command.installs (Text.trimEnd physical) = true := by
      rwa [← Command.installs_trim, Text.trim_trimEnd, Command.installs_trim]
    cases hPart : continued? physical with
    | none => rwa [kept_of_ended hPart]
    | some part =>
        rw [(kept_of_continued hPart).2] at hEnd
        exact Command.installs_of_append_right (by decide) hEnd
  rw [Command.installs_trim, hGathered]
  exact Command.installs_append (Text.all_not_isWord_of_blank hFront)
    (Text.all_not_isWord_of_blank hBack) hKept

end LogicalLine

namespace Instruction

theorem not_mem_of_upper_eq_run {word : Text} (h : Text.upper word = "RUN".toList) :
    'a' ∉ word := by
  intro hMem
  have hUpper : 'A' ∈ Text.upper word := List.mem_map.mpr ⟨'a', hMem, rfl⟩
  rw [h] at hUpper
  exact absurd hUpper (by decide)

theorem argumentsOf_run (args : Text) :
    argumentsOf "RUN".toList args = .ofCommand args := by
  have hTakes : ¬ takesAssignments "RUN".toList args = true := by simp [takesAssignments]
  have hExec : takesExecForm "RUN".toList = true := by decide
  exact (if_neg hTakes).trans (if_pos hExec)

/-- The command of a RUN is the text after the keyword, or the items of the list
that it is. -/
theorem value_of_run {l : LogicalLine} {i : Instruction} (h : ofLine l = .ok i)
    (hRun : i.is "RUN" = true) :
    ∃ word rest, l.content = word ++ rest ∧ 'a' ∉ word ∧
      (i.value = Text.trim rest ∨
        ∃ items, ExecForm.IsList (Text.trim rest) items ∧ i.value = Text.join [' '] items) := by
  obtain ⟨word, rest, hContent, -, -, -, rfl⟩ := ofLine_eq_ok_iff.mp h
  have hName : Text.upper word = "RUN".toList := upper_eq_of_is rfl hRun
  refine ⟨word, rest, hContent, not_mem_of_upper_eq_run hName, ?_⟩
  rw [value, hName]
  dsimp only
  rw [argumentsOf_run, Arguments.ofCommand, Text.trim_trim]
  cases hItems : ExecForm.items? (Text.trim rest) with
  | none => exact .inl rfl
  | some items => exact .inr ⟨items, ExecForm.items?_eq_some_iff.mp hItems, rfl⟩

/-- A RUN on a line that installs has a command that does, in either form of the
command. -/
theorem installs_value {l : LogicalLine} {i : Instruction} (h : ofLine l = .ok i)
    (hRun : i.is "RUN" = true) (hInstalls : Command.installs l.content = true) :
    Command.installs i.value = true := by
  obtain ⟨word, rest, hContent, hWord, hValue⟩ := value_of_run h hRun
  rw [hContent] at hInstalls
  have hRest : Command.installs (Text.trim rest) = true := by
    rw [Command.installs_trim]
    exact Command.installs_of_append_left hWord hInstalls
  rcases hValue with hText | ⟨items, hList, hItems⟩
  · rwa [hText]
  · rw [hItems]
    exact Command.installs_join_of_isList hList hRest

/-- An option of the command of a RUN stands on its line. -/
theorem infix_content_of_infix_value {l : LogicalLine} {i : Instruction} {word : Text}
    (h : ofLine l = .ok i) (hRun : i.is "RUN" = true)
    (hPlain : word.all ExecForm.isPlain = true) (hNe : word ≠ []) (hIn : word <:+: i.value) :
    word <:+: l.content := by
  obtain ⟨keyword, rest, hContent, -, hValue⟩ := value_of_run h hRun
  have hRest : word <:+: Text.trim rest := by
    rcases hValue with hText | ⟨items, hList, hItems⟩
    · rwa [hText] at hIn
    · rw [hItems] at hIn
      exact Command.infix_of_infix_join hList hPlain hNe hIn
  have hTrim := Text.trim_infix rest
  rw [hContent]
  exact List.infix_append_of_infix_right (hRest.trans hTrim)

def commandLines (i : Instruction) : List Text :=
  (Text.splitAt '\n' i.source).filter (!LogicalLine.isComment ·)

/-- Whether a line of the instruction installs recommended packages while
another has the option that leaves them out. -/
def separatesOption (i : Instruction) : Bool :=
  i.commandLines.any Command.installsRecommended &&
    i.commandLines.any (Text.occursIn Command.optOut)

/-- What trimming does not change can be told of a line from its form in the
source, where lines lose the blanks at the end. Comments are left out on both
sides. -/
theorem any_commandLines_iff {i : Instruction} {lines : List Text} {p : Text → Bool}
    (hSource : i.source = Text.trimEnd (LogicalLine.sourceOf lines))
    (hFeed : ∀ line ∈ lines, '\n' ∉ line) (hTrim : ∀ s, p (Text.trim s) = p s)
    (hNil : p [] = false) :
    i.commandLines.any p = true ↔
      ∃ physical ∈ lines, LogicalLine.isComment physical = false ∧ p physical = true := by
  have hCongr : ∀ {s t : Text}, Text.trim s = Text.trim t → p s = true → p t = true := by
    intro s t hEq hs
    rwa [← hTrim, ← hEq, hTrim]
  have hNe : ∀ {s : Text}, p s = true → Text.trim s ≠ [] := by
    intro s hs hEmpty
    rw [← hTrim, hEmpty, hNil] at hs
    exact absurd hs (by simp)
  rw [commandLines, hSource, List.any_filter, List.any_eq_true]
  constructor
  · rintro ⟨line, hLine, hp⟩
    rw [Bool.and_eq_true, Bool.not_eq_true'] at hp
    obtain ⟨physical, hMem, hEq⟩ :=
      LogicalLine.exists_mem_of_mem_splitAt hFeed hLine (hNe hp.2)
    exact ⟨physical, hMem, LogicalLine.isComment_congr hEq ▸ hp.1, hCongr hEq hp.2⟩
  · rintro ⟨physical, hMem, hComment, hp⟩
    obtain ⟨line, hLine, hEq⟩ := LogicalLine.exists_mem_splitAt hFeed hMem (hNe hp)
    refine ⟨line, hLine, ?_⟩
    rw [LogicalLine.isComment_congr hEq, hComment, hCongr hEq.symm hp]
    rfl

/-- An instruction with a line that installs mentions apt-get in its source. -/
theorem infix_source_of_installs {i : Instruction} {lines : List Text} {physical : Text}
    (hSource : i.source = Text.trimEnd (LogicalLine.sourceOf lines))
    (hFeed : ∀ line ∈ lines, '\n' ∉ line) (hMem : physical ∈ lines)
    (hComment : LogicalLine.isComment physical = false)
    (hInstalls : Command.installs physical = true) : "apt-get".toList <:+: i.source := by
  have hAny : i.commandLines.any Command.installs = true :=
    (any_commandLines_iff hSource hFeed Command.installs_trim rfl).mpr
      ⟨physical, hMem, hComment, hInstalls⟩
  obtain ⟨line, hLine, hCall⟩ := List.any_eq_true.mp hAny
  have hPiece := Text.infix_of_mem_splitAt (List.mem_filter.mp hLine).1
  exact (Command.infix_of_installs hCall).trans hPiece

end Instruction

namespace LineScan

/-- A line is found to install recommended packages if it does and is no
comment. -/
theorem exists_mem_scanLine_iff {n : Nat} {line : Text} :
    (∃ f ∈ scanLine n line, f.rule = "no-install-recommends" ∧ f.passed = false) ↔
      LogicalLine.isComment line = false ∧ Command.installsRecommended line = true := by
  have hHead : LogicalLine.isComment line = decide ((Text.trim line).head? = some '#') := by
    rw [LogicalLine.isComment, Text.head?_trim]
  rw [hHead, ← Command.installsRecommended_trim, scanLine]
  constructor
  · rintro ⟨f, hMem, hRule, -⟩
    split at hMem
    · simp at hMem
    · rename_i hActive
      rw [Bool.or_eq_true, not_or] at hActive
      refine ⟨by simpa using hActive.2, ?_⟩
      rw [List.mem_append, List.mem_append, List.mem_append] at hMem
      rcases hMem with ((hMem | hMem) | hMem) | hMem
      · simp [rule_of_mem_latestImage hMem] at hRule
      · simp [rule_of_mem_hardcodedSecret hMem] at hRule
      · simp [rule_of_mem_rootUser hMem] at hRule
      · rw [recommendedPackages] at hMem
        split at hMem
        · assumption
        · simp at hMem
  · rintro ⟨hComment, hInstalls⟩
    have hNe : Text.trim line ≠ [] := by
      intro hNil
      rw [hNil] at hInstalls
      exact absurd hInstalls (by decide)
    have hFound : ∃ f ∈ recommendedPackages n (Text.trim line),
        f.rule = "no-install-recommends" ∧ f.passed = false := by
      rw [recommendedPackages, if_pos hInstalls]
      exact ⟨_, List.mem_singleton_self _, rfl, rfl⟩
    obtain ⟨f, hMem, hFailed⟩ := hFound
    rw [if_neg (by simp [hNe, hComment])]
    exact ⟨f, List.mem_append_right _ hMem, hFailed⟩

/-- The scan of a file reports the lines that install recommended packages and
no others. -/
theorem exists_mem_scan_iff {content : Text} (features : Features) :
    (∃ f ∈ scan features content, f.rule = "no-install-recommends" ∧ f.passed = false) ↔
      ∃ line ∈ Text.lines content, LogicalLine.isComment line = false ∧
        Command.installsRecommended line = true := by
  constructor
  · rintro ⟨f, hMem, hRule, hFailed⟩
    rcases List.mem_append.mp hMem with hLine | hFeature
    · obtain ⟨n, line, hLine, hFound⟩ := exists_of_mem_scanFrom hLine
      exact ⟨line, hLine, exists_mem_scanLine_iff.mp ⟨f, hFound, hRule, hFailed⟩⟩
    · simp [passed_of_mem_featureFindings hFeature] at hFailed
  · rintro ⟨line, hLine, hInstalls⟩
    obtain ⟨before, rest, hLines⟩ := List.append_of_mem hLine
    obtain ⟨f, hFound, hFailed⟩ := exists_mem_scanLine_iff.mpr hInstalls
    exact ⟨f, mem_scan features hLines hFound, hFailed⟩

end LineScan

/-- The option is part of every command that installs, in a file which keeps the
rule. -/
theorem Rule.infix_value_of_holds {instructions : List Instruction} {i : Instruction}
    (hHolds : Rule.noInstallRecommends.holds instructions = true) (hMem : i ∈ instructions)
    (hRun : i.is "RUN" = true) (hInstalls : Command.installs i.value = true) :
    Command.optOut <:+: i.value := by
  by_contra hNone
  have hAny : (named "RUN" instructions).any
      (fun i => Command.installsRecommended i.value) = true :=
    List.any_eq_true.mpr ⟨i, List.mem_filter.mpr ⟨hMem, hRun⟩,
      Command.installsRecommended_iff.mpr ⟨hInstalls, hNone⟩⟩
  simp [Rule.noInstallRecommends, hAny] at hHolds

/-- The lines of an instruction show both that it installs and that it has the
option. -/
theorem Instruction.separatesOption_iff {i : Instruction} {lines : List Text}
    (hSource : i.source = Text.trimEnd (LogicalLine.sourceOf lines))
    (hFeed : ∀ line ∈ lines, '\n' ∉ line) :
    i.separatesOption = true ↔
      (∃ physical ∈ lines, LogicalLine.isComment physical = false ∧
        Command.installsRecommended physical = true) ∧
      ∃ physical ∈ lines, LogicalLine.isComment physical = false ∧
        Text.occursIn Command.optOut physical = true := by
  rw [separatesOption, Bool.and_eq_true,
    any_commandLines_iff hSource hFeed Command.installsRecommended_trim rfl,
    any_commandLines_iff hSource hFeed (Text.occursIn_trim Command.isBlank_optOut) rfl]

/-- A line that the scan reports belongs to a RUN which has the option on
another line. -/
theorem Instruction.exists_separatesOption {content : Text} {instructions : List Instruction}
    (hParse : parse content = .ok instructions)
    (hHolds : Rule.noInstallRecommends.holds instructions = true)
    (hOther : ∀ i ∈ instructions, i.is "RUN" = false →
      Text.occursIn "apt-get".toList i.source = false)
    {physical : Text} (hMem : physical ∈ Text.lines content)
    (hComment : LogicalLine.isComment physical = false)
    (hInstalls : Command.installsRecommended physical = true) :
    ∃ i ∈ instructions, i.is "RUN" = true ∧ i.separatesOption = true := by
  have hInstall := (Command.installsRecommended_iff.mp hInstalls).1
  obtain ⟨before, rest, hLines⟩ := List.append_of_mem hMem
  obtain ⟨start, first, more, hSplit, hClosed, hFirst, hBlock⟩ :=
    LogicalLine.exists_mem_block before rest hComment
  rw [hSplit] at hLines
  have hGathered := LogicalLine.installs_content hBlock hComment hInstall
  obtain ⟨l, i, hi, hRead, hContent, hSource⟩ :=
    exists_instruction_of_gathered hParse hLines hClosed hFirst (Command.ne_nil hGathered)
  have hFeed : ∀ line ∈ LogicalLine.block (first :: more), '\n' ∉ line := fun line hLine =>
    Text.not_mem_of_mem_lines (LogicalLine.mem_lines_of_mem_block hLines hLine)
  have hRun : i.is "RUN" = true := by
    by_contra hNot
    have hNone := hOther i hi (by simpa using hNot)
    rw [← Bool.not_eq_true, Text.occursIn_iff] at hNone
    exact hNone (infix_source_of_installs hSource hFeed hBlock hComment hInstall)
  -- the option is in the command, and so on one of the lines that the command was joined from
  have hValue : Command.optOut <:+: i.value := by
    apply Rule.infix_value_of_holds hHolds hi hRun
    exact installs_value hRead hRun (by rwa [hContent])
  have hOption : Command.optOut <:+: LogicalLine.gathered (first :: more) := by
    have hIn := infix_content_of_infix_value hRead hRun (by decide) (by decide) hValue
    rwa [hContent, Text.infix_trim_iff Command.isBlank_optOut] at hIn
  obtain ⟨other, hOtherMem, hOtherComment, hKept⟩ :=
    LogicalLine.exists_mem_block_of_infix (by decide) Command.isBlank_optOut hOption
  have hShows : Text.occursIn Command.optOut other = true :=
    Text.occursIn_iff.mpr (hKept.trans (LogicalLine.isPrefix_kept other).isInfix)
  exact ⟨i, hi, hRun, (separatesOption_iff hSource hFeed).mpr
    ⟨⟨physical, hBlock, hComment, hInstalls⟩, other, hOtherMem, hOtherComment, hShows⟩⟩

/-- In a file that keeps the rule, and has apt-get in no instruction but RUN,
the scan reports recommended packages exactly where a line break separates an
installation from the option that leaves them out. -/
theorem scan_recommends_iff_separatesOption {content : Text} {instructions : List Instruction}
    (hParse : parse content = .ok instructions)
    (hPassed : (Rule.noInstallRecommends.evaluate instructions).passed = true)
    (hOther : ∀ i ∈ instructions, i.is "RUN" = false →
      Text.occursIn "apt-get".toList i.source = false) :
    (∃ f ∈ LineScan.scan (BuildKit.detect content) content,
      f.rule = "no-install-recommends" ∧ f.passed = false) ↔
    ∃ i ∈ instructions, i.is "RUN" = true ∧ i.separatesOption = true := by
  rw [LineScan.exists_mem_scan_iff]
  constructor
  · rintro ⟨physical, hMem, hComment, hInstalls⟩
    rw [Rule.passed_evaluate] at hPassed
    exact Instruction.exists_separatesOption hParse hPassed hOther hMem hComment hInstalls
  · rintro ⟨i, hi, -, hSeparates⟩
    obtain ⟨l, before, first, more, hLines, -, -, -, -, hSource⟩ :=
      exists_block_of_instruction hParse hi
    have hFeed : ∀ line ∈ LogicalLine.block (first :: more), '\n' ∉ line := fun line hLine =>
      Text.not_mem_of_mem_lines (LogicalLine.mem_lines_of_mem_block hLines hLine)
    obtain ⟨⟨physical, hBlock, hPhysical⟩, -⟩ :=
      (Instruction.separatesOption_iff hSource hFeed).mp hSeparates
    exact ⟨physical, LogicalLine.mem_lines_of_mem_block hLines hBlock, hPhysical⟩

/-- A command in list form, with a comment on an installation that lacks the
option. -/
def listedRun : Text :=
  "RUN [\"sh\", \"-c\", \\\n# apt-get install b\n".toList ++
    " \"apt-get install --no-install-recommends b\"]".toList

def listedFile : Text :=
  "FROM a:1\n".toList ++ listedRun

def listedInstructions : List Instruction :=
  [⟨"FROM".toList, .text "a:1".toList, 1, "FROM a:1".toList⟩,
    ⟨"RUN".toList,
      .list (["sh", "-c", "apt-get install --no-install-recommends b"].map String.toList),
      2, listedRun⟩]

set_option maxRecDepth 8000 in
/-- A file with the installation and its option in one list of strings, for
which the two agree. -/
theorem not_scan_recommends_listedFile :
    parse listedFile = .ok listedInstructions ∧
    (Rule.noInstallRecommends.evaluate listedInstructions).passed = true ∧
    ¬ ∃ f ∈ LineScan.scan (BuildKit.detect listedFile) listedFile,
      f.rule = "no-install-recommends" ∧ f.passed = false := by
  have hParse : parse listedFile = .ok listedInstructions := by decide +kernel
  have hPassed : (Rule.noInstallRecommends.evaluate listedInstructions).passed = true := by
    decide
  refine ⟨hParse, hPassed, ?_⟩
  rw [scan_recommends_iff_separatesOption hParse hPassed (by decide)]
  decide

/-- A file whose only installation has the option on its next line. -/
def brokenFile : Text :=
  "FROM a:1\nRUN apt-get install \\\n  --no-install-recommends b\n".toList

set_option maxRecDepth 8000 in
/-- The scan reports that file although it keeps the rule. -/
theorem scan_recommends_brokenFile :
    ∃ instructions, parse brokenFile = .ok instructions ∧
      (Rule.noInstallRecommends.evaluate instructions).passed = true ∧
      (∀ i ∈ instructions, i.is "RUN" = false →
        Text.occursIn "apt-get".toList i.source = false) ∧
      ∃ f ∈ LineScan.scan (BuildKit.detect brokenFile) brokenFile,
        f.rule = "no-install-recommends" ∧ f.passed = false := by
  refine ⟨[⟨"FROM".toList, .text "a:1".toList, 1, "FROM a:1".toList⟩,
    ⟨"RUN".toList, .text "apt-get install    --no-install-recommends b".toList, 2,
      "RUN apt-get install \\\n  --no-install-recommends b".toList⟩], ?_, ?_, ?_, ?_⟩
  · decide +kernel
  · decide
  · decide
  · decide

end Drydock
