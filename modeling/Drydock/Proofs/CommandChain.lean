import Drydock.Proofs.Installation

/-! Installations in chains of commands. The check looks at a chain as one text
and does not see where a command ends. So a call of apt-get goes on into later
commands until the word `install` comes up there, and the option that leaves
recommended packages out counts for every command of the chain. Apart from these
two, a chain is reported where one of its commands is. -/
namespace Drydock

namespace Text

/-- A word that shares no character with what divides two texts stands in one of
them. Nothing is said about the word otherwise, and it may occur in both. -/
theorem append_eq_append_of_disjoint {word sep s t before rest : Text} (hWord : word ≠ [])
    (hSep : sep ≠ []) (hDisjoint : List.Disjoint word sep)
    (h : s ++ (sep ++ t) = before ++ (word ++ rest)) :
    (∃ more, s = before ++ (word ++ more) ∧ rest = more ++ (sep ++ t)) ∨
      ∃ more, before = s ++ (sep ++ more) ∧ t = more ++ (word ++ rest) := by
  -- where the two meet, their first characters would have to be the same
  have hHead : ∀ {u v x y : Text}, u ≠ [] → v ≠ [] → u ++ x = v ++ y → ∃ c, c ∈ u ∧ c ∈ v := by
    intro u v x y hu hv hEq
    obtain ⟨c, u, rfl⟩ := List.exists_cons_of_ne_nil hu
    obtain ⟨d, v, rfl⟩ := List.exists_cons_of_ne_nil hv
    obtain ⟨rfl, -⟩ := List.cons.inj hEq
    exact ⟨c, by simp, by simp⟩
  rcases List.append_eq_append_iff.mp h with ⟨piece, rfl, hRest⟩ | ⟨piece, rfl, hRest⟩
  · rcases List.append_eq_append_iff.mp hRest with ⟨more, rfl, rfl⟩ | ⟨more, rfl, hMeet⟩
    · exact .inr ⟨more, rfl, rfl⟩
    · by_cases hMore : more = []
      · subst hMore
        exact .inr ⟨[], by simp, hMeet.symm⟩
      · obtain ⟨c, hc, hcMore⟩ := hHead hWord hMore hMeet
        exact absurd (List.mem_append_right piece hcMore) (hDisjoint hc)
  · rcases List.append_eq_append_iff.mp hRest with ⟨more, rfl, rfl⟩ | ⟨more, rfl, hMeet⟩
    · exact .inl ⟨more, rfl, rfl⟩
    · by_cases hMore : more = []
      · subst hMore
        exact .inl ⟨[], by simp, hMeet.symm⟩
      · obtain ⟨c, hc, hcMore⟩ := hHead hSep hMore hMeet
        exact absurd hc (hDisjoint (List.mem_append_right piece hcMore))

/-- So it occurs in the whole exactly when it occurs in one of the two. -/
theorem infix_append_iff_of_disjoint {word sep s t : Text} (hWord : word ≠ []) (hSep : sep ≠ [])
    (hDisjoint : List.Disjoint word sep) :
    word <:+: s ++ (sep ++ t) ↔ word <:+: s ∨ word <:+: t := by
  constructor
  · rintro ⟨before, rest, h⟩
    rw [List.append_assoc] at h
    rcases append_eq_append_of_disjoint hWord hSep hDisjoint h.symm with
      ⟨more, rfl, -⟩ | ⟨more, -, rfl⟩
    · exact .inl ⟨before, more, by simp⟩
    · exact .inr ⟨more, rest, by simp⟩
  · rintro (hLeft | hRight)
    · exact List.infix_append_of_infix_left hLeft
    · exact List.infix_append_of_infix_right (List.infix_append_of_infix_right hRight)

end Text

namespace Command

/-- What stands between the commands of a chain. -/
def andThen : Text :=
  " && ".toList

/-- Commands of which each runs if the one before it succeeds. -/
def chain (commands : List Text) : Text :=
  Text.join andThen commands

/-- The command calls apt-get, with or without anything after it. -/
def CallsAptGet (command : Text) : Prop :=
  ∃ before rest, command = before ++ ("apt-get".toList ++ rest) ∧
    before.getLast?.all (!Text.isWord ·) = true ∧ rest.head?.all Text.isBlank = true

theorem disjoint_andThen {word : Text} (h : word.all (fun c => !(andThen.contains c)) = true) :
    List.Disjoint word andThen := by
  intro c hWord hSep
  have hOther := List.all_eq_true.mp h c hWord
  simp [hSep] at hOther

/-- The word `install` begins the text or comes after a blank. -/
theorem installFollows_iff {s : Text} :
    installFollows true s = true ↔
      ∃ before after, s = before ++ ("install".toList ++ after) ∧
        before.getLast?.all Text.isBlank = true ∧ Text.wordEnds after = true := by
  rw [installFollows_eq, Text.anyAfter_iff]
  have hOk : ∀ before : Text, Text.okAfter Text.isBlank true before =
      before.getLast?.all Text.isBlank := by
    intro before
    cases hLast : before.getLast? with
    | none => simp [Text.okAfter, hLast]
    | some c => simp [Text.okAfter, hLast]
  constructor
  · rintro ⟨before, word, rfl, hBefore, hWord⟩
    obtain ⟨after, rfl, hEnds⟩ := beginsWord_iff.mp hWord
    exact ⟨before, after, rfl, (hOk before).symm.trans hBefore, hEnds⟩
  · rintro ⟨before, after, rfl, hBefore, hEnds⟩
    exact ⟨before, _, rfl, (hOk before).trans hBefore, beginsWord_iff.mpr ⟨after, rfl, hEnds⟩⟩

/-- The end of a word does not depend on what comes after a blank behind it. -/
theorem wordEnds_of_append {s t : Text} (h : Text.wordEnds (s ++ (andThen ++ t)) = true) :
    Text.wordEnds s = true := by
  cases s with
  | nil => rfl
  | cons c s => exact h

theorem wordEnds_append_andThen {s : Text} (h : Text.wordEnds s = true) (t : Text) :
    Text.wordEnds (s ++ (andThen ++ t)) = true := by
  cases s with
  | nil => exact Text.all_not_isWord_of_blank Text.isBlank_space
  | cons c s => exact h

/-- What comes after the divider of two commands has no character of the first
before it. -/
theorem getLast?_append_andThen {ok : Char → Bool} (s t : Text) (hSpace : ok ' ' = true) :
    (s ++ (andThen ++ t)).getLast?.all ok = t.getLast?.all ok := by
  have hLast : andThen.getLast? = some ' ' := by decide
  cases ht : t.getLast? with
  | none => simp [List.getLast?_append, ht, hLast, hSpace]
  | some c => simp [List.getLast?_append, ht]

/-- The word `install` stands in two commands when it stands in one of them. -/
theorem installFollows_append_iff {s t : Text} :
    installFollows true (s ++ (andThen ++ t)) = true ↔
      installFollows true s = true ∨ installFollows true t = true := by
  rw [installFollows_iff, installFollows_iff, installFollows_iff]
  constructor
  · rintro ⟨before, after, h, hBefore, hEnds⟩
    rcases Text.append_eq_append_of_disjoint (by decide) (by decide)
      (disjoint_andThen (by decide)) h with ⟨more, rfl, rfl⟩ | ⟨more, rfl, rfl⟩
    · exact .inl ⟨before, more, rfl, hBefore, wordEnds_of_append hEnds⟩
    · rw [getLast?_append_andThen s more Text.isBlank_space] at hBefore
      exact .inr ⟨more, after, rfl, hBefore, hEnds⟩
  · rintro (⟨before, after, rfl, hBefore, hEnds⟩ | ⟨before, after, rfl, hBefore, hEnds⟩)
    · exact ⟨before, after ++ (andThen ++ t), by simp, hBefore, wordEnds_append_andThen hEnds t⟩
    · exact ⟨s ++ (andThen ++ before), after, by simp,
        (getLast?_append_andThen s before Text.isBlank_space).trans hBefore, hEnds⟩

/-- An installation in two commands is one of either, or it begins in the first
and ends in the second. -/
theorem installs_append_iff {s t : Text} :
    installs (s ++ (andThen ++ t)) = true ↔
      installs s = true ∨ installs t = true ∨
        (CallsAptGet s ∧ installFollows true t = true) := by
  have hSpace : (!Text.isWord ' ') = true := by decide
  constructor
  · intro h
    obtain ⟨before, options, after, hSplit, hBefore, hHead, hLast, hEnds⟩ := installs_iff.mp h
    rcases Text.append_eq_append_of_disjoint (by decide) (by decide)
      (disjoint_andThen (by decide)) hSplit with ⟨more, rfl, hOptions⟩ | ⟨more, rfl, rfl⟩
    · rcases Text.append_eq_append_of_disjoint (by decide) (by decide)
        (disjoint_andThen (by decide)) hOptions.symm with ⟨inner, rfl, rfl⟩ | ⟨inner, rfl, rfl⟩
      · exact .inl (installs_iff.mpr
          ⟨before, options, inner, rfl, hBefore, hHead, hLast, wordEnds_of_append hEnds⟩)
      · refine .inr (.inr ⟨⟨before, more, rfl, hBefore, ?_⟩,
          installFollows_iff.mpr ⟨inner, after, rfl, ?_, hEnds⟩⟩)
        · cases more with
          | nil => rfl
          | cons c more => exact hHead
        · rw [← getLast?_append_andThen more inner Text.isBlank_space]
          cases hEnd : (more ++ (andThen ++ inner)).getLast? with
          | none => rfl
          | some c => simpa [hEnd] using hLast
    · rw [getLast?_append_andThen s more hSpace] at hBefore
      exact .inr (.inl (installs_iff.mpr
        ⟨more, options, after, rfl, hBefore, hHead, hLast, hEnds⟩))
  · rintro (hFirst | hSecond | ⟨⟨before, rest, rfl, hBefore, hRest⟩, hWord⟩)
    · have hBack : Text.wordEnds ([] ++ (andThen ++ t)) = true := wordEnds_append_andThen rfl t
      have hWhole : installs ([] ++ (s ++ (andThen ++ t))) = true :=
        installs_append rfl hBack hFirst
      exact hWhole
    · have hFront : (s ++ andThen).getLast?.all (!Text.isWord ·) = true := by
        simpa using (getLast?_append_andThen s [] hSpace).trans rfl
      have hWhole : installs (s ++ andThen ++ (t ++ [])) = true :=
        installs_append hFront rfl hSecond
      simpa using hWhole
    · obtain ⟨before', after, rfl, hBefore', hEnds⟩ := installFollows_iff.mp hWord
      refine installs_iff.mpr
        ⟨before, rest ++ (andThen ++ before'), after, by simp, hBefore, ?_, ?_, hEnds⟩
      · cases rest with
        | nil => exact Text.isBlank_space
        | cons c rest => exact hRest
      · have hOptions := (getLast?_append_andThen rest before' Text.isBlank_space).trans hBefore'
        cases hEnd : (rest ++ (andThen ++ before')).getLast? with
        | none => simp [andThen] at hEnd
        | some c => simpa [hEnd] using hOptions

theorem chain_cons_cons (first second : Text) (rest : List Text) :
    chain (first :: second :: rest) = first ++ (andThen ++ chain (second :: rest)) := by
  simp [chain, Text.join]

/-- What shows in two commands exactly when it does in one of them shows in a
chain exactly when it does in one of its commands. -/
theorem chain_iff {p : Text → Prop} (hNil : ¬ p [])
    (hAppend : ∀ s t, p (s ++ (andThen ++ t)) ↔ p s ∨ p t) (commands : List Text) :
    p (chain commands) ↔ ∃ c ∈ commands, p c := by
  induction commands with
  | nil => simpa [chain, Text.join] using hNil
  | cons first rest ih =>
      cases rest with
      | nil => simp [chain, Text.join]
      | cons second rest =>
          rw [chain_cons_cons, hAppend, ih, List.exists_mem_cons_iff p first]

/-- One command calls apt-get, and a later one has the word `install` first or
after a blank. -/
def Crosses (commands : List Text) : Prop :=
  ∃ call word, [call, word].Sublist commands ∧ CallsAptGet call ∧ installFollows true word = true

/-- A call of apt-get meets the word in a later command, from the first command
or from one after it. -/
theorem crosses_cons_iff (first : Text) (rest : List Text) :
    Crosses (first :: rest) ↔
      (CallsAptGet first ∧ ∃ c ∈ rest, installFollows true c = true) ∨ Crosses rest := by
  constructor
  · rintro ⟨call, word, hSublist, hCall, hWord⟩
    rcases List.sublist_cons_iff.mp hSublist with hLater | ⟨_, hEq, hHere⟩
    · exact .inr ⟨call, word, hLater, hCall, hWord⟩
    · obtain ⟨rfl, rfl⟩ := List.cons.inj hEq
      exact .inl ⟨hCall, word, List.singleton_sublist.mp hHere, hWord⟩
  · rintro (⟨hCall, word, hMem, hWord⟩ | ⟨call, word, hSublist, hCall, hWord⟩)
    · exact ⟨first, word, (List.singleton_sublist.mpr hMem).cons_cons first, hCall, hWord⟩
    · exact ⟨call, word, hSublist.cons first, hCall, hWord⟩

/-- A chain installs if one of its commands does, or if a call of apt-get in one
meets the word `install` in a later one. The induction is on the commands; the
text of a chain is that of its first command and of a shorter chain. -/
theorem installs_chain_iff (commands : List Text) :
    installs (chain commands) = true ↔
      (∃ c ∈ commands, installs c = true) ∨ Crosses commands := by
  induction commands with
  | nil => simp [chain, Text.join, Crosses, show installs [] = false from rfl]
  | cons first rest ih =>
      cases rest with
      | nil => simp [chain, Text.join, Crosses]
      | cons second rest =>
          have hWord : installFollows true (chain (second :: rest)) = true ↔
              ∃ c ∈ second :: rest, installFollows true c = true :=
            chain_iff (p := fun s => installFollows true s = true) (by decide)
              (fun _ _ => installFollows_append_iff) _
          rw [chain_cons_cons, installs_append_iff, ih, hWord, crosses_cons_iff first,
            List.exists_mem_cons_iff (fun c => installs c = true) first, or_assoc, or_assoc,
            or_comm (a := Crosses (second :: rest))]

/-- A chain is reported when none of its commands has the option and one of them
is reported by itself or a call of apt-get meets the word `install` of a later
command. -/
theorem installsRecommended_chain_iff (commands : List Text) :
    installsRecommended (chain commands) = true ↔
      (∀ c ∈ commands, Text.occursIn optOut c = false) ∧
        ((∃ c ∈ commands, installsRecommended c = true) ∨ Crosses commands) := by
  have hOption : optOut <:+: chain commands ↔ ∃ c ∈ commands, optOut <:+: c :=
    chain_iff (by decide) (fun _ _ => Text.infix_append_iff_of_disjoint (by decide) (by decide)
      (disjoint_andThen (by decide))) commands
  have hNone : (∀ c ∈ commands, Text.occursIn optOut c = false) ↔
      ¬ ∃ c ∈ commands, optOut <:+: c := by
    simp [← Bool.not_eq_true, Text.occursIn_iff]
  rw [installsRecommended_iff, installs_chain_iff, hOption, hNone, and_comm]
  refine and_congr_right fun hFree => or_congr_left ?_
  constructor
  · rintro ⟨c, hMem, hInstalls⟩
    exact ⟨c, hMem, installsRecommended_iff.mpr ⟨hInstalls, fun hIn => hFree ⟨c, hMem, hIn⟩⟩⟩
  · rintro ⟨c, hMem, hReported⟩
    exact ⟨c, hMem, (installsRecommended_iff.mp hReported).1⟩

def crossingCommands : List Text :=
  ["apt-get update", "pip install a"].map String.toList

/-- Commands that both install with apt-get, and the first with recommended
packages. -/
def maskingCommands : List Text :=
  ["apt-get install a", "apt-get install --no-install-recommends b"].map String.toList

/-- The word of another program is taken for the one of apt-get, and the option
of one installation for the option of another. -/
theorem installsRecommended_crossing_and_masking :
    installsRecommended (chain crossingCommands) = true ∧
    crossingCommands.any installsRecommended = false ∧
    installsRecommended (chain maskingCommands) = false ∧
    maskingCommands.any installsRecommended = true := by
  decide

end Command

end Drydock
