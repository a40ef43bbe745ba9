import Drydock.Proofs.Grade

/-! The order of COPY instructions. The first that brings in the source tree or
a manifest settles the matter: a manifest is in time unless the tree comes with
it. Those that bring in neither have no say. -/
namespace Drydock

namespace Copy

/-- A path is its file name behind nothing or behind a slash. -/
theorem exists_append_fileName (path : Text) :
    ∃ front : Text, path = front ++ fileName path ∧ front.getLast?.all (· == '/') = true := by
  refine ⟨path.rdropWhile (· != '/'), (List.rdropWhile_append_rtakeWhile ..).symm, ?_⟩
  rw [List.rdropWhile, List.getLast?_reverse]
  simpa [bne] using Text.all_head?_dropWhile (· != '/') path.reverse

theorem isAlpha_of_mem_manifestNames :
    ∀ name ∈ manifestNames, name.getLast?.any Char.isAlpha = true := by
  decide

theorem isAlpha_of_suffix {tail s : Text} (hTail : tail.getLast?.any Char.isAlpha = true)
    (h : tail <:+ s) : s.getLast?.any Char.isAlpha = true := by
  obtain ⟨front, rfl⟩ := h
  rw [List.getLast?_append_of_ne_nil]
  · exact hTail
  · rintro rfl
    simp at hTail

/-- The path of a manifest ends in a letter, whichever of the three kinds of
names it has. -/
theorem isAlpha_of_isManifest {path : Text} (h : isManifest path = true) :
    path.getLast?.any Char.isAlpha = true := by
  have hName : (fileName path).getLast?.any Char.isAlpha = true := by
    rw [isManifest, Bool.or_eq_true, Bool.or_eq_true] at h
    rcases h with (hListed | hRequirements) | hProject
    · exact isAlpha_of_mem_manifestNames _ (List.contains_iff_mem.mp hListed)
    · rw [isRequirements] at hRequirements
      split at hRequirements
      · rename_i rest hRest
        rw [Bool.and_eq_true, List.isSuffixOf_iff_suffix] at hRequirements
        rw [Text.after?_eq_some_iff.mp hRest]
        exact isAlpha_of_suffix (by decide)
          (hRequirements.2.trans (List.suffix_append _ _))
      · simp at hRequirements
    · rw [isProject, Bool.and_eq_true, List.isSuffixOf_iff_suffix] at hProject
      exact isAlpha_of_suffix (by decide) hProject.1
  obtain ⟨front, hSplit, -⟩ := exists_append_fileName path
  exact isAlpha_of_suffix hName ⟨front, hSplit.symm⟩

/-- Whether a COPY brings in the source tree or a manifest. -/
def copiesTreeOrManifest (i : Instruction) : Bool :=
  copiesTree i || copiesManifest i

end Copy

namespace Rule

/-- The rule compares the places of the first COPY of the tree and of the first
COPY of a manifest. It holds exactly when the first COPY of either does not
bring in the tree, and where there is none of either. -/
theorem holds_layerCaching (instructions : List Instruction) :
    layerCaching.holds instructions =
      ((named "COPY" instructions).find? Copy.copiesTreeOrManifest).all (!Copy.copiesTree ·) := by
  show copiesManifestsFirst instructions = _
  rw [copiesManifestsFirst]
  induction named "COPY" instructions with
  | nil => rfl
  | cons c copies ih =>
      rw [List.find?_cons, Copy.copiesTreeOrManifest]
      cases hTree : Copy.copiesTree c with
      | true => simp [List.findIdx?_cons, hTree]
      | false =>
          cases hManifest : Copy.copiesManifest c with
          | true =>
              simp only [List.findIdx?_cons, hTree, hManifest]
              cases copies.findIdx? Copy.copiesTree with
              | none => simp [hTree]
              | some tree => simp [hTree]
          | false =>
              -- both places move down by one
              rw [Bool.or_false, ← ih]
              simp only [List.findIdx?_cons, hTree, hManifest]
              cases copies.findIdx? Copy.copiesTree with
              | none => rfl
              | some tree => cases copies.findIdx? Copy.copiesManifest with
                | none => rfl
                | some manifest => simp

/-- A COPY in the middle of a file decides only when none before it does, and
leaves the decision to what follows when it brings in neither. -/
theorem holds_layerCaching_append_cons (first rest : List Instruction) {i : Instruction}
    (hCopy : i.is "COPY" = true) :
    layerCaching.holds (first ++ i :: rest) =
      if (named "COPY" first).any Copy.copiesTreeOrManifest then layerCaching.holds first
      else if Copy.copiesTreeOrManifest i then !Copy.copiesTree i
      else layerCaching.holds rest := by
  have hNamed : named "COPY" (first ++ i :: rest) =
      named "COPY" first ++ i :: named "COPY" rest := by
    rw [named, List.filter_append, List.filter_cons, if_pos hCopy]
    rfl
  rw [holds_layerCaching, hNamed, List.find?_append]
  cases hFirst : (named "COPY" first).find? Copy.copiesTreeOrManifest with
  | some c =>
      have hAny : (named "COPY" first).any Copy.copiesTreeOrManifest = true :=
        List.any_eq_true.mpr ⟨c, List.mem_of_find?_eq_some hFirst, List.find?_some hFirst⟩
      rw [if_pos hAny, holds_layerCaching, hFirst, Option.some_or]
  | none =>
      have hNone : ¬ (named "COPY" first).any Copy.copiesTreeOrManifest = true := by
        simpa using hFirst
      rw [if_neg hNone, Option.none_or, List.find?_cons, holds_layerCaching]
      cases Copy.copiesTreeOrManifest i with
      | true => rfl
      | false => rfl

/-- A COPY of neither the tree nor a manifest can be put for another one in
three cases: a COPY before them brings in one of the two, the other does not
either, or what follows has the verdict of the other. -/
theorem holds_layerCaching_replace_iff {first rest : List Instruction} {silent other : Instruction}
    (hSilent : silent.is "COPY" = true) (hNeither : Copy.copiesTreeOrManifest silent = false)
    (hOther : other.is "COPY" = true) :
    layerCaching.holds (first ++ other :: rest) = layerCaching.holds (first ++ silent :: rest) ↔
      (∃ c ∈ named "COPY" first, Copy.copiesTreeOrManifest c = true) ∨
        Copy.copiesTreeOrManifest other = false ∨
        layerCaching.holds rest = !Copy.copiesTree other := by
  rw [holds_layerCaching_append_cons first rest hSilent,
    holds_layerCaching_append_cons first rest hOther, hNeither, ← List.any_eq_true]
  cases (named "COPY" first).any Copy.copiesTreeOrManifest with
  | true => simp
  | false =>
      cases Copy.copiesTreeOrManifest other with
      | true => simp [eq_comm]
      | false => simp

end Rule

end Drydock
