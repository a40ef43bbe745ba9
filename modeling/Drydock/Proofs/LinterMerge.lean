import Drydock.Proofs.ReportHistory
import Mathlib.Data.List.Forall2

/-! What a linter adds to a report. The linter writes an array of entries, each
of them an object or a row of its fields. A report takes in the findings of all
entries in their order, or none of them when one cannot be read; how the program
ended has no part in that, and neither have the findings in score and grade. -/
namespace Drydock

namespace Json

/-- How an object gives a member: once, with a value, or not at all. -/
def Given (members : List (String × Json)) (name : String) : Option Json → Prop
  | none => ∀ member ∈ members, member.1 ≠ name
  | some j => ∃ before after, members = before ++ (name, j) :: after ∧
      ∀ member ∈ before ++ after, member.1 ≠ name

/-- What an object gives of a field is what is left of its members under that
name: nothing, or one value. A name that comes twice is given in neither way. -/
theorem given_iff {members : List (String × Json)} {name : String} {slot : Option Json} :
    Given members name slot ↔
      (members.filter (·.1 == name)).map Prod.snd = slot.toList := by
  cases slot with
  | none => simp [Given, List.filter_eq_nil_iff]
  | some j =>
      constructor
      · rintro ⟨before, after, rfl, hOthers⟩
        have hNone : ∀ side : List (String × Json), (∀ member ∈ side, member ∈ before ++ after) →
            side.filter (·.1 == name) = [] := by
          intro side hSide
          rw [List.filter_eq_nil_iff]
          intro member hMem
          simpa using hOthers member (hSide member hMem)
        rw [List.filter_append, hNone before (by simp +contextual),
          List.filter_cons_of_pos (by simp), hNone after (by simp +contextual)]
        rfl
      · intro h
        obtain ⟨⟨found, value⟩, hFilter, hValue⟩ := List.map_eq_singleton_iff.mp h
        obtain ⟨before, after, rfl, hBefore, hName, hAfter⟩ := List.filter_eq_cons_iff.mp hFilter
        have hName : found = name := by simpa using hName
        have hValue : value = j := hValue
        subst hName hValue
        refine ⟨before, after, rfl, ?_⟩
        intro member hMem
        rcases List.mem_append.mp hMem with hMem | hMem
        · simpa using hBefore member hMem
        · simpa using List.filter_eq_nil_iff.mp hAfter member hMem

/-- A record is read from an object that gives each of its fields at most once.
Members with other names may come in any number. -/
theorem fields?_obj_eq_some_iff {names : List String} {members : List (String × Json)}
    {f : Fields} :
    (Json.obj members).fields? names = some f ↔
      f.positional = false ∧ List.Forall₂ (Given members) names f.slots := by
  obtain ⟨positional, slots⟩ := f
  rw [fields?]
  dsimp only
  constructor
  · intro h
    split at h
    · rename_i hOnce
      obtain ⟨rfl, rfl⟩ := Fields.mk.inj (Option.some.inj h)
      refine ⟨rfl, List.forall₂_map_right_iff.mpr (List.forall₂_same.mpr ?_)⟩
      intro name hMem
      have hLength := of_decide_eq_true (List.all_eq_true.mp hOnce name hMem)
      rw [given_iff]
      cases hValues : (members.filter (·.1 == name)).map Prod.snd with
      | nil => rfl
      | cons j rest =>
          rw [hValues, List.length_cons, Nat.succ_le_succ_iff, Nat.le_zero] at hLength
          rw [List.length_eq_zero_iff.mp hLength]
          rfl
    · simp at h
  · rintro ⟨rfl, hGiven⟩
    have hSlots : names.map (fun name =>
        ((members.filter (·.1 == name)).map Prod.snd).head?) = slots := by
      induction hGiven with
      | nil => rfl
      | cons hFirst _ ih => rw [List.map_cons, given_iff.mp hFirst, Option.head?_toList, ih]
    have hOnce : names.all (fun name =>
        ((members.filter (·.1 == name)).map Prod.snd).length ≤ 1) = true := by
      clear hSlots
      induction hGiven with
      | nil => rfl
      | @cons _ slot _ _ hFirst _ ih =>
          rw [List.all_cons, given_iff.mp hFirst, ih]
          cases slot <;> rfl
    rw [if_pos hOnce, hSlots]

/-- A record is read from an array that gives its first fields in their order.
Fields at the end may be missing, but no item may be left over. -/
theorem slots_of_fields?_arr {names : List String} {items : List Json} {f : Fields}
    (h : (Json.arr items).fields? names = some f) :
    f.slots.length = names.length ∧ f.slots.filterMap id = items := by
  rw [fields?] at h
  split at h
  · rename_i hLength
    rw [← Option.some.inj h]
    refine ⟨?_, ?_⟩
    · simp [hLength]
    · simp [List.filterMap_append, List.filterMap_map]
  · simp at h

/-- A number is read from a whole number that fits and from nothing else. -/
theorem asNat?_eq_some_iff {bits n : Nat} {j : Json} :
    asNat? bits j = some n ↔ j = .nat n ∧ n < 2 ^ bits := by
  constructor
  · intro h
    unfold asNat? at h
    split at h
    · split at h
      · rename_i hFits
        obtain rfl := Option.some.inj h
        exact ⟨rfl, hFits⟩
      · simp at h
    · simp at h
  · rintro ⟨rfl, hFits⟩
    exact if_pos hFits

theorem asString?_eq_some_iff {s : String} {j : Json} : asString? j = some s ↔ j = .str s := by
  cases j <;> simp [asString?]

/-- What may be null is read as nothing or as what is decoded. Null itself must
not be a value, or it would be read in both ways. -/
theorem orNull?_eq_some_iff {α : Type} {decode : Json → Option α} (hNull : decode .null = none)
    {j : Json} {x : Option α} :
    orNull? decode j = some x ↔ (j = .null ∧ x = none) ∨ ∃ a, decode j = some a ∧ x = some a := by
  cases j with
  | null => simp [orNull?, hNull, eq_comm]
  | _ => simp [orNull?, eq_comm]

/-- A list is read from an array of which every item is decoded. One item that
is not loses them all. -/
theorem asList?_eq_some_iff {α : Type} {decode : Json → Option α} {j : Json} {xs : List α} :
    asList? decode j = some xs ↔
      ∃ items, j = .arr items ∧ List.Forall₂ (fun item x => decode item = some x) items xs := by
  have hItems : ∀ items : List Json, items.mapM decode = some xs ↔
      List.Forall₂ (fun item x => decode item = some x) items xs := by
    intro items
    induction items generalizing xs with
    | nil => cases xs <;> simp
    | cons item rest ih =>
        rw [List.mapM_cons, List.forall₂_cons_left_iff]
        simp only [Option.bind_eq_bind, Option.bind_eq_some_iff, Option.pure_def,
          Option.some.injEq, ih]
        constructor
        · rintro ⟨x, hFirst, others, hRest, rfl⟩
          exact ⟨x, others, hFirst, hRest, rfl⟩
        · rintro ⟨x, others, hFirst, hRest, rfl⟩
          exact ⟨x, hFirst, others, hRest, rfl⟩
  cases j with
  | arr items => simp [asList?, hItems]
  | _ => simp [asList?]

end Json

namespace Linter

inductive IsColumn : Option Json → Option Nat → Prop where
  | absent : IsColumn none none
  | null : IsColumn (some .null) none
  | number {n : Nat} (hFits : n < 2 ^ 32) : IsColumn (some (.nat n)) (some n)

/-- How an entry is written. An object may have further members, in any order,
and a row gives the fields by their position. -/
inductive Entry.Written : Json → Entry → Prop where
  | object {members : List (String × Json)} {e : Entry} {column : Option Json}
      (hLine : Json.Given members "line" (some (.nat e.line)))
      (hCode : Json.Given members "code" (some (.str e.code)))
      (hMessage : Json.Given members "message" (some (.str e.message)))
      (hLevel : Json.Given members "level" (some (.str e.level)))
      (hColumn : Json.Given members "column" column)
      (hFits : e.line < 2 ^ 32) (hRead : IsColumn column e.column) :
      Written (.obj members) e
  | row {e : Entry} {column : Option Json} (hFits : e.line < 2 ^ 32)
      (hRead : IsColumn column e.column) :
      Written (.arr ([.nat e.line, .str e.code, .str e.message, .str e.level] ++ column.toList)) e

/-- The column of an entry is read from the last field, which may be left out or
null. -/
theorem isColumn_iff {f : Json.Fields} {n : Option Nat} :
    IsColumn (f.slot 4) n ↔
      f.defaulted? 4 none (Json.orNull? (Json.asNat? 32)) = some n := by
  rw [Json.Fields.defaulted?]
  cases f.slot 4 with
  | none =>
      constructor
      · intro h
        cases h
        rfl
      · intro h
        rw [← Option.some.inj h]
        exact .absent
  | some j =>
      dsimp only
      rw [Json.orNull?_eq_some_iff rfl]
      simp only [Json.asNat?_eq_some_iff]
      constructor
      · intro h
        cases h with
        | null => exact .inl ⟨rfl, rfl⟩
        | number hFits => exact .inr ⟨_, ⟨rfl, hFits⟩, rfl⟩
      · rintro (⟨rfl, rfl⟩ | ⟨n, ⟨rfl, hFits⟩, rfl⟩)
        · exact .null
        · exact .number hFits

/-- Once the fields are found, an entry is read exactly when each holds what it
should. An object and a row differ only in how the fields are found. -/
theorem Entry.ofJson?_of_fields {j : Json} {p : Bool} {a b c d column : Option Json} {e : Entry}
    (hFields : j.fields? fieldNames = some ⟨p, [a, b, c, d, column]⟩) :
    ofJson? j = some e ↔
      (a = some (.nat e.line) ∧ e.line < 2 ^ 32) ∧ b = some (.str e.code) ∧
        c = some (.str e.message) ∧ d = some (.str e.level) ∧ IsColumn column e.column := by
  obtain ⟨line, code, message, level, columnNumber⟩ := e
  have hColumn : IsColumn column columnNumber ↔ _ :=
    isColumn_iff (f := ⟨p, [a, b, c, d, column]⟩)
  rw [ofJson?, hFields, hColumn]
  simp [Option.bind_eq_some_iff, Json.Fields.required?, Json.Fields.slot,
    Json.asNat?_eq_some_iff, Json.asString?_eq_some_iff]

/-- An entry is read exactly from what it can be written as, an object or a row,
so reading is nowhere more lenient than the description of the two forms. -/
theorem Entry.ofJson?_eq_some_iff {j : Json} {e : Entry} : ofJson? j = some e ↔ Written j e := by
  constructor
  · intro h
    obtain ⟨⟨positional, slots⟩, hFields, -⟩ := Option.bind_eq_some_iff.mp h
    cases j with
    | obj members =>
        obtain ⟨rfl, hGiven⟩ := Json.fields?_obj_eq_some_iff.mp hFields
        dsimp only at hGiven
        match slots, hGiven with
        | [a, b, c, d, column], .cons hLine (.cons hCode (.cons hMessage (.cons hLevel
            (.cons hColumn .nil)))) =>
          obtain ⟨⟨rfl, hFits⟩, rfl, rfl, rfl, hRead⟩ := (ofJson?_of_fields hFields).mp h
          exact .object hLine hCode hMessage hLevel hColumn hFits hRead
    | arr items =>
        obtain ⟨hLength, hItems⟩ := Json.slots_of_fields?_arr hFields
        match slots, hLength with
        | [a, b, c, d, column], _ =>
          obtain ⟨⟨rfl, hFits⟩, rfl, rfl, rfl, hRead⟩ := (ofJson?_of_fields hFields).mp h
          rw [← hItems]
          cases column with
          | none => exact .row hFits hRead
          | some j => exact .row hFits hRead
    | _ => simp [Json.fields?] at hFields
  · intro h
    cases h with
    | @object members e column hLine hCode hMessage hLevel hColumn hFits hRead =>
        have hFields : (Json.obj members).fields? fieldNames = some ⟨false, [some (.nat e.line),
            some (.str e.code), some (.str e.message), some (.str e.level), column]⟩ :=
          Json.fields?_obj_eq_some_iff.mpr ⟨rfl,
            .cons hLine (.cons hCode (.cons hMessage (.cons hLevel (.cons hColumn .nil))))⟩
        exact (ofJson?_of_fields hFields).mpr ⟨⟨rfl, hFits⟩, rfl, rfl, rfl, hRead⟩
    | @row e column hFits hRead =>
        have hFields : (Json.arr ([.nat e.line, .str e.code, .str e.message, .str e.level] ++
            column.toList)).fields? fieldNames = some ⟨true, [some (.nat e.line),
            some (.str e.code), some (.str e.message), some (.str e.level), column]⟩ := by
          cases column <;> rfl
        exact (ofJson?_of_fields hFields).mpr ⟨⟨rfl, hFits⟩, rfl, rfl, rfl, hRead⟩

/-- A text is an array of entries, up to blanks around it. -/
def Writes (output : Text) (entries : List Entry) : Prop :=
  ∃ items, Json.parse? (Text.trim output) = some (.arr items) ∧
    List.Forall₂ Entry.Written items entries

/-- To write entries is to write an array from which all of them are read. -/
theorem writes_iff {output : Text} {entries : List Entry} :
    Writes output entries ↔
      (Json.parse? (Text.trim output)).bind (Json.asList? Entry.ofJson?) = some entries := by
  simp only [Writes, Option.bind_eq_some_iff, Json.asList?_eq_some_iff,
    Entry.ofJson?_eq_some_iff]
  constructor
  · rintro ⟨items, hParse, hItems⟩
    exact ⟨_, hParse, items, rfl, hItems⟩
  · rintro ⟨j, hParse, items, rfl, hItems⟩
    exact ⟨items, hParse, hItems⟩

instance (output : Text) (entries : List Entry) : Decidable (Writes output entries) :=
  decidable_of_iff _ writes_iff.symm

/-- Findings are read from all the entries or not at all. -/
theorem findings?_eq_some_iff {output : Text} {found : List Finding} :
    findings? output = some found ↔
      ∃ entries, Writes output entries ∧ found = entries.map Entry.toFinding := by
  simp only [findings?, writes_iff, Option.bind_eq_some_iff, Option.map_eq_some_iff]
  constructor
  · rintro ⟨j, hParse, entries, hEntries, rfl⟩
    exact ⟨entries, ⟨j, hParse, hEntries⟩, rfl⟩
  · rintro ⟨entries, ⟨j, hParse, hEntries⟩, rfl⟩
    exact ⟨j, hParse, entries, hEntries, rfl⟩

/-- There are no findings exactly when the output is no array of entries. -/
theorem findings?_eq_none_iff {output : Text} :
    findings? output = none ↔ ∀ entries, ¬ Writes output entries := by
  rw [Option.eq_none_iff_forall_ne_some]
  constructor
  · intro h entries hWrites
    exact h _ (findings?_eq_some_iff.mpr ⟨entries, hWrites, rfl⟩)
  · intro h found hFound
    obtain ⟨entries, hWrites, -⟩ := findings?_eq_some_iff.mp hFound
    exact h entries hWrites

/-- A program that wrote entries is believed, whatever its status and what else
it said. -/
theorem findingsOf_of_writes {outcome : Outcome} {entries : List Entry}
    (h : Writes (Utf8.decodeLossy outcome.stdout) entries) :
    findingsOf outcome = .ok (entries.map Entry.toFinding) := by
  rw [findingsOf, findings?_eq_some_iff.mpr ⟨entries, h, rfl⟩]

/-- A program that wrote no entries has failed, even one that ended well. -/
theorem exists_failure_of_not_writes {outcome : Outcome}
    (h : ∀ entries, ¬ Writes (Utf8.decodeLossy outcome.stdout) entries) :
    ∃ failure, findingsOf outcome = .error failure := by
  rw [findingsOf, findings?_eq_none_iff.mpr h]
  dsimp only
  split
  · exact ⟨_, rfl⟩
  · exact ⟨_, rfl⟩

structure Entry.Describes (e : Entry) (f : Finding) : Prop where
  failed : f.passed = false
  origin : f.origin = .external
  rule : f.rule = e.code
  line : f.line = some e.line
  message : f.message = "✗ " ++ e.message
  severity : f.severity =
    if Text.sameLetters e.level.toList "error".toList then .error
    else if Text.sameLetters e.level.toList "warning".toList then .warning
    else .info
  details : f.details = e.column.map fun column => "column " ++ column.repr

theorem Entry.describes_toFinding (e : Entry) :
    e.Describes { e.toFinding with origin := .external } where
  failed := rfl
  origin := rfl
  rule := rfl
  line := rfl
  message := rfl
  severity := by
    show (Severity.ofLevel? e.level.toList).getD .info = _
    have hError : Text.lower "error".toList = "error".toList := rfl
    have hWarning : Text.lower "warning".toList = "warning".toList := rfl
    simp only [Severity.ofLevel?, Text.sameLetters_iff, hError, hWarning]
    split
    · rfl
    · split
      · rfl
      · split <;> rfl
  details := rfl

end Linter

open Linter in
/-- A linter that was started adds a finding for every entry it wrote, in their
order, or leaves the report as it is when what it wrote is no array of entries.
Its status and its messages do not matter, and score, grade, time and evaluation
stay. -/
theorem Validator.validate_merges_all_or_none (v : Validator) {options : Options} {content : Text}
    {outcome : Outcome} (time lintTime : Instant) (binary : String)
    (process : Text → Except LaunchError Outcome) (hLinter : options.useLinter = true)
    (hOwn : (v.validateInternal content time).evaluation ≠ .parseError)
    (hRun : process content = .ok outcome) :
    (∀ entries, Writes (Utf8.decodeLossy outcome.stdout) entries →
      ∃ added, List.Forall₂ Entry.Describes entries added ∧
        v.validate (some fun text => reportOf binary lintTime (process text)) options content time =
          { v.validateInternal content time with
            findings := (v.validateInternal content time).findings ++ added
            tally := (v.validateInternal content time).tally.add (Tally.of added) }) ∧
    ((∀ entries, ¬ Writes (Utf8.decodeLossy outcome.stdout) entries) →
      v.validate (some fun text => reportOf binary lintTime (process text)) options content time =
        v.validateInternal content time) := by
  have hAsks : asksLinter options (v.validateInternal content time) = true := by
    simp [asksLinter, hLinter, hOwn]
  have hValidate : v.validate (some fun text => reportOf binary lintTime (process text)) options
      content time = withLinter (v.validateInternal content time)
        ((findingsOf outcome).map fun found => .build found .external lintTime) := by
    rw [validate, if_pos hAsks, hRun]
    rfl
  rw [hValidate]
  constructor
  · intro entries hWrites
    refine ⟨(entries.map Entry.toFinding).map ({ · with origin := .external }), ?_, ?_⟩
    · rw [List.map_map, List.forall₂_map_right_iff, List.forall₂_same]
      exact fun e _ => e.describes_toFinding
    · rw [findingsOf_of_writes hWrites, Tally.of_map_origin]
      rfl
  · intro hNone
    obtain ⟨failure, hFailure⟩ := exists_failure_of_not_writes hNone
    rw [hFailure]
    rfl

/-- The output of a program that a signal ended. One entry is an object with a
member that no entry has to have, the other is a row. -/
def mixedOutcome : Linter.Outcome where
  stdout := (" [\x7b\"file\":\"-\",\"level\":\"Warning\",\"line\":1,\"column\":6,\"code\":\"A\"," ++
    "\"message\":\"m\"\x7d,[2,\"B\",\"n\",\"style\"]]\n").toList.map fun c => UInt8.ofNat c.toNat
  stderr := [255]
  status := none

/-- The output of a program that succeeded. The second entry has no level. -/
def partialOutcome : Linter.Outcome where
  stdout := "[[1,\"A\",\"m\",\"error\"],[2,\"B\",\"n\"]]".toList.map fun c => UInt8.ofNat c.toNat
  stderr := []
  status := some 0

def pinnedFile : Text := "FROM a:1\n".toList

theorem Validator.validate_mixedOutcome_and_partialOutcome :
    (∃ added, List.Forall₂ Linter.Entry.Describes
        [⟨1, "A", "m", "Warning", some 6⟩, ⟨2, "B", "n", "style", none⟩] added ∧
      standard.validate (some fun _ => Linter.reportOf Linter.name ⟨1, 0⟩ (.ok mixedOutcome))
          .default pinnedFile ⟨0, 0⟩ =
        { standard.validateInternal pinnedFile ⟨0, 0⟩ with
          findings := (standard.validateInternal pinnedFile ⟨0, 0⟩).findings ++ added
          tally := (standard.validateInternal pinnedFile ⟨0, 0⟩).tally.add (Tally.of added) }) ∧
    standard.validate (some fun _ => Linter.reportOf Linter.name ⟨1, 0⟩ (.ok partialOutcome))
        .default pinnedFile ⟨0, 0⟩ =
      standard.validateInternal pinnedFile ⟨0, 0⟩ := by
  have hOwn : (standard.validateInternal pinnedFile ⟨0, 0⟩).evaluation ≠ .parseError := by
    decide +kernel
  have hLinter : Options.default.useLinter = true := rfl
  have hAll := validate_merges_all_or_none standard ⟨0, 0⟩ ⟨1, 0⟩ Linter.name
    (fun _ => .ok mixedOutcome) hLinter hOwn rfl
  have hNone := validate_merges_all_or_none standard ⟨0, 0⟩ ⟨1, 0⟩ Linter.name
    (fun _ => .ok partialOutcome) hLinter hOwn rfl
  exact ⟨hAll.1 _ (by decide +kernel),
    hNone.2 (Linter.findings?_eq_none_iff.mp (by decide +kernel))⟩

end Drydock
