import Drydock.Proofs.JsonText
import Drydock.Proofs.Timestamp
import Drydock.Report.Format

/-! A report is read back from its JSON text, on many lines or on one. A record
is written as an object that leaves out the fields without a value, so reading
it has to find each field in its place again. -/
namespace Drydock

namespace Json

/-- The members of a record: those of its fields that have a value. -/
def members (slots : List (String × Option Json)) : List (String × Json) :=
  slots.filterMap fun slot => slot.2.map (slot.1, ·)

variable {slots : List (String × Option Json)}

theorem filter_members_of_notMem {name : String}
    (hName : name ∉ slots.map Prod.fst) : (members slots).filter (·.1 == name) = [] := by
  simp only [members, List.filter_eq_nil_iff, List.mem_filterMap, Option.map_eq_some_iff]
  rintro member ⟨slot, hMem, j, -, rfl⟩
  have hNe : slot.1 ≠ name := fun h => hName (h ▸ List.mem_map_of_mem hMem)
  simpa using hNe

/-- Of fields with different names, each is found once if it was written. -/
theorem filter_members (hNodup : (slots.map Prod.fst).Nodup) {slot : String × Option Json}
    (hMem : slot ∈ slots) :
    ((members slots).filter (·.1 == slot.1)).map Prod.snd = slot.2.toList := by
  induction slots with
  | nil => simp at hMem
  | cons first rest ih =>
      rw [List.map_cons, List.nodup_cons] at hNodup
      obtain ⟨name, value⟩ := first
      have hMembers : members ((name, value) :: rest) =
          (value.map (name, ·)).toList ++ members rest := by
        cases value <;> rfl
      rw [hMembers, List.filter_append, List.map_append]
      rcases List.mem_cons.mp hMem with rfl | hRest
      · -- no later field has the name
        rw [filter_members_of_notMem hNodup.1]
        cases value <;> simp
      · have hNe : name ≠ slot.1 := fun h => hNodup.1 (List.mem_map.mpr ⟨slot, hRest, h.symm⟩)
        rw [ih hNodup.2 hRest]
        cases value <;> simp [hNe]

/-- The fields of a record as they are found in its members. -/
def Fields.written (slots : List (String × Option Json)) : Fields :=
  { positional := false, slots := slots.map Prod.snd }

/-- A record is read from the members that it was written with, in whatever
fields it has none. -/
theorem fields?_members {names : List String} (hNodup : names.Nodup)
    (hNames : names = slots.map Prod.fst) :
    (Json.obj (members slots)).fields? names = some (.written slots) := by
  subst hNames
  have hOnce : (slots.map Prod.fst).all (fun name =>
      ((members slots).filter (·.1 == name) |>.map Prod.snd).length ≤ 1) = true := by
    simp only [List.all_eq_true, List.mem_map, decide_eq_true_eq]
    rintro _ ⟨slot, hMem, rfl⟩
    rw [filter_members hNodup hMem]
    cases slot.2 <;> simp
  have hSlots : (slots.map Prod.fst).map (fun name =>
      ((members slots).filter (·.1 == name) |>.map Prod.snd).head?) = slots.map Prod.snd := by
    rw [List.map_map]
    apply List.map_congr_left
    intro slot hMem
    rw [Function.comp_apply, filter_members hNodup hMem]
    cases slot.2 <;> rfl
  rw [fields?, if_pos hOnce, hSlots, Fields.written]

/-- A record of plain values is plain, with the fields that are left out. -/
theorem isPlain_members (h : ∀ slot ∈ slots, ∀ j ∈ slot.2, IsPlain j) :
    IsPlain (.obj (members slots)) := by
  apply IsPlain.obj
  intro member hMem
  obtain ⟨slot, hSlot, hValue⟩ := List.mem_filterMap.mp hMem
  obtain ⟨j, hj, rfl⟩ := Option.map_eq_some_iff.mp hValue
  exact h slot hSlot j hj

/-- A field that may be left out is read as it was written, with a value or
without. -/
theorem Fields.optional?_of_slot {α : Type} {n : Nat} {decode : Json → Option (Option α)}
    {encode : α → Json} {value : Option α}
    (hSlot : (written slots).slot n = value.map encode)
    (hRead : ∀ a ∈ value, decode (encode a) = some (some a)) :
    (written slots).optional? n decode = some value := by
  rw [Fields.optional?, hSlot]
  cases value with
  | none => rfl
  | some a => exact hRead a rfl

theorem asNat?_nat {bits n : Nat} (h : n < 2 ^ bits) : asNat? bits (.nat n) = some n :=
  if_pos h

theorem asList?_map {α : Type} {decode : Json → Option α} {encode : α → Json} {items : List α}
    (h : ∀ a ∈ items, decode (encode a) = some a) :
    asList? decode (.arr (items.map encode)) = some items := by
  rw [asList?]
  induction items with
  | nil => rfl
  | cons a rest ih =>
      rw [List.forall_mem_cons] at h
      simp [h.1, ih h.2]

end Json

theorem Severity.ofWireName?_wireName (s : Severity) : ofWireName? s.wireName = some s := by
  cases s <;> rfl

theorem Category.ofWireName?_wireName (c : Category) : ofWireName? c.wireName = some c := by
  cases c <;> rfl

theorem Origin.ofWireName?_wireName (o : Origin) : ofWireName? o.wireName = some o := by
  cases o <;> rfl

theorem Evaluation.ofWireName?_wireName (e : Evaluation) : ofWireName? e.wireName = some e := by
  cases e <;> rfl

theorem Grade.ofWireName?_label (g : Grade) : ofWireName? g.label = some g := by
  cases g <;> rfl

namespace Finding

/-- The fields of a finding in the order in which they are written. -/
def slots (f : Finding) : List (String × Option Json) :=
  [("ruleId", some (.str f.rule)), ("passed", some (.bool f.passed)),
    ("severity", some (.str f.severity.wireName)),
    ("category", f.category.map fun c => .str c.wireName), ("message", some (.str f.message)),
    ("suggestions", some (.arr (f.suggestions.map .str))), ("details", f.details.map .str),
    ("line", f.line.map .nat), ("source", some (.str f.origin.wireName))]

/-- What is written of a finding is its fields, and those without a value are
left out. -/
theorem toJson_eq (f : Finding) : f.toJson = .obj (Json.members f.slots) := by
  obtain ⟨rule, passed, severity, category, message, suggestions, details, line, origin⟩ := f
  cases category <;> cases details <;> cases line <;> rfl

def fields (f : Finding) : Json.Fields :=
  .written f.slots

theorem fields?_toJson (f : Finding) : f.toJson.fields? fieldNames = some f.fields := by
  rw [toJson_eq]
  exact Json.fields?_members (by decide) rfl

/-- A finding is read back from its fields. Only the number of its line has a
bound, that of the 32 bits in which it is read. -/
theorem ofJson?_toJson {f : Finding} (hLine : ∀ n ∈ f.line, n < 2 ^ 32) :
    ofJson? f.toJson = some f := by
  have hRule : f.fields.required? 0 Json.asString? = some f.rule := rfl
  have hPassed : f.fields.required? 1 Json.asBool? = some f.passed := rfl
  have hSeverity : f.fields.required? 2 (Json.asWord? Severity.ofWireName?) = some f.severity :=
    Severity.ofWireName?_wireName _
  have hCategory : f.fields.optional? 3 (Json.orNull? (Json.asWord? Category.ofWireName?)) =
      some f.category :=
    Json.Fields.optional?_of_slot rfl fun c _ =>
      congrArg (Option.map some) (Category.ofWireName?_wireName c)
  have hMessage : f.fields.required? 4 Json.asString? = some f.message := rfl
  have hSuggestions : f.fields.required? 5 (Json.asList? Json.asString?) = some f.suggestions :=
    Json.asList?_map fun _ _ => rfl
  have hDetails : f.fields.optional? 6 (Json.orNull? Json.asString?) = some f.details :=
    Json.Fields.optional?_of_slot rfl fun _ _ => rfl
  have hLineRead : f.fields.optional? 7 (Json.orNull? (Json.asNat? 32)) = some f.line :=
    Json.Fields.optional?_of_slot rfl fun n hMem =>
      congrArg (Option.map some) (Json.asNat?_nat (hLine n hMem))
  have hOrigin : f.fields.defaulted? 8 .internal (Json.asWord? Origin.ofWireName?) =
      some f.origin := Origin.ofWireName?_wireName _
  simp only [ofJson?, fields?_toJson, Option.bind_eq_bind, Option.bind_some, hRule, hPassed,
    hSeverity, hCategory, hMessage, hSuggestions, hDetails, hLineRead, hOrigin]
  rfl

theorem isPlain_toJson (f : Finding) : f.toJson.IsPlain := by
  rw [toJson_eq]
  apply Json.isPlain_members
  have hSuggestions : Json.IsPlain (.arr (f.suggestions.map .str)) :=
    .arr (List.forall_mem_map.mpr fun s _ => .str s)
  simp [slots, hSuggestions, Json.nat, Json.IsPlain.str, Json.IsPlain.bool, Json.IsPlain.int]

end Finding

namespace Report

/-- The numbers and the date fit their written form: what is written of them can
be read. -/
structure Fits (r : Report) : Prop where
  line_lt : ∀ f ∈ r.findings, ∀ n ∈ f.line, n < 2 ^ 32
  score_lt : r.score < 2 ^ 8
  passed_lt : r.tally.passed < 2 ^ 64
  failed_lt : r.tally.failed < 2 ^ 64
  errors_lt : r.tally.errors < 2 ^ 64
  warnings_lt : r.tally.warnings < 2 ^ 64
  infos_lt : r.tally.infos < 2 ^ 64
  year_nonneg : 0 ≤ r.time.date.year
  year_le : r.time.date.year ≤ 9999
  nanos_lt : r.time.nanos < 10 ^ 9

def slots (r : Report) : List (String × Option Json) :=
  [("results", some (.arr (r.findings.map Finding.toJson))), ("score", some (.nat r.score)),
    ("grade", some (.str r.grade.label)), ("passedCount", some (.nat r.tally.passed)),
    ("failedCount", some (.nat r.tally.failed)), ("errorCount", some (.nat r.tally.errors)),
    ("warningCount", some (.nat r.tally.warnings)), ("infoCount", some (.nat r.tally.infos)),
    ("timestamp", some (.str (String.ofList r.time.toText))),
    ("evaluation", some (.str r.evaluation.wireName))]

theorem toJson_eq (r : Report) : r.toJson = .obj (Json.members r.slots) :=
  rfl

def fields (r : Report) : Json.Fields :=
  .written r.slots

theorem fields?_toJson (r : Report) : r.toJson.fields? fieldNames = some r.fields := by
  rw [toJson_eq]
  exact Json.fields?_members (by decide) rfl

theorem ofJson?_toJson {r : Report} (h : r.Fits) : ofJson? r.toJson = some r := by
  have hFindings : r.fields.required? 0 (Json.asList? Finding.ofJson?) = some r.findings :=
    Json.asList?_map fun f hMem => Finding.ofJson?_toJson (h.line_lt f hMem)
  have hScore : r.fields.required? 1 (Json.asNat? 8) = some r.score := Json.asNat?_nat h.score_lt
  have hGrade : r.fields.required? 2 (Json.asWord? Grade.ofWireName?) = some r.grade :=
    Grade.ofWireName?_label _
  have hPassed : r.fields.required? 3 (Json.asNat? 64) = some r.tally.passed :=
    Json.asNat?_nat h.passed_lt
  have hFailed : r.fields.required? 4 (Json.asNat? 64) = some r.tally.failed :=
    Json.asNat?_nat h.failed_lt
  have hErrors : r.fields.required? 5 (Json.asNat? 64) = some r.tally.errors :=
    Json.asNat?_nat h.errors_lt
  have hWarnings : r.fields.required? 6 (Json.asNat? 64) = some r.tally.warnings :=
    Json.asNat?_nat h.warnings_lt
  have hInfos : r.fields.required? 7 (Json.asNat? 64) = some r.tally.infos :=
    Json.asNat?_nat h.infos_lt
  have hTime : r.fields.required? 8 asInstant? = some r.time := by
    have hSlot : r.fields.slot 8 = some (.str (String.ofList r.time.toText)) := rfl
    rw [Json.Fields.required?, hSlot, Option.bind_some, asInstant?, Json.asString?,
      Option.bind_some, String.toList_ofList]
    exact Instant.ofText?_toText h.year_nonneg h.year_le h.nanos_lt
  have hEvaluation : r.fields.required? 9 (Json.asWord? Evaluation.ofWireName?) =
      some r.evaluation := Evaluation.ofWireName?_wireName _
  simp only [ofJson?, fields?_toJson, Option.bind_eq_bind, Option.bind_some, hFindings, hScore,
    hGrade, hPassed, hFailed, hErrors, hWarnings, hInfos, hTime, hEvaluation]
  rfl

theorem isPlain_toJson (r : Report) : r.toJson.IsPlain := by
  rw [toJson_eq]
  apply Json.isPlain_members
  have hFindings : Json.IsPlain (.arr (r.findings.map Finding.toJson)) :=
    .arr (List.forall_mem_map.mpr fun f _ => f.isPlain_toJson)
  simp [slots, hFindings, Json.nat, Json.IsPlain.str, Json.IsPlain.int]

/-- A report whose numbers fit is read back from its JSON text in both forms,
whatever its strings hold. A date outside the years of four digits could not be
read back, and a number beyond its bits would be refused. -/
theorem decode?_prettyJson_and_compactJson {r : Report} (h : r.Fits) :
    decode? r.prettyJson = some r ∧ decode? r.compactJson = some r := by
  have hSpace : ∀ c ∈ ['\n'], Json.isSpace c = true := by simp [Json.isSpace]
  constructor
  · rw [decode?, prettyJson, (r.isPlain_toJson.reads_pretty 0).parse?_append hSpace,
      Option.bind_some, ofJson?_toJson h]
  · rw [decode?, compactJson, encode, r.isPlain_toJson.reads_compact.parse?_append hSpace,
      Option.bind_some, ofJson?_toJson h]

/-- Escapes, characters beyond ASCII, a leap day with a fraction, and the
largest numbers. -/
def leapDayReport : Report where
  findings :=
    [{ rule := "no-secrets"
       passed := false
       severity := .error
       category := some .security
       message := "✗ \"C:\\a\"\n\x01 😀"
       suggestions := ["", "a/b"]
       details := some "TOKEN\t"
       line := some 4294967295
       origin := .external },
      { Finding.pass "no-sudo-install" .info "fine" with suggestions := [] }]
  score := 255
  grade := .C
  tally := { passed := 18446744073709551615, failed := 0, errors := 7, warnings := 10, infos := 1 }
  time := { seconds := 951826554, nanos := 120000000 }
  evaluation := .heuristic

theorem fits_leapDayReport : leapDayReport.Fits where
  line_lt := by decide
  score_lt := by decide
  passed_lt := by decide
  failed_lt := by decide
  errors_lt := by decide
  warnings_lt := by decide
  infos_lt := by decide
  year_nonneg := by decide
  year_le := by decide
  nanos_lt := by decide

/-- Escapes, a leap day and the largest numbers come through in both forms. -/
theorem decode?_leapDayReport :
    leapDayReport.Fits ∧ decode? leapDayReport.prettyJson = some leapDayReport ∧
      decode? leapDayReport.compactJson = some leapDayReport :=
  ⟨fits_leapDayReport, decode?_prettyJson_and_compactJson fits_leapDayReport⟩

end Report

end Drydock
