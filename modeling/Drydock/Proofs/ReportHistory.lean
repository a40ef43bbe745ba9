import Drydock.Proofs.Grade

/-! Reports over their history. A report is built from findings, given up, or
made by validation, and from then on it may be merged with other reports, on
either side, and made anew. The cap on the grade and the counts hold at every
point of every such history.

A merge keeps the grade of one side and takes in the findings of both, so the
cap holds of findings of the library itself only: those taken in are marked as a
linter's. -/
namespace Drydock

/-- Without a linter a report is built from findings, or it says that the file
was given up. -/
theorem Validator.validateInternal_cases (v : Validator) (content : Text) (time : Instant) :
    (∃ findings evaluation,
      v.validateInternal content time = Report.build findings evaluation time) ∨
    ∃ message, v.validateInternal content time = Report.broken message time := by
  rw [validateInternal]
  cases Diagnostic.blocking (v.precheck content) content with
  | cons d ds => exact .inr ⟨_, rfl⟩
  | nil =>
      refine .inl ?_
      cases v.tokenize content with
      | none => exact ⟨_, _, rfl⟩
      | some instructions => exact ⟨_, _, rfl⟩

/-- A linter leaves the report as it is, or its answer is merged in. -/
theorem Validator.validate_cases (v : Validator)
    (linter? : Option (Text → Except Linter.Failure Report)) (options : Options) (content : Text)
    (time : Instant) :
    v.validate linter? options content time = v.validateInternal content time ∨
    ∃ linter answer, linter? = some linter ∧ linter content = .ok answer ∧
      v.validate linter? options content time =
        (v.validateInternal content time).merge answer := by
  cases linter? with
  | none => exact .inl rfl
  | some linter =>
      by_cases hAsks : asksLinter options (v.validateInternal content time) = true
      · simp only [validate, if_pos hAsks]
        cases hAnswer : linter content with
        | error failure => exact .inl rfl
        | ok answer => exact .inr ⟨linter, answer, rfl, hAnswer, rfl⟩
      · exact .inl (if_neg hAsks)

namespace Report

/-- The reports that a history of operations can end with. A merge has a history
on either side. What linters answer is not made by these operations, and
`Answers` tells what is known of it. -/
inductive Reached (Answers : Report → Prop) : Report → Prop where
  | build (findings : List Finding) (evaluation : Evaluation) (time : Instant) :
      Reached Answers (Report.build findings evaluation time)
  | broken (message : String) (time : Instant) : Reached Answers (Report.broken message time)
  | validateInternal (v : Validator) (content : Text) (time : Instant) :
      Reached Answers (v.validateInternal content time)
  | validate (v : Validator) (linter? : Option (Text → Except Linter.Failure Report))
      (options : Options) (content : Text) (time : Instant)
      (hLinter : ∀ linter ∈ linter?, ∀ answer, linter content = .ok answer → Answers answer) :
      Reached Answers (v.validate linter? options content time)
  | merge {own other : Report} (hOwn : Reached Answers own) (hOther : Reached Answers other) :
      Reached Answers (own.merge other)
  | rebuild {r : Report} (hReached : Reached Answers r) : Reached Answers r.rebuild

/-- What holds of new reports and is kept by merging holds of every report
reached. The induction is on the history. An answer of a linter has a condition
of its own, since nothing but `Answers` is known of it. -/
theorem Reached.invariant {Answers Holds : Report → Prop} {r : Report} (h : Reached Answers r)
    (hBuild : ∀ findings evaluation time, Holds (Report.build findings evaluation time))
    (hBroken : ∀ message time, Holds (Report.broken message time))
    (hAnswer : ∀ own answer, Holds own → Answers answer → Holds (own.merge answer))
    (hMerge : ∀ own other, Holds own → Holds other → Holds (own.merge other)) : Holds r := by
  have hInternal : ∀ v content time, Holds (Validator.validateInternal v content time) := by
    intro v content time
    rcases v.validateInternal_cases content time with ⟨findings, evaluation, hEq⟩ | ⟨message, hEq⟩
    · rw [hEq]
      exact hBuild findings evaluation time
    · rw [hEq]
      exact hBroken message time
  induction h with
  | build findings evaluation time => exact hBuild findings evaluation time
  | broken message time => exact hBroken message time
  | validateInternal v content time => exact hInternal v content time
  | validate v linter? options content time hLinter =>
      rcases v.validate_cases linter? options content time with
        hEq | ⟨linter, answer, hSome, hOk, hEq⟩
      · rw [hEq]
        exact hInternal v content time
      · rw [hEq]
        exact hAnswer _ answer (hInternal v content time) (hLinter linter hSome answer hOk)
  | merge _ _ ihOwn ihOther => exact hMerge _ _ ihOwn ihOther
  | @rebuild r _ _ => exact hBuild r.findings r.evaluation r.time

/-- A bounded score, and no grade better than C beside a finding of the library
itself that caps the grade. -/
structure KeepsCap (r : Report) : Prop where
  score_le : r.score ≤ 100
  grade_cases : ∀ f ∈ r.findings, f.origin = .internal → f.capsGrade = true →
    r.grade = .C ∨ r.grade = .D ∨ r.grade = .F

/-- A new report has the grade of its score, under the cap if a finding calls
for it. -/
theorem keepsCap_build (findings : List Finding) (evaluation : Evaluation) (time : Instant) :
    (build findings evaluation time).KeepsCap where
  score_le := Nat.sub_le 100 (totalPenalty findings)
  grade_cases := by
    intro f hMem _ hCaps
    exact grade_build_of_mem hMem hCaps evaluation time

/-- A file that is given up has no points, so its grade is the lowest in any
case. -/
theorem keepsCap_broken (message : String) (time : Instant) : (broken message time).KeepsCap where
  score_le := Nat.zero_le 100
  grade_cases := by
    intro _ _ _ _
    exact .inr (.inr rfl)

/-- Nothing is asked of the side that is taken in. A merge leaves score and
grade as they are and marks these findings as external. -/
theorem KeepsCap.merge {own : Report} (h : own.KeepsCap) (other : Report) :
    (own.merge other).KeepsCap where
  score_le := h.score_le
  grade_cases := by
    intro f hMem hOrigin hCaps
    rcases List.mem_append.mp hMem with hOwn | hOther
    · exact h.grade_cases f hOwn hOrigin hCaps
    · obtain ⟨g, -, rfl⟩ := List.mem_map.mp hOther
      simp at hOrigin

/-- The cap on the grade outlasts every history, whatever linters answer. Their
own findings are left out, as a merge takes them in under the grade of the other
side. -/
theorem score_le_and_grade_of_reached {r : Report} (h : Reached (fun _ => True) r) :
    r.score ≤ 100 ∧
    ((∃ f ∈ r.findings, f.origin = .internal ∧ f.passed = false ∧ f.severity = .error ∧
        f.rule ∈ ["no-root-user", "no-sudo-install", "no-secrets"]) →
      r.grade = .C ∨ r.grade = .D ∨ r.grade = .F) := by
  have hCap : r.KeepsCap := h.invariant keepsCap_build keepsCap_broken
    (fun _ answer hOwn _ => hOwn.merge answer) (fun _ other hOwn _ => hOwn.merge other)
  refine ⟨hCap.score_le, ?_⟩
  rintro ⟨f, hMem, hOrigin, hFailed, hError, hRule⟩
  have hBreaks : f.Breaks f.rule := ⟨rfl, hFailed, hError⟩
  exact hCap.grade_cases f hMem hOrigin (hBreaks.capsGrade hRule)

/-- A report with a secret, made anew and merged with one that was given up. By
its score alone it would have a B. -/
def leakyReport : Report :=
  (build [.fail "no-secrets" .error "key in ENV" "mount it"] .structured ⟨0, 0⟩).rebuild.merge
    (broken "line 1" ⟨5, 0⟩)

/-- A report whose score is in the band of B and whose grade is capped, after a
linter has answered. -/
theorem grade_leakyReport :
    Grade.ofScore leakyReport.score = .B ∧ leakyReport.score ≤ 100 ∧
    (leakyReport.grade = .C ∨ leakyReport.grade = .D ∨ leakyReport.grade = .F) := by
  have hReached : Reached (fun _ => True) leakyReport :=
    .merge (.rebuild (.build _ _ _)) (.broken _ _)
  obtain ⟨hScore, hGrade⟩ := score_le_and_grade_of_reached hReached
  refine ⟨by decide, hScore, hGrade ?_⟩
  exact ⟨_, List.mem_cons_self, rfl, rfl, rfl, by decide⟩

end Report

namespace Tally

/-- Findings are counted one by one, so the counts of two lists add up. -/
theorem of_append (xs ys : List Finding) : of (xs ++ ys) = (of xs).add (of ys) := by
  simp [of, add, failedAt]

/-- Counting does not look at who reported a finding. -/
theorem of_map_origin (findings : List Finding) (origin : Origin) :
    of (findings.map ({ · with origin })) = of findings := by
  simp [of, failedAt, List.countP_map, Function.comp_def]

/-- What failed did so at one of the three severities. -/
theorem failed_of (findings : List Finding) :
    (of findings).failed = (of findings).errors + (of findings).warnings + (of findings).infos := by
  induction findings with
  | nil => rfl
  | cons f rest ih =>
      simp only [of, failedAt, List.countP_cons] at ih ⊢
      cases f.passed with
      | true => simpa using ih
      | false =>
          cases f.severity with
          | error => simp; omega
          | warning => simp; omega
          | info => simp; omega

/-- Every finding passed or failed. -/
theorem passed_add_failed_of (findings : List Finding) :
    (of findings).passed + (of findings).failed = findings.length := by
  rw [List.length_eq_countP_add_countP (·.passed)]
  simp [of]

end Tally

namespace Report

def IsExact (r : Report) : Prop :=
  r.tally = Tally.of r.findings

/-- Counts that are exact on both sides are so after a merge, as marking the
findings changes none of them. -/
theorem IsExact.merge {own other : Report} (hOwn : own.IsExact) (hOther : other.IsExact) :
    (own.merge other).IsExact := by
  have hOwn : own.tally = Tally.of own.findings := hOwn
  have hOther : other.tally = Tally.of other.findings := hOther
  rw [IsExact, Report.merge, Tally.of_append, Tally.of_map_origin, hOwn, hOther]

/-- Merging reports one after the other appends their findings in that order,
each marked as external. -/
theorem findings_foldl_merge (own : Report) (others : List Report) :
    (others.foldl Report.merge own).findings =
      own.findings ++
        others.flatMap (fun r => r.findings.map ({ · with origin := .external })) := by
  induction others generalizing own with
  | nil => simp
  | cons first rest ih =>
      rw [List.foldl_cons, ih, List.flatMap_cons, ← List.append_assoc]
      rfl

/-- A merge of many reports changes nothing of the first but its findings and
counts. -/
theorem foldl_merge_keeps (own : Report) (others : List Report) :
    (others.foldl Report.merge own).score = own.score ∧
    (others.foldl Report.merge own).grade = own.grade ∧
    (others.foldl Report.merge own).time = own.time ∧
    (others.foldl Report.merge own).evaluation = own.evaluation := by
  induction others generalizing own with
  | nil => exact ⟨rfl, rfl, rfl, rfl⟩
  | cons first rest ih => exact ih (own.merge first)

/-- The counts are exact after every history in which linters answer with
reports that were built, and merging any reports into one takes their findings
in, in order and marked, and leaves all else but the counts as it was. -/
theorem tally_of_reached_and_foldl_merge :
    (∀ r, Reached (fun a => ∃ findings evaluation time, a = build findings evaluation time) r →
      r.tally.passed = (r.findings.filter (·.passed)).length ∧
      r.tally.errors = (r.failures.filter (·.severity = .error)).length ∧
      r.tally.warnings = (r.failures.filter (·.severity = .warning)).length ∧
      r.tally.infos = (r.failures.filter (·.severity = .info)).length ∧
      r.tally.failed = r.tally.errors + r.tally.warnings + r.tally.infos ∧
      r.tally.passed + r.tally.failed = r.findings.length) ∧
    ∀ (own : Report) (others : List Report),
      (others.foldl Report.merge own).score = own.score ∧
      (others.foldl Report.merge own).grade = own.grade ∧
      (others.foldl Report.merge own).time = own.time ∧
      (others.foldl Report.merge own).evaluation = own.evaluation ∧
      (others.foldl Report.merge own).findings =
        own.findings ++
          others.flatMap (fun r => r.findings.map ({ · with origin := .external })) := by
  constructor
  · intro r hReached
    have hExact : r.IsExact := by
      apply hReached.invariant (fun _ _ _ => rfl) (fun _ _ => rfl)
      · rintro own answer hOwn ⟨findings, evaluation, time, rfl⟩
        exact hOwn.merge rfl
      · intro own other hOwn hOther
        exact hOwn.merge hOther
    have hTally : r.tally = Tally.of r.findings := hExact
    rw [hTally]
    have hAt : ∀ severity, Tally.failedAt severity r.findings =
        (r.failures.filter (·.severity = severity)).length := by
      intro severity
      simp [Tally.failedAt, failures, List.countP_eq_length_filter, List.filter_filter,
        Bool.and_comm]
    exact ⟨List.countP_eq_length_filter, hAt .error, hAt .warning, hAt .info,
      Tally.failed_of r.findings, Tally.passed_add_failed_of r.findings⟩
  · intro own others
    obtain ⟨hScore, hGrade, hTime, hEvaluation⟩ := foldl_merge_keeps own others
    exact ⟨hScore, hGrade, hTime, hEvaluation, findings_foldl_merge own others⟩

/-- The report on an empty file that every part lets pass, with a linter's only
finding, merged into a report that was given up. -/
def lintedReport : Report :=
  (broken "line 1" ⟨5, 0⟩).merge
    (Validator.validate { tokenize := fun _ => some [], precheck := fun _ => [] }
      (some fun _ => .ok (build [.fail "DL3006" .info "tag" "pin"] .external ⟨1, 0⟩))
      .default [] ⟨0, 0⟩)

/-- Findings of the rules and those of a linter, counted together. -/
theorem tally_lintedReport :
    lintedReport.findings.length = 12 ∧
    lintedReport.tally.failed =
      lintedReport.tally.errors + lintedReport.tally.warnings + lintedReport.tally.infos ∧
    lintedReport.tally.passed + lintedReport.tally.failed = lintedReport.findings.length := by
  have hReached : Reached
      (fun a => ∃ findings evaluation time, a = build findings evaluation time) lintedReport := by
    refine .merge (.broken _ _) (.validate _ _ _ _ _ ?_)
    intro linter hLinter answer hAnswer
    obtain rfl := Option.some.inj hLinter
    exact ⟨_, _, _, (Except.ok.inj hAnswer).symm⟩
  exact ⟨by decide, (tally_of_reached_and_foldl_merge.1 lintedReport hReached).2.2.2.2⟩

end Report

end Drydock
