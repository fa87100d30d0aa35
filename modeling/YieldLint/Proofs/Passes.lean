/-
The passes over one source, as runs.

A pass ends a run in one of three ways: nothing is reported that could be fixed,
no edit is applied, or the edited source would be broken. Else the run goes on
with the edited source. `Run` has one rule for each, and one for a run that has no
passes left; it is what `passes` computes (`passes_eq_ok_iff`), so that what holds
of a source after every run is shown rule by rule.
-/
import YieldLint.Fixer

namespace YieldLint.Fixer

variable (parser : Parser) (rule : Rule) (language : Language)

/-- A run with so many passes left over a source, and what it comes to. -/
inductive Run : Nat → Bytes → FixedSource → Prop
  | exhausted {source : Bytes} : Run 0 source { source, applied := 0, passes := 0 }
  | settled {left : Nat} {source : Bytes} {vs : List Violation}
      (lint : rule.lint parser language source "" = .ok vs) (clean : editsOf vs = []) :
      Run (left + 1) source { source, applied := 0, passes := 0 }
  | idle {left : Nat} {source : Bytes} {vs : List Violation}
      (lint : rule.lint parser language source "" = .ok vs) (dirty : editsOf vs ≠ [])
      (skipped : (Edit.apply source (editsOf vs)).applied = 0) :
      Run (left + 1) source { source, applied := 0, passes := 1 }
  | broken {left : Nat} {source : Bytes} {vs : List Violation} {edited : Edited}
      (lint : rule.lint parser language source "" = .ok vs)
      (apply : Edit.apply source (editsOf vs) = edited) (taken : edited.applied ≠ 0)
      (breaks : Fixer.breaks parser language source edited.content = .ok true) :
      Run (left + 1) source { source, applied := 0, passes := 1 }
  | next {left : Nat} {source : Bytes} {vs : List Violation} {edited : Edited}
      {rest : FixedSource} (lint : rule.lint parser language source "" = .ok vs)
      (apply : Edit.apply source (editsOf vs) = edited) (taken : edited.applied ≠ 0)
      (holds : Fixer.breaks parser language source edited.content = .ok false)
      (run : Run left edited.content rest) :
      Run (left + 1) source
        { rest with applied := edited.applied + rest.applied, passes := rest.passes + 1 }

variable {parser rule language}

theorem editsOf_ne_nil {source : Bytes} {vs : List Violation} {edited : Edited}
    (apply : Edit.apply source (editsOf vs) = edited) (taken : edited.applied ≠ 0) :
    editsOf vs ≠ [] := by
  intro clean
  rw [clean] at apply
  rw [← apply] at taken
  exact taken (by simp [Edit.apply, Edit.fromBack])

theorem passes_of_run {left : Nat} {source : Bytes} {fixed : FixedSource}
    (h : Run parser rule language left source fixed) :
    passes parser rule language left source = .ok fixed := by
  induction h with
  | exhausted => rfl
  | settled lint clean =>
    simp [passes, lint, clean, bind, Except.bind, pure, Except.pure]
  | idle lint dirty skipped =>
    simp [passes, lint, dirty, skipped, bind, Except.bind, pure, Except.pure]
  | broken lint apply taken breaks =>
    have dirty := editsOf_ne_nil apply taken
    simp [passes, lint, dirty, apply, taken, breaks, bind, Except.bind, pure, Except.pure]
  | next lint apply taken holds _ ih =>
    have dirty := editsOf_ne_nil apply taken
    simp [passes, lint, dirty, apply, taken, holds, ih, bind, Except.bind, pure, Except.pure]

theorem run_of_passes {left : Nat} : ∀ {source : Bytes} {fixed : FixedSource},
    passes parser rule language left source = .ok fixed →
    Run parser rule language left source fixed := by
  induction left with
  | zero => intro source fixed h; cases h; exact .exhausted
  | succ left ih =>
    intro source fixed h
    simp only [passes, bind, Except.bind] at h
    split at h
    · cases h
    rename_i vs lint
    split at h
    · rename_i clean
      cases h
      exact .settled lint clean
    rename_i dirty
    split at h
    · rename_i skipped
      cases h
      exact .idle lint dirty skipped
    rename_i taken
    split at h
    · cases h
    rename_i broken breaks
    split at h
    · rename_i hb
      cases h
      exact .broken lint rfl taken (by rw [breaks, hb])
    rename_i hb
    split at h
    · cases h
    rename_i rest run
    cases h
    exact .next lint rfl taken (by rw [breaks]; simpa using hb) (ih run)

/-- **What passes compute is a run.** -/
theorem passes_eq_ok_iff {left : Nat} {source : Bytes} {fixed : FixedSource} :
    passes parser rule language left source = .ok fixed ↔
      Run parser rule language left source fixed :=
  ⟨run_of_passes, passes_of_run⟩

/-- The edits of a report are the fixes of the findings, if the rule offers them. -/
theorem editsOf_check (rule : Rule) (source : Bytes) (path : String) (top : Node) :
    editsOf (rule.check source path top) =
      if rule.offersFixes then (rule.findings source top).map (·.fix.edit) else [] := by
  have hedit : (fun v => v.fix.map Fix.edit) ∘ rule.report source path =
      fun f => if rule.offersFixes then some f.fix.edit else none := by
    funext f
    rw [Function.comp_apply, Rule.report]
    dsimp only
    split
    · rfl
    · rfl
  rw [editsOf, Rule.check, List.filterMap_map, hedit]
  by_cases h : rule.offersFixes = true
  · simp [h]
  · simp [h]

end YieldLint.Fixer
