/-
What the fixer writes, and what the linter sees of it.

Fixing a file and linting it have guards of their own. Both ask for a known type, for a file
that can be read and for a parse that is not refused; and the fixer writes only where the rule
reports something with a fix (`WritesFixed.exists_fixable`). But the linter looks at no binary
file, and the fixer does not ask whether a file is one. So a linter that keeps nothing
reports a fix for whatever the fixer writes, binary files apart, in which it sees nothing
(`fixing_writes_reported_or_binary`); and these are written (`rewritten_binarySaga`).
-/
import YieldLint.Proofs.Atomic
import YieldLint.Proofs.Verdicts

namespace YieldLint

namespace Fixer

variable {parser : Parser} {rule : Rule} {language : Language} {fs fs' : FileSystem}
  {path : String} {left : Nat} {source : Bytes} {fixed : FixedSource}

theorem editsOf_ne_nil_iff {vs : List Violation} :
    editsOf vs ≠ [] ↔ ∃ v ∈ vs, v.fix.isSome = true := by
  simp [editsOf, List.filterMap_eq_nil_iff, Option.isSome_iff_ne_none]

/-- A run that applies edits begins with a report that has fixes. -/
theorem Run.exists_lint (run : Run parser rule language left source fixed)
    (taken : fixed.applied ≠ 0) :
    ∃ vs, rule.lint parser language source "" = .ok vs ∧ editsOf vs ≠ [] := by
  cases run with
  | exhausted => exact absurd rfl taken
  | settled => exact absurd rfl taken
  | idle => exact absurd rfl taken
  | broken => exact absurd rfl taken
  | next lint apply applied => exact ⟨_, lint, editsOf_ne_nil apply applied⟩

/-- In what is fixed and written, the rule reports something with a fix, whatever path it
is told. -/
theorem MakesFixed.exists_fixable
    (h : MakesFixed parser rule fs path language source fixed) (told : String) :
    ∃ vs, rule.lint parser language source told = .ok vs ∧ ∃ v ∈ vs, v.fix.isSome = true := by
  obtain ⟨vs, hlint, hedits⟩ := (passes_eq_ok_iff.1 h.passes).exists_lint h.taken
  obtain ⟨parsed, hparsed, rfl⟩ := lint_eq_ok_iff.1 hlint
  refine ⟨_, lint_eq_ok_iff.2 ⟨parsed, hparsed, rfl⟩, editsOf_ne_nil_iff.1 ?_⟩
  rwa [editsOf_check, ← editsOf_check rule source ""]

/-- **The fixer writes what the linter reports, and binary files.** Let a file of a workspace
be fixed, whatever the files, the path, the rule and the parser are. If that changes any file,
or says that it wrote, then the path is of a known type, its file was read, the parser does not
refuse what was there, and linting that reports a violation with a fix. A linter that keeps
nothing reports of this file just these violations, unless a zero is among its first bytes;
then it reports none. -/
theorem fixing_writes_reported_or_binary (parser : Parser) (fs : FileSystem) (l : Linter)
    (path : String) (dryRun : Bool)
    (h : ((fixing parser l path dryRun).exec fs).2 ≠ fs ∨
      ∃ r, ((fixing parser l path dryRun).exec fs).1 = .ok r ∧ r.1.written = true) :
    ∃ language content vs,
      Language.ofPath? (l.resolve path) = some language ∧
      fs.read (l.resolve path) = .ok content ∧
      l.rule.lint parser language content (Path.normalize path) = .ok vs ∧
      (∃ v ∈ vs, v.fix.isSome = true) ∧
      (Linter.lintFile parser fs { l with cache := .empty } path).1 =
        if 0 ∈ content.take 8192 then [] else vs := by
  have hmakes : ∃ language old fixed,
      MakesFixed parser l.rule fs (l.resolve path) language old fixed := by
    have hattempt := attempt_fixing parser fs l path dryRun
    generalize (fixing parser l path dryRun).exec fs = came at h hattempt
    cases hattempt with
    | failed e =>
      rcases h with h | ⟨r, hr, -⟩
      · exact absurd rfl h
      · cases hr
    | kept kept =>
      rcases h with h | ⟨r, hr, hwritten⟩
      · exact absurd rfl h
      · cases hr
        cases kept.1.symm.trans hwritten
    | written made | brokenOff made =>
      obtain ⟨-, -, -, language, old, fixed, hmakes, -⟩ := made
      exact ⟨language, old, fixed, hmakes⟩
  obtain ⟨language, content, fixed, hmakes⟩ := hmakes
  obtain ⟨vs, hlint, hfixable⟩ := hmakes.exists_fixable (Path.normalize path)
  refine ⟨language, content, vs, hmakes.known, hmakes.read, hlint, hfixable, ?_⟩
  have hfresh : ({ l with cache := .empty } : Linter).cache = .empty := rfl
  rw [Linter.lintFile_fst_of_empty hfresh hmakes.known hmakes.read hlint, Document.isBinary]
  simp only [List.contains_iff_mem]

end Fixer

/-! ## A binary file that is written -/

namespace BinarySaga

/-- The saga, its outer yield with or without a star, and a zero behind it or none. -/
def source (starred zero : Bool) : Bytes :=
  NestedSaga.source starred true ++ if zero then [0] else []

/-- Passes over zeros, as errors in the source. -/
def parser : Parser := fun language s =>
  (NestedSaga.parser language (s.filter (· != 0))).map fun p => { p with hasError := s.contains 0 }

theorem parser_source (starred zero : Bool) (language : Language) :
    parser language (source starred zero) = .ok ⟨NestedSaga.tree true starred true, zero⟩ := by
  have htext : ∀ starred zero,
      (source starred zero).filter (· != 0) = NestedSaga.source starred true := by decide +kernel
  have hzero : ∀ starred zero, (source starred zero).contains 0 = zero := by decide +kernel
  rw [parser, htext, hzero, NestedSaga.parser_source (fun _ => rfl)]
  rfl

theorem isBinary_source : ∀ starred zero, Document.isBinary (source starred zero) = zero := by
  decide +kernel

theorem lint_source (starred zero : Bool) (path : String) :
    ({} : Rule).lint parser .javascript (source starred zero) path =
      .ok (({} : Rule).check (source starred zero) path
        (.ofTree (NestedSaga.tree true starred true))) :=
  Fixer.lint_eq_ok_iff.2 ⟨_, parser_source starred zero .javascript, rfl⟩

/-- The first pass settles the outer yield, and the second finds nothing left. -/
theorem fixSource_source (zero : Bool) : Fixer.fixSource parser {} .javascript (source false zero) =
    .ok ⟨source true zero, 1, 1⟩ := by
  have happly : ∀ zero, Edit.apply (source false zero) (Fixer.editsOf
      (({} : Rule).check (source false zero) "" (.ofTree (NestedSaga.tree true false true)))) =
        ⟨source true zero, 1, 0⟩ := by decide +kernel
  have hclean : ∀ zero, Fixer.editsOf (({} : Rule).check (source true zero) ""
      (.ofTree (NestedSaga.tree true true true))) = [] := by decide +kernel
  have hholds : Fixer.breaks parser .javascript (source false zero) (source true zero) =
      .ok false := by
    cases zero <;> simp [Fixer.breaks, Parser.parse_eq_ok_iff.2 (parser_source _ _ .javascript),
      bind, Except.bind, pure, Except.pure]
  have hlast : Fixer.Run parser {} .javascript 9 (source true zero) ⟨source true zero, 0, 0⟩ :=
    .settled (lint_source true zero "") (hclean zero)
  have hrun : Fixer.Run parser {} .javascript 10 (source false zero) ⟨source true zero, 1, 1⟩ :=
    .next (lint_source false zero "") (happly zero) Nat.one_ne_zero hholds hlast
  exact Fixer.passes_of_run hrun

open DeepSaga (files holds_files)

theorem writesFixed (zero : Bool) :
    Fixer.WritesFixed parser {} (files (source false zero))
      (Linter.resolve { root := "ws" } "a.js") .javascript (source false zero)
      ⟨source true zero, 1, 1⟩
      ((files (source false zero)).store ["ws", "a.js"] (source true zero)) := by
  have hholds := holds_files (source false zero)
  rw [NestedSaga.resolve_ws]
  exact ⟨⟨NestedSaga.ofPath?_ws, hholds.read, fixSource_source zero, Nat.one_ne_zero⟩,
    hholds.write _⟩

end BinarySaga

open BinarySaga in
open DeepSaga (files holds_files) in
/-- The fixer writes the saga with the zero behind it, in which a linter that keeps nothing
sees no violation. -/
theorem rewritten_binarySaga :
    ∃ o fs' l', Fixer.fixFile parser (files (source false true)) { root := "ws" } "a.js" false =
        .ok (o, fs', l') ∧
      o.written = true ∧ fs'.read "ws/a.js" = .ok (source true true) ∧
      (Linter.lintFile parser (files (source false true)) { root := "ws" } "a.js").1 = [] := by
  have hwrites := writesFixed true
  obtain ⟨o, hfix, hwritten, -⟩ := Fixer.fixFile_of_writes (l := { root := "ws" }) hwrites
  refine ⟨o, _, _, hfix, hwritten, ((holds_files _).store _).read, ?_⟩
  rw [Linter.lintFile_fst, Linter.found, Table.get?_empty,
    Document.load?_eq_none_iff.2 (.binary hwrites.read (isBinary_source false true))]
  rfl

open BinarySaga in
open DeepSaga (files) in
/-- Of the saga without a zero, which the fixer writes too, a linter that keeps nothing reports
a fix. -/
theorem fixing_writes_reported_saga :
    let fs := files (source false false)
    let l : Linter := { root := "ws" }
    (∃ r, ((Fixer.fixing parser l "a.js" false).exec fs).1 = .ok r ∧ r.1.written = true) ∧
      ∃ v ∈ (l.lintFile parser fs "a.js").1, v.fix.isSome = true := by
  intro fs l
  have hwritten : ∃ r, ((Fixer.fixing parser l "a.js" false).exec fs).1 = .ok r ∧
      r.1.written = true :=
    (Fixer.fixing_written_iff parser fs l "a.js" false).2 ⟨rfl, _, _, _, _, writesFixed false⟩
  obtain ⟨language, content, vs, -, hread, -, hfixable, hreported⟩ :=
    Fixer.fixing_writes_reported_or_binary parser fs l "a.js" false (.inr hwritten)
  obtain rfl : source false false = content :=
    Except.ok.inj ((writesFixed false).read.symm.trans hread)
  rw [if_neg (by decide +kernel)] at hreported
  refine ⟨hwritten, ?_⟩
  rw [← hreported] at hfixable
  exact hfixable

end YieldLint
