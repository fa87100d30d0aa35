/-
Fixing a file in one call, and round by round.

A round forgets the document of a file, lints the file as it stands on disk, and applies
the fixes to it there (`round`); `rounds` makes one after another until one writes
nothing. A round does to the file what a pass of `fixSource` does to the buffer that was
read from it, whichever way the pass ends (`rounds_of_run`); the file is looked at in each
round as it holds no zero byte. So all rounds together leave the files that `fixFile`
leaves when it writes once, at the end.
-/
import YieldLint.Proofs.Looking
import YieldLint.Proofs.Rest
import YieldLint.Proofs.Writing
import YieldLint.Proofs.Zeros

namespace YieldLint

namespace Fixer

/-! ## Rounds over a file -/

/-- Lints a file as it is on disk, and applies the fixes to it. -/
def round (parser : Parser) (path : String) (fs : FileSystem) (l : Linter) :
    Except Failure (FixOutcome × FileSystem × Linter) := do
  let (vs, l') := (l.invalidate path).lintFile parser fs path
  let (outcome, fs') ← applyToFile parser fs (l.resolve path) ((editsOf vs).map .ofEdit) false
  return (outcome, fs', l')

/-- Makes at most so many rounds, none after one that writes nothing, and counts the
edits that were written. -/
def rounds (parser : Parser) (path : String) :
    Nat → FileSystem → Linter → Except Failure (Nat × FileSystem × Linter)
  | 0, fs, l => .ok (0, fs, l)
  | left + 1, fs, l => do
    let (outcome, fs', l') ← round parser path fs l
    if !outcome.written then return (0, fs', l')
    let (applied, fs'', l'') ← rounds parser path left fs' l'
    return (outcome.applied + applied, fs'', l'')

/-! ## A round and a pass -/

section Round

variable {parser : Parser} {path : String} {fs : FileSystem} {l : Linter} {language : Language}
  {location : Location} {content : Bytes}

/-- Linting a file that was forgotten finds what linting its contents finds. -/
theorem lintFile_invalidate (hlanguage : Language.ofPath? (l.resolve path) = some language)
    (hholds : fs.Holds (l.resolve path) location content) (hzero : 0 ∉ content)
    {parsed : Parsed} (hparsed : parser language content = .ok parsed) :
    ∃ l', (l.invalidate path).lintFile parser fs path =
        (l.rule.check content (Path.normalize path) parsed.root, l') ∧
      l'.root = l.root ∧ l'.rule = l.rule := by
  have hload : Document.load? parser fs (l.resolve path) = some ⟨content, parsed⟩ :=
    Document.load?_eq_some_iff.2
      ⟨language, hlanguage, hholds.read, Document.isBinary_eq_false hzero, hparsed⟩
  have hforgotten : (l.invalidate path).cache.get? (l.resolve path) = none :=
    Table.get?_erase_self _ _
  refine ⟨((l.invalidate path).lintFile parser fs path).2, Prod.ext ?_ rfl, ?_, ?_⟩
  · rw [Linter.lintFile_fst, Linter.resolve_invalidate, Linter.found, hforgotten, hload]
    rfl
  · exact Linter.root_lintFile parser fs (l.invalidate path) path
  · exact Linter.rule_lintFile parser fs (l.invalidate path) path

/-- A round applies the edits of a pass to the file. -/
theorem round_eq (hlanguage : Language.ofPath? (l.resolve path) = some language)
    (hholds : fs.Holds (l.resolve path) location content) (hzero : 0 ∉ content)
    {vs : List Violation} (hlint : l.rule.lint parser language content "" = .ok vs) :
    ∃ l', l'.root = l.root ∧ l'.rule = l.rule ∧ round parser path fs l =
      (applyToFile parser fs (l.resolve path) ((editsOf vs).map .ofEdit) false).map
        fun (outcome, fs') => (outcome, fs', l') := by
  obtain ⟨parsed, hparsed, rfl⟩ := lint_eq_ok_iff.1 hlint
  obtain ⟨l', hlint', hroot, hrule⟩ := lintFile_invalidate hlanguage hholds hzero hparsed
  refine ⟨l', hroot, hrule, ?_⟩
  rw [round, hlint']
  simp only [editsOf_check]
  cases applyToFile parser fs (l.resolve path) _ false with
  | error e => rfl
  | ok r => rfl

theorem applyToFile_of_idle (hholds : fs.Holds path location content) {edits : List Edit}
    (hidle : (Edit.apply content edits).applied = 0) :
    ∃ o, applyToFile parser fs path (edits.map .ofEdit) false = .ok (o, fs) ∧
      o.written = false := by
  refine ⟨?_, Program.result_eq_ok_iff.2 ?exec, ?_⟩
  case exec =>
    rw [applying, Program.exec_bind_of_ok (by rw [FileProgram.exec_read, hholds.read]),
      EditRequest.apply_ofEdit, Program.exec_bind_of_ok (Program.exec_lift _ fs)]
    dsimp only
    rw [if_pos hidle, Program.exec_pure]
  rfl

theorem applyToFile_of_broken (hlanguage : Language.ofPath? path = some language)
    (hholds : fs.Holds path location content) {edits : List Edit}
    (htaken : (Edit.apply content edits).applied ≠ 0)
    (hbreaks : breaks parser language content (Edit.apply content edits).content = .ok true) :
    ∃ o, applyToFile parser fs path (edits.map .ofEdit) false = .ok (o, fs) ∧
      o.written = false := by
  refine ⟨?_, Program.result_eq_ok_iff.2 ?exec, ?_⟩
  case exec =>
    rw [applying, Program.exec_bind_of_ok (by rw [FileProgram.exec_read, hholds.read]),
      EditRequest.apply_ofEdit, Program.exec_bind_of_ok (Program.exec_lift _ fs)]
    dsimp only
    rw [if_neg htaken, hlanguage, Option.getD_some, hbreaks,
      Program.exec_bind_of_ok (Program.exec_lift _ fs), if_pos rfl, Program.exec_pure]
  rfl

theorem applyToFile_of_holds (hlanguage : Language.ofPath? path = some language)
    (hholds : fs.Holds path location content) {edits : List Edit}
    (htaken : (Edit.apply content edits).applied ≠ 0)
    (hbreaks : breaks parser language content (Edit.apply content edits).content = .ok false) :
    ∃ o, applyToFile parser fs path (edits.map .ofEdit) false =
        .ok (o, fs.store location (Edit.apply content edits).content) ∧
      o.written = true ∧ o.applied = (Edit.apply content edits).applied :=
  applyToFile_of_writes
    { read := hholds.read
      apply := EditRequest.apply_ofEdit content edits
      taken := htaken
      holds := by rw [hlanguage]; exact hbreaks
      write := hholds.write _ }

end Round

/-! ## Rounds and a run -/

section Rounds

variable {parser : Parser} {path : String} {fs fs' : FileSystem} {l l' : Linter}

theorem rounds_of_kept {o : FixOutcome} (h : round parser path fs l = .ok (o, fs', l'))
    (hkept : o.written = false) (left : Nat) :
    rounds parser path (left + 1) fs l = .ok (0, fs', l') := by
  simp [rounds, h, hkept, bind, Except.bind, pure, Except.pure]

theorem rounds_of_written {o : FixOutcome} (h : round parser path fs l = .ok (o, fs', l'))
    (hwritten : o.written = true) {left applied : Nat} {fs'' : FileSystem} {l'' : Linter}
    (hrest : rounds parser path left fs' l' = .ok (applied, fs'', l'')) :
    rounds parser path (left + 1) fs l = .ok (o.applied + applied, fs'', l'') := by
  simp [rounds, h, hwritten, hrest, bind, Except.bind, pure, Except.pure]

/-- The files after a run whose result is stored, if it applied any edit. -/
def leaving (fs : FileSystem) (location : Location) (fixed : FixedSource) : FileSystem :=
  if fixed.applied = 0 then fs else fs.store location fixed.source

/-- Storing what a pass makes, and then what the run comes to, is storing the latter. -/
theorem leaving_store {rule : Rule} {language : Language} {location : Location} {left : Nat}
    {old new : Bytes} {rest : FixedSource} (hold : fs.content? location = some old)
    (run : Run parser rule language left new rest) {applied passes : Nat} (taken : applied ≠ 0) :
    leaving (fs.store location new) location rest =
      leaving fs location ⟨rest.source, applied + rest.applied, passes⟩ := by
  have hsum : applied + rest.applied ≠ 0 := fun h => taken (Nat.add_eq_zero_iff.1 h).1
  rw [leaving, leaving, if_neg hsum]
  split
  · rename_i hrest
    rw [run.source_eq hrest]
  · rw [FileSystem.store_store hold]

variable {rule : Rule} {language : Language} {location : Location} {content : Bytes}

theorem rounds_of_idle (hlanguage : Language.ofPath? (l.resolve path) = some language)
    (hholds : fs.Holds (l.resolve path) location content) (hzero : 0 ∉ content)
    {vs : List Violation} (hlint : l.rule.lint parser language content "" = .ok vs)
    (hidle : (Edit.apply content (editsOf vs)).applied = 0) (left : Nat) :
    ∃ l', rounds parser path (left + 1) fs l = .ok (0, fs, l') := by
  obtain ⟨l', -, -, hround⟩ := round_eq hlanguage hholds hzero hlint
  obtain ⟨o, happly, hkept⟩ := applyToFile_of_idle hholds hidle
  rw [happly] at hround
  exact ⟨l', rounds_of_kept hround hkept left⟩

/-- Rounds over a file do what a run does over its contents. -/
theorem rounds_of_run {left : Nat} {fixed : FixedSource}
    (run : Run parser rule language left content fixed) :
    ∀ {fs : FileSystem} {l : Linter}, l.rule = rule →
      Language.ofPath? (l.resolve path) = some language →
      fs.Holds (l.resolve path) location content → 0 ∉ content →
      ∃ l', rounds parser path left fs l =
        .ok (fixed.applied, leaving fs location fixed, l') := by
  induction run with
  | exhausted => exact fun _ _ _ _ => ⟨_, rfl⟩
  | settled lint clean =>
    intro fs l hrule hlanguage hholds hzero
    subst hrule
    exact rounds_of_idle hlanguage hholds hzero lint
      (by rw [clean]; simp [Edit.apply, Edit.fromBack]) _
  | idle lint dirty skipped =>
    intro fs l hrule hlanguage hholds hzero
    subst hrule
    exact rounds_of_idle hlanguage hholds hzero lint skipped _
  | broken lint apply taken breaks =>
    intro fs l hrule hlanguage hholds hzero
    subst hrule apply
    obtain ⟨l', -, -, hround⟩ := round_eq hlanguage hholds hzero lint
    obtain ⟨o, happly, hkept⟩ := applyToFile_of_broken hlanguage hholds taken breaks
    rw [happly] at hround
    exact ⟨l', rounds_of_kept hround hkept _⟩
  | next lint apply taken holds run ih =>
    intro fs l hrule hlanguage hholds hzero
    subst hrule apply
    obtain ⟨l', hroot, hrule, hround⟩ := round_eq hlanguage hholds hzero lint
    obtain ⟨o, happly, hwritten, happlied⟩ := applyToFile_of_holds hlanguage hholds taken holds
    rw [happly] at hround
    obtain ⟨parsed, -, rfl⟩ := lint_eq_ok_iff.1 lint
    have hresolve : l'.resolve path = l.resolve path := by rw [Linter.resolve, hroot, Linter.resolve]
    rw [← hresolve] at hlanguage
    obtain ⟨l'', hrest⟩ := ih hrule hlanguage (hresolve ▸ hholds.store _)
      (zero_not_mem_apply hzero)
    refine ⟨l'', ?_⟩
    rw [rounds_of_written hround hwritten hrest, happlied, leaving_store hholds.holds run taken]

/-- Fixing a file leaves what a run over its contents comes to. -/
theorem fixFile_of_run (hlanguage : Language.ofPath? (l.resolve path) = some language)
    (hholds : fs.Holds (l.resolve path) location content) {fixed : FixedSource}
    (run : Run parser l.rule language maxPasses content fixed) :
    ∃ o l', fixFile parser fs l path false = .ok (o, leaving fs location fixed, l') ∧
      o.applied = fixed.applied := by
  have hfixed : fixSource parser l.rule language content = .ok fixed := passes_of_run run
  rw [leaving]
  split
  · rename_i hnone
    refine ⟨?_, ?_, fixFile_eq_ok_iff.2 ?exec, ?_⟩
    case exec =>
      unfold fixing
      dsimp only
      rw [hlanguage]
      dsimp only
      rw [Program.exec_bind_of_ok (FileProgram.exec_hasPath _ fs), hholds.hasPath,
        if_neg (by simp), Program.exec_bind_of_ok (by rw [FileProgram.exec_read, hholds.read]),
        hfixed, Program.exec_bind_of_ok (Program.exec_lift _ fs), if_pos hnone, Program.exec_pure]
    exact rfl
  · rename_i htaken
    obtain ⟨o, ho, -, happlied⟩ := fixFile_of_writes
      ⟨⟨hlanguage, hholds.read, hfixed, htaken⟩, hholds.write fixed.source⟩
    exact ⟨o, _, ho, happlied⟩

/-- **Fixing a file is fixing it round by round.** Let a path lead to a file of a known
type without a zero byte, which may be read and written, and let the parser never
refuse. Then fixing the file leaves the same files as at most ten rounds, each of which
lints the file anew and applies the fixes to it, the last of them the first that writes
nothing; and it counts the edits that these rounds wrote. The file holds then what its
contents come to by `fixSource`. -/
theorem fixFile_eq_rounds (hp : parser.NeverRefuses)
    (hlanguage : Language.ofPath? (l.resolve path) = some language)
    (hread : fs.read (l.resolve path) = .ok content)
    (hwrite : fs.write (l.resolve path) content = .ok fs') (hzero : 0 ∉ content) :
    ∃ outcome after l₁ l₂ fixed,
      fixFile parser fs l path false = .ok (outcome, after, l₁) ∧
      rounds parser path 10 fs l = .ok (outcome.applied, after, l₂) ∧
      fixSource parser l.rule language content = .ok fixed ∧
      after.read (l.resolve path) = .ok fixed.source := by
  obtain ⟨location, hholds⟩ := FileSystem.exists_holds hread hwrite
  obtain ⟨fixed, run⟩ := exists_run hp l.rule language maxPasses content
  obtain ⟨o, l₁, hfix, happlied⟩ := fixFile_of_run hlanguage hholds run
  obtain ⟨l₂, hrounds⟩ := rounds_of_run run rfl hlanguage hholds hzero
  refine ⟨o, _, l₁, l₂, fixed, hfix, by rw [happlied]; exact hrounds, passes_of_run run, ?_⟩
  rw [leaving]
  split
  · rename_i hnone
    rw [run.source_eq hnone, hread]
  · exact (hholds.store _).read

end Rounds

end Fixer

namespace DeepSaga

/-- A workspace of one file. -/
def files (content : Bytes) : FileSystem where
  root := .dir [("ws", .dir [("a.js", .file content)])]

theorem holds_files (content : Bytes) : (files content).Holds "ws/a.js" ["ws", "a.js"] content where
  leads := by rfl
  readable := List.not_mem_nil
  writable := List.not_mem_nil
  sound := rfl
  holds := by rfl

end DeepSaga

open DeepSaga in
/-- Two rounds put stars in, and what a third would write is dropped. -/
theorem fixFile_deepSaga_eq_rounds :
    (parser 10).NeverRefuses ∧
      Language.ofPath? (Linter.resolve { root := "ws" } "a.js") = some .javascript ∧
      (files (source (stars 8))).read "ws/a.js" = .ok (source (stars 8)) ∧
      0 ∉ source (stars 8) ∧
      ∃ outcome after l₁ l₂,
        Fixer.fixFile (parser 10) (files (source (stars 8))) { root := "ws" } "a.js" false =
          .ok (outcome, after, l₁) ∧
        Fixer.rounds (parser 10) "a.js" 10 (files (source (stars 8))) { root := "ws" } =
          .ok (outcome.applied, after, l₂) ∧
        after.read "ws/a.js" = .ok (source (stars 10)) := by
  have hlanguage : Language.ofPath? (Linter.resolve { root := "ws" } "a.js") =
      some .javascript := by decide +kernel
  have hresolve : Linter.resolve { root := "ws" } "a.js" = "ws/a.js" := by decide +kernel
  have hholds := holds_files (source (stars 8))
  have hzero : 0 ∉ source (stars 8) := by decide +kernel
  have hrun : Fixer.fixSource (parser 10) {} .javascript (source (stars 8)) =
      .ok ⟨source (stars 10), 2, 3⟩ :=
    Fixer.passes_of_run (run_stars (by decide) 2 (Nat.le_refl 10) run_broken)
  rw [← hresolve] at hholds
  obtain ⟨outcome, after, l₁, l₂, fixed, hfix, hrounds, hfixed, hafter⟩ :=
    Fixer.fixFile_eq_rounds (parser_neverRefuses 10) hlanguage hholds.read (hholds.write _) hzero
  obtain rfl : fixed = ⟨source (stars 10), 2, 3⟩ := Except.ok.inj (hfixed.symm.trans hrun)
  rw [hresolve] at hafter hholds
  exact ⟨parser_neverRefuses 10, hlanguage, hholds.read, hzero, outcome, after, l₁, l₂, hfix,
    hrounds, hafter⟩

end YieldLint
