/-
What a call of a tool that fixes can come to.

`applyFix` and `fixAll` lint the file first, and then end in one of a few ways.
`FixesLine` and `FixesFile` have a rule for each of them, with all that must be so for a
call to end that way, the session that it leaves and what it answers. Every call ends by
one of the rules (`fixesLine_applyFix`, `fixesFile_fixAll`), so what follows about tools is
proved by cases on them, and the two functions are not opened again. A call writes just
when there is something fit to be written (`WritesLine`, `WritesFile`; `applyFix_cases`,
`fixAll_cases`), and then the linter forgets the file. If what it writes cannot be stored, the
call ends as after a look, but the file is cut off (`broken`).
-/
import YieldLint.Proofs.Looking
import YieldLint.Proofs.Writing
import YieldLint.Session.Command

namespace YieldLint

namespace Session

/-! ## Looking at a file of the workspace -/

/-- What the rule reports when the session looks at a file. -/
def reported (parser : Parser) (s : Session) (w : Workspace) (path : String) : List Violation :=
  (w.linter.lintFile parser s.files path).1

/-- The workspace after the session has looked at a file. -/
def looking (parser : Parser) (s : Session) (w : Workspace) (path : String) : Workspace :=
  { w with linter := (w.linter.lintFile parser s.files path).2 }

theorem lintFile_eq (parser : Parser) (s : Session) (w : Workspace) (path : String) :
    s.lintFile parser w path = (s.reported parser w path, s.looking parser w path) := rfl

/-- The edits that the fixes for a line would make. -/
def editsFor (parser : Parser) (s : Session) (w : Workspace) (path : String) (line : Int) :
    List Edit :=
  match Target.find? path line (s.reported parser w path) with
  | some target => Fixer.editsOf target.violations
  | none => []

section EditsFor

variable {parser : Parser} {s : Session} {w : Workspace} {path : String} {line : Int}

theorem editsFor_of_none (h : Target.find? path line (s.reported parser w path) = none) :
    s.editsFor parser w path line = [] := by
  rw [editsFor, h]

theorem editsFor_of_some {target : Target}
    (h : Target.find? path line (s.reported parser w path) = some target) :
    s.editsFor parser w path line = Fixer.editsOf target.violations := by
  rw [editsFor, h]

theorem exists_target_of_editsFor (h : s.editsFor parser w path line ≠ []) :
    ∃ target, Target.find? path line (s.reported parser w path) = some target := by
  cases hfind : Target.find? path line (s.reported parser w path) with
  | none => exact absurd (editsFor_of_none hfind) h
  | some target => exact ⟨target, rfl⟩

end EditsFor

/-! ## Calls that look at files, and do nothing else -/

/-- The second session is the first after some looks at files. -/
def Looks (parser : Parser) (s s' : Session) : Prop :=
  s' = s ∨ ∃ w linter, s.workspace? = some w ∧ Linter.Looked parser s.files w.linter linter ∧
    s' = s.withWorkspace { w with linter }

section Looks

variable (parser : Parser) (s : Session)

theorem listViolations_fst {w : Workspace} (hw : s.workspace? = some w) (path : String) :
    (s.listViolations parser path).1 = s.withWorkspace (s.looking parser w path) := by
  rw [listViolations, hw]
  rfl

theorem looks_listViolations (path : String) :
    Looks parser s (s.listViolations parser path).1 := by
  cases hw : s.workspace? with
  | none =>
    rw [listViolations, hw]
    exact .inl rfl
  | some w =>
    rw [listViolations_fst parser s hw]
    exact .inr ⟨w, _, hw, .lintFile parser s.files w.linter path, rfl⟩

theorem looks_lintWorkspace : Looks parser s (s.lintWorkspace parser).1 := by
  rw [lintWorkspace]
  cases hw : s.workspace? with
  | none => exact .inl rfl
  | some w => exact .inr ⟨w, _, hw, Linter.looked_lintWorkspace parser s.files w.linter, rfl⟩

theorem looks_proposeFix (path : String) (line : Int) :
    Looks parser s (s.proposeFix parser path line).1 := by
  rw [proposeFix]
  cases hw : s.workspace? with
  | none => exact .inl rfl
  | some w => exact .inr ⟨w, _, hw, .lintFile parser s.files w.linter path, rfl⟩

end Looks

/-! ## The fixes for a line -/

/-- What is answered when the fixes for a line are written. -/
def appliedText (path : String) (note : Option String) (applied skipped : Nat) : String :=
  noted note ++ "Successfully applied " ++ toString applied ++ " edit(s) to `" ++ path ++ "`." ++
    (if skipped = 0 then ""
      else " (" ++ toString skipped ++ " edit(s) skipped due to overlap/bounds.)") ++
    "\n\n**Status:** marked as `fixed`. " ++
    "Run `verify_fix` to confirm the violation is resolved."

/-- The session after the fixes for a line are written. -/
def marking (parser : Parser) (s : Session) (w : Workspace) (path : String) (target : Target)
    (files : FileSystem) : Session where
  files := files
  workspace? := some {
    linter := (s.looking parser w path).linter.invalidate path
    statuses := w.statuses.mark target.violations fun _ => .fixed }

/-- The session after a look at a file and a write to a file that breaks off. -/
def broken (parser : Parser) (s : Session) (w : Workspace) (path : String) (location : Location)
    (fault : Fault) (new : Bytes) : Session where
  files := s.files.store location (new.take fault.stored)
  workspace? := some (s.looking parser w path)

/-- The fixes for a line make something fit to be written to the file. -/
def WritesLine (parser : Parser) (s : Session) (w : Workspace) (path : String) (line : Int) :
    Prop :=
  ∃ old edited files, Fixer.WritesEdits parser s.files (w.linter.resolve path)
    ((s.editsFor parser w path line).map .ofEdit) old edited files

/-- The fixes of a file make something fit to be written to it. -/
def WritesFile (parser : Parser) (s : Session) (w : Workspace) (path : String) : Prop :=
  ∃ language old fixed files, Fixer.WritesFixed parser w.linter.rule s.files
    (w.linter.resolve path) language old fixed files

section FixesLine

variable (parser : Parser) (s : Session) (w : Workspace) (path : String) (line : Int)

/-- How a call for the fixes of a line can end. -/
inductive FixesLine : Session × Except Failure String → Prop
  | clean (find : Target.find? path line (s.reported parser w path) = none) :
      FixesLine (s.withWorkspace (s.looking parser w path), .ok (noViolationsIn path))
  | unfixable {target : Target}
      (find : Target.find? path line (s.reported parser w path) = some target)
      (nothing : Fixer.editsOf target.violations = []) :
      FixesLine (s.withWorkspace (s.looking parser w path),
        .ok "Auto-fix not available for this violation.")
  | unwritten {e : Failure} (fixable : s.editsFor parser w path line ≠ [])
      (apply : (Fixer.applying parser (w.linter.resolve path)
        ((s.editsFor parser w path line).map .ofEdit) false).exec s.files = (.error e, s.files))
      (file : e.isFileError = true) :
      FixesLine (s.withWorkspace (s.looking parser w path),
        .ok ("Error applying fix: " ++ e.message))
  | refused {e : Failure} (fixable : s.editsFor parser w path line ≠ [])
      (apply : (Fixer.applying parser (w.linter.resolve path)
        ((s.editsFor parser w path line).map .ofEdit) false).exec s.files = (.error e, s.files))
      (file : e.isFileError = false) :
      FixesLine (s.withWorkspace (s.looking parser w path), .error e)
  | kept {o : FixOutcome} (fixable : s.editsFor parser w path line ≠ [])
      (apply : (Fixer.applying parser (w.linter.resolve path)
        ((s.editsFor parser w path line).map .ofEdit) false).exec s.files = (.ok o, s.files))
      (written : o.written = false) :
      FixesLine (s.withWorkspace (s.looking parser w path), .ok ("Error: " ++ o.message))
  | written {target : Target} {old : Bytes} {edited : Edited} {files : FileSystem}
      (find : Target.find? path line (s.reported parser w path) = some target)
      (writes : Fixer.WritesEdits parser s.files (w.linter.resolve path)
        ((s.editsFor parser w path line).map .ofEdit) old edited files) :
      FixesLine (s.marking parser w path target files,
        .ok (appliedText path target.note edited.applied edited.skipped))
  | brokenOff {old : Bytes} {edited : Edited} {location : Location} {fault : Fault}
      (makes : Fixer.MakesEdits parser s.files (w.linter.resolve path)
        ((s.editsFor parser w path line).map .ofEdit) old edited)
      (breaks : s.files.BreaksOff (w.linter.resolve path) location fault) :
      FixesLine (s.broken parser w path location fault edited.content,
        .ok ("Error applying fix: " ++ fault.reason))

variable {parser s w path line}

theorem fixesLine_applyFix (hw : s.workspace? = some w) :
    FixesLine parser s w path line (s.applyFix parser path line) := by
  have hresolve : (s.looking parser w path).linter.resolve path = w.linter.resolve path :=
    Linter.resolve_lintFile parser s.files w.linter path path
  rw [applyFix, hw]
  simp only [lintFile_eq, hresolve]
  cases hfind : Target.find? path line (s.reported parser w path) with
  | none => exact .clean hfind
  | some target =>
  have hedits := editsFor_of_some hfind
  simp only [← hedits]
  cases hempty : (s.editsFor parser w path line).isEmpty with
  | true =>
    simp only [if_true]
    exact .unfixable hfind (by rw [← hedits]; exact List.isEmpty_iff.1 hempty)
  | false =>
  have hsome : s.editsFor parser w path line ≠ [] := fun h => by simp [h] at hempty
  simp only [Bool.false_eq_true, if_false]
  rcases happly : (Fixer.applying parser (w.linter.resolve path)
    ((s.editsFor parser w path line).map .ofEdit) false).exec s.files with ⟨answer, files⟩
  have hattempt := Fixer.attempt_applying parser s.files (w.linter.resolve path)
    ((s.editsFor parser w path line).map .ofEdit) false
  rw [happly] at hattempt
  cases hattempt with
  | failed e =>
    cases hfile : e.isFileError with
    | true =>
      simp only [hfile, if_true]
      exact .unwritten hsome happly hfile
    | false =>
      simp only [hfile, Bool.false_eq_true, if_false]
      exact .refused hsome happly hfile
  | kept hkept =>
    simp only [hkept, Bool.not_false, if_true]
    exact .kept hsome happly hkept
  | written made write =>
    obtain ⟨-, hwritten, old, edited, hmakes, rfl, happlied, hskipped⟩ := made
    simp only [hwritten, Bool.not_true, Bool.false_eq_true, if_false, happlied, hskipped]
    exact .written hfind ⟨hmakes, write⟩
  | brokenOff made breaks =>
    obtain ⟨-, -, old, edited, hmakes, rfl, -⟩ := made
    exact .brokenOff hmakes breaks

end FixesLine

/-! ## The check of a line -/

/-- A check of a line forgets the file, looks at it anew, and changes statuses. -/
theorem verifyFix_fst (parser : Parser) {s : Session} {w : Workspace} (path : String) (line : Int)
    (hw : s.workspace? = some w) : ∃ statuses, (s.verifyFix parser path line).1 =
      s.withWorkspace ⟨((w.linter.invalidate path).lintFile parser s.files path).2, statuses⟩ := by
  rw [verifyFix, hw]
  dsimp only
  split
  · exact ⟨_, rfl⟩
  · exact ⟨_, rfl⟩

/-! ## All fixes of a file -/

/-- The session after the fixes of a file are made: it looks at the file once more, and
marks each line that had violations by whether it still has any. -/
def verifying (parser : Parser) (s : Session) (w : Workspace) (path : String)
    (files : FileSystem) (linter : Linter) : Session :=
  let again := linter.lintFile parser files path
  { files
    workspace? := some {
      linter := again.2
      statuses := w.statuses.mark (s.reported parser w path) fun v =>
        if (again.1.map (·.lineNumber)).contains v.lineNumber then .failed else .verified } }

section FixesFile

variable (parser : Parser) (s : Session) (w : Workspace) (path : String) (dryRun : Bool)

/-- How a call for the fixes of a file can end. -/
inductive FixesFile : Session × Except Failure String → Prop
  | clean (nothing : s.reported parser w path = []) :
      FixesFile (s.withWorkspace (s.looking parser w path),
        .ok ("No violations found for `" ++ path ++ "`."))
  | unwritten {e : Failure} (dirty : s.reported parser w path ≠ [])
      (fix : (Fixer.fixing parser (s.looking parser w path).linter path dryRun).exec s.files =
        (.error e, s.files))
      (file : e.isFileError = true) :
      FixesFile (s.withWorkspace (s.looking parser w path),
        .ok ("Error applying fixes: " ++ e.message))
  | refused {e : Failure} (dirty : s.reported parser w path ≠ [])
      (fix : (Fixer.fixing parser (s.looking parser w path).linter path dryRun).exec s.files =
        (.error e, s.files))
      (file : e.isFileError = false) :
      FixesFile (s.withWorkspace (s.looking parser w path), .error e)
  | previewed {o : FixOutcome} {files : FileSystem} {linter : Linter} (dry : dryRun = true)
      (dirty : s.reported parser w path ≠ [])
      (fix : Fixer.fixFile parser s.files (s.looking parser w path).linter path true =
        .ok (o, files, linter)) :
      FixesFile (s.withWorkspace (s.looking parser w path),
        .ok (fixSummary path (s.reported parser w path).length (metric "Would fix" o.applied)
          o.message))
  | fixed {o : FixOutcome} {files : FileSystem} {linter : Linter} (dry : dryRun = false)
      (dirty : s.reported parser w path ≠ [])
      (fix : Fixer.fixFile parser s.files (s.looking parser w path).linter path false =
        .ok (o, files, linter)) :
      FixesFile (s.verifying parser w path files linter,
        .ok (fixSummary path (s.reported parser w path).length
          (metric "Edits applied" o.applied ++ metric "Passes" o.passes ++
            metric "Violations remaining" (linter.lintFile parser files path).1.length)
          o.message))
  | brokenOff {language : Language} {old : Bytes} {fixed : FixedSource} {location : Location}
      {fault : Fault} (dry : dryRun = false) (dirty : s.reported parser w path ≠ [])
      (makes : Fixer.MakesFixed parser w.linter.rule s.files (w.linter.resolve path) language old
        fixed)
      (breaks : s.files.BreaksOff (w.linter.resolve path) location fault) :
      FixesFile (s.broken parser w path location fault fixed.source,
        .ok ("Error applying fixes: " ++ fault.reason))

variable {parser s w path dryRun}

theorem fixesFile_fixAll (hw : s.workspace? = some w) :
    FixesFile parser s w path dryRun (s.fixAll parser path dryRun) := by
  by_cases hnone : s.reported parser w path = []
  · simp only [fixAll, hw, lintFile_eq, hnone, List.isEmpty_nil, if_true]
    exact .clean hnone
  have hsome : (s.reported parser w path).isEmpty = false := by simpa using hnone
  simp only [fixAll, hw, lintFile_eq, hsome, Bool.false_eq_true, if_false]
  rcases hfix : (Fixer.fixing parser (s.looking parser w path).linter path dryRun).exec s.files
    with ⟨answer, files⟩
  have hattempt := Fixer.attempt_fixing parser s.files (s.looking parser w path).linter path dryRun
  rw [hfix] at hattempt
  cases hattempt with
  | failed e =>
    cases hfile : e.isFileError with
    | true =>
      simp only [hfile, if_true]
      exact .unwritten hnone hfix hfile
    | false =>
      simp only [hfile, Bool.false_eq_true, if_false]
      exact .refused hnone hfix hfile
  | @kept r hkept =>
    cases dryRun with
    | true => exact .previewed rfl hnone (Fixer.fixFile_eq_ok_iff.2 hfix)
    | false => exact .fixed rfl hnone (Fixer.fixFile_eq_ok_iff.2 hfix)
  | written made write =>
    obtain ⟨rfl, -⟩ := made
    exact .fixed rfl hnone (Fixer.fixFile_eq_ok_iff.2 hfix)
  | brokenOff made breaks =>
    obtain ⟨hreal, -, -, language, old, fixed, hmakes, rfl, -⟩ := made
    rw [looking, Linter.rule_lintFile, Linter.resolve_lintFile] at hmakes
    rw [looking, Linter.resolve_lintFile] at breaks
    exact .brokenOff hreal hnone hmakes breaks

/-- A call for the fixes of a file tells why they could not all be stored. -/
theorem fixAll_of_breaksOff {language : Language} {old : Bytes} {fixed : FixedSource}
    {location : Location} {fault : Fault} (hw : s.workspace? = some w)
    (dirty : s.reported parser w path ≠ [])
    (makes : Fixer.MakesFixed parser w.linter.rule s.files (w.linter.resolve path) language old
      fixed)
    (breaks : s.files.BreaksOff (w.linter.resolve path) location fault) :
    s.fixAll parser path false = (s.broken parser w path location fault fixed.source,
      .ok ("Error applying fixes: " ++ fault.reason)) := by
  have hsome : (s.reported parser w path).isEmpty = false := by simpa using dirty
  have hresolve : (s.looking parser w path).linter.resolve path = w.linter.resolve path :=
    Linter.resolve_lintFile parser s.files w.linter path path
  have hrule : (s.looking parser w path).linter.rule = w.linter.rule :=
    Linter.rule_lintFile parser s.files w.linter path
  rw [← hrule, ← hresolve] at makes
  rw [← hresolve] at breaks
  simp only [fixAll, hw, lintFile_eq, hsome, Bool.false_eq_true, if_false,
    Fixer.exec_fixing_of_breaksOff makes breaks]
  rfl

end FixesFile

/-! ## What is written -/

section Writes

variable {parser : Parser} {s : Session} {w : Workspace} {path : String} {line : Int}

theorem WritesLine.applying (h : s.WritesLine parser w path line) :
    ∃ o files, (Fixer.applying parser (w.linter.resolve path)
      ((s.editsFor parser w path line).map .ofEdit) false).exec s.files = (.ok o, files) ∧
      o.written = true := by
  obtain ⟨old, edited, files, hwrites⟩ := h
  obtain ⟨o, ho, hwritten, -⟩ := Fixer.exec_applying_of_writes hwrites
  exact ⟨o, files, ho, hwritten⟩

theorem WritesLine.not_breaksOff (h : s.WritesLine parser w path line) {location : Location}
    {fault : Fault} : ¬s.files.BreaksOff (w.linter.resolve path) location fault := by
  obtain ⟨old, edited, files, hwrites⟩ := h
  exact fun hbreaks => hbreaks.write_ne_ok _ _ hwrites.write

theorem WritesLine.editsFor_ne_nil (h : s.WritesLine parser w path line) :
    s.editsFor parser w path line ≠ [] := by
  intro hnone
  obtain ⟨old, edited, files, hwrites⟩ := h
  have happly := hwrites.apply
  rw [hnone] at happly
  obtain rfl := Except.ok.inj happly
  exact hwrites.taken (by simp [Edit.apply, Edit.fromBack])

/-- A call for the fixes of a line that are fit to be written writes them. -/
theorem applyFix_of_writes (hw : s.workspace? = some w) {target : Target} {old : Bytes}
    {edited : Edited} {files : FileSystem}
    (hfind : Target.find? path line (s.reported parser w path) = some target)
    (hwrites : Fixer.WritesEdits parser s.files (w.linter.resolve path)
      ((s.editsFor parser w path line).map .ofEdit) old edited files) :
    s.applyFix parser path line = (s.marking parser w path target files,
      .ok (appliedText path target.note edited.applied edited.skipped)) := by
  have hline : s.WritesLine parser w path line := ⟨old, edited, files, hwrites⟩
  obtain ⟨o, files', happly, hwritten⟩ := hline.applying
  have hcall : FixesLine parser s w path line (s.applyFix parser path line) :=
    fixesLine_applyFix hw
  generalize s.applyFix parser path line = r at hcall ⊢
  cases hcall with
  | clean find => cases find.symm.trans hfind
  | unfixable find nothing =>
    exact absurd ((editsFor_of_some find).trans nothing) hline.editsFor_ne_nil
  | unwritten _ apply _ => cases apply.symm.trans happly
  | refused _ apply _ => cases apply.symm.trans happly
  | kept _ apply written =>
    cases apply.symm.trans happly
    cases written.symm.trans hwritten
  | written find writes =>
    cases find.symm.trans hfind
    cases writes.read.symm.trans hwrites.read
    cases writes.apply.symm.trans hwrites.apply
    cases writes.write.symm.trans hwrites.write
    rfl
  | brokenOff _ breaks => exact absurd breaks hline.not_breaksOff

/-- A call for the fixes of a line writes the file just when they are fit to be written.
Otherwise it leaves the session as it is after the look, but for a write that breaks off. -/
theorem applyFix_cases (parser : Parser) (path : String) (line : Int)
    (hw : s.workspace? = some w) :
    ¬s.WritesLine parser w path line ∧
        (s.applyFix parser path line).1 = s.withWorkspace (s.looking parser w path) ∨
      s.WritesLine parser w path line ∧ (∃ target new files,
        s.files.write (w.linter.resolve path) new = .ok files ∧
        (s.applyFix parser path line).1 = s.marking parser w path target files) ∨
      ¬s.WritesLine parser w path line ∧ ∃ location fault new,
        s.files.BreaksOff (w.linter.resolve path) location fault ∧
        (s.applyFix parser path line).1 = s.broken parser w path location fault new := by
  by_cases hline : s.WritesLine parser w path line
  · obtain ⟨target, hfind⟩ := exists_target_of_editsFor hline.editsFor_ne_nil
    obtain ⟨old, edited, files, hwrites⟩ := id hline
    have hcall := applyFix_of_writes hw hfind hwrites
    exact .inr (.inl ⟨hline, target, _, files, hwrites.write, congrArg Prod.fst hcall⟩)
  · have hcall : FixesLine parser s w path line (s.applyFix parser path line) :=
      fixesLine_applyFix hw
    generalize s.applyFix parser path line = r at hcall ⊢
    cases hcall with
    | written find writes => exact absurd ⟨_, _, _, writes⟩ hline
    | brokenOff _ breaks => exact .inr (.inr ⟨hline, _, _, _, breaks, rfl⟩)
    | _ => exact .inl ⟨hline, rfl⟩

theorem WritesFile.fixing (h : s.WritesFile parser w path) {linter : Linter}
    (hrule : linter.rule = w.linter.rule) (hresolve : linter.resolve path = w.linter.resolve path) :
    ∃ r files, (Fixer.fixing parser linter path false).exec s.files = (.ok r, files) ∧
      r.1.written = true := by
  obtain ⟨language, old, fixed, files, hwrites⟩ := h
  rw [← hrule, ← hresolve] at hwrites
  obtain ⟨o, ho, hwritten, -⟩ := Fixer.exec_fixing_of_writes hwrites
  exact ⟨_, files, ho, hwritten⟩

theorem WritesFile.not_breaksOff (h : s.WritesFile parser w path) {location : Location}
    {fault : Fault} : ¬s.files.BreaksOff (w.linter.resolve path) location fault := by
  obtain ⟨language, old, fixed, files, hwrites⟩ := h
  exact fun hbreaks => hbreaks.write_ne_ok _ _ hwrites.write

/-- A call for the fixes of a file that has violations writes it just when it is not dry
and they are fit to be written. Then the linter forgets the file and looks at it anew;
otherwise it has looked at the same files as before, also if a write breaks off then. -/
theorem fixAll_cases (parser : Parser) (path : String) (dryRun : Bool)
    (hw : s.workspace? = some w) :
    let wrote := dryRun = false ∧ s.reported parser w path ≠ [] ∧ s.WritesFile parser w path
    let left := (s.fixAll parser path dryRun).1
    ¬wrote ∧ left.files = s.files ∧
        (∃ w', left.workspace? = some w' ∧ Linter.Looked parser s.files w.linter w'.linter) ∨
      wrote ∧ (∃ new files,
        s.files.write (w.linter.resolve path) new = .ok files ∧
        left = s.verifying parser w path files
          ((s.looking parser w path).linter.invalidate path)) ∨
      ¬wrote ∧ dryRun = false ∧ ∃ location fault new,
        s.files.BreaksOff (w.linter.resolve path) location fault ∧
        left = s.broken parser w path location fault new := by
  have hlooked : Linter.Looked parser s.files w.linter (s.looking parser w path).linter :=
    .lintFile parser s.files w.linter path
  have hresolve : (s.looking parser w path).linter.resolve path = w.linter.resolve path :=
    Linter.resolve_lintFile parser s.files w.linter path path
  have hfix (h : dryRun = false ∧ s.reported parser w path ≠ [] ∧ s.WritesFile parser w path) :
      ∃ r files, (Fixer.fixing parser (s.looking parser w path).linter path dryRun).exec s.files =
        (.ok r, files) ∧ r.1.written = true := by
    obtain ⟨rfl, -, hwrites⟩ := h
    exact hwrites.fixing hlooked.rule hresolve
  have hcall : FixesFile parser s w path dryRun (s.fixAll parser path dryRun) :=
    fixesFile_fixAll hw
  generalize s.fixAll parser path dryRun = r at hcall ⊢
  cases hcall with
  | clean nothing => exact .inl ⟨fun h => h.2.1 nothing, rfl, _, rfl, hlooked⟩
  | unwritten dirty fix file | refused dirty fix file =>
    refine .inl ⟨fun h => ?_, rfl, _, rfl, hlooked⟩
    obtain ⟨r, files, hr, -⟩ := hfix h
    cases fix.symm.trans hr
  | previewed dry dirty fix =>
    refine .inl ⟨fun ⟨hreal, _⟩ => ?_, rfl, _, rfl, hlooked⟩
    cases dry.symm.trans hreal
  | fixed dry dirty fix =>
    have hlinter := Fixer.fixFile_linter fix
    rcases Fixer.fixFile_cases fix with ⟨hkept, rfl⟩ |
      ⟨hwritten, -, language, old, fixed, hwrites, -⟩
    · rw [hkept, if_neg Bool.false_ne_true] at hlinter
      subst hlinter
      refine .inl ⟨fun h => ?_, rfl, _, rfl,
        hlooked.trans (.lintFile parser s.files _ path)⟩
      obtain ⟨r, files, hr, hwritten⟩ := hfix h
      cases dry
      cases (Fixer.fixFile_eq_ok_iff.1 fix).symm.trans hr
      cases hkept.symm.trans hwritten
    · rw [hwritten, if_pos rfl] at hlinter
      subst hlinter
      rw [hlooked.rule, hresolve] at hwrites
      exact .inr (.inl ⟨⟨dry, dirty, _, _, _, _, hwrites⟩, _, _, hwrites.write, rfl⟩)
  | brokenOff dry dirty makes breaks =>
    exact .inr (.inr ⟨fun h => h.2.2.not_breaksOff breaks, dry, _, _, _, breaks, rfl⟩)

end Writes

end Session

end YieldLint
