/-
What all fixes of a file are told to have come to.

When the fixes of a file have been made, the tool looks at it once more, and marks its lines by
what it finds. If the file was written, the linter has forgotten it and reads it; that it can
be looked at again is up to the fixer, which drops what the parser refuses (`Run.accepted`) and
moves no zero forward (`Run.delayed`). If it was not, the linter reports on the document that it
keeps. `Linter.UpToDate` says that this is what the file holds; then the marks are those of what
it holds in the end, written or not (`lintFile_fst_of_fixFile`, `fixAll_judges_what_is_held`).
-/
import YieldLint.Proofs.Bookkeeping
import YieldLint.Proofs.Summaries

namespace YieldLint

namespace Fixer

variable {parser : Parser} {rule : Rule} {language : Language} {left : Nat} {source : Bytes}
  {fixed : FixedSource}

/-! ## What is made can be linted -/

theorem Run.delayed (run : Run parser rule language left source fixed) :
    Delayed source fixed.source := by
  induction run with
  | exhausted | settled | idle | broken => exact .refl _
  | next lint apply _ _ _ ih =>
    obtain ⟨parsed, -, rfl⟩ := lint_eq_ok_iff.1 lint
    subst apply
    exact (delayed_apply "" parsed.root).trans ih

theorem exists_parsed_of_breaks {old new : Bytes} {b : Bool}
    (h : breaks parser language old new = .ok b) : ∃ parsed, parser language new = .ok parsed := by
  rw [breaks] at h
  cases hparse : parser.parse language new with
  | error e =>
    rw [hparse] at h
    cases h
  | ok parsed => exact ⟨parsed, Parser.parse_eq_ok_iff.1 hparse⟩

theorem Run.accepted (run : Run parser rule language left source fixed)
    (h : ∃ parsed, parser language source = .ok parsed) :
    ∃ parsed, parser language fixed.source = .ok parsed := by
  induction run with
  | exhausted | settled | idle | broken => exact h
  | next _ _ _ holds _ ih => exact ih (exists_parsed_of_breaks holds)

variable {fs fs' : FileSystem} {l l' : Linter} {path : String} {o : FixOutcome} {d : Document}

/-- What the fixer writes over a file that can be linted can be linted. -/
theorem WritesFixed.exists_load? (hload : Document.load? parser fs path = some d)
    (h : WritesFixed parser rule fs path language source fixed fs') :
    ∃ d', Document.load? parser fs' path = some d' ∧ d'.source = fixed.source := by
  obtain ⟨language', hknown, hread, hbinary, hparsed⟩ := Document.load?_eq_some_iff.1 hload
  obtain rfl : language = language' := Option.some.inj (h.known.symm.trans hknown)
  obtain rfl : source = d.source := Except.ok.inj (h.read.symm.trans hread)
  have run := passes_eq_ok_iff.1 h.passes
  obtain ⟨parsed, hnew⟩ := run.accepted ⟨d.parsed, hparsed⟩
  obtain ⟨location, hholds⟩ := FileSystem.exists_holds h.read h.write
  obtain rfl : fs' = fs.store location fixed.source :=
    Except.ok.inj (h.write.symm.trans (hholds.write _))
  refine ⟨⟨fixed.source, parsed⟩, Document.load?_eq_some_iff.2 ?_, rfl⟩
  exact ⟨language, hknown, (hholds.store _).read, run.delayed.isBinary hbinary, hnew⟩

theorem exists_read_of_fixFile {dryRun : Bool}
    (h : fixFile parser fs l path dryRun = .ok (o, fs', l'))
    (hknown : Language.ofPath? (l.resolve path) = some language)
    (hpath : fs.hasPath (l.resolve path) = true) :
    ∃ content, fs.read (l.resolve path) = .ok content := by
  cases hread : fs.read (l.resolve path) with
  | ok content => exact ⟨content, rfl⟩
  | error e =>
    have hcame := fixFile_eq_ok_iff.1 h
    unfold fixing at hcame
    dsimp only at hcame
    rw [hknown] at hcame
    dsimp only at hcame
    rw [Program.exec_bind_of_ok (FileProgram.exec_hasPath _ fs), hpath, if_neg (by simp),
      Program.exec_bind_of_error (by rw [FileProgram.exec_read, hread])] at hcame
    cases hcame

theorem lintFile_fst_of_fixFile {dryRun : Bool}
    (h : fixFile parser fs l path dryRun = .ok (o, fs', l'))
    (hload : Document.load? parser fs (l.resolve path) = some d)
    (hfound : l.found parser fs (l.resolve path) = some d) :
    ∃ d', Document.load? parser fs' (l.resolve path) = some d' ∧
      (l'.lintFile parser fs' path).1 = Linter.report l.rule path (some d') := by
  have hlinter := fixFile_linter h
  rcases fixFile_cases h with ⟨hkept, rfl⟩ | ⟨hwritten, -, language, old, fixed, hwrites, -⟩
  · rw [hkept, if_neg Bool.false_ne_true] at hlinter
    subst hlinter
    exact ⟨d, hload, by rw [Linter.lintFile_fst, hfound]⟩
  · rw [hwritten, if_pos rfl] at hlinter
    subst hlinter
    obtain ⟨d', hd', -⟩ := hwrites.exists_load? hload
    exact ⟨d', hd', by rw [Linter.lintFile_invalidate_fst, hd']⟩

end Fixer

/-! ## Documents that are up to date -/

namespace Linter

/-- The linter keeps no document for a path, or one of what its file holds. -/
def UpToDate (fs : FileSystem) (l : Linter) (path : String) : Prop :=
  ∀ d, l.cache.get? (l.resolve path) = some d → ∃ location,
    fs.locate? (l.resolve path) = some location ∧ fs.content? location = some d.source

end Linter

namespace Session

/-- A file is of a known type and there, and if it can be read, it gives a document. -/
structure Gives (parser : Parser) (s : Session) (w : Workspace) (path : String) (d : Document) :
    Prop where
  known : ∃ language, Language.ofPath? (w.linter.resolve path) = some language
  there : s.files.hasPath (w.linter.resolve path) = true
  load : ∀ content, s.files.read (w.linter.resolve path) = .ok content →
    Document.load? parser s.files (w.linter.resolve path) = some d

theorem gives_of_upToDate {parser : Parser} {files : FileSystem} {cs : List Command}
    {w : Workspace} {path : String} {d : Document}
    (hw : (after parser { files } cs).workspace? = some w)
    (hcurrent : w.linter.UpToDate (after parser { files } cs).files path)
    (hfound : w.linter.found parser (after parser { files } cs).files (w.linter.resolve path) =
      some d) : Gives parser (after parser { files } cs) w path d := by
  obtain ⟨before, since, -, hload, -⟩ := exists_moment_of_found (not_keeps files) cs hw hfound
  obtain ⟨language, hknown, -, hbinary, hparsed⟩ := Document.load?_eq_some_iff.1 hload
  rw [Linter.found] at hfound
  split at hfound
  · rename_i kept hkept
    obtain rfl := Option.some.inj hfound
    obtain ⟨location, hleads, hholds⟩ := hcurrent kept hkept
    refine ⟨⟨language, hknown⟩, FileSystem.hasPath_of_content hleads hholds,
      fun content hread => ?_⟩
    obtain ⟨location', hleads', hreadable, -⟩ := FileSystem.read_eq_ok_iff.1 hread
    obtain rfl : location = location' := Option.some.inj (hleads.symm.trans hleads')
    refine Document.load?_eq_some_iff.2 ⟨language, hknown, ?_, hbinary, hparsed⟩
    exact FileSystem.read_eq_ok_iff.2 ⟨location, hleads, hreadable, hholds⟩
  · obtain ⟨-, -, hread, -⟩ := Document.load?_eq_some_iff.1 hfound
    exact ⟨⟨language, hknown⟩, FileSystem.hasPath_of_read hread, fun _ _ => hfound⟩

theorem get?_verifying (parser : Parser) {s : Session} {w : Workspace} (path : String)
    (files : FileSystem) (linter : Linter) (key : StatusKey) :
    let before := s.reported parser w path
    let after := (linter.lintFile parser files path).1
    (s.verifying parser w path files linter).statuses.get? key =
      if ∃ v ∈ before, key = .of path v.lineNumber then
        some (if ∃ u ∈ after, u.lineNumber = key.line then .failed else .verified)
      else w.statuses.get? key := by
  intro before after
  let status (line : Int) : Status :=
    if (after.map (·.lineNumber)).contains line then .failed else .verified
  have hmarked : (s.verifying parser w path files linter).statuses =
      w.statuses.mark before fun v => status v.lineNumber := rfl
  have hleft : (after.map (·.lineNumber)).contains key.line = true ↔
      ∃ u ∈ after, u.lineNumber = key.line := by
    rw [List.contains_iff_mem, List.mem_map]
  rw [hmarked, Statuses.get?_mark_of_lines fun v (hv : v ∈ before) =>
    StatusKey.ofViolation_of_reported hv]
  simp only [status, hleft]

theorem exists_judged {parser : Parser} {s : Session} {w : Workspace} {path : String}
    {o : FixOutcome} {files : FileSystem} {linter : Linter}
    (dirty : s.reported parser w path ≠ [])
    (fix : Fixer.fixFile parser s.files (s.looking parser w path).linter path false =
      .ok (o, files, linter))
    (hgives : ∀ d, w.linter.found parser s.files (w.linter.resolve path) = some d →
      Gives parser s w path d) :
    ∃ d d', Document.load? parser s.files (w.linter.resolve path) = some d ∧
      s.reported parser w path = Linter.report w.linter.rule path (some d) ∧
      Document.load? parser files (w.linter.resolve path) = some d' ∧
      (linter.lintFile parser files path).1 = Linter.report w.linter.rule path (some d') := by
  have hresolve : (s.looking parser w path).linter.resolve path = w.linter.resolve path :=
    Linter.resolve_lintFile ..
  have hrule : (s.looking parser w path).linter.rule = w.linter.rule := Linter.rule_lintFile ..
  have hlooking : ∀ key, (s.looking parser w path).linter.found parser s.files key =
      w.linter.found parser s.files key := Linter.found_lintFile parser s.files w.linter path
  rw [reported, Linter.lintFile_fst] at dirty ⊢
  cases hfound : w.linter.found parser s.files (w.linter.resolve path) with
  | none =>
    rw [hfound] at dirty
    exact absurd rfl dirty
  | some d =>
    obtain ⟨⟨language, hknown⟩, hpath, hload⟩ := hgives d hfound
    rw [← hresolve] at hknown hpath
    obtain ⟨content, hread⟩ := Fixer.exists_read_of_fixFile fix hknown hpath
    rw [hresolve] at hread
    have hnow := hload content hread
    have hagain := Fixer.lintFile_fst_of_fixFile (d := d) fix
    rw [hresolve, hlooking, hrule] at hagain
    obtain ⟨d', hnew, hreport⟩ := hagain hnow hfound
    exact ⟨d, d', hnow, rfl, hnew, hreport⟩

/-- **All fixes of a file are judged by what it holds in the end.** Let any commands be done,
tools and changes of the files from outside, and let the linter of the workspace then keep no
document for a path, or one of what its file holds. If all fixes of the file are made, not dry,
and the call answers with its summary, then the file could be linted as it was and can be as
it is: it is of a known type, it can be read and is not binary, and the parser refuses neither.
Every line on which linting what the file held reports a violation is now failed if linting
what it holds reports one there, and verified otherwise. All other statuses are as they were,
and the summary counts the violations of both. -/
theorem fixAll_judges_what_is_held (parser : Parser) (files : FileSystem) (cs : List Command)
    {w : Workspace} {path message : String} {s' : Session} {before applied passes left : Nat}
    (hw : (after parser { files } cs).workspace? = some w)
    (hcurrent : w.linter.UpToDate (after parser { files } cs).files path)
    (h : (after parser { files } cs).call parser (.fixAll path false) =
      (s', .ok (fixedText path before applied passes left message))) :
    let s := after parser { files } cs
    let key := w.linter.resolve path
    ∃ language old new vs us,
      Language.ofPath? key = some language ∧
      s.files.read key = .ok old ∧ Document.isBinary old = false ∧
      w.linter.rule.lint parser language old (Path.normalize path) = .ok vs ∧
      s'.files.read key = .ok new ∧ Document.isBinary new = false ∧
      w.linter.rule.lint parser language new (Path.normalize path) = .ok us ∧
      (∀ v ∈ vs, s'.statuses.get? (.of path v.lineNumber) =
        some (if ∃ u ∈ us, u.lineNumber = v.lineNumber then .failed else .verified)) ∧
      (∀ k, (∀ v ∈ vs, k ≠ .of path v.lineNumber) →
        s'.statuses.get? k = s.statuses.get? k) ∧
      before = vs.length ∧ left = us.length := by
  have hgives := fun d => gives_of_upToDate (d := d) hw hcurrent
  dsimp only
  generalize after parser { files } cs = s at hw h hgives ⊢
  obtain ⟨w', o, fixed, linter, hw', dirty, fix, rfl, rfl, -, -, rfl⟩ :=
    exists_fixed_of_fixedText h
  obtain rfl : w = w' := Option.some.inj (hw.symm.trans hw')
  obtain ⟨d, d', hold, hbefore, hnew, hafter⟩ := exists_judged dirty fix hgives
  obtain ⟨language, hknown, hread, hbinary, hlint⟩ :=
    Document.lint_of_load? hold w.linter.rule path
  obtain ⟨language', hknown', hread', hbinary', hlint'⟩ :=
    Document.lint_of_load? hnew w.linter.rule path
  obtain rfl : language = language' := Option.some.inj (hknown.symm.trans hknown')
  rw [← hbefore] at hlint
  rw [← hafter] at hlint'
  have hget := get?_verifying parser path (s := s) (w := w) fixed linter
  refine ⟨language, d.source, d'.source, _, _, hknown, hread, hbinary, hlint, hread', hbinary',
    hlint', fun v hv => ?_, fun k hk => ?_, rfl, rfl⟩
  · rw [hget, if_pos ⟨v, hv, rfl⟩]
    rfl
  · rw [hget, if_neg fun ⟨v, hv, he⟩ => hk v hv he, statuses_of_some hw]

end Session

open BinarySaga in
/-- The line of the saga is verified after all its fixes, and nothing is left of it. -/
theorem fixAll_saga_judged : ∃ s' passes message,
    let s := Session.after parser { files := DeepSaga.files (source false false) }
      [.tool (.loadWorkspace "ws")]
    s.workspace? = some { linter := { root := "ws" } } ∧
      Linter.UpToDate s.files { root := "ws" } "a.js" ∧
      s.call parser (.fixAll "a.js" false) =
        (s', .ok (Session.fixedText "a.js" 1 1 passes 0 message)) ∧
      s'.statuses.get? ⟨"a.js", 1, "delegate-effects"⟩ = some .verified := by
  obtain ⟨s', passes, message, hcall⟩ := fixAll_loaded
  have hs : Session.after parser { files := DeepSaga.files (source false false) }
      [.tool (.loadWorkspace "ws")] = loaded := by rfl
  have hloaded : loaded.workspace? = some { linter := { root := "ws" } } := rfl
  have hcurrent : Linter.UpToDate loaded.files { root := "ws" } "a.js" := fun d hd => by cases hd
  refine ⟨s', passes, message, ?_⟩
  intro s
  rw [← hs] at hloaded hcurrent hcall
  refine ⟨hloaded, hcurrent, hcall, ?_⟩
  obtain ⟨language, old, new, vs, us, hknown, hread, -, hlint, -, -, -, hline, -, -, hleft⟩ :=
    Session.fixAll_judges_what_is_held parser _ _ hloaded hcurrent hcall
  rw [NestedSaga.resolve_ws] at hknown hread
  obtain rfl : .javascript = language :=
    Option.some.inj (NestedSaga.ofPath?_ws.symm.trans hknown)
  have hfiles : s.files = DeepSaga.files (source false false) := congrArg Session.files hs
  obtain rfl : source false false = old := by
    have hheld := (DeepSaga.holds_files (source false false)).read
    rw [← hfiles] at hheld
    exact Except.ok.inj (hheld.symm.trans hread)
  obtain rfl : us = [] := List.length_eq_zero_iff.1 hleft.symm
  have hvs := Except.ok.inj ((lint_source false false _).symm.trans hlint)
  obtain ⟨v, hv, hvline⟩ : ∃ v ∈ vs, v.lineNumber = 1 := by
    rw [← hvs, NestedSaga.normalize_ws]
    decide +kernel
  have hkey : StatusKey.of "a.js" v.lineNumber = ⟨"a.js", 1, "delegate-effects"⟩ := by
    rw [StatusKey.of, hvline, NestedSaga.normalize_ws, Rule.id]
  rw [← hkey, hline v hv]
  rfl

end YieldLint
