/-
What comes of a look that fails.

Reading a file and parsing it can fail, and a look at a file does both. The look is a program
over the linter, in which what the linter keeps by the time of a failure stays kept. It catches
both failures and never fails itself (`exec_linting`), nor does linting a workspace, file by file
(`exec_lintingAll`). There are six reasons for which nothing is found in a file
(`Document.Obstructed`, `unlintable_iff_obstructed`), all of them met before a document is kept.
So a look that finds nothing leaves the session as it was, and the next one looks at the files
as they are by then (`failed_looks_are_forgotten`).
-/
import YieldLint.Proofs.Verdicts

namespace YieldLint

/-! ## Six reasons to find nothing -/

/-- Why a file is not looked at: its type is unknown, there is no such file, it is something else
than a file, it may not be read, it is binary, or the parser refuses it. -/
inductive Document.Obstructed (parser : Parser) (fs : FileSystem) (path : String) : Prop
  | unsupported (untyped : Language.ofPath? path = none)
  | missing (gone : fs.hasPath path = false)
  | notAFile (there : fs.hasPath path = true) (other : fs.isFile path = false)
  | unreadable (file : fs.isFile path = true)
      (denied : fs.read path = .error (.permissionDenied (.opening path)))
  | binary {source : Bytes} (read : fs.read path = .ok source) (zero : 0 ∈ source.take 8192)
  | refused {language : Language} {source : Bytes} {message : String}
      (known : Language.ofPath? path = some language) (read : fs.read path = .ok source)
      (refused : parser language source = .error message)

namespace FileSystem

variable {fs : FileSystem} {path : String}

theorem read_of_isFile (h : fs.isFile path = true) :
    fs.read path = .error (.permissionDenied (.opening path)) ∨
      ∃ content, fs.read path = .ok content := by
  rw [isFile, entry?] at h
  rw [read_eq]
  cases hleads : fs.locate? path with
  | none =>
    rw [hleads] at h
    cases h
  | some location =>
    rw [hleads, Option.bind_some] at h
    dsimp only
    split
    · exact .inl rfl
    obtain ⟨e, he, hfile⟩ := (Option.any_eq_true _ _).1 h
    cases e with
    | dir => cases hfile
    | file content =>
      rw [content?, Entry.content?_eq_some_iff.2 he]
      exact .inr ⟨content, rfl⟩

end FileSystem

namespace Document

variable {parser : Parser} {fs : FileSystem} {path : String}

/-- A file cannot be linted just when one of the six reasons is there. -/
theorem unlintable_iff_obstructed :
    Unlintable parser fs path ↔ Obstructed parser fs path := by
  constructor
  · intro h
    cases h with
    | unknown untyped => exact .unsupported untyped
    | @unread e read =>
      cases hthere : fs.hasPath path with
      | false => exact .missing hthere
      | true =>
      cases hfile : fs.isFile path with
      | false => exact .notAFile hthere hfile
      | true =>
        rcases FileSystem.read_of_isFile hfile with hdenied | ⟨content, hread⟩
        · exact .unreadable hfile hdenied
        · cases read.symm.trans hread
    | binary read binary => exact .binary read (List.contains_iff_mem.1 binary)
    | refused known read refused =>
      obtain ⟨message, hmessage, -⟩ := refused
      exact .refused known read hmessage
  · intro h
    cases h with
    | unsupported untyped => exact .unknown untyped
    | missing gone =>
      cases hread : fs.read path with
      | error e => exact .unread hread
      | ok content => cases gone.symm.trans (FileSystem.hasPath_of_read hread)
    | notAFile _ other =>
      cases hread : fs.read path with
      | error e => exact .unread hread
      | ok content => cases other.symm.trans (FileSystem.isFile_of_read hread)
    | unreadable _ denied => exact .unread denied
    | binary read zero => exact .binary read (List.contains_iff_mem.2 zero)
    | refused known read refused => exact .refused known read ⟨_, refused, rfl⟩

end Document

/-! ## A look that finds nothing -/

namespace Linter

variable {parser : Parser} {fs : FileSystem} {l : Linter} {path : String}

theorem document?_fst_eq_none_iff : (l.document? parser fs path).1 = none ↔
    l.cache.get? (l.resolve path) = none ∧
      Document.Obstructed parser fs (l.resolve path) := by
  rw [document?_fst, found, ← Document.unlintable_iff_obstructed, ← Document.load?_eq_none_iff]
  cases l.cache.get? (l.resolve path) with
  | some d => simp
  | none => simp

theorem lintFile_of_none (h : (l.document? parser fs path).1 = none) :
    l.lintFile parser fs path = ([], l) := by
  obtain ⟨hkept, hobstructed⟩ := document?_fst_eq_none_iff.1 h
  have hload := Document.load?_eq_none_iff.2 (Document.unlintable_iff_obstructed.2 hobstructed)
  rw [lintFile_eq, document?_of_none hkept, found, hkept, hload, report]

/-- A look at a file that nothing stands in the way of reports on what is in it, if nothing is
kept. -/
theorem exists_lint_of_not_obstructed (hkept : l.cache.get? (l.resolve path) = none)
    (h : ¬Document.Obstructed parser fs (l.resolve path)) :
    ∃ language content, Language.ofPath? (l.resolve path) = some language ∧
      fs.read (l.resolve path) = .ok content ∧
      l.rule.lint parser language content (Path.normalize path) =
        .ok (l.lintFile parser fs path).1 := by
  cases hload : Document.load? parser fs (l.resolve path) with
  | none =>
    exact absurd (Document.unlintable_iff_obstructed.1 (Document.load?_eq_none_iff.1 hload)) h
  | some d =>
    obtain ⟨language, hknown, hread, -, hlint⟩ := Document.lint_of_load? hload l.rule path
    refine ⟨language, d.source, hknown, hread, ?_⟩
    rw [lintFile_fst, found, hkept, hload]
    exact hlint

end Linter

namespace Session

variable {s : Session} {w : Workspace}

theorem withWorkspace_of_loaded (hw : s.workspace? = some w) : s.withWorkspace w = s := by
  rw [withWorkspace, ← hw]

theorem step_lintFile (parser : Parser) (hw : s.workspace? = some w) (path : String) :
    s.step parser (.lintFile path) =
      (s.withWorkspace (s.looking parser w path), .ok (.violations (s.reported parser w path))) := by
  simp only [step, onWorkspace, hw, lintFile_eq]

theorem workspace?_after_changes (parser : Parser) (changes : List Change) : ∀ s : Session,
    (s.after parser (changes.map .change)).workspace? = s.workspace? := by
  induction changes with
  | nil => exact fun s => rfl
  | cons c changes ih =>
    intro s
    rw [List.map_cons, after_cons, ih, step]
    split
    · rfl
    · rfl

/-- **A look that fails is forgotten.** Let a workspace be loaded, in whatever state the session
is. Looking at a file and linting the workspace never fail, whatever cannot be read or parsed, and
what could not be looked at in linting the workspace is not kept. A look at a path finds nothing
just when nothing is kept for it and its type is unknown, or there is no such file, or it is
something else than a file, or may not be read, or is binary, or the parser refuses it. Then
nothing is reported and the session is left as it was. So if the files are changed in any way,
and the parser too, until nothing stands in the way any more, the next look reports what linting
the bytes reports that are in the file by then. -/
theorem failed_looks_are_forgotten (parser : Parser) {s : Session} {w : Workspace}
    (hw : s.workspace? = some w) (path : String) :
    let key := w.linter.resolve path
    let look := s.step parser (.lintFile path)
    (∃ vs linter, (Linter.linting parser s.files path).exec w.linter = (.ok vs, linter) ∧
      look = (s.withWorkspace { w with linter }, .ok (.violations vs))) ∧
    (∃ report linter, (Linter.lintingAll parser s.files).exec w.linter = (.ok report, linter) ∧
      s.step parser .lintWorkspace =
        (s.withWorkspace { w with linter }, .ok (.report report.entries)) ∧
      ∀ key, w.linter.cache.get? key = none → Document.Obstructed parser s.files key →
        linter.cache.get? key = none) ∧
    ((w.linter.document? parser s.files path).1 = none ↔
      w.linter.cache.get? key = none ∧ Document.Obstructed parser s.files key) ∧
    ((w.linter.document? parser s.files path).1 = none →
      look = (s, .ok (.violations [])) ∧
      ∀ (parser' : Parser) (changes : List Change),
        let now := look.1.after parser' (changes.map .change)
        ¬Document.Obstructed parser' now.files key →
          ∃ language content vs, Language.ofPath? key = some language ∧
            now.files.read key = .ok content ∧
            w.linter.rule.lint parser' language content (Path.normalize path) = .ok vs ∧
            (now.step parser' (.lintFile path)).2 = .ok (.violations vs)) := by
  intro key look
  refine ⟨⟨_, _, Linter.exec_linting .., step_lintFile parser hw path⟩,
    ⟨_, _, Linter.exec_lintingAll .., ?_, fun key hkept hobstructed => ?_⟩,
    Linter.document?_fst_eq_none_iff, fun hnone => ?_⟩
  · simp only [step, onWorkspace, hw]
  · cases hnow : (w.linter.lintWorkspace parser s.files).2.cache.get? key with
    | none => rfl
    | some d =>
      have hload := Document.load?_eq_none_iff.2
        (Document.unlintable_iff_obstructed.2 hobstructed)
      rcases (Linter.looked_lintWorkspace parser s.files w.linter).given key d hnow with hd | hd
      · cases hkept.symm.trans hd
      · cases hload.symm.trans hd
  · have hlook : look = (s, .ok (.violations [])) := by
      have hlint := Linter.lintFile_of_none hnone
      have hreported : s.reported parser w path = [] := congrArg Prod.fst hlint
      have hlooking : s.looking parser w path = w := by rw [looking, hlint]
      have hstep : look = _ := step_lintFile parser hw path
      rw [hstep, hreported, hlooking, withWorkspace_of_loaded hw]
    refine ⟨hlook, ?_⟩
    intro parser' changes now hclear
    have hloaded : now.workspace? = some w := by
      rw [← hw, ← congrArg (·.1.workspace?) hlook]
      exact workspace?_after_changes parser' changes look.1
    have hkept := (Linter.document?_fst_eq_none_iff.1 hnone).1
    obtain ⟨language, content, hknown, hread, hlint⟩ :=
      Linter.exists_lint_of_not_obstructed hkept hclear
    exact ⟨language, content, _, hknown, hread, hlint,
      congrArg Prod.snd (step_lintFile parser' hloaded path)⟩

end Session

open NestedSaga in
/-- While the saga may not be read, a look at it reports nothing; when it may be read again, the
next look reports its outer yield. -/
theorem failed_looks_of_nestedSaga :
    let loaded : Session := ⟨DeepSaga.files (source false true), some { linter := { root := "ws" } }⟩
    let denied := (loaded.step parser (.change (.denyRead "ws/a.js"))).1
    let allowed := denied.after parser [.change .allowAll]
    denied.step parser (.lintFile "a.js") = (denied, .ok (.violations [])) ∧
      ∃ vs, (allowed.step parser (.lintFile "a.js")).2 = .ok (.violations vs) ∧
        vs.map (·.column) = [49] := by
  intro loaded denied allowed
  have hloaded : denied.workspace? = some { linter := { root := "ws" } } := rfl
  obtain ⟨-, -, hfails, hforgotten⟩ := Session.failed_looks_are_forgotten parser hloaded "a.js"
  rw [resolve_ws] at hfails hforgotten
  have hobstructed : Document.Obstructed parser denied.files "ws/a.js" :=
    .unreadable (by decide +kernel) rfl
  obtain ⟨hlook, hnext⟩ := hforgotten (hfails.2 ⟨Table.get?_empty _, hobstructed⟩)
  have hread : allowed.files.read "ws/a.js" = .ok (source false true) :=
    (DeepSaga.holds_files (source false true)).read
  have hclear : ¬Document.Obstructed parser allowed.files "ws/a.js" := by
    rw [← Document.unlintable_iff_obstructed, ← Document.load?_eq_none_iff,
      load?_source (fun _ => rfl) ofPath?_ws hread]
    nofun
  rw [hlook] at hnext
  obtain ⟨language, content, vs, hknown, hcontent, hlint, hreported⟩ :=
    hnext parser [.allowAll] hclear
  refine ⟨hlook, vs, hreported, ?_⟩
  obtain rfl : .javascript = language := Option.some.inj (ofPath?_ws.symm.trans hknown)
  obtain rfl : source false true = content := Except.ok.inj (hread.symm.trans hcontent)
  rw [normalize_ws] at hlint
  obtain rfl := Except.ok.inj (hlint.symm.trans (lint_source (fun _ => rfl) "a.js"))
  decide +kernel

end YieldLint
