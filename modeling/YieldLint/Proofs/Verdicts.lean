/-
What the check of a line can be trusted for.

The check makes the linter forget the file, looks at it anew and reports what is left on
the line (`verifyFix_eq`). A file that cannot be linted has no violations, so the check
answers of it what it answers of a clean line. `CleanLine` is the case that its words speak
of, `Unlintable` the other one; the check answers "verified" in these cases and no other
(`verified_iff_clean_or_unlintable`). The other one occurs: `verified_lost_nestedSaga`.
-/
import YieldLint.Proofs.Refusals

namespace YieldLint

theorem isPrefix_toList_append {p t : String} (h : p.toList <+: t.toList) (u : String) :
    p.toList <+: (t ++ u).toList := by
  rw [String.toList_append]
  exact h.trans (List.prefix_append _ _)

/-! ## Files that give no document -/

/-- Why a file cannot be linted: its type is unknown, it cannot be read, it is binary, or
the parser refuses it. -/
inductive Document.Unlintable (parser : Parser) (fs : FileSystem) (path : String) : Prop
  | unknown (untyped : Language.ofPath? path = none)
  | unread {e : Failure} (read : fs.read path = .error e)
  | binary {source : Bytes} (read : fs.read path = .ok source)
      (binary : Document.isBinary source = true)
  | refused {language : Language} {source : Bytes} {e : Failure}
      (known : Language.ofPath? path = some language) (read : fs.read path = .ok source)
      (refused : parser.Refuses language source e)

namespace Document

variable {parser : Parser} {fs : FileSystem} {path : String}

theorem Unlintable.load?_eq_none (h : Unlintable parser fs path) :
    load? parser fs path = none := by
  rw [Option.eq_none_iff_forall_ne_some]
  intro d hd
  obtain ⟨language, hknown, hread, htext, hparsed⟩ := load?_eq_some_iff.1 hd
  cases h with
  | unknown untyped => cases untyped.symm.trans hknown
  | unread read => cases read.symm.trans hread
  | binary read binary =>
    cases read.symm.trans hread
    cases binary.symm.trans htext
  | refused known read refused =>
    cases known.symm.trans hknown
    cases read.symm.trans hread
    obtain ⟨m, hm, -⟩ := refused
    cases hm.symm.trans hparsed

theorem unlintable_of_load? (h : load? parser fs path = none) : Unlintable parser fs path := by
  cases hknown : Language.ofPath? path with
  | none => exact .unknown hknown
  | some language =>
  cases hread : fs.read path with
  | error e => exact .unread hread
  | ok source =>
  cases hbinary : isBinary source with
  | true => exact .binary hread hbinary
  | false =>
  cases hparsed : parser language source with
  | error m => exact .refused hknown hread ⟨m, hparsed, rfl⟩
  | ok parsed =>
    have hd : load? parser fs path = some ⟨source, parsed⟩ :=
      load?_eq_some_iff.2 ⟨language, hknown, hread, hbinary, hparsed⟩
    cases h.symm.trans hd

/-- A file gives no document just when it cannot be linted. -/
theorem load?_eq_none_iff : load? parser fs path = none ↔ Unlintable parser fs path :=
  ⟨unlintable_of_load?, Unlintable.load?_eq_none⟩

end Document

/-- A file that gives a document is linted as that is reported on. -/
theorem Document.lint_of_load? {parser : Parser} {fs : FileSystem} {key : String} {d : Document}
    (h : load? parser fs key = some d) (rule : Rule) (path : String) :
    ∃ language, Language.ofPath? key = some language ∧ fs.read key = .ok d.source ∧
      isBinary d.source = false ∧
      rule.lint parser language d.source (Path.normalize path) =
        .ok (Linter.report rule path (some d)) := by
  obtain ⟨language, hknown, hread, hbinary, hparsed⟩ := load?_eq_some_iff.1 h
  exact ⟨language, hknown, hread, hbinary, Fixer.lint_eq_ok_iff.2 ⟨d.parsed, hparsed, rfl⟩⟩

theorem Linter.lintFile_invalidate_fst (parser : Parser) (fs : FileSystem) (l : Linter)
    (path : String) : ((l.invalidate path).lintFile parser fs path).1 =
      report l.rule path (Document.load? parser fs (l.resolve path)) := by
  rw [lintFile_fst, found, cache_invalidate, resolve_invalidate, if_pos rfl, rule_invalidate]

/-- A linter that keeps nothing lints a file of known type as it is, unless it is binary. -/
theorem Linter.lintFile_fst_of_empty {parser : Parser} {fs : FileSystem} {l : Linter}
    {path : String} {language : Language} {content : Bytes} {vs : List Violation}
    (hempty : l.cache = .empty) (hknown : Language.ofPath? (l.resolve path) = some language)
    (hread : fs.read (l.resolve path) = .ok content)
    (hlint : l.rule.lint parser language content (Path.normalize path) = .ok vs) :
    (l.lintFile parser fs path).1 = if Document.isBinary content then [] else vs := by
  rw [lintFile_fst, found, hempty, Table.get?_empty]
  dsimp only
  cases hbinary : Document.isBinary content with
  | true =>
    rw [Document.load?_eq_none_iff.2 (.binary hread hbinary)]
    rfl
  | false =>
    obtain ⟨parsed, hparsed, rfl⟩ := Fixer.lint_eq_ok_iff.1 hlint
    have hload : Document.load? parser fs (l.resolve path) = some ⟨content, parsed⟩ :=
      Document.load?_eq_some_iff.2 ⟨language, hknown, hread, hbinary, hparsed⟩
    rw [hload]
    rfl

/-! ## The check of a line -/

namespace Session

/-- What is left on a line of a file, as linting the file anew reports it. -/
def leftOn (parser : Parser) (s : Session) (w : Workspace) (path : String) (line : Int) :
    List Violation :=
  Target.onLine line
    (Linter.report w.linter.rule path
      (Document.load? parser s.files (w.linter.resolve path)))

/-- What the check of a line answers if nothing is left there. -/
def verifiedText (path : String) (line : Int) : String :=
  "**VERIFIED** — " ++ ("`" ++ Path.normalize path ++ ":" ++ toString line ++ "`") ++
    " no longer yields an effect without `yield*`."

/-- What the check of a line answers if something is left there. -/
def presentText (path : String) (line : Int) (left : List Violation) : String :=
  "**STILL PRESENT** — " ++ ("`" ++ Path.normalize path ++ ":" ++ toString line ++ "`") ++
    " still has " ++ toString left.length ++ " violation(s):\n" ++
    Text.joinWith "\n" (left.map fun v => "- `" ++ v.snippet ++ "`") ++
    "\n\nConsider running `apply_fix` again or fixing it manually."

/-- The statuses after the check of a line. -/
def checked (statuses : Statuses) (path : String) (line : Int) (left : List Violation) :
    Statuses :=
  if left.isEmpty then statuses.markLine (Path.normalize path) line .verified
  else statuses.mark left fun _ => .failed

variable {parser : Parser} {s : Session} {w : Workspace}

/-- All that the check of a line does. -/
theorem verifyFix_eq (parser : Parser) (path : String) (line : Int)
    (hw : s.workspace? = some w) :
    let left := s.leftOn parser w path line
    s.verifyFix parser path line =
      (s.withWorkspace {
        linter := ((w.linter.invalidate path).lintFile parser s.files path).2
        statuses := checked w.statuses path line left },
      if left.isEmpty then verifiedText path line else presentText path line left) := by
  have hleft : Target.onLine line ((w.linter.invalidate path).lintFile parser s.files path).1 =
      s.leftOn parser w path line := by
    rw [Linter.lintFile_invalidate_fst, leftOn]
  simp only [verifyFix, hw, lintFile_eq, reported, looking, hleft, checked]
  split
  · rfl
  · rfl

theorem verifiedText_ne {path : String} {line : Int} {p other : String}
    (h : p.toList <+: other.toList) (hp : ¬p.toList <+: "**VERIFIED**".toList)
    (hlength : p.length ≤ 12) : verifiedText path line ≠ other := by
  rintro rfl
  have hv : "**VERIFIED**".toList <+: (verifiedText path line).toList := by
    iterate 2 refine isPrefix_toList_append ?_ _
    decide +kernel
  exact hp (List.prefix_of_prefix_length_le h hv hlength)

/-- The check of a line answers "verified" just when it finds nothing left. -/
theorem verifyFix_eq_verifiedText_iff (path : String) (line : Int)
    (hw : s.workspace? = some w) :
    (s.verifyFix parser path line).2 = verifiedText path line ↔
      s.leftOn parser w path line = [] := by
  rw [verifyFix_eq parser path line hw]
  dsimp only
  split
  · rename_i hempty
    exact iff_of_true rfl (List.isEmpty_iff.1 hempty)
  · rename_i hsome
    refine iff_of_false (fun h => ?_) fun h => hsome (List.isEmpty_iff.2 h)
    refine verifiedText_ne (p := "**STILL") ?_ (by decide +kernel) (by decide) h.symm
    iterate 6 refine isPrefix_toList_append ?_ _
    decide +kernel

/-- A line of a file is clean: the file can be linted as it is, and the rule reports nothing
there. -/
def CleanLine (parser : Parser) (s : Session) (w : Workspace) (path : String) (line : Int) :
    Prop :=
  ∃ language source vs, Language.ofPath? (w.linter.resolve path) = some language ∧
    s.files.read (w.linter.resolve path) = .ok source ∧ Document.isBinary source = false ∧
    w.linter.rule.lint parser language source (Path.normalize path) = .ok vs ∧
    ∀ v ∈ vs, v.lineNumber ≠ line

theorem leftOn_eq_nil_iff {path : String} {line : Int} :
    s.leftOn parser w path line = [] ↔
      s.CleanLine parser w path line ∨
        Document.Unlintable parser s.files (w.linter.resolve path) := by
  have hnone : ∀ vs, Target.onLine line vs = [] ↔ ∀ v ∈ vs, v.lineNumber ≠ line := by
    intro vs
    simp [Target.onLine]
  rw [leftOn, hnone, ← Document.load?_eq_none_iff]
  cases hload : Document.load? parser s.files (w.linter.resolve path) with
  | none => exact iff_of_true nofun (.inr rfl)
  | some d =>
    obtain ⟨language, hknown, hread, htext, hlint⟩ :=
      Document.lint_of_load? hload w.linter.rule path
    constructor
    · intro hclean
      exact .inl ⟨language, d.source, _, hknown, hread, htext, hlint, hclean⟩
    · rintro (⟨language', source, vs, hknown', hread', -, hlint', hclean⟩ | h)
      · cases hknown.symm.trans hknown'
        cases hread.symm.trans hread'
        cases hlint.symm.trans hlint'
        exact hclean
      · cases h

/-- **A line is verified if it is clean, or if its file cannot be linted.** In whatever state
a session is, and whatever its linter keeps, the check of a line answers "verified" just when
a workspace is loaded, and either the file is there, of a known type, readable and not
binary, the parser takes what it holds now, and linting that reports nothing on the line; or
the file cannot be linted at all. -/
theorem verified_iff_clean_or_unlintable (parser : Parser) (s : Session) (path : String)
    (line : Int) :
    (s.call parser (.verifyFix path line)).2 = .ok (verifiedText path line) ↔
      ∃ w, s.workspace? = some w ∧ (s.CleanLine parser w path line ∨
        Document.Unlintable parser s.files (w.linter.resolve path)) := by
  have hcall : (s.call parser (.verifyFix path line)).2 = .ok (s.verifyFix parser path line).2 :=
    rfl
  rw [hcall, Except.ok.injEq]
  cases hw : s.workspace? with
  | none =>
    refine iff_of_false (fun h => ?_) nofun
    have hnone : (s.verifyFix parser path line).2 = notInitialised := by rw [verifyFix, hw]
    rw [hnone] at h
    exact verifiedText_ne (p := "Error") (by decide +kernel) (by decide +kernel) (by decide) h.symm
  | some w =>
    rw [verifyFix_eq_verifiedText_iff path line hw, leftOn_eq_nil_iff]
    simp

end Session

open NestedSaga in
/-- In a workspace that is loaded, the outer yield of the saga is still present; when the file
has been deleted, its line is verified, and when it may not be read, too. -/
theorem verified_lost_nestedSaga :
    let loaded : Session := ⟨DeepSaga.files (source false true), some { linter := { root := "ws" } }⟩
    Session.after parser { files := DeepSaga.files (source false true) }
        [.tool (.loadWorkspace "ws")] = loaded ∧
      (loaded.call parser (.verifyFix "a.js" 1)).2 ≠ .ok (Session.verifiedText "a.js" 1) ∧
      ∀ c ∈ [Change.delete "ws/a.js", .denyRead "ws/a.js"],
        let lost := (loaded.step parser (.change c)).1
        (lost.call parser (.verifyFix "a.js" 1)).2 = .ok (Session.verifiedText "a.js" 1) ∧
          ∃ e, lost.files.read "ws/a.js" = .error e := by
  intro loaded
  have hverified : ∀ s : Session, (s.call parser (.verifyFix "a.js" 1)).2 =
      .ok (s.verifyFix parser "a.js" 1).2 := fun _ => rfl
  refine ⟨step_loadWorkspace _, ?_, ?_⟩
  · have hread : loaded.files.read (Linter.resolve { root := "ws" } "a.js") =
        .ok (source false true) := by
      rw [resolve_ws]
      exact (DeepSaga.holds_files (source false true)).read
    have hleft : loaded.leftOn parser { linter := { root := "ws" } } "a.js" 1 ≠ [] := by
      rw [Session.leftOn, load?_source (fun _ => rfl) (by rw [resolve_ws, ofPath?_ws]) hread]
      decide +kernel
    rw [hverified, ne_eq, Except.ok.injEq, Session.verifyFix_eq_verifiedText_iff _ _ rfl]
    exact hleft
  · intro c hc lost
    have hloaded : lost.workspace? = some { linter := { root := "ws" } } := by
      rcases List.mem_pair.1 hc with rfl | rfl <;> rfl
    have hread : ∃ e, lost.files.read "ws/a.js" = .error e := by
      rcases List.mem_pair.1 hc with rfl | rfl
      · exact ⟨.fileNotFound "ws/a.js", by rfl⟩
      · exact ⟨.permissionDenied (.opening "ws/a.js"), by rfl⟩
    obtain ⟨e, he⟩ := hread
    refine ⟨?_, e, he⟩
    rw [hverified, Except.ok.injEq, Session.verifyFix_eq_verifiedText_iff _ _ hloaded,
      Session.leftOn_eq_nil_iff]
    exact .inr (.unread (by rw [resolve_ws]; exact he))

end YieldLint
