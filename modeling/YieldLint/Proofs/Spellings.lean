/-
When the linter of a session finds what is on disk.

A linter keeps its documents by the paths at which it opened them. Paths that are spelled
differently may lead to one file, and a tool that writes a fix makes the linter forget the
file under the spelling that the tool was given, and no other; and under none if the write
breaks off. `Bypasses` is either case: the file of a key changes as a fix is written under
another spelling of its path, while a document is kept under the key, or as a write under the
key itself breaks off. If the files change by nothing but tools, a kept document differs from
what its file gives only after that, and until the key is forgotten
(`fresh_or_bypassed`); so a look finds what a new linter would find, that case apart
(`lints_are_fresh_or_bypassed`). The case occurs: `bypassed_nestedSaga`.
-/
import YieldLint.Proofs.Snapshots

namespace YieldLint

namespace Session

variable {parser : Parser} {s : Session} {w : Workspace} {t : Tool} {key : String} {d : Document}

/-! ## What tools write -/

theorem Looks.files_eq {s' : Session} (h : Looks parser s s') : s'.files = s.files := by
  rcases h with rfl | ⟨w, linter, -, -, rfl⟩
  · rfl
  · rfl

/-- Tools write nothing but fixes, and make the linter forget the path under which they
write, unless the write breaks off. -/
theorem files_call (parser : Parser) (s : Session) (t : Tool) :
    (s.call parser t).1.files = s.files ∨ ∃ w path, s.workspace? = some w ∧
      t.fixes? = some path ∧
      ((∃ new, s.Forgets parser (w.linter.resolve path) (.tool t) ∧
          s.files.write (w.linter.resolve path) new = .ok (s.call parser t).1.files) ∨
        ∃ (location : Location) (fault : Fault) (new : Bytes),
          s.files.BreaksOff (w.linter.resolve path) location fault ∧
          (s.call parser t).1.files = s.files.store location (new.take fault.stored)) := by
  cases t with
  | loadWorkspace root =>
    left
    simp only [call, loadWorkspace]
    split
    · rfl
    · rfl
  | listViolations path => exact .inl (looks_listViolations parser s path).files_eq
  | lintWorkspace => exact .inl (looks_lintWorkspace parser s).files_eq
  | explainRule ruleId => exact .inl rfl
  | proposeFix path line => exact .inl (looks_proposeFix parser s path line).files_eq
  | applyFix path line =>
    cases hw : s.workspace? with
    | none => simp [call, applyFix, hw]
    | some w =>
      rcases applyFix_cases parser path line hw with
        ⟨-, hleft⟩ | ⟨hwrites, target, new, files, hwrite, hleft⟩ |
          ⟨-, location, fault, new, hbreaks, hleft⟩
      all_goals have hfiles := congrArg Session.files hleft
      · exact .inl hfiles
      · refine .inr ⟨w, path, rfl, rfl, .inl ⟨new, ⟨w, hw, rfl, hwrites⟩, ?_⟩⟩
        rw [call, hfiles]
        exact hwrite
      · exact .inr ⟨w, path, rfl, rfl, .inr ⟨location, fault, new, hbreaks, hfiles⟩⟩
  | verifyFix path line =>
    cases hw : s.workspace? with
    | none => simp [call, verifyFix, hw]
    | some w =>
      obtain ⟨statuses, hleft⟩ := verifyFix_fst parser path line hw
      have hfiles := congrArg Session.files hleft
      exact .inl hfiles
  | fixAll path dryRun =>
    cases hw : s.workspace? with
    | none => simp [call, fixAll, hw]
    | some w =>
      rcases fixAll_cases parser path dryRun hw with
        ⟨-, hfiles, -⟩ | ⟨⟨rfl, hwrote⟩, new, files, hwrite, hleft⟩ |
          ⟨-, rfl, location, fault, new, hbreaks, hleft⟩
      · exact .inl hfiles
      · have hfiles := congrArg Session.files hleft
        refine .inr ⟨w, path, rfl, rfl, .inl ⟨new, ⟨w, hw, rfl, rfl, hwrote⟩, ?_⟩⟩
        rw [call, hfiles]
        exact hwrite
      · have hfiles := congrArg Session.files hleft
        exact .inr ⟨w, path, rfl, rfl, .inr ⟨location, fault, new, hbreaks, hfiles⟩⟩
  | listEffects => exact .inl rfl

/-! ## A workspace with the default rule -/

/-- A workspace is loaded, and checked by the default rule. -/
def ByDefault (s : Session) : Prop := ∃ w, s.workspace? = some w ∧ w.linter.rule = {}

theorem Looks.byDefault {s' : Session} (h : Looks parser s s') (hs : s.ByDefault) :
    s'.ByDefault := by
  obtain ⟨w, hw, hrule⟩ := hs
  rcases h with rfl | ⟨w', linter, hw', hlooked, rfl⟩
  · exact ⟨w, hw, hrule⟩
  · obtain rfl := Option.some.inj (hw.symm.trans hw')
    exact ⟨_, rfl, hlooked.rule.trans hrule⟩

theorem ByDefault.call (hs : s.ByDefault) (parser : Parser) (t : Tool) :
    (s.call parser t).1.ByDefault := by
  obtain ⟨w, hw, hrule⟩ := id hs
  cases t with
  | loadWorkspace root =>
    simp only [Session.call, loadWorkspace]
    split
    · exact ⟨_, rfl, rfl⟩
    · exact hs
  | listViolations path => exact (looks_listViolations parser s path).byDefault hs
  | lintWorkspace => exact (looks_lintWorkspace parser s).byDefault hs
  | explainRule ruleId => exact hs
  | proposeFix path line => exact (looks_proposeFix parser s path line).byDefault hs
  | applyFix path line =>
    rcases applyFix_cases parser path line hw with
      ⟨-, hleft⟩ | ⟨-, target, new, files, -, hleft⟩ | ⟨-, location, fault, new, -, hleft⟩
    · rw [Session.call, hleft]
      exact ⟨_, rfl, by rw [looking, Linter.rule_lintFile, hrule]⟩
    · rw [Session.call, hleft]
      exact ⟨_, rfl, by rw [Linter.rule_invalidate, looking, Linter.rule_lintFile, hrule]⟩
    · rw [Session.call, hleft]
      exact ⟨_, rfl, by rw [looking, Linter.rule_lintFile, hrule]⟩
  | verifyFix path line =>
    obtain ⟨statuses, hleft⟩ := verifyFix_fst parser path line hw
    refine ⟨_, congrArg Session.workspace? hleft, ?_⟩
    rw [Linter.rule_lintFile, Linter.rule_invalidate, hrule]
  | fixAll path dryRun =>
    rcases fixAll_cases parser path dryRun hw with
      ⟨-, -, w', hw', hlooked⟩ | ⟨-, new, files, -, hleft⟩ |
        ⟨-, -, location, fault, new, -, hleft⟩
    · exact ⟨w', hw', hlooked.rule.trans hrule⟩
    · refine ⟨_, congrArg Session.workspace? hleft, ?_⟩
      rw [Linter.rule_lintFile, Linter.rule_invalidate, looking, Linter.rule_lintFile, hrule]
    · refine ⟨_, congrArg Session.workspace? hleft, ?_⟩
      rw [looking, Linter.rule_lintFile, hrule]
  | listEffects => exact hs

theorem ByDefault.after (parser : Parser) (tools : List Tool) (hs : s.ByDefault) :
    (s.after parser (tools.map .tool)).ByDefault := by
  induction tools generalizing s with
  | nil => exact hs
  | cons t tools ih => exact ih (hs.call parser t)

theorem loadWorkspace_of_isDir {root : String} (h : s.files.isDir root = true) :
    (s.loadWorkspace root).1 = s.withWorkspace { linter := { root } } := by
  rw [loadWorkspace, if_pos h]

/-! ## Fixes under another spelling -/

/-- The file of a key changes as a tool writes a fix under another spelling of its path,
while the linter keeps a document under the key, or as a write under the key breaks off. -/
def Bypasses (parser : Parser) (s : Session) (key : String) (t : Tool) : Prop :=
  (s.call parser t).1.files.read key ≠ s.files.read key ∧
    ((∃ w path, s.workspace? = some w ∧ t.fixes? = some path ∧ w.linter.resolve path ≠ key ∧
        s.files.locate? (w.linter.resolve path) = s.files.locate? key ∧
        ∃ d, w.linter.cache.get? key = some d) ∨
      s.CutsOff key (.tool t))

theorem locate?_of_read_ne (hread : (s.call parser t).1.files.read key ≠ s.files.read key) :
    ∃ w path, s.workspace? = some w ∧ t.fixes? = some path ∧
      s.files.locate? (w.linter.resolve path) = s.files.locate? key ∧
      (s.Forgets parser (w.linter.resolve path) (.tool t) ∨
        s.CutsOff (w.linter.resolve path) (.tool t)) := by
  have hlocate {location : Location} {old new : Bytes} (hold : s.files.content? location = some old)
      (hfiles : (s.call parser t).1.files = s.files.store location new) :
      s.files.locate? key = some location := by
    by_contra hkey
    rw [hfiles] at hread
    exact hread (FileSystem.read_store hold new hkey)
  rcases files_call parser s t with hfiles |
    ⟨w, path, hw, hfixes, ⟨new, hforgets, hwrite⟩ | ⟨location, fault, new, hbreaks, hfiles⟩⟩
  · exact absurd (by rw [hfiles]) hread
  · obtain ⟨location, hopens, -, hfiles⟩ := FileSystem.write_eq_ok_iff.1 hwrite
    obtain ⟨hleads, -, old, hold⟩ := FileSystem.writable_eq_ok_iff.1 hopens
    exact ⟨w, path, hw, hfixes, hleads.trans (hlocate hold hfiles).symm, .inl hforgets⟩
  · obtain ⟨hleads, -, old, hold⟩ := FileSystem.writable_eq_ok_iff.1 hbreaks.opens
    exact ⟨w, path, hw, hfixes, hleads.trans (hlocate hold hfiles).symm,
      .inr ⟨w, path, location, fault, hw, hfixes, rfl, hbreaks⟩⟩

/-- A document that its file gives is what the file gives after a tool too, unless the tool
makes the linter forget it, or bypasses it. -/
theorem load?_call_or_bypasses (hkept : s.Keeps key d ∨ s.CutsOff key (.tool t))
    (hspared : ¬s.Forgets parser key (.tool t))
    (hload : Document.load? parser s.files key = some d) :
    Document.load? parser (s.call parser t).1.files key = some d ∨ s.Bypasses parser key t := by
  by_cases hread : (s.call parser t).1.files.read key = s.files.read key
  · exact .inl ((Document.load?_congr hread).trans hload)
  obtain ⟨w, path, hw, hfixes, hlocate, hwrote⟩ := locate?_of_read_ne hread
  refine .inr ⟨hread, ?_⟩
  rcases hkept with hkept | hcut
  · by_cases hkey : w.linter.resolve path = key
    · rw [hkey] at hwrote
      exact .inr (hwrote.resolve_left hspared)
    · exact .inl ⟨w, path, hw, hfixes, hkey, hlocate, d, (exists_workspace_iff hw).1 hkept⟩
  · exact .inr hcut

/-- A document that is kept is the one that the file gives, unless it has been bypassed and
not been forgotten since. -/
theorem fresh_or_bypassed (hs : ∀ key d, ¬s.Keeps key d) (tools : List Tool)
    (h : (s.after parser (tools.map .tool)).Keeps key d) :
    Document.load? parser (s.after parser (tools.map .tool)).files key = some d ∨
      ∃ before t since, tools = before ++ t :: since ∧
        (s.after parser (before.map .tool)).Bypasses parser key t ∧
        Spares parser key (s.after parser (before.map .tool)) ((t :: since).map .tool) := by
  induction tools using List.reverseRecOn with
  | nil => exact absurd h (hs key d)
  | append_singleton tools t ih =>
    rw [List.map_append, List.map_singleton, after_concat] at h ⊢
    cases recalls_step parser (s.after parser (tools.map .tool)) (.tool t) key d h with
    | inl hload => exact .inl hload
    | inr hkept =>
      obtain ⟨hspared, hkept⟩ := hkept
      cases hkept.elim ih fun h => .inl h.2 with
      | inl hload =>
        cases load?_call_or_bypasses (hkept.imp_right And.left) hspared hload with
        | inl hload => exact .inl hload
        | inr hbypass => exact .inr ⟨tools, t, [], rfl, hbypass, hspared, trivial⟩
      | inr hbypassed =>
        obtain ⟨before, t', since, rfl, hbypass, hsince⟩ := hbypassed
        rw [List.map_append, after_append] at hspared
        refine .inr ⟨before, t', since ++ [t], by simp, hbypass, ?_⟩
        have hall := hsince.concat hspared
        rwa [← List.map_singleton, ← List.map_append, List.cons_append] at hall

theorem ByDefault.lintFile_fresh_or_bypassed (hdefault : s.ByDefault)
    (hs : ∀ key d, ¬s.Keeps key d) (tools : List Tool)
    (hw : (s.after parser (tools.map .tool)).workspace? = some w) (path : String) :
    (w.linter.lintFile parser (s.after parser (tools.map .tool)).files path).1 =
        (Linter.lintFile parser (s.after parser (tools.map .tool)).files
          { root := w.linter.root } path).1 ∨
      ∃ before t since, tools = before ++ t :: since ∧
        (s.after parser (before.map .tool)).Bypasses parser (w.linter.resolve path) t ∧
        Spares parser (w.linter.resolve path) (s.after parser (before.map .tool))
          ((t :: since).map .tool) := by
  have hrule : w.linter.rule = {} := (exists_workspace_iff hw).1 (hdefault.after parser tools)
  have hnew : ∀ files, Linter.found parser files { root := w.linter.root }
      (Linter.resolve { root := w.linter.root } path) =
        Document.load? parser files (w.linter.resolve path) := fun _ => rfl
  rw [Linter.lintFile_fst, Linter.lintFile_fst, hrule, hnew]
  cases hkept : w.linter.cache.get? (w.linter.resolve path) with
  | none =>
    left
    rw [Linter.found, hkept]
  | some d =>
    cases fresh_or_bypassed hs tools ⟨w, hw, hkept⟩ with
    | inl hload =>
      left
      rw [Linter.found, hkept, hload]
    | inr hbypassed => exact .inr hbypassed

/-- **A look finds what a new linter finds, or a fix has bypassed it.** Load a workspace and
call any tools after it, while nothing else changes the files. Then a workspace is loaded,
and what its linter reports of a path is what a linter reports that starts with no
documents at the same root; or else one of the tools changed the same file by a fix, under
another spelling of the path while a document was kept for this one, or by a write that broke
off, and no tool since then has made the linter forget it. -/
theorem lints_are_fresh_or_bypassed (parser : Parser) {s : Session} {root : String}
    (hroot : s.files.isDir root = true) (tools : List Tool) :
    let loaded := (s.call parser (.loadWorkspace root)).1
    let now := loaded.after parser (tools.map .tool)
    ∃ w, now.workspace? = some w ∧ ∀ path,
      (w.linter.lintFile parser now.files path).1 =
          (Linter.lintFile parser now.files { root := w.linter.root } path).1 ∨
        ∃ before t since, tools = before ++ t :: since ∧
          (loaded.after parser (before.map .tool)).Bypasses parser (w.linter.resolve path) t ∧
          Spares parser (w.linter.resolve path) (loaded.after parser (before.map .tool))
            ((t :: since).map .tool) := by
  have hloaded : (s.call parser (.loadWorkspace root)).1 =
      s.withWorkspace { linter := { root } } := loadWorkspace_of_isDir hroot
  have hempty : ∀ key d, ¬(s.withWorkspace { linter := { root } }).Keeps key d := by
    rintro key d ⟨w, hw, hd⟩
    obtain rfl := Option.some.inj hw
    cases hd
  have hdefault : (s.withWorkspace { linter := { root } }).ByDefault := ⟨_, rfl, rfl⟩
  rw [hloaded]
  obtain ⟨w, hw, -⟩ := hdefault.after parser tools
  exact ⟨w, hw, hdefault.lintFile_fresh_or_bypassed hempty tools hw⟩

/-- A call for the fixes of a line writes what their edits make, if some of them apply and the
parser finds no error in it. -/
theorem applyFix_of_edits {w : Workspace} {path : String} {line : Int} {target : Target}
    {es : List Edit} {old : Bytes} {edited : Edited} {language : Language} {parsed : Parsed}
    {files' : FileSystem} (hw : s.workspace? = some w)
    (hfind : Target.find? path line (s.reported parser w path) = some target)
    (hedits : Fixer.editsOf target.violations = es)
    (hknown : Language.ofPath? (w.linter.resolve path) = some language)
    (hread : s.files.read (w.linter.resolve path) = .ok old) (happly : Edit.apply old es = edited)
    (htaken : edited.applied ≠ 0) (hparsed : parser language edited.content = .ok parsed)
    (hclean : parsed.hasError = false)
    (hwrite : s.files.write (w.linter.resolve path) edited.content = .ok files') :
    s.applyFix parser path line = (s.marking parser w path target files',
      .ok (appliedText path target.note edited.applied edited.skipped)) := by
  refine applyFix_of_writes hw hfind {
    read := hread
    apply := ?_
    taken := htaken
    holds := ?_
    write := hwrite }
  · rw [editsFor_of_some hfind, hedits, EditRequest.apply_ofEdit, happly]
  · rw [hknown]
    exact Fixer.breaks_of_parsed hparsed hclean

end Session

namespace NestedSaga

open DeepSaga (files holds_files)

theorem find?_source {s : Session} {w : Workspace} (hrule : w.linter.rule = {})
    (hresolve : w.linter.resolve "a.js" = "ws/a.js")
    (hfound : w.linter.found parser s.files "ws/a.js" = some (document false true)) :
    (∃ target, Target.find? "a.js" 1 (s.reported parser w "a.js") = some target ∧
      target.note = none) ∧
      s.editsFor parser w "a.js" 1 = [⟨48, 73, "yield* call(yield* call())"⟩] := by
  have hreported : s.reported parser w "a.js" =
      ({} : Rule).check (source false true) "a.js" (.ofTree (tree true false true)) := by
    rw [Session.reported, Linter.lintFile_fst, hrule, hresolve, hfound, Linter.report,
      normalize_ws]
    rfl
  have hfind : (Target.find? "a.js" 1 (s.reported parser w "a.js")).map
      (fun target => (target.note, Fixer.editsOf target.violations)) =
        some (none, [⟨48, 73, "yield* call(yield* call())"⟩]) := by
    rw [hreported]
    decide +kernel
  obtain ⟨target, hfind, htarget⟩ := Option.map_eq_some_iff.1 hfind
  obtain ⟨hnote, hedits⟩ := Prod.mk.inj htarget
  exact ⟨⟨target, hfind, hnote⟩, (Session.editsFor_of_some hfind).trans hedits⟩

/-- The fix of the outer yield is made in the file of a session that finds the saga there,
even if the file holds something else by now. -/
theorem applyFix_source {s : Session} {w : Workspace} {old : Bytes} {files' : FileSystem}
    (hw : s.workspace? = some w) (hrule : w.linter.rule = {})
    (hresolve : w.linter.resolve "a.js" = "ws/a.js")
    (hfound : w.linter.found parser s.files "ws/a.js" = some (document false true))
    (hread : s.files.read "ws/a.js" = .ok old)
    (happly : Edit.apply old [⟨48, 73, "yield* call(yield* call())"⟩] =
      ⟨source true true, 1, 0⟩)
    (hwrite : s.files.write "ws/a.js" (source true true) = .ok files') :
    ∃ target, s.applyFix parser "a.js" 1 =
      (s.marking parser w "a.js" target files', .ok (Session.appliedText "a.js" none 1 0)) := by
  obtain ⟨⟨target, hfind, hnote⟩, hfor⟩ := find?_source hrule hresolve hfound
  rw [Session.editsFor_of_some hfind] at hfor
  rw [← hresolve] at hread hwrite
  have hcall := Session.applyFix_of_edits hw hfind hfor (by rw [hresolve]; exact ofPath?_ws) hread
    happly Nat.one_ne_zero (parser_source (fun _ => rfl) .javascript) rfl hwrite
  rw [hnote] at hcall
  exact ⟨target, hcall⟩

/-- The saga is listed under one spelling of its path, and fixed under another. -/
def bypassing : List Tool := [.listViolations "./a.js", .applyFix "a.js" 1]

theorem after_bypassing : ∃ w,
    Session.after parser
        (Session.call parser { files := files (source false true) } (.loadWorkspace "ws")).1
        (bypassing.map .tool) = ⟨files (source true true), some w⟩ ∧
      w.linter.root = "ws" ∧ w.linter.rule = {} ∧
      w.linter.cache.get? "ws/./a.js" = some (document false true) := by
  have hloaded : (Session.call parser { files := files (source false true) }
      (.loadWorkspace "ws")).1 =
        ⟨files (source false true), some { linter := { root := "ws" } }⟩ := by rfl
  have hread := (holds_files (source false true)).read
  rw [hloaded]
  let l : Linter := (Linter.lintFile parser (files (source false true)) { root := "ws" } "./a.js").2
  let s : Session := ⟨files (source false true), some { linter := l }⟩
  have hother : l.resolve "./a.js" = "ws/./a.js" := by
    rw [Linter.resolve_lintFile]
    decide +kernel
  have hsame : l.resolve "a.js" = "ws/a.js" := by rw [Linter.resolve_lintFile, resolve_ws]
  have hcache : ∀ key, l.cache.get? key = if key = "ws/./a.js"
      then Document.load? parser (files (source false true)) key else none := by
    intro key
    rw [Linter.cache_lintFile, ← Linter.resolve_lintFile parser (files (source false true)),
      hother]
    rfl
  have hfound : l.found parser s.files "ws/a.js" = some (document false true) := by
    rw [Linter.found, hcache, if_neg (by decide)]
    exact load?_source (fun _ => rfl) ofPath?_ws hread
  have hkept : l.cache.get? "ws/./a.js" = some (document false true) := by
    rw [hcache, if_pos rfl]
    exact load?_source (fun _ => rfl) (by decide +kernel) (by rfl)
  obtain ⟨target, hcall⟩ := applyFix_source (s := s) (w := { linter := l }) rfl
    (Linter.rule_lintFile ..) hsame hfound hread apply_source ((holds_files _).write _)
  refine ⟨_, congrArg Prod.fst hcall, ?_, ?_, ?_⟩
  · show (l.lintFile parser s.files "a.js").2.root = "ws"
    rw [Linter.root_lintFile, Linter.root_lintFile]
  · rw [Linter.rule_invalidate, Session.looking, Linter.rule_lintFile, Linter.rule_lintFile]
  · rw [Linter.cache_invalidate, Session.looking, Linter.resolve_lintFile, hsame,
      if_neg (by decide), Linter.cache_lintFile, hsame, if_neg (by decide), hkept]

theorem lintFile_after_bypassing {w : Workspace} (hroot : w.linter.root = "ws")
    (hrule : w.linter.rule = {})
    (hkept : w.linter.cache.get? "ws/./a.js" = some (document false true)) :
    (w.linter.lintFile parser (files (source true true)) "./a.js").1.length = 1 ∧
      (Linter.lintFile parser (files (source true true)) { root := w.linter.root } "./a.js").1 =
        [] := by
  have hresolve : Linter.resolve { root := "ws" } "./a.js" = "ws/./a.js" := by decide +kernel
  have hsame : w.linter.resolve "./a.js" = "ws/./a.js" := by
    rw [Linter.resolve, hroot]
    exact hresolve
  have hnew : Document.load? parser (files (source true true)) "ws/./a.js" =
      some (document true true) := load?_source (fun _ => rfl) (by decide +kernel) (by rfl)
  constructor
  · rw [Linter.lintFile_fst, hsame, Linter.found, hkept, hrule]
    decide +kernel
  · rw [Linter.lintFile_fst, hroot, hresolve, Linter.found, Table.get?_empty]
    simp only [hnew]
    decide +kernel

end NestedSaga

open NestedSaga in
/-- A fix that was written under one spelling of a path is not seen under another: after it
the linter goes on to report there what a new linter does not find any more. -/
theorem bypassed_nestedSaga :
    let s : Session := { files := DeepSaga.files (source false true) }
    let now := (s.call parser (.loadWorkspace "ws")).1.after parser (bypassing.map .tool)
    s.files.isDir "ws" = true ∧ ∃ w, now.workspace? = some w ∧
      (w.linter.lintFile parser now.files "./a.js").1.length = 1 ∧
      (Linter.lintFile parser now.files { root := w.linter.root } "./a.js").1 = [] := by
  intro s now
  obtain ⟨w, hafter, hroot, hrule, hkept⟩ := after_bypassing
  have hnow : now = ⟨DeepSaga.files (source true true), some w⟩ := hafter
  rw [hnow]
  exact ⟨by decide, w, rfl, lintFile_after_bypassing hroot hrule hkept⟩

open NestedSaga in
/-- One of the tools has bypassed the other spelling of the path, and none has made the
linter forget it since. -/
theorem lints_are_fresh_or_bypassed_of_nestedSaga :
    let s : Session := { files := DeepSaga.files (source false true) }
    let loaded := (s.call parser (.loadWorkspace "ws")).1
    s.files.isDir "ws" = true ∧ ∃ before t since, bypassing = before ++ t :: since ∧
      (loaded.after parser (before.map .tool)).Bypasses parser "ws/./a.js" t ∧
      Session.Spares parser "ws/./a.js" (loaded.after parser (before.map .tool))
        ((t :: since).map .tool) := by
  have hdir : (DeepSaga.files (source false true)).isDir "ws" = true := by decide
  obtain ⟨w, hw, hlints⟩ := Session.lints_are_fresh_or_bypassed parser
    (s := { files := DeepSaga.files (source false true) }) hdir bypassing
  obtain ⟨w', hnow, hroot, hrule, hkept⟩ := after_bypassing
  rw [hnow] at hw
  obtain rfl : w' = w := Option.some.inj hw
  refine ⟨hdir, ?_⟩
  have hresolve : w'.linter.resolve "./a.js" = "ws/./a.js" := by
    rw [Linter.resolve, hroot]
    decide +kernel
  obtain ⟨hstale, hfresh⟩ := lintFile_after_bypassing hroot hrule hkept
  rw [← hresolve]
  cases hlints "./a.js" with
  | inl hsame =>
    rw [hnow] at hsame
    rw [hsame, hfresh] at hstale
    cases hstale
  | inr hbypassed => exact hbypassed

end YieldLint
