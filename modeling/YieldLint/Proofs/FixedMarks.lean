/-
What a mark as fixed tells.

The fixes for a line are written if any of their edits can be applied, and then the line is
marked, for all that was reported on it. The rule offers a fix for every violation or for none
(`isSome_fix_of_report`), so each of those has one; but an edit is left out that does not lie in
the file or stands in the way of another one, as that of a yield around another yield does. So
a mark as fixed accounts for the fixes of its line one by one, those that were made and those
that were left out for such a reason (`Edit.accounted`), and the answer tells how many these
are (`fixed_marks_are_accounted_for`). A line with one yield around another one is marked with
the outer one left as it was: `unearned_nestedSaga`.
-/
import YieldLint.Proofs.Bookkeeping
import YieldLint.Proofs.Guards
import YieldLint.Proofs.Optimality

namespace YieldLint

/-! ## Edits that are applied, and edits that are left out -/

namespace Edit

variable {content : Bytes} {edits : List Edit}

/-- An edit at some place of a list is applied, or left out as it does not lie in the buffer or
conflicts with one that is applied. -/
theorem accounted {e : Edit} {i : Nat} (h : edits[i]? = some e) :
    (e, i) ∈ used content edits ∨
      (e, i) ∉ used content edits ∧
        (¬e.InBounds content.length ∨ ∃ a ∈ used content edits, e.Conflicts a.1) := by
  by_cases hused : (e, i) ∈ used content edits
  · exact .inl hused
  · refine .inr ⟨hused, ?_⟩
    have hmem : (e, i) ∈ edits.zipIdx := List.mk_mem_zipIdx_iff_getElem?.2 h
    exact (conflict_of_not_mem_used hmem hused).imp_right
      fun ⟨a, ha, _, hconflicts⟩ => ⟨a, ha, hconflicts⟩

theorem skipped_eq_zero_iff :
    edits.length - (used content edits).length = 0 ↔ Compatible content.length edits := by
  rw [Nat.sub_eq_zero_iff_le]
  constructor
  · intro hle
    have hall : edits.length ≤ ((used content edits).map (·.1)).length := by
      rwa [List.length_map]
    exact (compatible_used content edits).perm
      ((subperm_used content edits).perm_of_length_le hall)
  · exact length_le_used (List.Subperm.refl edits)

end Edit

/-! ## The fixes of targets -/

theorem Linter.isSome_fix_of_report {rule : Rule} {path : String} {d : Option Document}
    {v : Violation} (hv : v ∈ report rule path d) : v.fix.isSome = rule.offersFixes := by
  cases d with
  | none => cases hv
  | some d =>
    obtain ⟨f, -, rfl⟩ := List.mem_map.1 hv
    rw [Rule.report]
    dsimp only
    split
    · rename_i hoffers
      exact hoffers.symm
    · rename_i hnot
      exact (Bool.eq_false_of_not_eq_true hnot).symm

/-- The edits of fixes stand at the places of the violations, if these all have fixes. -/
theorem Fixer.getElem?_editsOf {vs : List Violation} (h : ∀ v ∈ vs, v.fix.isSome = true)
    {i : Nat} {v : Violation} (hv : vs[i]? = some v) :
    ∃ f, v.fix = some f ∧ (editsOf vs)[i]? = some f.edit := by
  induction vs generalizing i with
  | nil => cases hv
  | cons u vs ih =>
    obtain ⟨f, hf⟩ := Option.isSome_iff_exists.1 (h u List.mem_cons_self)
    have hcons : editsOf (u :: vs) = f.edit :: editsOf vs := by
      rw [editsOf, List.filterMap_cons_some (by rw [hf]; rfl), editsOf]
    rw [hcons]
    cases i with
    | zero =>
      obtain rfl : u = v := Option.some.inj hv
      exact ⟨f, hf, rfl⟩
    | succ i => exact ih (fun v hv => h v (List.mem_cons_of_mem u hv)) hv

namespace Session

variable {parser : Parser} {s : Session} {w : Workspace} {path : String} {line : Int}
  {target : Target}

theorem ofViolation_of_target
    (hfind : Target.find? path line (s.reported parser w path) = some target) {v : Violation}
    (hv : v ∈ target.violations) : StatusKey.ofViolation v = .of path target.line := by
  rw [StatusKey.ofViolation_of_reported (Target.violations_subset hfind v hv),
    Target.lineNumber_of_find? hfind hv]

theorem isSome_fix_of_target
    (hfind : Target.find? path line (s.reported parser w path) = some target)
    (hsome : Fixer.editsOf target.violations ≠ []) {v : Violation} (hv : v ∈ target.violations) :
    v.fix.isSome = true := by
  have hoffers : ∀ u ∈ target.violations, u.fix.isSome = w.linter.rule.offersFixes := by
    intro u hu
    have hreported := Target.violations_subset hfind u hu
    rw [reported, Linter.lintFile_fst] at hreported
    exact Linter.isSome_fix_of_report hreported
  obtain ⟨u, hu, hfix⟩ := Fixer.editsOf_ne_nil_iff.1 hsome
  rw [hoffers v hv, ← hoffers u hu, hfix]

/-- **A mark as fixed accounts for each fix of its line.** Whatever state a session is in, a
call for the fixes of a line leaves all statuses as they were, and all files unless its write
breaks off, or it does this. The violations that it targets are those on one line, and each has a fix. The edit of each is
applied to what the file held, or left out as it does not lie in that or conflicts with one
that is applied. Some are applied, and the file holds what all those make of it. Just the
status of the line is set, to fixed, and the answer counts the edits that were applied and
those that were left out; there are none of these just when the edits can all be applied
together. -/
theorem fixed_marks_are_accounted_for (parser : Parser) (s : Session) (path : String)
    (line : Int) :
    let call := s.call parser (.applyFix path line)
    call.1.statuses = s.statuses ∧
        (call.1.files = s.files ∨ BrokeOff parser s (.applyFix path line)) ∨
      ∃ w target old, s.workspace? = some w ∧
        Target.find? path line (s.reported parser w path) = some target ∧
        s.files.read (w.linter.resolve path) = .ok old ∧
        let edits := Fixer.editsOf target.violations
        let used := Edit.used old edits
        (∀ v ∈ target.violations, v.lineNumber = target.line) ∧
        (∀ i v, target.violations[i]? = some v → ∃ f, v.fix = some f ∧
          ((f.edit, i) ∈ used ∨ (f.edit, i) ∉ used ∧
            (¬f.edit.InBounds old.length ∨ ∃ a ∈ used, f.edit.Conflicts a.1))) ∧
        used ≠ [] ∧
        s.files.write (w.linter.resolve path) (Edit.weave old 0 (used.map (·.1))) =
          .ok call.1.files ∧
        (∀ key, call.1.statuses.get? key =
          if key = .of path target.line then some .fixed else s.statuses.get? key) ∧
        call.2 =
          .ok (appliedText path target.note used.length (edits.length - used.length)) ∧
        (edits.length - used.length = 0 ↔ Edit.Compatible old.length edits) := by
  dsimp only
  cases hw : s.workspace? with
  | none =>
    rw [call_of_none parser _ hw (by simp)]
    exact .inl ⟨rfl, .inl rfl⟩
  | some w =>
    have hcall : FixesLine parser s w path line (s.call parser (.applyFix path line)) :=
      fixesLine_applyFix hw
    rw [BrokeOff]
    generalize s.call parser (.applyFix path line) = call at hcall ⊢
    cases hcall with
    | @written target old edited files find writes =>
      have hedits := editsFor_of_some find
      have happly := writes.apply
      rw [hedits, EditRequest.apply_ofEdit, Edit.apply_eq] at happly
      obtain rfl := Except.ok.inj happly
      have hused : Edit.used old (Fixer.editsOf target.violations) ≠ [] := fun h =>
        writes.taken (by rw [h]; rfl)
      have hsome : Fixer.editsOf target.violations ≠ [] := by
        rw [← hedits]
        exact WritesLine.editsFor_ne_nil ⟨old, _, files, writes⟩
      have hfix : ∀ v ∈ target.violations, v.fix.isSome = true := fun v hv =>
        isSome_fix_of_target find hsome hv
      have hviolations : target.violations ≠ [] := fun h => hsome (by rw [h]; rfl)
      refine .inr ⟨w, target, old, rfl, find, writes.read,
        fun v hv => Target.lineNumber_of_find? find hv, fun i v hv => ?_, hused, writes.write,
        fun key => ?_, rfl, Edit.skipped_eq_zero_iff⟩
      · obtain ⟨f, hf, hplace⟩ := Fixer.getElem?_editsOf hfix hv
        exact ⟨f, hf, Edit.accounted hplace⟩
      · rw [statuses_of_some hw]
        exact Statuses.get?_mark_of_line (fun v hv => ofViolation_of_target find hv)
          hviolations .fixed key
    | brokenOff makes breaks =>
      exact .inl ⟨(statuses_of_some hw).symm, .inr ⟨w, path, _, _, _, _, hw, rfl, breaks, rfl⟩⟩
    | _ => exact .inl ⟨(statuses_of_some hw).symm, .inl rfl⟩

end Session

namespace NestedSaga

open DeepSaga (files holds_files)

/-- The fixes of both yields of the saga. -/
def outerFix : Fix := ⟨.replace, 48, 72, "yield* call(yield call())"⟩

def innerFix : Fix := ⟨.replace, 59, 71, "yield* call()"⟩

theorem innerFix_inBounds : innerFix.edit.InBounds (source false false).length := by
  rw [← Edit.fits_iff]
  decide +kernel

theorem innerFix_inside : ∀ e ∈ [outerFix.edit], innerFix.edit.Inside e := by
  intro e he
  rw [List.mem_singleton.1 he, Edit.Inside]
  decide

theorem apply_both : Edit.apply (source false false) [outerFix.edit, innerFix.edit] =
    ⟨source false true, 1, 1⟩ := by
  have happly := Edit.apply_concat innerFix_inBounds innerFix_inside
  have hsplice : innerFix.edit.splice (source false false) = source false true := by
    decide +kernel
  rwa [hsplice] at happly

theorem used_both : Edit.used (source false false) [outerFix.edit, innerFix.edit] =
    [(innerFix.edit, 1)] :=
  Edit.used_concat innerFix_inBounds innerFix_inside

section Both

variable {s : Session} {w : Workspace} (hrule : w.linter.rule = {})
  (hresolve : w.linter.resolve "a.js" = "ws/a.js")
  (hfound : w.linter.found parser s.files "ws/a.js" = some (document false false))
include hrule hresolve hfound

theorem find?_both : ∃ target,
    Target.find? "a.js" 1 (s.reported parser w "a.js") = some target ∧
      target.line = 1 ∧ target.note = none ∧
      target.violations.map (·.fix) = [some outerFix, some innerFix] ∧
      Fixer.editsOf target.violations = [outerFix.edit, innerFix.edit] := by
  have hreported : s.reported parser w "a.js" =
      ({} : Rule).check (source false false) "a.js" (.ofTree (tree true false false)) := by
    rw [Session.reported, Linter.lintFile_fst, hrule, hresolve, hfound, Linter.report,
      normalize_ws]
    rfl
  have hfind : (Target.find? "a.js" 1 (s.reported parser w "a.js")).map
      (fun target => (target.line, target.note, target.violations.map (·.fix),
        Fixer.editsOf target.violations)) =
        some (1, none, [some outerFix, some innerFix], [outerFix.edit, innerFix.edit]) := by
    rw [hreported]
    decide +kernel
  obtain ⟨target, hfind, htarget⟩ := Option.map_eq_some_iff.1 hfind
  simp only [Prod.mk.injEq] at htarget
  exact ⟨target, hfind, htarget⟩

theorem applyFix_both {files' : FileSystem} (hw : s.workspace? = some w)
    (hread : s.files.read "ws/a.js" = .ok (source false false))
    (hwrite : s.files.write "ws/a.js" (source false true) = .ok files') :
    let call := s.applyFix parser "a.js" 1
    ∃ target, Target.find? "a.js" 1 (s.reported parser w "a.js") = some target ∧
      target.violations.map (·.fix) = [some outerFix, some innerFix] ∧
      Fixer.editsOf target.violations = [outerFix.edit, innerFix.edit] ∧
      call.1.files = files' ∧ call.1.statuses.get? (.of "a.js" 1) = some .fixed ∧
      call.2 = .ok (Session.appliedText "a.js" none 1 1) := by
  obtain ⟨target, hfind, hline, hnote, hfixes, hedits⟩ := find?_both hrule hresolve hfound
  have hparsed : parser .javascript (source false true) = .ok ⟨tree true false true, false⟩ :=
    parser_source (by decide) .javascript
  rw [← hresolve] at hread hwrite
  have hcall := Session.applyFix_of_edits hw hfind hedits (by rw [hresolve]; exact ofPath?_ws)
    hread apply_both Nat.one_ne_zero hparsed rfl hwrite
  have hmarked : (s.marking parser w "a.js" target files').statuses =
      w.statuses.mark target.violations fun _ => .fixed := rfl
  rw [hnote] at hcall
  rw [hcall]
  refine ⟨target, hfind, hfixes, hedits, rfl, ?_, rfl⟩
  rw [hmarked, Statuses.get?_mark_of_line (fun v hv => Session.ofViolation_of_target hfind hv)
    (fun h => by rw [h] at hfixes; cases hfixes), hline, if_pos rfl]

end Both

end NestedSaga

open NestedSaga in
open DeepSaga (files holds_files) in
/-- Of the two yields on the line of the saga, the outer one is left as it was, and the line is
marked as fixed. -/
theorem unearned_nestedSaga :
    let s := Session.after parser { files := files (source false false) }
      [.tool (.loadWorkspace "ws")]
    let call := s.call parser (.applyFix "a.js" 1)
    let key : StatusKey := ⟨"a.js", 1, "delegate-effects"⟩
    ∃ w target, s.workspace? = some w ∧
      Target.find? "a.js" 1 (s.reported parser w "a.js") = some target ∧
      target.violations.map (·.fix) = [some outerFix, some innerFix] ∧
      s.files.read "ws/a.js" = .ok (source false false) ∧
      (outerFix.edit, 0) ∉ Edit.used (source false false) (Fixer.editsOf target.violations) ∧
      s.statuses.get? key = none ∧ call.1.statuses.get? key = some .fixed ∧
      call.1.files.read "ws/a.js" = .ok (source false true) ∧
      call.2 = .ok (Session.appliedText "a.js" none 1 1) := by
  intro s call key
  have hs : s = ⟨files (source false false), some { linter := { root := "ws" } }⟩ :=
    step_loadWorkspace _
  have hholds := holds_files (source false false)
  have hloaded : s.workspace? = some { linter := { root := "ws" } } := congrArg _ hs
  have hread : s.files.read "ws/a.js" = .ok (source false false) := by
    rw [hs]
    exact hholds.read
  have hwrite : s.files.write "ws/a.js" (source false true) =
      .ok ((files (source false false)).store ["ws", "a.js"] (source false true)) := by
    rw [hs]
    exact hholds.write _
  have hfound : Linter.found parser s.files { root := "ws" } "ws/a.js" =
      some (document false false) := by
    rw [Linter.found, Table.get?_empty]
    exact load?_source (fun h => h) ofPath?_ws hread
  obtain ⟨target, hfind, hfixes, hedits, hfiles, hstatus, hanswer⟩ :=
    applyFix_both (w := { linter := { root := "ws" } }) rfl resolve_ws hfound hloaded hread hwrite
  have hkey : StatusKey.of "a.js" 1 = key := by rw [StatusKey.of, normalize_ws, Rule.id]
  refine ⟨_, target, hloaded, hfind, hfixes, hread, ?_, ?_, ?_, ?_, hanswer⟩
  · rw [hedits, used_both]
    decide
  · rw [hs]
    rfl
  · rw [← hkey]
    exact hstatus
  · have hafter : call.1.files = _ := hfiles
    rw [hafter]
    exact (hholds.store _).read

end YieldLint
