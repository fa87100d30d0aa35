/-
What the statuses of a session are kept under.

Three tools write statuses. The fixes for a line and those of a file mark violations that have
been reported, and the check of a line marks such or changes what the line has. Violations are
reported at the path with its slashes turned and by the one rule that there is, so a mark on a
line of a file has one key (`StatusKey.of`, `get?_mark_of_lines`). Whatever happens in a
session, all keys are of that form (`booked_after`), and so the check of a line, which finds
statuses by path and line, leaves none of the line as it was (`get?_verifyFix`).
-/
import YieldLint.Proofs.Components
import YieldLint.Proofs.Frames

namespace YieldLint

/-! ## Keys -/

namespace StatusKey

/-- The key of a line of a file. -/
def of (path : String) (line : Int) : StatusKey where
  path := Path.normalize path
  line := line
  ruleId := Rule.id

/-- Has a path with slashes only, and the id of the rule. -/
structure Booked (key : StatusKey) : Prop where
  path : '\\' ∉ key.path.toList
  ruleId : key.ruleId = Rule.id

theorem booked_of (path : String) (line : Int) : (of path line).Booked :=
  ⟨Path.not_mem_normalize path, rfl⟩

theorem Booked.eq_of {key : StatusKey} (h : key.Booked) {path : String} {line : Int}
    (honline : Session.OnLine path line key) : key = of path line := by
  obtain ⟨p, l, r⟩ := key
  obtain ⟨rfl, rfl⟩ := honline
  obtain rfl : r = Rule.id := h.ruleId
  rfl

/-- A violation is reported with the key of its line. -/
theorem ofViolation_of_report {rule : Rule} {path : String} {d : Option Document} {v : Violation}
    (hv : v ∈ Linter.report rule path d) : ofViolation v = of path v.lineNumber := by
  cases d with
  | none => cases hv
  | some d =>
    obtain ⟨f, -, rfl⟩ := List.mem_map.1 hv
    simp only [ofViolation, of, Rule.report, Path.normalize_normalize]

theorem ofViolation_of_reported {parser : Parser} {s : Session} {w : Workspace} {path : String}
    {v : Violation} (hv : v ∈ s.reported parser w path) :
    ofViolation v = of path v.lineNumber := by
  rw [Session.reported, Linter.lintFile_fst] at hv
  exact ofViolation_of_report hv

end StatusKey

/-! ## Marks -/

namespace Statuses

variable {s : Statuses} {vs : List Violation} {path : String}

/-- Marks by lines of one file are found under the keys of these lines. -/
theorem get?_mark_of_lines (h : ∀ v ∈ vs, StatusKey.ofViolation v = .of path v.lineNumber)
    (status : Int → Status) (key : StatusKey) :
    (s.mark vs fun v => status v.lineNumber).get? key =
      if ∃ v ∈ vs, key = .of path v.lineNumber then some (status key.line) else s.get? key := by
  split
  · rename_i hmarked
    obtain ⟨v, hv, hkey⟩ := hmarked
    rw [get?_mark]
    cases hlast : vs.reverse.find? fun v => StatusKey.ofViolation v = key with
    | none =>
      have hnot := List.find?_eq_none.1 hlast v (List.mem_reverse.2 hv)
      exact absurd (decide_eq_true ((h v hv).trans hkey.symm)) hnot
    | some u =>
      have hu : StatusKey.ofViolation u = key := by simpa using List.find?_some hlast
      rw [← hu]
      rfl
  · rename_i hother
    refine get?_mark_other fun v hv he => hother ⟨v, hv, ?_⟩
    rw [← he, h v hv]

/-- Marks on one line of a file are found under its key. -/
theorem get?_mark_of_line {line : Int} (h : ∀ v ∈ vs, StatusKey.ofViolation v = .of path line)
    (hsome : vs ≠ []) (status : Status) (key : StatusKey) :
    (s.mark vs fun _ => status).get? key =
      if key = .of path line then some status else s.get? key := by
  have hline : ∀ v ∈ vs, v.lineNumber = line := fun v hv => congrArg StatusKey.line (h v hv)
  have hmarked : (∃ v ∈ vs, key = .of path v.lineNumber) ↔ key = .of path line := by
    constructor
    · rintro ⟨v, hv, hkey⟩
      rwa [hline v hv] at hkey
    · intro hkey
      obtain ⟨v, hv⟩ := List.exists_mem_of_ne_nil vs hsome
      exact ⟨v, hv, by rwa [hline v hv]⟩
  rw [get?_mark_of_lines (fun v hv => by rw [h v hv, hline v hv]) fun _ => status]
  simp only [hmarked]

/-- All keys are booked. -/
def Booked (s : Statuses) : Prop := ∀ key status, s.get? key = some status → key.Booked

theorem booked_empty : Booked .empty := nofun

theorem Booked.mark (hs : s.Booked) {status : Violation → Status}
    (h : ∀ v ∈ vs, ∃ line, StatusKey.ofViolation v = .of path line) :
    Booked (s.mark vs status) := by
  intro key st hst
  by_cases hkey : ∃ v ∈ vs, StatusKey.ofViolation v = key
  · obtain ⟨v, hv, rfl⟩ := hkey
    obtain ⟨line, hline⟩ := h v hv
    rw [hline]
    exact StatusKey.booked_of path line
  · rw [get?_mark_other fun v hv he => hkey ⟨v, hv, he⟩] at hst
    exact hs key st hst

theorem Booked.markLine (hs : s.Booked) (path : String) (line : Int) (status : Status) :
    Booked (s.markLine path line status) := by
  intro key st hst
  rw [get?_markLine] at hst
  split at hst
  · obtain ⟨before, hbefore, -⟩ := Option.map_eq_some_iff.1 hst
    exact hs key before hbefore
  · exact hs key st hst

end Statuses

/-! ## What each command leaves -/

namespace Session

section Commands

variable (parser : Parser) {s : Session}

theorem statuses_of_some {w : Workspace} (hw : s.workspace? = some w) : s.statuses = w.statuses := by
  rw [statuses, hw]

/-- What is left on a line, as linting the file anew reports it, has the key of the line. -/
theorem ofViolation_of_leftOn {w : Workspace} {path : String} {line : Int} {v : Violation}
    (hv : v ∈ s.leftOn parser w path line) :
    StatusKey.ofViolation v = .of path line := by
  obtain ⟨hreported, hline⟩ := List.mem_filter.1 hv
  rw [StatusKey.ofViolation_of_report hreported, beq_iff_eq.1 hline]

theorem statuses_verifyFix {w : Workspace} (hw : s.workspace? = some w) (path : String)
    (line : Int) : (s.call parser (.verifyFix path line)).1.statuses =
      checked w.statuses path line (s.leftOn parser w path line) := by
  have hcall : (s.call parser (.verifyFix path line)).1 = (s.verifyFix parser path line).1 := rfl
  rw [hcall, verifyFix_eq parser path line hw, statuses, withWorkspace]

variable (s)

theorem booked_applyFix (hs : s.statuses.Booked) (path : String) (line : Int) :
    (s.call parser (.applyFix path line)).1.statuses.Booked := by
  cases hw : s.workspace? with
  | none => rwa [call_of_none parser _ hw (by simp)]
  | some w =>
    rw [statuses_of_some hw] at hs
    have hcall : FixesLine parser s w path line (s.call parser (.applyFix path line)) :=
      fixesLine_applyFix hw
    generalize s.call parser (.applyFix path line) = r at hcall ⊢
    cases hcall with
    | written find _ =>
      exact hs.mark fun v hv =>
        ⟨_, StatusKey.ofViolation_of_reported (Target.violations_subset find v hv)⟩
    | _ => exact hs

theorem booked_verifyFix (hs : s.statuses.Booked) (path : String) (line : Int) :
    (s.call parser (.verifyFix path line)).1.statuses.Booked := by
  cases hw : s.workspace? with
  | none => rwa [call_of_none parser _ hw (by simp)]
  | some w =>
    rw [statuses_of_some hw] at hs
    rw [statuses_verifyFix parser hw, checked]
    split
    · exact hs.markLine _ _ _
    · exact hs.mark fun v hv => ⟨line, ofViolation_of_leftOn parser hv⟩

theorem booked_fixAll (hs : s.statuses.Booked) (path : String) (dryRun : Bool) :
    (s.call parser (.fixAll path dryRun)).1.statuses.Booked := by
  cases hw : s.workspace? with
  | none => rwa [call_of_none parser _ hw (by simp)]
  | some w =>
    rw [statuses_of_some hw] at hs
    have hcall : FixesFile parser s w path dryRun (s.call parser (.fixAll path dryRun)) :=
      fixesFile_fixAll hw
    generalize s.call parser (.fixAll path dryRun) = r at hcall ⊢
    cases hcall with
    | fixed => exact hs.mark fun v hv => ⟨_, StatusKey.ofViolation_of_reported hv⟩
    | _ => exact hs

theorem booked_call (hs : s.statuses.Booked) (t : Tool) :
    (s.call parser t).1.statuses.Booked := by
  cases t with
  | loadWorkspace root =>
    have hload : KeepsStatuses s (.loadWorkspace root) (s.call parser (.loadWorkspace root)).1 :=
      keepsStatuses_call parser s _
    rw [hload]
    split
    · exact Statuses.booked_empty
    · exact hs
  | listViolations path => rwa [call, Prod.map, id, (looks_listViolations parser s path).statuses_eq]
  | lintWorkspace => rwa [call, Prod.map, id, (looks_lintWorkspace parser s).statuses_eq]
  | explainRule ruleId => exact hs
  | proposeFix path line =>
    rwa [call, Prod.map, id, (looks_proposeFix parser s path line).statuses_eq]
  | applyFix path line => exact booked_applyFix parser s hs path line
  | verifyFix path line => exact booked_verifyFix parser s hs path line
  | fixAll path dryRun => exact booked_fixAll parser s hs path dryRun
  | listEffects => exact hs

/-- What needs a workspace leaves the statuses as they were, if it does so in the workspace. -/
theorem statuses_onWorkspace {f : Workspace → Session × Except Failure Response}
    (h : ∀ w, s.workspace? = some w → (f w).1.statuses = w.statuses) :
    (s.onWorkspace f).1.statuses = s.statuses := by
  rw [onWorkspace]
  cases hw : s.workspace? with
  | none => rfl
  | some w =>
    rw [statuses_of_some hw]
    exact h w hw

/-- Nothing but the tools touches the statuses. -/
theorem statuses_step {c : Command} (hc : ∀ t, c ≠ .tool t) :
    (s.step parser c).1.statuses = s.statuses := by
  cases c with
  | tool t => exact absurd rfl (hc t)
  | fixFile path dryRun =>
    refine statuses_onWorkspace s fun w hw => ?_
    split
    · rfl
    · exact statuses_of_some hw
  | applyToFile path requests dryRun =>
    refine statuses_onWorkspace s fun w hw => ?_
    exact statuses_of_some hw
  | discover => exact statuses_onWorkspace s fun w hw => statuses_of_some hw
  | statuses => rfl
  | change c =>
    rw [step]
    split
    · rfl
    · rfl
  | _ => exact statuses_onWorkspace s fun w hw => rfl

theorem booked_step (hs : s.statuses.Booked) (c : Command) :
    (s.step parser c).1.statuses.Booked := by
  by_cases hc : ∃ t, c = .tool t
  · obtain ⟨t, rfl⟩ := hc
    exact booked_call parser s hs t
  · rwa [statuses_step parser s fun t ht => hc ⟨t, ht⟩]

/-- Statuses that are booked stay so, whatever is done. -/
theorem booked_after {s : Session} (hs : s.statuses.Booked) (cs : List Command) :
    (s.after parser cs).statuses.Booked := by
  induction cs using List.reverseRecOn with
  | nil => exact hs
  | append_singleton cs c ih =>
    rw [after_concat]
    exact booked_step parser _ ih c

end Commands

/-! ## The check of a line -/

section Check

variable {parser : Parser} {s : Session} {w : Workspace}

/-- After the check of a line, what is booked for it has the verdict, and all else what it had. -/
theorem get?_verifyFix (hw : s.workspace? = some w) (hs : s.statuses.Booked) (path : String)
    (line : Int) (key : StatusKey) :
    let left := s.leftOn parser w path line
    (s.call parser (.verifyFix path line)).1.statuses.get? key =
      if key.path = Path.normalize path ∧ key.line = line then
        if left = [] then (s.statuses.get? key).map fun _ => .verified
        else if key = .of path line then some .failed else none
      else s.statuses.get? key := by
  rw [statuses_of_some hw] at hs ⊢
  dsimp only
  rw [statuses_verifyFix parser hw, checked]
  by_cases hleft : s.leftOn parser w path line = []
  · rw [if_pos (List.isEmpty_iff.2 hleft), Statuses.get?_markLine, if_pos hleft]
  · rw [if_neg fun h => hleft (List.isEmpty_iff.1 h), if_neg hleft,
      Statuses.get?_mark_of_line (fun v hv => ofViolation_of_leftOn parser hv) hleft]
    split
    · rename_i hkey
      rw [if_pos (by rw [hkey]; exact ⟨rfl, rfl⟩)]
    · rename_i hkey
      split
      · rename_i honline
        -- Another key of the line would be one that is not booked.
        refine Option.eq_none_iff_forall_ne_some.2 fun status hstatus => hkey ?_
        exact (hs key status hstatus).eq_of honline
      · rfl

end Check

/-- **Statuses are booked by line, and the check of a line settles all of its own.** Let any
commands be done, tools and changes of the files from outside, from a session without a
workspace. Every status then has a key whose path has no backslash and whose rule is the one
that there is, and is one of three. If a workspace is loaded and a line of a file is checked
next, each status on the line, under the path with slashes only, is verified if linting the
file anew, as the check does, finds nothing on the line, and failed otherwise. If something is
found, the line has a status; if not, there are statuses for what had one before. All other
statuses are as they were. -/
theorem statuses_are_booked (parser : Parser) (files : FileSystem) (cs : List Command) :
    let s := after parser { files } cs
    (∀ key status, s.statuses.get? key = some status →
      '\\' ∉ key.path.toList ∧ key.ruleId = "delegate-effects" ∧
        status.name ∈ ["fixed", "verified", "failed"]) ∧
    ∀ w path line, s.workspace? = some w →
      let left := Target.onLine line ((w.linter.invalidate path).lintFile parser s.files path).1
      let s' := (s.call parser (.verifyFix path line)).1
      (∀ key status, OnLine path line key → s'.statuses.get? key = some status →
        status = if left = [] then .verified else .failed) ∧
      (left ≠ [] → s'.statuses.get? (.of path line) = some .failed) ∧
      (left = [] → ∀ key, (s'.statuses.get? key).isSome = (s.statuses.get? key).isSome) ∧
      ∀ key, ¬OnLine path line key → s'.statuses.get? key = s.statuses.get? key := by
  intro s
  have hbegin : ({ files } : Session).statuses.Booked := Statuses.booked_empty
  have hs : s.statuses.Booked := booked_after parser hbegin cs
  refine ⟨fun key status hstatus => ?_, ?_⟩
  · refine ⟨(hs key status hstatus).path, (hs key status hstatus).ruleId, ?_⟩
    cases status <;> decide
  intro w path line hw left s'
  have hleft : left = s.leftOn parser w path line := by
    rw [leftOn, ← Linter.lintFile_invalidate_fst]
  have hget : ∀ key, s'.statuses.get? key =
      if key.path = Path.normalize path ∧ key.line = line then
        if left = [] then (s.statuses.get? key).map fun _ => .verified
        else if key = .of path line then some .failed else none
      else s.statuses.get? key := by
    rw [hleft]
    exact get?_verifyFix hw hs path line
  refine ⟨fun key status honline hstatus => ?_, fun hsome => ?_, fun hnone key => ?_,
    fun key hother => ?_⟩
  · rw [hget, if_pos (And.intro honline.1 honline.2)] at hstatus
    split at hstatus
    · rename_i hnone
      obtain ⟨before, -, rfl⟩ := Option.map_eq_some_iff.1 hstatus
      rw [if_pos hnone]
    · rename_i hsome
      split at hstatus
      · rw [← Option.some.inj hstatus, if_neg hsome]
      · cases hstatus
  · rw [hget, if_pos ⟨rfl, rfl⟩, if_neg hsome, if_pos rfl]
  · rw [hget, if_pos hnone]
    split
    · exact Option.isSome_map
    · rfl
  · rw [hget]
    exact if_neg hother

end Session

open NestedSaga in
/-- The outer yield of the saga is still present when its line is checked, which is booked. -/
theorem booked_nestedSaga :
    let s := Session.after parser { files := DeepSaga.files (source false true) }
      [.tool (.loadWorkspace "ws")]
    let s' := (s.call parser (.verifyFix "a.js" 1)).1
    s.workspace? = some { linter := { root := "ws" } } ∧
      s'.statuses.get? ⟨"a.js", 1, "delegate-effects"⟩ = some .failed ∧
      ∀ key, ¬Session.OnLine "a.js" 1 key → s'.statuses.get? key = s.statuses.get? key := by
  intro s s'
  have hs : s = ⟨DeepSaga.files (source false true), some { linter := { root := "ws" } }⟩ :=
    step_loadWorkspace _
  have hloaded : s.workspace? = some { linter := { root := "ws" } } := by rw [hs]
  obtain ⟨-, hcheck⟩ := Session.statuses_are_booked parser
    (DeepSaga.files (source false true)) [.tool (.loadWorkspace "ws")]
  obtain ⟨-, hpresent, -, hother⟩ := hcheck _ "a.js" 1 hloaded
  refine ⟨hloaded, ?_, hother⟩
  have hkey : StatusKey.of "a.js" 1 = ⟨"a.js", 1, "delegate-effects"⟩ := by
    rw [StatusKey.of, normalize_ws, Rule.id]
  rw [← hkey]
  refine hpresent ?_
  have hread : s.files.read (Linter.resolve { root := "ws" } "a.js") = .ok (source false true) := by
    rw [hs, resolve_ws]
    exact (DeepSaga.holds_files (source false true)).read
  have hload := load?_source (fun _ => rfl) (by rw [resolve_ws, ofPath?_ws]) hread
  rw [Linter.lintFile_invalidate_fst]
  change Target.onLine 1 (Linter.report _ _ (Document.load? parser s.files _)) ≠ []
  rw [hload]
  decide +kernel

end YieldLint
