/-
Where a call of a tool can leave a trace.

A tool that is asked about a path changes nothing in the linter but what that keeps under
the path (`Linter.OnlyAt`), and no status but those of the path (`Workspace.OnlyAt`). There
is one lemma for each tool, which says for which keys of the path it may change them, and
one for all of them (`onlyAt_call`). What marking violations does is read off key by key
(`get?_mark`, `get?_markLine`), and the keys are those of the path because violations are
reported at it (`filePath_of_reported`).
-/
import YieldLint.Proofs.Verdicts

namespace YieldLint

/-- The path of the file that a tool is asked about. -/
def Tool.path? : Tool → Option String
  | .listViolations path | .proposeFix path _ | .applyFix path _ | .verifyFix path _
  | .fixAll path _ => some path
  | _ => none

/-! ## Statuses -/

namespace Statuses

/-- The last of some violations with a key gives the key its status. -/
theorem get?_mark (s : Statuses) (vs : List Violation) (status : Violation → Status)
    (key : StatusKey) : (s.mark vs status).get? key =
      ((vs.reverse.find? fun v => StatusKey.ofViolation v = key).map status).or (s.get? key) := by
  induction vs using List.reverseRecOn with
  | nil => rfl
  | append_singleton vs v ih =>
    have hlast : s.mark (vs ++ [v]) status =
        (s.mark vs status).put (StatusKey.ofViolation v) (status v) := by
      rw [mark, List.foldl_append]
      rfl
    rw [hlast, Table.get?_put, ih, List.reverse_concat, List.find?_cons]
    by_cases h : key = StatusKey.ofViolation v
    · simp [h]
    · simp [h, Ne.symm h]

theorem get?_mark_other {s : Statuses} {vs : List Violation} {status : Violation → Status}
    {key : StatusKey} (h : ∀ v ∈ vs, StatusKey.ofViolation v ≠ key) :
    (s.mark vs status).get? key = s.get? key := by
  have hnone : (vs.reverse.find? fun v => StatusKey.ofViolation v = key) = none := by
    rw [List.find?_eq_none]
    intro v hv
    simpa using h v (List.mem_reverse.1 hv)
  rw [get?_mark, hnone]
  rfl

theorem get?_markLine (s : Statuses) (path : String) (line : Int) (status : Status)
    (key : StatusKey) : (s.markLine path line status).get? key =
      if key.path = path ∧ key.line = line then (s.get? key).map fun _ => status
      else s.get? key := by
  rw [markLine, Table.get?_mapWhere]
  simp only [Bool.and_eq_true, beq_iff_eq]

/-- The second statuses differ from the first at most in those of some keys. -/
def KeptBut (touched : StatusKey → Prop) (a b : Statuses) : Prop :=
  ∀ key, ¬touched key → b.get? key = a.get? key

/-- Marking violations changes no status but theirs. -/
theorem keptBut_mark {touched : StatusKey → Prop} {s : Statuses} {vs : List Violation}
    {status : Violation → Status} (h : ∀ v ∈ vs, touched (.ofViolation v)) :
    KeptBut touched s (s.mark vs status) := by
  intro key hkey
  refine get?_mark_other fun v hv he => hkey ?_
  rw [← he]
  exact h v hv

end Statuses

/-! ## The lines of violations -/

theorem Target.lineNumber_of_find? {path : String} {line : Int} {vs : List Violation}
    {target : Target} (h : find? path line vs = some target) {v : Violation}
    (hv : v ∈ target.violations) : v.lineNumber = target.line := by
  have hline : ∀ {line}, v ∈ onLine line vs → v.lineNumber = line := fun h => by
    simpa using (List.mem_filter.1 h).2
  cases vs with
  | nil => cases h
  | cons first rest =>
    rw [find?] at h
    split at h
    · obtain rfl := Option.some.inj h
      exact hline hv
    · obtain rfl := Option.some.inj h
      exact hline hv

/-- Violations are reported at the path that was looked at, with slashes only. -/
theorem Linter.filePath_of_report {rule : Rule} {path : String} {d : Option Document}
    {v : Violation} (hv : v ∈ report rule path d) : v.filePath = Path.normalize path := by
  cases d with
  | none => cases hv
  | some d =>
    obtain ⟨f, -, rfl⟩ := List.mem_map.1 hv
    rfl

theorem StatusKey.path_ofViolation {path : String} {v : Violation}
    (h : v.filePath = Path.normalize path) : (ofViolation v).path = Path.normalize path := by
  rw [ofViolation, h]
  exact Path.normalize_normalize path

/-! ## Linters -/

namespace Linter

/-- Linters of one workspace open a path at the same place. -/
theorem resolve_congr {l l' : Linter} (h : l'.root = l.root) (path : String) :
    l'.resolve path = l.resolve path := by
  rw [resolve, resolve, h]

/-- The second linter differs from the first at most in what it keeps under one path. -/
structure OnlyAt (path : String) (l l' : Linter) : Prop where
  root : l'.root = l.root
  rule : l'.rule = l.rule
  elsewhere : ∀ key, key ≠ l.resolve path → l'.cache.get? key = l.cache.get? key

namespace OnlyAt

variable {path : String} {l l' l'' : Linter}

theorem refl (path : String) (l : Linter) : OnlyAt path l l := ⟨rfl, rfl, fun _ _ => rfl⟩

theorem resolve (h : OnlyAt path l l') (other : String) : l'.resolve other = l.resolve other :=
  resolve_congr h.root other

theorem trans (h : OnlyAt path l l') (h' : OnlyAt path l' l'') : OnlyAt path l l'' where
  root := h'.root.trans h.root
  rule := h'.rule.trans h.rule
  elsewhere key hkey := by
    rw [h'.elsewhere key (by rwa [h.resolve]), h.elsewhere key hkey]

theorem lintFile (parser : Parser) (fs : FileSystem) (l : Linter) (path : String) :
    OnlyAt path l (l.lintFile parser fs path).2 where
  root := root_lintFile parser fs l path
  rule := rule_lintFile parser fs l path
  elsewhere key hkey := by rw [cache_lintFile, if_neg hkey]

theorem invalidate (l : Linter) (path : String) : OnlyAt path l (l.invalidate path) where
  root := rfl
  rule := rfl
  elsewhere key hkey := by rw [cache_invalidate, if_neg hkey]

end OnlyAt

/-- Looking at the files of a workspace adds documents under their paths, and changes none
that is kept. -/
theorem cache_foldl_reportFile (parser : Parser) (fs : FileSystem) (key : String) :
    ∀ (paths : List String) (seen : Table String (List Violation) × Linter),
      let l := seen.2
      let l' := (paths.foldl (reportFile parser fs) seen).2
      l'.cache.get? key = l.cache.get? key ∨
        l.cache.get? key = none ∧ ∃ path ∈ paths, key = l.resolve path := by
  intro paths
  induction paths with
  | nil => exact fun _ => .inl rfl
  | cons path paths ih =>
    intro seen l l'
    have hone : OnlyAt path l (reportFile parser fs seen path).2 := by
      rw [reportFile_snd]
      exact .lintFile parser fs l path
    cases hkept : l.cache.get? key with
    | some d =>
      have hlooked := looked_foldl_reportFile parser fs (path :: paths) seen
      exact .inl (hlooked.kept key d hkept)
    | none =>
      by_cases hkey : key = l.resolve path
      · exact .inr ⟨rfl, path, List.mem_cons_self, hkey⟩
      · rcases ih (reportFile parser fs seen path) with hsame | ⟨-, other, hother, hresolve⟩
        · left
          rw [← hkept, ← hone.elsewhere key hkey]
          exact hsame
        · rw [hone.resolve] at hresolve
          exact .inr ⟨rfl, other, List.mem_cons_of_mem path hother, hresolve⟩

end Linter

/-! ## Workspaces -/

/-- The second workspace differs from the first at most in what the linter keeps under one
path, and in the statuses of some keys. -/
structure Workspace.OnlyAt (path : String) (touched : StatusKey → Prop) (w w' : Workspace) :
    Prop where
  linter : Linter.OnlyAt path w.linter w'.linter
  statuses : Statuses.KeptBut touched w.statuses w'.statuses

theorem Workspace.OnlyAt.mono {path : String} {touched touched' : StatusKey → Prop}
    {w w' : Workspace} (h : OnlyAt path touched w w')
    (hsub : ∀ key, touched key → touched' key) : OnlyAt path touched' w w' where
  linter := h.linter
  statuses key hkey := h.statuses key fun ht => hkey (hsub key ht)

namespace Session

/-- A key is on a line of a file. -/
def OnLine (path : String) (line : Int) (key : StatusKey) : Prop :=
  key.path = Path.normalize path ∧ key.line = line

section OnlyAt

variable {parser : Parser} {s : Session} {w : Workspace} {path : String} {line : Int}
  {touched : StatusKey → Prop}

theorem filePath_of_reported {v : Violation} (hv : v ∈ s.reported parser w path) :
    v.filePath = Path.normalize path := by
  rw [reported, Linter.lintFile_fst] at hv
  exact Linter.filePath_of_report hv

theorem onlyAt_looking : Workspace.OnlyAt path touched w (s.looking parser w path) where
  linter := .lintFile parser s.files w.linter path
  statuses _ _ := rfl

variable (parser)

theorem onlyAt_listViolations (hw : s.workspace? = some w) (path : String) :
    ∃ w', (s.listViolations parser path).1.workspace? = some w' ∧
      Workspace.OnlyAt path (fun _ => False) w w' := by
  rw [listViolations_fst parser s hw]
  exact ⟨_, rfl, onlyAt_looking⟩

theorem proposeFix_fst (hw : s.workspace? = some w) (path : String) (line : Int) :
    (s.proposeFix parser path line).1 = s.withWorkspace (s.looking parser w path) := by
  rw [proposeFix, hw]
  rfl

theorem onlyAt_proposeFix (hw : s.workspace? = some w) (path : String) (line : Int) :
    ∃ w', (s.proposeFix parser path line).1.workspace? = some w' ∧
      Workspace.OnlyAt path (fun _ => False) w w' := by
  rw [proposeFix_fst parser hw]
  exact ⟨_, rfl, onlyAt_looking⟩

/-- The fixes for a line change statuses on one line, that which the fixes are for. -/
theorem onlyAt_applyFix (hw : s.workspace? = some w) (path : String) (line : Int) :
    ∃ near w', (s.applyFix parser path line).1.workspace? = some w' ∧
      Workspace.OnlyAt path (OnLine path near) w w' := by
  have hcall : FixesLine parser s w path line (s.applyFix parser path line) :=
    fixesLine_applyFix hw
  generalize s.applyFix parser path line = r at hcall ⊢
  cases hcall with
  | @written target _ _ _ find _ =>
    refine ⟨target.line, _, rfl, ?_, Statuses.keptBut_mark fun v hv => ?_⟩
    · exact (Linter.OnlyAt.lintFile parser s.files w.linter path).trans (.invalidate _ path)
    · have hreported : v ∈ s.reported parser w path := Target.violations_subset find v hv
      exact ⟨StatusKey.path_ofViolation (filePath_of_reported hreported),
        Target.lineNumber_of_find? find hv⟩
  | _ => exact ⟨line, _, rfl, onlyAt_looking⟩

theorem onlyAt_verifyFix (hw : s.workspace? = some w) (path : String) (line : Int) :
    ∃ w', (s.verifyFix parser path line).1.workspace? = some w' ∧
      Workspace.OnlyAt path (OnLine path line) w w' := by
  rw [verifyFix_eq parser path line hw]
  refine ⟨_, rfl, (Linter.OnlyAt.invalidate w.linter path).trans (.lintFile parser s.files _ path),
    ?_⟩
  dsimp only
  rw [checked]
  split
  · intro key hkey
    rw [Statuses.get?_markLine]
    exact if_neg hkey
  · refine Statuses.keptBut_mark fun v hv => ?_
    obtain ⟨hreported, hline⟩ := List.mem_filter.1 hv
    exact ⟨StatusKey.path_ofViolation (Linter.filePath_of_report hreported), beq_iff_eq.1 hline⟩

/-- All fixes of a file change statuses of that file, and a dry run none. -/
theorem onlyAt_fixAll (hw : s.workspace? = some w) (path : String) (dryRun : Bool) :
    ∃ w', (s.fixAll parser path dryRun).1.workspace? = some w' ∧
      Workspace.OnlyAt path
        (fun key => dryRun = false ∧ key.path = Path.normalize path) w w' := by
  have hcall : FixesFile parser s w path dryRun (s.fixAll parser path dryRun) :=
    fixesFile_fixAll hw
  generalize s.fixAll parser path dryRun = r at hcall ⊢
  cases hcall with
  | @fixed o files linter dry dirty fix =>
    have hlooking : Linter.OnlyAt path w.linter (s.looking parser w path).linter :=
      .lintFile parser s.files w.linter path
    have hfixed : Linter.OnlyAt path w.linter linter := by
      rw [Fixer.fixFile_linter fix]
      split
      · exact hlooking.trans (.invalidate _ path)
      · exact hlooking
    refine ⟨_, rfl, hfixed.trans (.lintFile parser files linter path),
      Statuses.keptBut_mark fun v hv => ?_⟩
    exact ⟨dry, StatusKey.path_ofViolation (filePath_of_reported hv)⟩
  | _ => exact ⟨_, rfl, onlyAt_looking⟩

/-- A tool that is asked about a path changes nothing in the linter but what that keeps
under it, and no status but those of the path. -/
theorem onlyAt_call {t : Tool} (ht : t.path? = some path) (hw : s.workspace? = some w) :
    ∃ w', (s.call parser t).1.workspace? = some w' ∧
      Workspace.OnlyAt path (fun key => key.path = Path.normalize path) w w' := by
  cases t with
  | listViolations path =>
    obtain rfl := Option.some.inj ht
    obtain ⟨w', hw', h⟩ := onlyAt_listViolations parser hw path
    exact ⟨w', hw', h.mono (fun _ => False.elim)⟩
  | proposeFix path line =>
    obtain rfl := Option.some.inj ht
    obtain ⟨w', hw', h⟩ := onlyAt_proposeFix parser hw path line
    exact ⟨w', hw', h.mono (fun _ => False.elim)⟩
  | applyFix path line =>
    obtain rfl := Option.some.inj ht
    obtain ⟨near, w', hw', h⟩ := onlyAt_applyFix parser hw path line
    exact ⟨w', hw', h.mono (fun _ h => h.1)⟩
  | verifyFix path line =>
    obtain rfl := Option.some.inj ht
    obtain ⟨w', hw', h⟩ := onlyAt_verifyFix parser hw path line
    exact ⟨w', hw', h.mono (fun _ h => h.1)⟩
  | fixAll path dryRun =>
    obtain rfl := Option.some.inj ht
    obtain ⟨w', hw', h⟩ := onlyAt_fixAll parser hw path dryRun
    exact ⟨w', hw', h.mono (fun _ h => h.2)⟩
  | _ => cases ht

end OnlyAt

end Session

end YieldLint
