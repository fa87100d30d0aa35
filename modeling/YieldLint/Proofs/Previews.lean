/-
What a dry run tells of the real one.

Fixing a file and applying edits to one do the same, dry or not, up to the write. `Foreseen`
has a rule for each way in which a dry run and a real one can end side by side: both fail
before the write, the real one fails to write, or both come to an outcome and count alike. As
a dry run leaves the session as it was, that is all there is to tell apart (`Foresees`). The
tool that makes all fixes of a file counts by such a run, so its two summaries tell the same
number (`dry_runs_foresee`).
-/
import YieldLint.Proofs.Frames
import YieldLint.Proofs.Summaries

namespace YieldLint

/-- An outcome that counts as another one does, and wrote nothing. -/
structure FixOutcome.Previews (dry real : FixOutcome) : Prop where
  applied : dry.applied = real.applied
  skipped : dry.skipped = real.skipped
  passes : dry.passes = real.passes
  rolledBack : dry.rolledBack = real.rolledBack
  unwritten : dry.written = false

theorem FixOutcome.previews_self {o : FixOutcome} (h : o.written = false) : o.Previews o :=
  ⟨rfl, rfl, rfl, rfl, h⟩

namespace Fixer

/-! ## Side by side -/

/-- How a dry run, which leaves the files alone, and a real one can end side by side. The
answer of the dry one is related to what the real one answers, or would but for its write. -/
inductive Foreseen {α : Type} (fs : FileSystem) (r : α → α → Prop) :
    Except Failure α × FileSystem → Except Failure α × FileSystem → Prop
  | failed {e : Failure} : Foreseen fs r (.error e, fs) (.error e, fs)
  | unwritten {dry real : α} {e : Failure} {left : FileSystem} (related : r dry real) :
      Foreseen fs r (.ok dry, fs) (.error e, left)
  | made {dry real : α} {left : FileSystem} (related : r dry real) :
      Foreseen fs r (.ok dry, fs) (.ok real, left)

section Foreseen

variable {α β : Type} {fs : FileSystem} {r : α → α → Prop}

/-- Steps that both runs make may fail in both. -/
theorem foreseen_bind {p : FileProgram β} {x : Except Failure β} {dry real : β → FileProgram α}
    (hp : p.exec fs = (x, fs)) (h : ∀ b, Foreseen fs r ((dry b).exec fs) ((real b).exec fs)) :
    Foreseen fs r (Program.exec (p >>= dry) fs) (Program.exec (p >>= real) fs) := by
  rw [Program.exec_bind, Program.exec_bind, hp]
  cases x with
  | error e => exact .failed
  | ok b => exact h b

/-- The write is made in the real run alone. -/
theorem foreseen_write {dry real : α} (related : r dry real) (path : String) (new : Bytes) :
    Foreseen fs r (Program.exec (pure dry) fs)
      (Program.exec (FileProgram.write path new >>= fun _ => pure real) fs) := by
  rw [Program.exec_bind]
  rcases (FileProgram.write path new).exec fs with ⟨e | _, left⟩
  · exact .unwritten related
  · exact .made related

theorem foreseen_idle {a : α} (related : r a a) :
    Foreseen fs r (Program.exec (pure a) fs) (Program.exec (pure a) fs) :=
  .made related

end Foreseen

variable (parser : Parser) (fs : FileSystem) (l : Linter) (path : String)
  (requests : List EditRequest)

theorem foreseen_fixing :
    Foreseen fs (fun dry real => dry.1.Previews real.1 ∧ dry.2 = l)
      ((fixing parser l path true).exec fs) ((fixing parser l path false).exec fs) := by
  have hkept {o : FixOutcome} (h : o.written = false) :
      Foreseen fs (fun dry real => dry.1.Previews real.1 ∧ dry.2 = l)
        (Program.exec (pure (o, l)) fs) (Program.exec (pure (o, l)) fs) :=
    foreseen_idle ⟨o.previews_self h, rfl⟩
  unfold fixing
  dsimp only
  cases Language.ofPath? (l.resolve path) with
  | none => exact hkept rfl
  | some language =>
  refine foreseen_bind (FileProgram.exec_hasPath _ fs) fun there => ?_
  split
  · exact hkept rfl
  refine foreseen_bind (FileProgram.exec_read _ fs) fun old => ?_
  refine foreseen_bind (Program.exec_lift _ fs) fun fixed => ?_
  split
  · exact hkept rfl
  · exact foreseen_write ⟨⟨rfl, rfl, rfl, rfl, rfl⟩, rfl⟩ _ _

theorem foreseen_applying :
    Foreseen fs FixOutcome.Previews ((applying parser path requests true).exec fs)
      ((applying parser path requests false).exec fs) := by
  refine foreseen_bind (FileProgram.exec_read path fs) fun old => ?_
  refine foreseen_bind (Program.exec_lift _ fs) fun edited => ?_
  dsimp only
  split
  · exact foreseen_idle (FixOutcome.previews_self rfl)
  refine foreseen_bind (Program.exec_lift _ fs) fun broken => ?_
  split
  · exact foreseen_idle (FixOutcome.previews_self rfl)
  · exact foreseen_write ⟨rfl, rfl, rfl, rfl, rfl⟩ _ _

end Fixer

namespace Session

/-! ## Commands -/

/-- A command that may be given dry foresees what it does otherwise. Dry, it leaves the session
as it is, answers with the counts of what a real run answers, and fails only as that fails. -/
structure Foresees (parser : Parser) (s : Session) (command : Bool → Command) : Prop where
  keeps : (s.step parser (command true)).1 = s
  counts : ∀ real, (s.step parser (command false)).2 = .ok (.outcome real) →
    ∃ dry, (s.step parser (command true)).2 = .ok (.outcome dry) ∧ dry.Previews real
  fails : ∀ e, (s.step parser (command true)).2 = .error e →
    (s.step parser (command false)).2 = .error e

section Foresees

variable {parser : Parser} {s : Session} {command : Bool → Command}

/-- Without a workspace, such a command does nothing. -/
theorem foresees_of_idle (h : ∀ dryRun, s.step parser (command dryRun) = (s, .ok .done)) :
    Foresees parser s command where
  keeps := by rw [h]
  counts real hreal := by
    rw [h] at hreal
    cases hreal
  fails e hdry := by
    rw [h] at hdry
    cases hdry

/-- What a command comes to that ends in an outcome, or fails and leaves no more than files. -/
def outcomeOf {α : Type} (s : Session) (leaving : α → FileSystem → Session)
    (counted : α → FixOutcome) :
    Except Failure α × FileSystem → Session × Except Failure Response
  | (.ok a, files) => (leaving a files, .ok (.outcome (counted a)))
  | (.error e, files) => ({ s with files }, .error e)

theorem foresees_of_foreseen {α : Type} {r : α → α → Prop} (leaving : α → FileSystem → Session)
    (counted : α → FixOutcome) (came : Bool → Except Failure α × FileSystem)
    (h : Fixer.Foreseen s.files r (came true) (came false))
    (hrelated : ∀ dry real, r dry real →
      leaving dry s.files = s ∧ (counted dry).Previews (counted real))
    (hstep : ∀ dryRun, s.step parser (command dryRun) = outcomeOf s leaving counted (came dryRun)) :
    Foresees parser s command := by
  have hdry := hstep true
  have hreal := hstep false
  generalize came true = dry at h hdry
  generalize came false = real at h hreal
  cases h with
  | failed =>
    refine ⟨by rw [hdry]; rfl, fun o ho => ?_, fun e he => ?_⟩
    · rw [hreal] at ho
      cases ho
    · rw [hdry] at he
      rw [hreal]
      exact he
  | unwritten related =>
    obtain ⟨hkept, -⟩ := hrelated _ _ related
    refine ⟨by rw [hdry]; exact hkept, fun o ho => ?_, fun e he => ?_⟩
    · rw [hreal] at ho
      cases ho
    · rw [hdry] at he
      cases he
  | made related =>
    obtain ⟨hkept, hpreviews⟩ := hrelated _ _ related
    refine ⟨by rw [hdry]; exact hkept, fun o ho => ?_, fun e he => ?_⟩
    · rw [hreal] at ho
      cases ho
      exact ⟨_, by rw [hdry]; rfl, hpreviews⟩
    · rw [hdry] at he
      cases he

end Foresees

section Commands

variable (parser : Parser) (s : Session) (path : String)

theorem foresees_fixFile : Foresees parser s (.fixFile path) := by
  cases hw : s.workspace? with
  | none => exact foresees_of_idle fun dryRun => by simp only [step, onWorkspace, hw]
  | some w =>
    refine foresees_of_foreseen
      (fun r files => ⟨files, some { w with linter := r.2 }⟩) Prod.fst
      (fun dryRun => (Fixer.fixing parser w.linter path dryRun).exec s.files)
      (Fixer.foreseen_fixing parser s.files w.linter path)
      (fun dry real related => ⟨by rw [related.2, ← hw], related.1⟩) fun dryRun => ?_
    simp only [step, onWorkspace, hw]
    rcases (Fixer.fixing parser w.linter path dryRun).exec s.files with ⟨e | r, files⟩
    · simp only [outcomeOf, hw]
    · rfl

theorem foresees_applyToFile (requests : List EditRequest) :
    Foresees parser s (.applyToFile path requests) := by
  cases hw : s.workspace? with
  | none => exact foresees_of_idle fun dryRun => by simp only [step, onWorkspace, hw]
  | some w =>
    refine foresees_of_foreseen (fun _ files => { s with files }) id
      (fun dryRun => (Fixer.applying parser path requests dryRun).exec s.files)
      (Fixer.foreseen_applying parser s.files path requests)
      (fun dry real related => ⟨rfl, related⟩) fun dryRun => ?_
    simp only [step, onWorkspace, hw]
    rcases (Fixer.applying parser path requests dryRun).exec s.files with ⟨e | o, files⟩
    · simp only [outcomeOf, hw]
      rfl
    · rfl

end Commands

/-! ## The tool -/

/-- Where the fixes of a file are made, a dry run says how many would be. -/
theorem previewText_of_fixedText {parser : Parser} {s s' : Session} {path message : String}
    {before applied passes left : Nat}
    (h : s.call parser (.fixAll path false) =
      (s', .ok (fixedText path before applied passes left message))) :
    ∃ told, (s.call parser (.fixAll path true)).2 =
      .ok (previewText path before applied told) := by
  obtain ⟨w, o, files, linter, hw, dirty, hreal, -, rfl, rfl, -⟩ := exists_fixed_of_fixedText h
  have hforeseen := Fixer.foreseen_fixing parser s.files (s.looking parser w path).linter path
  rw [Fixer.fixFile_eq_ok_iff.1 hreal] at hforeseen
  have hcall : FixesFile parser s w path true (s.call parser (.fixAll path true)) :=
    fixesFile_fixAll hw
  generalize s.call parser (.fixAll path true) = r at hcall ⊢
  cases hcall with
  | clean nothing => exact absurd nothing dirty
  | unwritten _ fix =>
    rw [fix] at hforeseen
    cases hforeseen
  | refused _ fix =>
    rw [fix] at hforeseen
    cases hforeseen
  | previewed _ _ fix =>
    rw [Fixer.fixFile_eq_ok_iff.1 fix] at hforeseen
    cases hforeseen with
    | made related =>
      rw [← related.1.applied]
      exact ⟨_, rfl⟩
  | fixed dry | brokenOff dry => cases dry

/-- **Dry runs foresee the real ones.** Whatever state a session is in: to fix a file or to
apply edits to one, dry, leaves all of the session as it is, its files, its statuses and its
documents; if the same command, given otherwise, answers with an outcome, so does the dry one,
with the same numbers of edits applied and skipped and of passes, and rolled back or not as
that; and if the dry one fails, the other fails in the same way. All fixes of a file, made dry,
change no file and no status, and if the real call answers with its summary, the dry one
answers with a summary that tells the same number of fixes. -/
theorem dry_runs_foresee (parser : Parser) (s : Session) :
    (∀ path, Foresees parser s (.fixFile path)) ∧
      (∀ path requests, Foresees parser s (.applyToFile path requests)) ∧
      ∀ path,
        let dry := s.call parser (.fixAll path true)
        let real := s.call parser (.fixAll path false)
        dry.1.files = s.files ∧ dry.1.statuses = s.statuses ∧
          ∀ before applied passes left message,
            real.2 = .ok (fixedText path before applied passes left message) →
            ∃ told, dry.2 = .ok (previewText path before applied told) := by
  refine ⟨foresees_fixFile parser s, foresees_applyToFile parser s, fun path => ?_⟩
  have hlooks := looks_fixAll_dry parser s path
  refine ⟨hlooks.files_eq, hlooks.statuses_eq, fun before applied passes left message h => ?_⟩
  exact previewText_of_fixedText (Prod.ext rfl h)

end Session

open BinarySaga in
/-- The saga is fixed by one edit, and a dry run tells that one would be. -/
theorem fixAll_saga_foreseen : ∃ passes message told,
    (loaded.call parser (.fixAll "a.js" false)).2 =
        .ok (Session.fixedText "a.js" 1 1 passes 0 message) ∧
      (loaded.call parser (.fixAll "a.js" true)).2 = .ok (Session.previewText "a.js" 1 1 told) := by
  obtain ⟨s', passes, message, hcall⟩ := fixAll_loaded
  have hreal := congrArg Prod.snd hcall
  obtain ⟨-, -, hfixAll⟩ := Session.dry_runs_foresee parser loaded
  obtain ⟨-, -, htold⟩ := hfixAll "a.js"
  obtain ⟨told, hdry⟩ := htold 1 1 passes 0 message hreal
  exact ⟨passes, message, told, hreal, hdry⟩

end YieldLint
