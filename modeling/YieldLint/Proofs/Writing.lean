/-
When a fix writes its file.

`MakesEdits` and `MakesFixed` say what must be so for edits, or the result of passes, to be
fit to be written to a file; `WritesEdits` and `WritesFixed` that they are, and that the
file takes them. A program that fixes does one thing with the files, and that at its end, so
it can end in four ways (`Attempt`): it fails or keeps the file before it writes, and leaves
the files alone; or it has something fit to be written, and that is written, or the write
breaks off. `attempt_applying` and `attempt_fixing` follow the two programs to their ends.
With these, and with what they do if the result is fit to be written
(`exec_applying_of_makes`, `exec_fixing_of_makes`), no proof has to open them again.
-/
import YieldLint.Proofs.Overwriting
import YieldLint.Fixer

namespace YieldLint.Fixer

/-- Edits that were asked for make something fit to be written of a file: it can be read,
some of them apply, and what they make is not broken. -/
structure MakesEdits (parser : Parser) (fs : FileSystem) (path : String)
    (requests : List EditRequest) (old : Bytes) (edited : Edited) : Prop where
  read : fs.read path = .ok old
  apply : EditRequest.apply old requests = .ok edited
  taken : edited.applied ≠ 0
  holds : breaks parser ((Language.ofPath? path).getD .javascript) old edited.content = .ok false

/-- Edits that were asked for are written to a file. -/
structure WritesEdits (parser : Parser) (fs : FileSystem) (path : String)
    (requests : List EditRequest) (old : Bytes) (edited : Edited) (fs' : FileSystem) : Prop
    extends MakesEdits parser fs path requests old edited where
  write : fs.write path edited.content = .ok fs'

/-- Passes come to something fit to be written to a file: its language is known, it can be
read, and some edit is applied. -/
structure MakesFixed (parser : Parser) (rule : Rule) (fs : FileSystem) (path : String)
    (language : Language) (old : Bytes) (fixed : FixedSource) : Prop where
  known : Language.ofPath? path = some language
  read : fs.read path = .ok old
  passes : fixSource parser rule language old = .ok fixed
  taken : fixed.applied ≠ 0

/-- What passes come to is written to a file. -/
structure WritesFixed (parser : Parser) (rule : Rule) (fs : FileSystem) (path : String)
    (language : Language) (old : Bytes) (fixed : FixedSource) (fs' : FileSystem) : Prop
    extends MakesFixed parser rule fs path language old fixed where
  write : fs.write path fixed.source = .ok fs'

/-! ## How an attempt ends -/

/-- How a program can end that writes a file at its end, or not at all. What it answers
passes one test if it leaves the files alone, and with what it writes another. -/
inductive Attempt {α : Type} (fs : FileSystem) (path : String) (Kept : α → Prop)
    (Made : Bytes → α → Prop) : Except Failure α × FileSystem → Prop
  | failed (e : Failure) : Attempt fs path Kept Made (.error e, fs)
  | kept {a : α} (kept : Kept a) : Attempt fs path Kept Made (.ok a, fs)
  | written {a : α} {new : Bytes} {fs' : FileSystem} (made : Made new a)
      (write : fs.write path new = .ok fs') : Attempt fs path Kept Made (.ok a, fs')
  | brokenOff {a : α} {new : Bytes} {location : Location} {fault : Fault} (made : Made new a)
      (breaks : fs.BreaksOff path location fault) :
      Attempt fs path Kept Made
        (.error fault.failure, fs.store location (new.take fault.stored))

namespace Attempt

variable {α β : Type} {fs : FileSystem} {path : String} {Kept : α → Prop}
  {Made : Bytes → α → Prop}

/-- A step that leaves the files alone may fail. -/
theorem bind {p : FileProgram β} {x : Except Failure β} {f : β → FileProgram α}
    (hp : p.exec fs = (x, fs))
    (h : ∀ b, x = .ok b → Attempt fs path Kept Made ((f b).exec fs)) :
    Attempt fs path Kept Made ((p >>= f).exec fs) := by
  rw [Program.exec_bind, hp]
  cases x with
  | error e => exact .failed e
  | ok b => exact h b rfl

/-- The step that writes is the last one that may fail. -/
theorem write {new : Bytes} {a : α} (made : Made new a) :
    Attempt fs path Kept Made
      (Program.exec (FileProgram.write path new >>= fun _ => pure a) fs) := by
  rw [Program.exec_bind, FileSystem.exec_write]
  cases hopens : fs.writable path with
  | error e => exact .failed e
  | ok location =>
    dsimp only
    cases hfault : fs.fault? location with
    | none =>
      exact .written made (FileSystem.write_eq_ok_iff.2 ⟨location, hopens, hfault, rfl⟩)
    | some fault => exact .brokenOff made ⟨hopens, hfault⟩

theorem exists_made {came : Except Failure α × FileSystem} (h : Attempt fs path Kept Made came)
    {a : α} (ha : came.1 = .ok a) (hkept : ¬Kept a) :
    ∃ new fs', Made new a ∧ fs.write path new = .ok fs' := by
  cases h with
  | failed e => cases ha
  | kept kept =>
    cases ha
    exact absurd kept hkept
  | written made write =>
    cases ha
    exact ⟨_, _, made, write⟩
  | brokenOff => cases ha

end Attempt

variable {parser : Parser} {fs fs' : FileSystem} {l l' : Linter} {path : String}
  {requests : List EditRequest} {o : FixOutcome}

/-- What is answered when something fit to be written was made by edits. -/
def MadeEdits (parser : Parser) (fs : FileSystem) (path : String)
    (requests : List EditRequest) (new : Bytes) (o : FixOutcome) : Prop :=
  o.written = true ∧ ∃ old edited, MakesEdits parser fs path requests old edited ∧
    edited.content = new ∧ o.applied = edited.applied ∧ o.skipped = edited.skipped

/-- What is answered when something fit to be written was made by passes. The linter
forgets the file. -/
def MadeFixed (parser : Parser) (fs : FileSystem) (l : Linter) (path : String) (new : Bytes)
    (r : FixOutcome × Linter) : Prop :=
  r.1.written = true ∧ r.2 = l.invalidate path ∧ ∃ language old fixed,
    MakesFixed parser l.rule fs (l.resolve path) language old fixed ∧
    fixed.source = new ∧ r.1.applied = fixed.applied ∧ r.1.passes = fixed.passes

theorem attempt_applying (parser : Parser) (fs : FileSystem) (path : String)
    (requests : List EditRequest) (dryRun : Bool) :
    Attempt fs path (fun o => o.written = false)
      (fun new o => dryRun = false ∧ MadeEdits parser fs path requests new o)
      ((applying parser path requests dryRun).exec fs) := by
  refine .bind (FileProgram.exec_read path fs) fun old hread => ?_
  refine .bind (Program.exec_lift _ fs) fun edited happly => ?_
  dsimp only
  split
  · exact .kept rfl
  rename_i htaken
  refine .bind (Program.exec_lift _ fs) fun broken hbreaks => ?_
  split
  · exact .kept rfl
  rename_i hholds
  split
  · exact .kept rfl
  rename_i hreal
  obtain rfl : broken = false := by simpa using hholds
  exact .write ⟨by simpa using hreal, rfl, old, edited, ⟨hread, happly, htaken, hbreaks⟩,
    rfl, rfl, rfl⟩

theorem attempt_fixing (parser : Parser) (fs : FileSystem) (l : Linter) (path : String)
    (dryRun : Bool) :
    Attempt fs (l.resolve path) (fun r => r.1.written = false ∧ r.2 = l)
      (fun new r => dryRun = false ∧ MadeFixed parser fs l path new r)
      ((fixing parser l path dryRun).exec fs) := by
  unfold fixing
  dsimp only
  cases hknown : Language.ofPath? (l.resolve path) with
  | none => exact .kept ⟨rfl, rfl⟩
  | some language =>
  refine .bind (FileProgram.exec_hasPath (l.resolve path) fs) fun there _ => ?_
  split
  · exact .kept ⟨rfl, rfl⟩
  refine .bind (FileProgram.exec_read (l.resolve path) fs) fun old hread => ?_
  refine .bind (Program.exec_lift _ fs) fun fixed hpasses => ?_
  split
  · exact .kept ⟨rfl, rfl⟩
  rename_i htaken
  split
  · exact .kept ⟨rfl, rfl⟩
  rename_i hreal
  exact .write ⟨by simpa using hreal, rfl, rfl, language, old, fixed,
    ⟨hknown, hread, hpasses, htaken⟩, rfl, rfl, rfl⟩

/-! ## What is fit to be written -/

/-- What edits make is written, if it is fit to be and the attempt is not dry. -/
theorem exec_applying_of_makes {old : Bytes} {edited : Edited}
    (h : MakesEdits parser fs path requests old edited) :
    ∃ o, (applying parser path requests false).exec fs =
        Program.exec (FileProgram.write path edited.content >>= fun _ => pure o) fs ∧
      o.written = true ∧ o.applied = edited.applied := by
  refine ⟨{
    filePath := path, applied := edited.applied, skipped := edited.skipped, written := true
    message := "Applied " ++ toString edited.applied ++ " fixes to " ++ path }, ?_, rfl, rfl⟩
  rw [applying, Program.exec_bind_of_ok (by rw [FileProgram.exec_read, h.read]),
    Program.exec_bind_of_ok (by rw [Program.exec_lift, h.apply])]
  dsimp only
  rw [if_neg h.taken, Program.exec_bind_of_ok (by rw [Program.exec_lift, h.holds]),
    if_neg Bool.false_ne_true, if_neg Bool.false_ne_true]

/-- What passes come to is written, if it is fit to be and the attempt is not dry. -/
theorem exec_fixing_of_makes {language : Language} {old : Bytes} {fixed : FixedSource}
    (h : MakesFixed parser l.rule fs (l.resolve path) language old fixed) :
    ∃ o, (fixing parser l path false).exec fs =
        Program.exec (FileProgram.write (l.resolve path) fixed.source >>= fun _ =>
          pure (o, l.invalidate path)) fs ∧
      o.written = true ∧ o.applied = fixed.applied := by
  refine ⟨{
    filePath := path, applied := fixed.applied, passes := fixed.passes, written := true
    message := "Applied " ++ toString fixed.applied ++ " fixes to " ++ path ++ " in " ++
      toString fixed.passes ++ " pass(es)" }, ?_, rfl, rfl⟩
  unfold fixing
  dsimp only
  rw [h.known]
  dsimp only
  rw [Program.exec_bind_of_ok (FileProgram.exec_hasPath _ fs), FileSystem.hasPath_of_read h.read,
    if_neg (by simp), Program.exec_bind_of_ok (by rw [FileProgram.exec_read, h.read]),
    Program.exec_bind_of_ok (by rw [Program.exec_lift, h.passes]), if_neg h.taken,
    if_neg Bool.false_ne_true]

section Writes

variable {old : Bytes} {edited : Edited} {fixed : FixedSource} {language : Language}
  {location : Location} {fault : Fault}

theorem exec_write_of_ok {α : Type} {new : Bytes} {a : α} (h : fs.write path new = .ok fs') :
    Program.exec (FileProgram.write path new >>= fun _ => pure a) fs = (.ok a, fs') := by
  obtain ⟨location, hopens, hsound, rfl⟩ := FileSystem.write_eq_ok_iff.1 h
  rw [Program.exec_bind_of_ok (FileSystem.exec_write_of_none hopens hsound new), Program.exec_pure]

theorem exec_applying_of_writes (h : WritesEdits parser fs path requests old edited fs') :
    ∃ o, (applying parser path requests false).exec fs = (.ok o, fs') ∧
      o.written = true ∧ o.applied = edited.applied := by
  obtain ⟨o, ho, hwritten, happlied⟩ := exec_applying_of_makes h.toMakesEdits
  exact ⟨o, ho.trans (exec_write_of_ok h.write), hwritten, happlied⟩

theorem exec_applying_of_breaksOff (h : MakesEdits parser fs path requests old edited)
    (hbreaks : fs.BreaksOff path location fault) :
    (applying parser path requests false).exec fs =
      (.error fault.failure, fs.store location (edited.content.take fault.stored)) := by
  obtain ⟨o, ho, -⟩ := exec_applying_of_makes h
  rw [ho, Program.exec_bind_of_error (hbreaks.exec_write edited.content)]

theorem exec_fixing_of_writes
    (h : WritesFixed parser l.rule fs (l.resolve path) language old fixed fs') :
    ∃ o, (fixing parser l path false).exec fs = (.ok (o, l.invalidate path), fs') ∧
      o.written = true ∧ o.applied = fixed.applied := by
  obtain ⟨o, ho, hwritten, happlied⟩ := exec_fixing_of_makes h.toMakesFixed
  exact ⟨o, ho.trans (exec_write_of_ok h.write), hwritten, happlied⟩

theorem exec_fixing_of_breaksOff
    (h : MakesFixed parser l.rule fs (l.resolve path) language old fixed)
    (hbreaks : fs.BreaksOff (l.resolve path) location fault) :
    (fixing parser l path false).exec fs =
      (.error fault.failure, fs.store location (fixed.source.take fault.stored)) := by
  obtain ⟨o, ho, -⟩ := exec_fixing_of_makes h
  rw [ho, Program.exec_bind_of_error (hbreaks.exec_write fixed.source)]

theorem applyToFile_of_writes (h : WritesEdits parser fs path requests old edited fs') :
    ∃ o, applyToFile parser fs path requests false = .ok (o, fs') ∧
      o.written = true ∧ o.applied = edited.applied := by
  obtain ⟨o, ho, hwritten, happlied⟩ := exec_applying_of_writes h
  exact ⟨o, Program.result_eq_ok_iff.2 ho, hwritten, happlied⟩

theorem fixFile_eq_ok_iff {dryRun : Bool} :
    fixFile parser fs l path dryRun = .ok (o, fs', l') ↔
      (fixing parser l path dryRun).exec fs = (.ok (o, l'), fs') := by
  rw [← Program.result_eq_ok_iff, fixFile]
  cases (fixing parser l path dryRun).result fs with
  | error e => simp [Except.map]
  | ok r =>
    obtain ⟨⟨o', l''⟩, fs''⟩ := r
    simp [Except.map, and_comm, and_left_comm]

theorem fixFile_of_writes
    (h : WritesFixed parser l.rule fs (l.resolve path) language old fixed fs') :
    ∃ o, fixFile parser fs l path false = .ok (o, fs', l.invalidate path) ∧
      o.written = true ∧ o.applied = fixed.applied := by
  obtain ⟨o, ho, hwritten, happlied⟩ := exec_fixing_of_writes h
  exact ⟨o, fixFile_eq_ok_iff.2 ho, hwritten, happlied⟩

end Writes

/-! ## What is answered -/

/-- Fixing a file writes nothing, or what the passes make of what was read. -/
theorem fixFile_cases {dryRun : Bool} (h : fixFile parser fs l path dryRun = .ok (o, fs', l')) :
    o.written = false ∧ fs' = fs ∨
      o.written = true ∧ dryRun = false ∧ ∃ language old fixed,
        WritesFixed parser l.rule fs (l.resolve path) language old fixed fs' ∧
        o.applied = fixed.applied ∧ o.passes = fixed.passes := by
  have hattempt := attempt_fixing parser fs l path dryRun
  rw [fixFile_eq_ok_iff.1 h] at hattempt
  cases hattempt with
  | kept kept => exact .inl ⟨kept.1, rfl⟩
  | written made write =>
    obtain ⟨hreal, hwritten, -, language, old, fixed, hmakes, rfl, hcounts⟩ := made
    exact .inr ⟨hwritten, hreal, language, old, fixed, ⟨hmakes, write⟩, hcounts⟩

/-- Fixing a file makes the linter forget it if it is written, and nothing otherwise. -/
theorem fixFile_linter {dryRun : Bool} (h : fixFile parser fs l path dryRun = .ok (o, fs', l')) :
    l' = if o.written then l.invalidate path else l := by
  have hattempt := attempt_fixing parser fs l path dryRun
  rw [fixFile_eq_ok_iff.1 h] at hattempt
  cases hattempt with
  | kept kept =>
    rw [kept.1, if_neg Bool.false_ne_true]
    exact kept.2
  | written made write =>
    rw [made.2.1, if_pos rfl]
    exact made.2.2.1

end YieldLint.Fixer
