/-
Fixing a file changes that file in one go, or nothing at all, unless the write breaks off.

`Fixer.applying` and `Fixer.fixing` are programs over the files, in which what was written
stays written when a later step fails, and a session is left with the files that they leave
(`step_applyToFile`, `step_fixFile`). `AllOrNothing` has one rule for each way in which such a
program can end. In one of them it is neither all nor nothing: a file is emptied when it is
opened for writing, so when what is written then cannot be stored, its beginning is left.
`applying_written_iff` and `fixing_written_iff` say when a program ends by writing.
-/
import YieldLint.Proofs.Rest
import YieldLint.Proofs.Writing
import YieldLint.Session.Command

namespace YieldLint

namespace Fixer

/-! ## In a session -/

theorem step_applyToFile (parser : Parser) (fs : FileSystem) (w : Workspace) (path : String)
    (requests : List EditRequest) (dryRun : Bool) :
    let came := (applying parser path requests dryRun).exec fs
    Session.step parser ⟨fs, some w⟩ (.applyToFile path requests dryRun) =
      (⟨came.2, some w⟩, came.1.map .outcome) := rfl

theorem step_fixFile (parser : Parser) (fs : FileSystem) (w : Workspace) (path : String)
    (dryRun : Bool) :
    let came := (fixing parser w.linter path dryRun).exec fs
    let left := Session.step parser ⟨fs, some w⟩ (.fixFile path dryRun)
    left.1.files = came.2 ∧ left.2 = came.1.map fun r => .outcome r.1 := by
  simp only [Session.step, Session.onWorkspace]
  rcases (fixing parser w.linter path dryRun).exec fs with ⟨e | r, fs'⟩
  · exact ⟨rfl, rfl⟩
  · exact ⟨rfl, rfl⟩

/-! ## All or nothing -/

/-- What an attempt to change the file of a path may come to. It fails or writes
nothing, and leaves the files as they are; or it writes that file alone, as `Makes`
says, and brings no parse error in; or it fails because not all that it makes could be
stored, and leaves the beginning of that. -/
inductive AllOrNothing (parser : Parser) (language : Language)
    (Makes : Bytes → Bytes → FixOutcome → Prop) (path : String) (dryRun : Bool)
    (fs : FileSystem) : Except Failure FixOutcome × FileSystem → Prop
  | failed (e : Failure) : AllOrNothing parser language Makes path dryRun fs (.error e, fs)
  | kept {o : FixOutcome} (written : o.written = false) :
      AllOrNothing parser language Makes path dryRun fs (.ok o, fs)
  | changed {o : FixOutcome} {fs' : FileSystem} {location : Location} {old new : Bytes}
      (written : o.written = true) (real : dryRun = false) (taken : 0 < o.applied)
      (leads : fs.locate? path = some location)
      (overwritten : FileSystem.Overwritten location old new fs fs') (makes : Makes old new o)
      (safe : parser.FindsError language new → parser.FindsError language old) :
      AllOrNothing parser language Makes path dryRun fs (.ok o, fs')
  | brokenOff {o : FixOutcome} {fs' : FileSystem} {location : Location} {fault : Fault}
      {old new : Bytes} (real : dryRun = false) (breaks : fs.BreaksOff path location fault)
      (overwritten : FileSystem.Overwritten location old (new.take fault.stored) fs fs')
      (makes : Makes old new o) :
      AllOrNothing parser language Makes path dryRun fs (.error fault.failure, fs')

/-- The edits asked for make the new contents of the old ones. -/
def MadeByEdits (requests : List EditRequest) (old new : Bytes) (o : FixOutcome) : Prop :=
  EditRequest.apply old requests = .ok ⟨new, o.applied, o.skipped⟩

/-- The passes over a source in the language of a path make the new contents of the old
ones. -/
def MadeByPasses (parser : Parser) (rule : Rule) (path : String) (old new : Bytes)
    (o : FixOutcome) : Prop :=
  ∃ language, Language.ofPath? path = some language ∧
    fixSource parser rule language old = .ok ⟨new, o.applied, o.passes⟩

/-- A write that breaks off leaves the beginning of what was to be stored, and no other file
changes. -/
theorem overwritten_of_breaksOff {fs : FileSystem} {path : String} {location : Location}
    {fault : Fault} {old : Bytes} (hread : fs.read path = .ok old)
    (hbreaks : fs.BreaksOff path location fault) (new : Bytes) :
    FileSystem.Overwritten location old (new.take fault.stored) fs
      (fs.store location (new.take fault.stored)) := by
  obtain ⟨location', hleads', -, hold⟩ := FileSystem.read_eq_ok_iff.1 hread
  obtain ⟨hleads, -⟩ := FileSystem.writable_eq_ok_iff.1 hbreaks.opens
  obtain rfl := Option.some.inj (hleads.symm.trans hleads')
  exact .of_store hold _

section Attempt

variable {α : Type} {parser : Parser} {language : Language}
  {Makes : Bytes → Bytes → FixOutcome → Prop} {path : String} {dryRun : Bool} {fs : FileSystem}
  {Kept : α → Prop} {Made : Bytes → α → Prop} {outcome : α → FixOutcome}
  {came : Except Failure α × FileSystem}

/-- What is fit to be written is made of what was read, and brings no parse error in. -/
theorem allOrNothing_of_attempt (h : Attempt fs path Kept Made came)
    (hkept : ∀ a, Kept a → (outcome a).written = false)
    (hmade : ∀ new a, Made new a → dryRun = false ∧ (outcome a).written = true ∧
      0 < (outcome a).applied ∧ ∃ old, fs.read path = .ok old ∧ Makes old new (outcome a) ∧
        (parser.FindsError language new → parser.FindsError language old)) :
    AllOrNothing parser language Makes path dryRun fs (came.1.map outcome, came.2) := by
  cases h with
  | failed e => exact .failed e
  | kept kept => exact .kept (hkept _ kept)
  | written made write =>
    obtain ⟨hreal, hwritten, htaken, old, hread, hmakes, hsafe⟩ := hmade _ _ made
    obtain ⟨location, hleads, hover⟩ := FileSystem.overwritten_of_write hread write
    exact .changed hwritten hreal htaken hleads hover hmakes hsafe
  | brokenOff made breaks =>
    obtain ⟨hreal, -, -, old, hread, hmakes, -⟩ := hmade _ _ made
    exact .brokenOff hreal breaks (overwritten_of_breaksOff hread breaks _) hmakes

end Attempt

theorem allOrNothing_applying (parser : Parser) (fs : FileSystem) (path : String)
    (requests : List EditRequest) (dryRun : Bool) :
    AllOrNothing parser ((Language.ofPath? path).getD .javascript) (MadeByEdits requests) path
      dryRun fs ((applying parser path requests dryRun).exec fs) := by
  have hid (came : Except Failure FixOutcome × FileSystem) : (came.1.map id, came.2) = came := by
    rcases came with ⟨e | o, fs'⟩
    · rfl
    · rfl
  rw [← hid ((applying parser path requests dryRun).exec fs)]
  refine allOrNothing_of_attempt (attempt_applying parser fs path requests dryRun)
    (fun _ h => h) ?_
  rintro new o ⟨hreal, hwritten, old, edited, hmakes, rfl, happlied, hskipped⟩
  refine ⟨hreal, hwritten, ?_, old, hmakes.read, ?_, findsError_of_breaks hmakes.holds⟩
  · rw [id, happlied]
    exact Nat.pos_of_ne_zero hmakes.taken
  · rw [MadeByEdits, id, happlied, hskipped]
    exact hmakes.apply

theorem allOrNothing_fixing (parser : Parser) (fs : FileSystem) (l : Linter) (path : String)
    (dryRun : Bool) :
    let came := (fixing parser l path dryRun).exec fs
    AllOrNothing parser ((Language.ofPath? (l.resolve path)).getD .javascript)
      (MadeByPasses parser l.rule (l.resolve path)) (l.resolve path) dryRun fs
      (came.1.map Prod.fst, came.2) := by
  refine allOrNothing_of_attempt (attempt_fixing parser fs l path dryRun) (fun _ h => h.1) ?_
  rintro new r ⟨hreal, hwritten, -, language, old, fixed, hmakes, rfl, happlied, hpasses⟩
  refine ⟨hreal, hwritten, ?_, old, hmakes.read, ⟨language, hmakes.known, ?_⟩, ?_⟩
  · rw [happlied]
    exact Nat.pos_of_ne_zero hmakes.taken
  · rw [happlied, hpasses]
    exact hmakes.passes
  · rw [hmakes.known]
    exact (run_of_passes hmakes.passes).findsError

/-! ## When a file is written -/

theorem applying_written_iff (parser : Parser) (fs : FileSystem) (path : String)
    (requests : List EditRequest) (dryRun : Bool) :
    (∃ o, ((applying parser path requests dryRun).exec fs).1 = .ok o ∧ o.written = true) ↔
      dryRun = false ∧ ∃ old edited fs', WritesEdits parser fs path requests old edited fs' := by
  constructor
  · rintro ⟨o, ho, hwritten⟩
    obtain ⟨new, fs', ⟨hreal, -, old, edited, hmakes, rfl, -⟩, hwrite⟩ :=
      (attempt_applying parser fs path requests dryRun).exists_made ho (by simp [hwritten])
    exact ⟨hreal, old, edited, fs', hmakes, hwrite⟩
  · rintro ⟨rfl, old, edited, fs', hwrites⟩
    obtain ⟨o, ho, hwritten, -⟩ := exec_applying_of_writes hwrites
    exact ⟨o, congrArg Prod.fst ho, hwritten⟩

theorem fixing_written_iff (parser : Parser) (fs : FileSystem) (l : Linter) (path : String)
    (dryRun : Bool) :
    (∃ r, ((fixing parser l path dryRun).exec fs).1 = .ok r ∧ r.1.written = true) ↔
      dryRun = false ∧ ∃ language old fixed fs',
        WritesFixed parser l.rule fs (l.resolve path) language old fixed fs' := by
  constructor
  · rintro ⟨r, hr, hwritten⟩
    obtain ⟨new, fs', ⟨hreal, -, -, language, old, fixed, hmakes, rfl, -⟩, hwrite⟩ :=
      (attempt_fixing parser fs l path dryRun).exists_made hr (by simp [hwritten])
    exact ⟨hreal, language, old, fixed, fs', hmakes, hwrite⟩
  · rintro ⟨rfl, language, old, fixed, fs', hwrites⟩
    obtain ⟨o, ho, hwritten, -⟩ := exec_fixing_of_writes hwrites
    exact ⟨_, congrArg Prod.fst ho, hwritten⟩

/-- **A fix changes a file as a whole, or nothing.** Let edits be applied to a file, or
a file be fixed, dry or not, whatever the files, the parser and the edits are. If that
fails before it writes, or reports that it wrote nothing, all files are as they were. If it
reports that it wrote, then it was not dry, it applied an edit, the file of the path holds
just what the edits or the passes make of what was there before, it has parse errors only if
that had, and no other file has changed. Otherwise the write itself broke off. It writes if
and only if it is not dry, the file can be read and written, and something fit to be written
is made of it. A session that does it is left with the same files and gives the same answer.
The file of the path is, when a file is fixed, the one to which the path resolves. -/
theorem fixes_are_all_or_nothing (parser : Parser) (fs : FileSystem) (w : Workspace) :
    (∀ path requests dryRun,
      let came := (applying parser path requests dryRun).exec fs
      AllOrNothing parser ((Language.ofPath? path).getD .javascript) (MadeByEdits requests) path
        dryRun fs came ∧
      ((∃ o, came.1 = .ok o ∧ o.written = true) ↔
        dryRun = false ∧ ∃ old edited fs', WritesEdits parser fs path requests old edited fs') ∧
      Session.step parser ⟨fs, some w⟩ (.applyToFile path requests dryRun) =
        (⟨came.2, some w⟩, came.1.map .outcome)) ∧
    ∀ path dryRun,
      let full := w.linter.resolve path
      let came := (fixing parser w.linter path dryRun).exec fs
      let left := Session.step parser ⟨fs, some w⟩ (.fixFile path dryRun)
      AllOrNothing parser ((Language.ofPath? full).getD .javascript)
        (MadeByPasses parser w.linter.rule full) full dryRun fs (came.1.map Prod.fst, came.2) ∧
      ((∃ r, came.1 = .ok r ∧ r.1.written = true) ↔
        dryRun = false ∧ ∃ language old fixed fs',
          WritesFixed parser w.linter.rule fs full language old fixed fs') ∧
      left.1.files = came.2 ∧ left.2 = came.1.map fun r => .outcome r.1 := by
  refine ⟨fun path requests dryRun => ⟨?_, ?_, ?_⟩, fun path dryRun => ⟨?_, ?_, ?_⟩⟩
  · exact allOrNothing_applying parser fs path requests dryRun
  · exact applying_written_iff parser fs path requests dryRun
  · exact step_applyToFile parser fs w path requests dryRun
  · exact allOrNothing_fixing parser fs w.linter path dryRun
  · exact fixing_written_iff parser fs w.linter path dryRun
  · exact step_fixFile parser fs w path dryRun

end Fixer

/-! ## Two files and a full disk -/

namespace TwinSagas

open NestedSaga (source parser)

/-- A source is in a file whose name has a backslash, and in one whose path has a slash there. -/
def entry (content : Bytes) : Entry :=
  .dir [("node_modules", .dir [("x.js", .file content)]), ("node_modules\\x.js", .file content)]

/-- Nothing can be written to the second file if the disk is full. -/
def files (content : Bytes) (full : Bool) : FileSystem where
  root := .dir [("ws", entry content)]
  faults :=
    if full then [(["ws", "node_modules", "x.js"], ⟨0, "[Errno 28] No space left on device"⟩)]
    else []

theorem holds_files (content : Bytes) :
    (files content false).Holds "ws/node_modules/x.js" ["ws", "node_modules", "x.js"] content where
  leads := by rfl
  readable := List.not_mem_nil
  writable := List.not_mem_nil
  sound := rfl
  holds := by rfl

theorem read_files (content : Bytes) (full : Bool) :
    (files content full).read "ws/node_modules/x.js" = .ok content := by
  rfl

theorem breaksOff_files (content : Bytes) :
    (files content true).BreaksOff "ws/node_modules/x.js" ["ws", "node_modules", "x.js"]
      ⟨0, "[Errno 28] No space left on device"⟩ where
  opens := by rfl
  fails := by rfl

theorem read_of_broken (content : Bytes) :
    ((files content true).store ["ws", "node_modules", "x.js"] []).read "ws/node_modules/x.js" =
      .ok [] := by
  rfl

theorem read_beside (content new : Bytes) :
    ((files content false).store ["ws", "node_modules", "x.js"] new).read
      "ws/node_modules\\x.js" = .ok content := by
  rfl

theorem resolve_backslash :
    Linter.resolve { root := "ws" } "node_modules\\x.js" = "ws/node_modules/x.js" := by
  decide +kernel

theorem makesFixed (full : Bool) :
    Fixer.MakesFixed parser {} (files (source false true) full) "ws/node_modules/x.js"
      .javascript (source false true) ⟨source true true, 1, 1⟩ where
  known := by decide +kernel
  read := read_files (source false true) full
  passes := Fixer.passes_of_run (NestedSaga.run_outer 8)
  taken := Nat.one_ne_zero

end TwinSagas

open TwinSagas in
open NestedSaga (source parser) in
/-- The file with a backslash in its name is fixed, but the other one is written. And if the
disk is full, fixing that fails, and empties it. -/
theorem overreaching_twinSagas :
    let fixing := Fixer.fixing parser { root := "ws" } "node_modules\\x.js" false
    (∃ r after, fixing.exec (files (source false true) false) = (.ok r, after) ∧
      r.1.written = true ∧
      (files (source false true) false).read "ws/node_modules/x.js" = .ok (source false true) ∧
      after.read "ws/node_modules/x.js" = .ok (source true true) ∧
      after.read "ws/node_modules\\x.js" = .ok (source false true)) ∧
      ∃ e after, fixing.exec (files (source false true) true) = (.error e, after) ∧
        (files (source false true) true).read "ws/node_modules/x.js" =
          .ok (source false true) ∧
        after.read "ws/node_modules/x.js" = .ok [] := by
  intro fixing
  constructor
  · have hholds := holds_files (source false true)
    have hwrite := hholds.write (source true true)
    have hmakes := makesFixed false
    rw [← resolve_backslash] at hwrite hmakes
    obtain ⟨o, ho, hwritten, -⟩ := Fixer.exec_fixing_of_writes
      (l := { root := "ws" }) ⟨hmakes, hwrite⟩
    exact ⟨_, _, ho, hwritten, hholds.read, (hholds.store _).read, read_beside _ _⟩
  · have hbreaks := breaksOff_files (source false true)
    have hmakes := makesFixed true
    rw [← resolve_backslash] at hbreaks hmakes
    exact ⟨_, _, Fixer.exec_fixing_of_breaksOff (l := { root := "ws" }) hmakes hbreaks,
      read_files _ _, read_of_broken _⟩

end YieldLint
