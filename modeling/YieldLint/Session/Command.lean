/-
Everything that can happen in a session, and histories of it.

Besides its tools, a session's linter and fixer can be used directly, and the
files change from outside without a word to the linter. `step` does one thing,
`run` one after another; a failure keeps what was done before it.
-/
import YieldLint.Session.Tool

namespace YieldLint

/-- A change of the files from outside. -/
inductive Change where
  | write (path : String) (content : Bytes)
  | delete (path : String)
  | makeDir (path : String)
  | denyRead (path : String)
  | denyWrite (path : String)
  | failWrites (path : String) (fault? : Option Fault)
  | allowAll
  deriving DecidableEq, Repr

/-- Makes a change. -/
def FileSystem.change (fs : FileSystem) : Change → Except Failure FileSystem
  | .write path content => fs.create path content
  | .delete path => .ok (fs.remove path)
  | .makeDir path => .ok (fs.makeDir path)
  | .denyRead path => .ok (fs.denyRead path)
  | .denyWrite path => .ok (fs.denyWrite path)
  | .failWrites path fault? => .ok (fs.failWrites path fault?)
  | .allowAll => .ok fs.allowAll

/-- One thing that can happen. All but tools and changes need a loaded workspace. -/
inductive Command where
  | tool (t : Tool)
  | lintFile (path : String)
  | lintWorkspace
  | discover
  | invalidate (path : String)
  | fixFile (path : String) (dryRun : Bool)
  | applyToFile (path : String) (edits : List EditRequest) (dryRun : Bool)
  | setRule (rule : Rule)
  | statuses
  | change (c : Change)
  deriving DecidableEq, Repr

/-- What a command answers. -/
inductive Response where
  | done
  | text (s : String)
  | violations (vs : List Violation)
  | report (entries : List (String × List Violation))
  | paths (ps : List String)
  | outcome (o : FixOutcome)
  | statuses (entries : List (StatusKey × Status))
  deriving DecidableEq, Repr

namespace Session

/-- Does something with the loaded workspace; without one, nothing. -/
def onWorkspace (s : Session) (f : Workspace → Session × Except Failure Response) :
    Session × Except Failure Response :=
  match s.workspace? with
  | some w => f w
  | none => (s, .ok .done)

def step (parser : Parser) (s : Session) : Command → Session × Except Failure Response
  | .tool t => (s.call parser t).map id (·.map .text)
  | .lintFile path => s.onWorkspace fun w =>
    let (vs, w) := s.lintFile parser w path
    (s.withWorkspace w, .ok (.violations vs))
  | .lintWorkspace => s.onWorkspace fun w =>
    let (report, linter) := w.linter.lintWorkspace parser s.files
    (s.withWorkspace { w with linter }, .ok (.report report.entries))
  | .discover => s.onWorkspace fun w => (s, .ok (.paths (w.linter.discover s.files)))
  | .invalidate path => s.onWorkspace fun w =>
    (s.withWorkspace { w with linter := w.linter.invalidate path }, .ok .done)
  | .fixFile path dryRun => s.onWorkspace fun w =>
    match (Fixer.fixing parser w.linter path dryRun).exec s.files with
    | (.ok (outcome, linter), files) =>
      ({ files, workspace? := some { w with linter } }, .ok (.outcome outcome))
    | (.error e, files) => ({ s with files }, .error e)
  | .applyToFile path edits dryRun => s.onWorkspace fun _ =>
    let (answer, files) := (Fixer.applying parser path edits dryRun).exec s.files
    ({ s with files }, answer.map .outcome)
  | .setRule rule => s.onWorkspace fun w =>
    (s.withWorkspace { w with linter := { w.linter with rule } }, .ok .done)
  | .statuses =>
    (s, .ok (.statuses (match s.workspace? with
      | some w => w.statuses.listing
      | none => [])))
  | .change c =>
    match s.files.change c with
    | .ok files => ({ s with files }, .ok .done)
    | .error e => (s, .error e)

/-- Does one thing after another, and collects the answers. -/
def run (parser : Parser) (s : Session) : List Command → Session × List (Except Failure Response)
  | [] => (s, [])
  | c :: cs =>
    let (s, answer) := s.step parser c
    let (s, answers) := run parser s cs
    (s, answer :: answers)

end Session

end YieldLint
