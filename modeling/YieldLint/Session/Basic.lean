/-
The state of a session: the files, and the workspace that is loaded.

A loaded workspace has its linter, and a status for each line of a file on which
a fix was tried. A line without one is pending.
-/
import YieldLint.Fixer

namespace YieldLint

/-- What became of the violations of a rule on a line. -/
inductive Status where
  | fixed
  | verified
  | failed
  deriving DecidableEq, Repr

namespace Status

def name : Status → String
  | fixed => "fixed"
  | verified => "verified"
  | failed => "failed"

/-- The mark of a status in a list of violations. A pending line has none. -/
def badge : Option Status → String
  | none => ""
  | some fixed => " [FIXED]"
  | some verified => " [VERIFIED]"
  | some failed => " [FIX FAILED]"

end Status

/-- A line of a file, by its path with slashes only, and a rule. -/
structure StatusKey where
  path : String
  line : Int
  ruleId : String
  deriving DecidableEq, Repr

abbrev Statuses := Table StatusKey Status

namespace StatusKey

def ofViolation (v : Violation) : StatusKey where
  path := Path.normalize v.filePath
  line := v.lineNumber
  ruleId := v.ruleId

/-- The order of a listing: by path, line and rule. -/
def le (a b : StatusKey) : Bool :=
  decide (a.path < b.path) || (a.path == b.path &&
    (decide (a.line < b.line) || (a.line == b.line && decide (a.ruleId ≤ b.ruleId))))

end StatusKey

namespace Statuses

/-- Gives the lines of some violations a status. -/
def mark (s : Statuses) (vs : List Violation) (status : Violation → Status) : Statuses :=
  vs.foldl (fun s v => s.put (.ofViolation v) (status v)) s

/-- Gives every known rule on a line of a file a status. -/
def markLine (s : Statuses) (path : String) (line : Int) (status : Status) : Statuses :=
  s.mapWhere (fun k => k.path == path && k.line == line) status

/-- All statuses, by path, line and rule. -/
def listing (s : Statuses) : List (StatusKey × Status) :=
  s.entries.mergeSort fun a b => a.1.le b.1

end Statuses

/-- A loaded workspace. -/
structure Workspace where
  linter : Linter
  statuses : Statuses := .empty

/-- The files there are, and the workspace that is loaded, if any. -/
structure Session where
  files : FileSystem
  workspace? : Option Workspace := none

namespace Session

/-- Lints a file of the loaded workspace. -/
def lintFile (parser : Parser) (s : Session) (w : Workspace) (path : String) :
    List Violation × Workspace :=
  let (vs, linter) := w.linter.lintFile parser s.files path
  (vs, { w with linter })

end Session

end YieldLint
