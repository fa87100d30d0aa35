/-
Fixing a source or a file.

A pass lints a source and applies all fixes at once; those of nested violations
overlap, so a source may need several passes. A pass whose result no longer
parses is dropped. A file is written once, at the end, or not at all.
-/
import YieldLint.Edit
import YieldLint.FileSystem.Program
import YieldLint.Linter

namespace YieldLint

/-- A source after its passes. -/
structure FixedSource where
  source : Bytes
  applied : Nat
  passes : Nat
  deriving DecidableEq, Repr

/-- What became of a file. -/
structure FixOutcome where
  filePath : String
  applied : Nat := 0
  skipped : Nat := 0
  passes : Nat := 0
  written : Bool := false
  rolledBack : Bool := false
  message : String := ""
  deriving DecidableEq, Repr

namespace Fixer

/-- No more passes than this are made over one source. -/
def maxPasses : Nat := 10

/-- The edits that the fixes of violations make. -/
def editsOf (vs : List Violation) : List Edit := vs.filterMap fun v => v.fix.map Fix.edit

/-- An edit broke a source: the new one has parse errors, and the old one none. The
old one is parsed only if the new one has errors. -/
def breaks (parser : Parser) (language : Language) (old new : Bytes) : Except Failure Bool := do
  if (← parser.parse language new).hasError then
    return !(← parser.parse language old).hasError
  else return false

/-- Makes at most so many passes over a source. -/
def passes (parser : Parser) (rule : Rule) (language : Language) :
    Nat → Bytes → Except Failure FixedSource
  | 0, source => .ok { source, applied := 0, passes := 0 }
  | left + 1, source => do
    let edits := editsOf (← rule.lint parser language source "")
    if edits = [] then return { source, applied := 0, passes := 0 }
    let edited := Edit.apply source edits
    if edited.applied = 0 then return { source, applied := 0, passes := 1 }
    if ← breaks parser language source edited.content then
      return { source, applied := 0, passes := 1 }
    let rest ← passes parser rule language left edited.content
    return { rest with applied := edited.applied + rest.applied, passes := rest.passes + 1 }

/-- Fixes a source until nothing is left to fix, a pass gets nowhere, or the passes
are used up. -/
def fixSource (parser : Parser) (rule : Rule) (language : Language) (source : Bytes) :
    Except Failure FixedSource :=
  passes parser rule language maxPasses source

/-- Reads a file of a workspace, and writes it fixed. The linter forgets a file that was
written. -/
def fixing (parser : Parser) (l : Linter) (path : String) (dryRun : Bool) :
    FileProgram (FixOutcome × Linter) := do
  let full := l.resolve path
  match Language.ofPath? full with
  | none => return ({ filePath := path, message := "Unsupported file type: " ++ path }, l)
  | some language =>
    if !(← FileProgram.hasPath full) then
      return ({ filePath := path, message := "File not found: " ++ path }, l)
    let original ← FileProgram.read full
    let fixed ← fixSource parser l.rule language original
    let outcome : FixOutcome :=
      { filePath := path, applied := fixed.applied, passes := fixed.passes }
    if fixed.applied = 0 then
      return ({ outcome with message := "Nothing to fix in " ++ path }, l)
    if dryRun then
      let message := "[Dry Run] Would apply " ++ toString fixed.applied ++ " fixes to " ++ path
      return ({ outcome with message }, l)
    FileProgram.write full fixed.source
    let message := "Applied " ++ toString fixed.applied ++ " fixes to " ++ path ++ " in " ++
      toString fixed.passes ++ " pass(es)"
    return ({ outcome with written := true, message }, l.invalidate path)

/-- Reads a file, and writes it with given edits applied, unless they break it. -/
def applying (parser : Parser) (path : String) (requests : List EditRequest) (dryRun : Bool) :
    FileProgram FixOutcome := do
  let content ← FileProgram.read path
  let edited ← EditRequest.apply content requests
  let outcome : FixOutcome :=
    { filePath := path, applied := edited.applied, skipped := edited.skipped }
  if edited.applied = 0 then
    let message := "All edits were skipped (out of bounds or overlapping)."
    return { outcome with message }
  let language := (Language.ofPath? path).getD .javascript
  if ← breaks parser language content edited.content then
    let message := "Fix produced unparsable source. Left the file unchanged."
    return { outcome with rolledBack := true, message }
  if dryRun then
    let message := "[Dry Run] Would apply " ++ toString edited.applied ++ " fixes to " ++ path
    return { outcome with message }
  FileProgram.write path edited.content
  let message := "Applied " ++ toString edited.applied ++ " fixes to " ++ path
  return { outcome with written := true, message }

/-- What became of a file that is fixed, and the files and the linter after that. -/
def fixFile (parser : Parser) (fs : FileSystem) (l : Linter) (path : String) (dryRun : Bool) :
    Except Failure (FixOutcome × FileSystem × Linter) :=
  ((fixing parser l path dryRun).result fs).map fun r => (r.1.1, r.2, r.1.2)

/-- What became of a file to which edits are applied, and the files after that. -/
def applyToFile (parser : Parser) (fs : FileSystem) (path : String)
    (requests : List EditRequest) (dryRun : Bool) : Except Failure (FixOutcome × FileSystem) :=
  (applying parser path requests dryRun).result fs

end Fixer

end YieldLint
