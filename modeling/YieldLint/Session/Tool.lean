/-
The nine tools of a session, and the texts that they answer.

A tool takes a session to the session after it and to its answer, or to the
failure that it could not turn into one. Files change only where a fix is
written, also if that breaks off; statuses only where one is applied or verified,
and when a workspace is loaded.
-/
import YieldLint.Rule.Guide
import YieldLint.Session.Basic
import YieldLint.Session.Target

namespace YieldLint

/-- A request for one of the tools. -/
inductive Tool where
  | loadWorkspace (root : String)
  | listViolations (path : String)
  | lintWorkspace
  | explainRule (ruleId : String)
  | proposeFix (path : String) (line : Int)
  | applyFix (path : String) (line : Int)
  | verifyFix (path : String) (line : Int)
  | fixAll (path : String) (dryRun : Bool)
  | listEffects
  deriving DecidableEq, Repr

namespace Session

/-- The session with another state of its workspace. -/
def withWorkspace (s : Session) (w : Workspace) : Session := { s with workspace? := some w }

def noWorkspace : String := "Error: No workspace loaded. Call load_workspace first."

def notInitialised : String := "Error: Not initialised. Call load_workspace first."

def noted (note : Option String) : String :=
  match note with
  | some n => "> **Note:** " ++ n ++ "\n\n"
  | none => ""

/-! ## Loading -/

/-- How many files there are of each extension, extensions in ascending order. -/
def breakdown (paths : List String) : String :=
  let counts : Table String Nat := paths.foldl
    (fun t path => t.put (Path.extension path) ((t.get? (Path.extension path)).getD 0 + 1)) .empty
  let sorted := counts.entries.mergeSort fun a b => decide (a.1 ≤ b.1)
  if sorted.isEmpty then "none"
  else Text.joinWith ", " (sorted.map fun e => toString e.2 ++ " " ++ e.1)

def loadWorkspace (s : Session) (root : String) : Session × String :=
  if s.files.isDir root then
    let linter : Linter := { root }
    let paths := linter.discover s.files
    (s.withWorkspace { linter },
      "Workspace loaded: `" ++ root ++ "`.\nSource files found: " ++ toString paths.length ++
        " (" ++ breakdown paths ++ ").")
  else (s, "Error: Workspace root not found at " ++ root)

/-! ## Listing -/

/-- One violation in a list. -/
def violationItem (statuses : Statuses) (v : Violation) : String :=
  "- **[" ++ v.ruleId ++ "]** Line " ++ toString v.lineNumber ++ ":" ++ toString v.column ++
    " (" ++ v.severity ++ ")" ++ Status.badge (statuses.get? (.ofViolation v)) ++
    (if v.isFixable then " (auto-fix available)" else "") ++ ": " ++ v.message ++ "\n  `" ++
    Text.firstLine v.snippet ++ "`\n"

def listViolations (parser : Parser) (s : Session) (path : String) : Session × String :=
  match s.workspace? with
  | none => (s, noWorkspace)
  | some w =>
    let (vs, w) := s.lintFile parser w path
    (s.withWorkspace w,
      if vs.isEmpty then "No violations found for " ++ path
      else "**" ++ toString vs.length ++ " violations in " ++ path ++ "**:\n\n" ++
        String.join (vs.map (violationItem w.statuses)))

/-- One file in the report on a workspace. -/
def fileRow (path : String) (vs : List Violation) : String :=
  let lines := Target.lines vs
  let more := if lines.length > 10 then " ... (" ++ toString lines.length ++ " total)" else ""
  "| `" ++ path ++ "` | " ++ toString vs.length ++ " | " ++ Target.showLines lines ++ more ++
    " |\n"

def lintWorkspace (parser : Parser) (s : Session) : Session × String :=
  match s.workspace? with
  | none => (s, noWorkspace)
  | some w =>
    let (report, linter) := w.linter.lintWorkspace parser s.files
    let rows := report.entries.mergeSort fun a b => decide (a.1 ≤ b.1)
    let total := rows.foldl (fun k r => k + r.2.length) 0
    (s.withWorkspace { w with linter },
      if rows.isEmpty then "No violations found in the workspace."
      else "# Workspace Lint\n\n**" ++ toString total ++ " violations in " ++
        toString rows.length ++ " file(s)**\n\n" ++
        "| File | Violations | Lines |\n|------|------------|-------|\n" ++
        String.join (rows.map fun r => fileRow r.1 r.2))

/-! ## Single fixes -/

/-- A violation, and the text that its fix would leave. -/
def proposal (v : Violation) : String :=
  "### Line " ++ toString v.lineNumber ++ ":" ++ toString v.column ++ " — `" ++ v.nodeType ++
    "`\n" ++ Guide.fenced v.snippet ++ "\n" ++
    match v.fix with
    | none => "No auto-fix available.\n\n"
    | some f =>
      let after := match f.kind with
        | .replace => f.text
        | .insertBefore => f.text ++ v.snippet
      "**Fixed (" ++ f.kind.name ++ ")**:\n" ++ Guide.fenced after ++ "\n\n"

def noViolationsIn (path : String) : String := "No violations found in `" ++ path ++ "`."

def proposeFix (parser : Parser) (s : Session) (path : String) (line : Int) : Session × String :=
  match s.workspace? with
  | none => (s, noWorkspace)
  | some w =>
    let (vs, w) := s.lintFile parser w path
    (s.withWorkspace w,
      match Target.find? path line vs with
      | none => noViolationsIn path
      | some target =>
        noted target.note ++ String.join (target.violations.map proposal))

def applyFix (parser : Parser) (s : Session) (path : String) (line : Int) :
    Session × Except Failure String :=
  match s.workspace? with
  | none => (s, .ok notInitialised)
  | some w =>
    let (vs, w) := s.lintFile parser w path
    let linted := s.withWorkspace w
    match Target.find? path line vs with
    | none => (linted, .ok (noViolationsIn path))
    | some target =>
      let edits := Fixer.editsOf target.violations
      if edits.isEmpty then (linted, .ok "Auto-fix not available for this violation.")
      else match (Fixer.applying parser (w.linter.resolve path) (edits.map .ofEdit) false).exec
          s.files with
        | (.error e, files) =>
          ({ linted with files },
            if e.isFileError then .ok ("Error applying fix: " ++ e.message) else .error e)
        | (.ok outcome, files) =>
          if !outcome.written then ({ linted with files }, .ok ("Error: " ++ outcome.message))
          else
            ({ files, workspace? := some {
                linter := w.linter.invalidate path
                statuses := w.statuses.mark target.violations fun _ => .fixed } },
              .ok (noted target.note ++ "Successfully applied " ++ toString outcome.applied ++
                " edit(s) to `" ++ path ++ "`." ++
                (if outcome.skipped = 0 then ""
                  else " (" ++ toString outcome.skipped ++
                    " edit(s) skipped due to overlap/bounds.)") ++
                "\n\n**Status:** marked as `fixed`. " ++
                "Run `verify_fix` to confirm the violation is resolved."))

def verifyFix (parser : Parser) (s : Session) (path : String) (line : Int) : Session × String :=
  match s.workspace? with
  | none => (s, notInitialised)
  | some w =>
    let (vs, w) := s.lintFile parser { w with linter := w.linter.invalidate path } path
    let place := "`" ++ Path.normalize path ++ ":" ++ toString line ++ "`"
    let remaining := Target.onLine line vs
    if remaining.isEmpty then
      (s.withWorkspace
          { w with statuses := w.statuses.markLine (Path.normalize path) line .verified },
        "**VERIFIED** — " ++ place ++ " no longer yields an effect without `yield*`.")
    else
      (s.withWorkspace { w with statuses := w.statuses.mark remaining fun _ => .failed },
        "**STILL PRESENT** — " ++ place ++ " still has " ++ toString remaining.length ++
          " violation(s):\n" ++
          Text.joinWith "\n" (remaining.map fun v => "- `" ++ v.snippet ++ "`") ++
          "\n\nConsider running `apply_fix` again or fixing it manually.")

/-! ## All fixes of a file -/

def metric (name : String) (count : Nat) : String :=
  "| " ++ name ++ " | " ++ toString count ++ " |\n"

def fixSummary (path : String) (before : Nat) (counts message : String) : String :=
  "## Fix All — `" ++ path ++ "`\n\n| Metric | Count |\n|--------|-------|\n" ++
    metric "Violations before" before ++ counts ++ "\n" ++ message ++ "\n"

def fixAll (parser : Parser) (s : Session) (path : String) (dryRun : Bool) :
    Session × Except Failure String :=
  match s.workspace? with
  | none => (s, .ok notInitialised)
  | some w =>
    let (before, w) := s.lintFile parser w path
    let linted := s.withWorkspace w
    if before.isEmpty then (linted, .ok ("No violations found for `" ++ path ++ "`."))
    else match (Fixer.fixing parser w.linter path dryRun).exec s.files with
      | (.error e, files) =>
        ({ linted with files },
          if e.isFileError then .ok ("Error applying fixes: " ++ e.message) else .error e)
      | (.ok (outcome, linter), files) =>
        if dryRun then
          ({ linted with files }, .ok (fixSummary path before.length
            (metric "Would fix" outcome.applied) outcome.message))
        else
          let fixed : Session := { files, workspace? := none }
          let (after, w) := fixed.lintFile parser { w with linter } path
          let left := after.map (·.lineNumber)
          (fixed.withWorkspace
              { w with
                statuses := w.statuses.mark before fun v =>
                  if left.contains v.lineNumber then .failed else .verified },
            .ok (fixSummary path before.length
              (metric "Edits applied" outcome.applied ++ metric "Passes" outcome.passes ++
                metric "Violations remaining" after.length)
              outcome.message))

/-! ## Any tool -/

/-- Runs a tool. -/
def call (parser : Parser) (s : Session) : Tool → Session × Except Failure String
  | .loadWorkspace root => (s.loadWorkspace root).map id .ok
  | .listViolations path => (s.listViolations parser path).map id .ok
  | .lintWorkspace => (s.lintWorkspace parser).map id .ok
  | .explainRule ruleId => (s, .ok (Guide.explain ruleId))
  | .proposeFix path line => (s.proposeFix parser path line).map id .ok
  | .applyFix path line => s.applyFix parser path line
  | .verifyFix path line => (s.verifyFix parser path line).map id .ok
  | .fixAll path dryRun => s.fixAll parser path dryRun
  | .listEffects => (s, .ok Catalogue.typedReduxSaga.report)

end Session

end YieldLint
