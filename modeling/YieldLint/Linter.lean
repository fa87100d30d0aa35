/-
Linting the files of a workspace.

A linter keeps every document that it has parsed, under the path at which it
opened it, until it is told to forget it. A file that it cannot look at (of no
known type, missing, unreadable, binary, refused by the parser) has no
violations, and leaves no trace.
-/
import YieldLint.FileSystem.Basic
import YieldLint.Program
import YieldLint.Rule.Check

namespace YieldLint

/-- A source as it was read, and its tree. -/
structure Document where
  source : Bytes
  parsed : Parsed

namespace Document

/-- Binary content shows itself by a zero among the first bytes. -/
def isBinary (source : Bytes) : Bool := (source.take 8192).contains 0

/-- Reads and parses a file, if it can be looked at. -/
def loading (parser : Parser) (fs : FileSystem) (path : String) :
    Except Failure (Option Document) := do
  match Language.ofPath? path with
  | none => return none
  | some language =>
    if !fs.isFile path then return none
    match ← Failure.caught (fs.read path) with
    | none => return none
    | some source =>
      if isBinary source then return none
      match ← Failure.caught (parser.parse language source) with
      | none => return none
      | some parsed => return some { source, parsed }

/-- The document of a file, if there is one. -/
def load? (parser : Parser) (fs : FileSystem) (path : String) : Option Document :=
  (loading parser fs path).toOption.join

end Document

/-- A workspace, the rule to check it by, and the documents parsed so far. -/
structure Linter where
  root : String
  rule : Rule := {}
  cache : Table String Document := .empty

abbrev LinterProgram (α : Type) := Program Linter α

namespace Linter

/-- Where the linter opens a path: below the workspace, unless it is absolute. -/
def resolve (l : Linter) (path : String) : String := Path.join l.root (Path.normalize path)

/-- Forgets the document of a path. -/
def invalidate (l : Linter) (path : String) : Linter :=
  { l with cache := l.cache.erase (l.resolve path) }

/-- Finds the document of a path, in the cache or else in the file, and keeps it. -/
def opening (parser : Parser) (fs : FileSystem) (path : String) :
    LinterProgram (Option Document) := do
  let l ← get
  let key := l.resolve path
  match l.cache.get? key with
  | some d => return some d
  | none =>
    match ← Document.loading parser fs key with
    | none => return none
    | some d =>
      set { l with cache := l.cache.put key d }
      return some d

/-- What a rule reports on a document, if there is one. -/
def report (rule : Rule) (path : String) : Option Document → List Violation
  | some d => rule.check d.source (Path.normalize path) d.parsed.root
  | none => []

/-- Reports on a file. -/
def linting (parser : Parser) (fs : FileSystem) (path : String) :
    LinterProgram (List Violation) := do
  let document? ← opening parser fs path
  return report (← get).rule path document?

/-- The source files of the workspace. -/
def discover (fs : FileSystem) (l : Linter) : List String := fs.sources l.root

/-- Adds the report on a file to those on others, if it has violations. -/
def reporting (parser : Parser) (fs : FileSystem) (seen : Table String (List Violation))
    (path : String) : LinterProgram (Table String (List Violation)) := do
  match ← linting parser fs path with
  | [] => return seen
  | vs => return seen.put path vs

/-- Reports on every source file of the workspace that has violations. -/
def lintingAll (parser : Parser) (fs : FileSystem) :
    LinterProgram (Table String (List Violation)) := do
  ((← get).discover fs).foldlM (reporting parser fs) .empty

/-! These do not fail; if one did, nothing would be found. -/

/-- The document of a path. -/
def document? (parser : Parser) (fs : FileSystem) (l : Linter) (path : String) :
    Option Document × Linter :=
  (opening parser fs path).answer none l

/-- The violations in a file. -/
def lintFile (parser : Parser) (fs : FileSystem) (l : Linter) (path : String) :
    List Violation × Linter :=
  (linting parser fs path).answer [] l

/-- The violations of every source file that has any. -/
def lintWorkspace (parser : Parser) (fs : FileSystem) (l : Linter) :
    Table String (List Violation) × Linter :=
  (lintingAll parser fs).answer .empty l

end Linter

end YieldLint
