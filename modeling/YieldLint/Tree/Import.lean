/-
Import statements: the module they name, and the names they bind.
-/
import YieldLint.Tree.Expression

namespace YieldLint

/-- How an import binds a local name: to the module's default export, to the
module as a whole, or to one of its exports. -/
inductive Binding where
  | defaultExport (localName : String)
  | wholeModule (localName : String)
  | named (localName : String) (imported : Option String)
  deriving DecidableEq, Repr

namespace Node

/-- The value of a string literal: its text without the quotes around it. A text
without a pair of equal quotes stands for itself. -/
def stringValue (n : Node) (source : Bytes) : String :=
  match (n.text source).toList with
  | q :: rest =>
    if (q = '\x27' ∨ q = '\x22') ∧ rest.getLast? = some q then String.ofList rest.dropLast
    else n.text source
  | [] => ""

/-- The module that an import statement names. -/
def importSource? (n : Node) (source : Bytes) : Option String :=
  (n.childByField? "source").map (·.stringValue source)

/-- The name in an import specifier: an identifier, or a string literal. -/
def specifierName (n : Node) (source : Bytes) : String :=
  if n.kind = "string" then n.stringValue source else n.text source

/-- The binding of one specifier between braces. Without an alias, the local name
is the imported one. -/
def specifierBinding? (spec : Node) (source : Bytes) : Option Binding := do
  let imported := (← spec.childByField? "name").specifierName source
  let localName := match spec.childByField? "alias" with
    | some a => a.specifierName source
    | none => imported
  return .named localName (some imported)

/-- The bindings of one part of an import clause. -/
def clauseBindings (part : Node) (source : Bytes) : List Binding :=
  if part.kind = "identifier" then [.defaultExport (part.text source)]
  else if part.kind = "namespace_import" then
    match part.namedChildren.find? (·.kind == "identifier") with
    | some name => [.wholeModule (name.text source)]
    | none => []
  else if part.kind = "named_imports" then
    (part.namedChildren.filter (·.kind == "import_specifier")).filterMap
      (·.specifierBinding? source)
  else []

/-- All that an import statement binds, in the order in which it is written. -/
def importBindings (n : Node) (source : Bytes) : List Binding :=
  match n.namedChildren.find? (·.kind == "import_clause") with
  | some clause => clause.namedChildren.flatMap (·.clauseBindings source)
  | none => []

end Node

end YieldLint
