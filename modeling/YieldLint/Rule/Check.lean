/-
The rule: effects are consumed by `yield*`.

One walk over a document fills the alias table from its imports, counts the
generators and yields that are open, and collects findings of two shapes: a
yield without a star whose argument is an effect call (`missesStar`), and an
effect call that is yielded while no yield is open (`isBareCall`). Each finding
carries the fix that adds the star.
-/
import YieldLint.Effect.Call
import YieldLint.Language
import YieldLint.Nesting
import YieldLint.Text.Occurrence
import YieldLint.Tree.Walk
import YieldLint.Violation.Basic

namespace YieldLint

/-! ## Shapes of violations -/

namespace Node

/-- Yields an effect without a star. -/
def missesStar (n : Node) (aliases : Aliases) (source : Bytes) : Bool :=
  !n.hasStar && n.yieldArgument?.any (·.isEffectCall aliases source)

/-- Calls an effect directly under a yield, in a generator with no yield open. -/
def isBareCall (n : Node) (aliases : Aliases) (nesting : Nesting) (source : Bytes) : Bool :=
  n.effectiveParent?.any (·.isYield) && (n.resolveEffect aliases source).isSome &&
    !nesting.inYield && nesting.inGenerator

/-- Puts a star behind the first `yield` of what a node covers. -/
def starFix (n : Node) (source : Bytes) : Fix where
  kind := .replace
  startByte := n.span.startByte
  endByte := n.span.endByte
  text := String.ofList
    (Text.replaceFirst "yield".toList "yield*".toList (n.text source).toList)

/-- Puts `yield* ` before a node. -/
def yieldFix (n : Node) : Fix where
  kind := .insertBefore
  startByte := n.span.startByte
  endByte := n.span.startByte
  text := "yield* "

end Node

/-- A node that violates the rule, and the fix for it. -/
structure Finding where
  anchor : Node
  fix : Fix

/-! ## The rule -/

/-- The effects that the rule watches, and whether its reports offer fixes. -/
structure Rule where
  catalogue : Catalogue := .typedReduxSaga
  offersFixes : Bool := true
  deriving DecidableEq, Repr

namespace Rule

def id : String := "delegate-effects"

def message : String := "You should use yield* for all typed-redux-saga effects"

/-- What a walk over one document knows and has found. -/
structure Pass where
  aliases : Aliases := .empty
  nesting : Nesting := {}
  findings : List Finding := []

namespace Pass

def onImport (rule : Rule) (source : Bytes) (n : Node) (p : Pass) : Pass :=
  { p with aliases := (p.aliases.observeImport rule.catalogue n source).1 }

def onYield (source : Bytes) (n : Node) (p : Pass) : Pass :=
  { p with
    nesting := p.nesting.enterYield
    findings :=
      if n.missesStar p.aliases source then p.findings ++ [⟨n, n.starFix source⟩]
      else p.findings }

def onYieldExit (_ : Node) (p : Pass) : Pass := { p with nesting := p.nesting.exitYield }

def onCall (source : Bytes) (n : Node) (p : Pass) : Pass :=
  if n.isBareCall p.aliases p.nesting source then
    { p with findings := p.findings ++ [⟨n, n.yieldFix⟩] }
  else p

def onFunction (n : Node) (p : Pass) : Pass :=
  { p with nesting := p.nesting.enterFunction n.isGenerator }

def onFunctionExit (n : Node) (p : Pass) : Pass :=
  { p with nesting := p.nesting.exitFunction n.isGenerator }

end Pass

/-- What the rule does on entering and on leaving a node. -/
def hooks (rule : Rule) (source : Bytes) : Hooks Pass where
  enter kind :=
    if kind = "import_statement" then some (Pass.onImport rule source)
    else if kind = "yield_expression" then some (Pass.onYield source)
    else if kind = "call_expression" then some (Pass.onCall source)
    else if Node.functionKinds.contains kind then some Pass.onFunction
    else none
  exit kind :=
    if kind = "yield_expression" then some Pass.onYieldExit
    else if Node.functionKinds.contains kind then some Pass.onFunctionExit
    else none

/-- The findings in what is below a node, in the order of a walk. -/
def findings (rule : Rule) (source : Bytes) (start : Node) : List Finding :=
  (start.walk (rule.hooks source) {}).findings

/-- The report on a finding. -/
def report (rule : Rule) (source : Bytes) (path : String) (f : Finding) : Violation where
  ruleId := id
  message := message
  filePath := path
  lineNumber := f.anchor.span.start.row + 1
  column := f.anchor.span.start.column + 1
  endLine := f.anchor.span.stop.row + 1
  endColumn := f.anchor.span.stop.column + 1
  nodeType := f.anchor.kind
  snippet := f.anchor.text source
  fix := if rule.offersFixes then some f.fix else none

/-- Checks what is below a node of a document. -/
def check (rule : Rule) (source : Bytes) (path : String) (start : Node) : List Violation :=
  (rule.findings source start).map (rule.report source path)

/-- Parses a source and checks it. -/
def lint (rule : Rule) (parser : Parser) (language : Language) (source : Bytes)
    (path : String) : Except Failure (List Violation) := do
  let parsed ← parser.parse language source
  return rule.check source path parsed.root

end Rule

end YieldLint
