/-
The names under which a document can call effects.

A document's imports fill an alias table, in the order in which they stand. A
named import binds its local name to the name it imports; any other import of a
tracked module makes every effect reachable as a property of the local name. A
later import takes over the names it shares with an earlier one.
-/
import YieldLint.Effect.Catalogue
import YieldLint.Table
import YieldLint.Tree.Import

namespace YieldLint

/-- What a document calls an effect, to the effect that it means. -/
abbrev Aliases := Table String (Option String)

namespace Aliases

/-- Makes every effect reachable as a property of a name. -/
def addModule (catalogue : Catalogue) (a : Aliases) (localName : String) : Aliases :=
  catalogue.names.foldl (fun a name => a.put (localName ++ "." ++ name) (some name)) a

/-- Binds a local name to an imported one. -/
def addNamed (a : Aliases) (localName : String) (imported : Option String) : Aliases :=
  a.put localName imported

def add (catalogue : Catalogue) (a : Aliases) : Binding → Aliases
  | .named localName imported => a.addNamed localName imported
  | .defaultExport localName => addModule catalogue a localName
  | .wholeModule localName => addModule catalogue a localName

/-- Takes in one import, and counts the bindings that it registered: all of them if
the module is tracked, else none. -/
def observe (catalogue : Catalogue) (a : Aliases) (specifier : Option String)
    (bindings : List Binding) : Aliases × Nat :=
  if catalogue.tracks specifier then (bindings.foldl (add catalogue) a, bindings.length)
  else (a, 0)

/-- Takes in an import statement. -/
def observeImport (catalogue : Catalogue) (a : Aliases) (n : Node) (source : Bytes) :
    Aliases × Nat :=
  a.observe catalogue (n.importSource? source) (n.importBindings source)

/-- The effect that a name means, if it is known. -/
def resolve (a : Aliases) (key : Option String) : Option String :=
  key.bind fun k => (a.get? k).join

end Aliases

end YieldLint
