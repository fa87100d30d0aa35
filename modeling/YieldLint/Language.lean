/-
The languages that are linted, the files that hold them, and what a parser is.

Parsing itself is left to the caller: a `Parser` is any function from bytes to a
tree that says whether the text had errors, or a refusal with its message.
-/
import YieldLint.Failure
import YieldLint.FileSystem.Path
import YieldLint.Text.Utf8
import YieldLint.Tree.Basic

namespace YieldLint

inductive Language where
  | javascript
  | typescript
  | tsx
  deriving DecidableEq, Repr

namespace Language

def name : Language → String
  | javascript => "javascript"
  | typescript => "typescript"
  | tsx => "tsx"

/-- The language of a name. -/
def ofName (s : String) : Except Failure Language :=
  if s = "javascript" then .ok javascript
  else if s = "typescript" then .ok typescript
  else if s = "tsx" then .ok tsx
  else .error (.unsupportedLanguage s)

/-- The known extensions, each with its language. -/
def extensions : List (String × Language) :=
  [(".js", javascript), (".jsx", javascript), (".mjs", javascript), (".cjs", javascript),
    (".ts", typescript), (".mts", typescript), (".cts", typescript), (".tsx", tsx)]

/-- The language of a file by its extension. -/
def ofPath? (path : String) : Option Language := extensions.lookup (Path.extension path)

theorem ofName_name (l : Language) : ofName l.name = .ok l := by
  cases l <;> simp [ofName, name]

end Language

/-- A parsed source: its tree, and whether parsing met an error in it. -/
structure Parsed where
  tree : Tree
  hasError : Bool
  deriving Inhabited

namespace Parsed

def root (p : Parsed) : Node := .ofTree p.tree

end Parsed

/-- Parses a source, or refuses it with a message. -/
abbrev Parser := Language → Bytes → Except String Parsed

namespace Parser

/-- Parses a source; a refusal is a failure. -/
def parse (parser : Parser) (language : Language) (source : Bytes) : Except Failure Parsed :=
  (parser language source).mapError .parserFailed

theorem parse_eq_ok_iff {parser : Parser} {language : Language} {source : Bytes}
    {parsed : Parsed} : parser.parse language source = .ok parsed ↔
      parser language source = .ok parsed := by
  rw [parse]
  cases parser language source with
  | error m => exact ⟨nofun, nofun⟩
  | ok p => exact ⟨fun h => by cases h; rfl, fun h => by cases h; rfl⟩

end Parser

end YieldLint
