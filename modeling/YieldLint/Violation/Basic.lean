/-
Violations of the rule, and the textual fixes that they carry.
-/
namespace YieldLint

/-- Whether a fix replaces what a node covers or puts text before it. -/
inductive FixKind where
  | replace
  | insertBefore
  deriving DecidableEq, Repr

namespace FixKind

def name : FixKind → String
  | replace => "replace"
  | insertBefore => "insert_before"

def ofName? (s : String) : Option FixKind :=
  if s = "replace" then some replace
  else if s = "insert_before" then some insertBefore
  else none

theorem ofName?_name (k : FixKind) : ofName? k.name = some k := by
  cases k <;> simp [ofName?, name]

end FixKind

/-- A textual edit, in bytes of the source that was linted. -/
structure Fix where
  kind : FixKind
  startByte : Int
  endByte : Int
  text : String
  deriving DecidableEq, Repr

/-- A report of the rule. Lines and columns count from one. -/
structure Violation where
  ruleId : String
  message : String
  filePath : String := ""
  lineNumber : Int
  column : Int := 1
  endLine : Int := 0
  endColumn : Int := 0
  nodeType : String
  snippet : String := ""
  severity : String := "error"
  fix : Option Fix := none
  deriving DecidableEq, Repr

namespace Violation

def isFixable (v : Violation) : Bool := v.fix.isSome

end Violation

end YieldLint
