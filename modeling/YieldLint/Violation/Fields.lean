/-
Fixes and violations read from loosely typed fields.

Every field is checked, so that a refusal names all faults, in the order in
which the type declares its fields. Fields that the type does not have are
passed over.
-/
import YieldLint.Violation.Basic

namespace YieldLint

/-- A value of unknown type. Whatever no field takes, a list or a fraction, is
`other`. -/
inductive FieldValue where
  | null
  | int (n : Int)
  | text (s : String)
  | record (fields : List (String × FieldValue))
  | other
  deriving Inhabited

/-- What is wrong with a field. -/
inductive FieldProblem where
  | missing
  | unknownWord
  | notInteger
  | notText
  | notRecord
  deriving DecidableEq, Repr

namespace FieldProblem

def name : FieldProblem → String
  | missing => "missing"
  | unknownWord => "literal_error"
  | notInteger => "int_type"
  | notText => "string_type"
  | notRecord => "model_type"

end FieldProblem

/-- A fault, with the names of the fields that lead to it. -/
structure FieldError where
  path : List String
  problem : FieldProblem
  deriving DecidableEq, Repr

/-- A value, or all faults in what it was read from. -/
abbrev Checked (α : Type) := Except (List FieldError) α

namespace Checked

variable {α β : Type}

/-- Supplies an argument; the faults of both sides add up. -/
def supply (f : Checked (α → β)) (a : Checked α) : Checked β :=
  match f, a with
  | .ok f, .ok a => .ok (f a)
  | .ok _, .error es => .error es
  | .error es, .ok _ => .error es
  | .error es, .error es' => .error (es ++ es')

/-- The faults inside a field, seen from outside it. -/
def under (name : String) (a : Checked α) : Checked α :=
  match a with
  | .ok a => .ok a
  | .error es => .error (es.map fun e => { e with path := name :: e.path })

def fault (problem : FieldProblem) : Checked α := .error [⟨[], problem⟩]

end Checked

namespace FieldValue

variable {α : Type}

def readInt : FieldValue → Checked Int
  | .int n => .ok n
  | _ => .fault .notInteger

def readText : FieldValue → Checked String
  | .text s => .ok s
  | _ => .fault .notText

def readKind : FieldValue → Checked FixKind
  | .text s => match FixKind.ofName? s with
    | some k => .ok k
    | none => .fault .unknownWord
  | _ => .fault .unknownWord

/-- A field that must be there. -/
def required (fields : List (String × FieldValue)) (name : String)
    (read : FieldValue → Checked α) : Checked α :=
  .under name <| match fields.lookup name with
    | some v => read v
    | none => .fault .missing

/-- A field that has a default. -/
def optional (fields : List (String × FieldValue)) (name : String)
    (read : FieldValue → Checked α) (default : α) : Checked α :=
  .under name <| match fields.lookup name with
    | some v => read v
    | none => .ok default

end FieldValue

open FieldValue

namespace Fix

def ofFields (fs : List (String × FieldValue)) : Checked Fix :=
  (Checked.supply (.ok Fix.mk) (required fs "kind" readKind))
    |>.supply (required fs "start_byte" readInt)
    |>.supply (required fs "end_byte" readInt)
    |>.supply (required fs "text" readText)

end Fix

namespace FieldValue

/-- A fix, or none where there is no value. -/
def readFix? : FieldValue → Checked (Option Fix)
  | .null => .ok none
  | .record fs => (Fix.ofFields fs).map some
  | _ => .fault .notRecord

end FieldValue

namespace Violation

def ofFields (fs : List (String × FieldValue)) : Checked Violation :=
  (Checked.supply (.ok Violation.mk) (required fs "rule_id" readText))
    |>.supply (required fs "message" readText)
    |>.supply (optional fs "file_path" readText "")
    |>.supply (required fs "line_number" readInt)
    |>.supply (optional fs "column" readInt 1)
    |>.supply (optional fs "end_line" readInt 0)
    |>.supply (optional fs "end_column" readInt 0)
    |>.supply (required fs "node_type" readText)
    |>.supply (optional fs "snippet" readText "")
    |>.supply (optional fs "severity" readText "error")
    |>.supply (optional fs "fix" readFix? none)

end Violation

end YieldLint
