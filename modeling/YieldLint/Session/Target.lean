/-
Which violations a request for a line means.

They are those on the line itself or, if it has none, those on the line of the
nearest violation, the first reported of equally near ones; a note then says so.
-/
import YieldLint.Text.Lines
import YieldLint.Violation.Basic

namespace YieldLint

/-- The violations on one line, and a note if it is not the line asked for. -/
structure Target where
  line : Int
  violations : List Violation
  note : Option String
  deriving DecidableEq, Repr

namespace Target

/-- How far a violation is from a line. -/
def distance (line : Int) (v : Violation) : Nat := (v.lineNumber - line).natAbs

/-- The nearest of some violations, the first of equally near ones. -/
def nearest (line : Int) (first : Violation) : List Violation → Violation
  | [] => first
  | v :: vs => nearest line (if distance line v < distance line first then v else first) vs

/-- The lines of some violations, each once, in ascending order. -/
def lines (vs : List Violation) : List Int :=
  ((vs.map (·.lineNumber)).mergeSort fun a b => decide (a ≤ b)).eraseReps

/-- The first ten of some lines, with commas. -/
def showLines (lines : List Int) : String :=
  Text.joinWith ", " ((lines.take 10).map toString)

def onLine (line : Int) (vs : List Violation) : List Violation :=
  vs.filter (·.lineNumber == line)

/-- What a request for a line of a file means, if the file has violations. -/
def find? (path : String) (line : Int) : List Violation → Option Target
  | [] => none
  | v :: vs =>
    if (onLine line (v :: vs)).isEmpty then
      let near := (nearest line v vs).lineNumber
      some {
        line := near
        violations := onLine near (v :: vs)
        note := some <|
          "No violation at line " ++ toString line ++ " in `" ++ path ++ "`, but found " ++
          toString (v :: vs).length ++ " violation(s) at line(s): " ++
          showLines (lines (v :: vs)) ++ ".\n**Closest match:** line " ++ toString near ++
          " — using that instead." }
    else some { line, violations := onLine line (v :: vs), note := none }

end Target

end YieldLint
