/-
How deep a walk stands inside generators and inside yields.

Both counters rise on entering a node and fall on leaving it, so that a walk
ends where it began. They are integers: a leave without its enter takes a
counter below zero.
-/
namespace YieldLint

/-- The open generators and the open yields. -/
structure Nesting where
  generators : Int := 0
  yields : Int := 0
  deriving DecidableEq, Repr, Inhabited

namespace Nesting

def enterFunction (s : Nesting) (isGenerator : Bool) : Nesting :=
  if isGenerator then { s with generators := s.generators + 1 } else s

def exitFunction (s : Nesting) (isGenerator : Bool) : Nesting :=
  if isGenerator then { s with generators := s.generators - 1 } else s

def enterYield (s : Nesting) : Nesting := { s with yields := s.yields + 1 }

def exitYield (s : Nesting) : Nesting := { s with yields := s.yields - 1 }

def inGenerator (s : Nesting) : Bool := decide (0 < s.generators)

def inYield (s : Nesting) : Bool := decide (0 < s.yields)

@[simp] theorem exitFunction_enterFunction (s : Nesting) (g : Bool) :
    (s.enterFunction g).exitFunction g = s := by
  cases g <;> simp [enterFunction, exitFunction]

@[simp] theorem exitYield_enterYield (s : Nesting) : s.enterYield.exitYield = s := by
  simp [enterYield, exitYield]

end Nesting

end YieldLint
