/-
Calls of effects.

An expression is an effect call if it is a call whose callee an alias table
knows, or a conditional with such a call in either branch. Conditions and
arguments are not looked into.
-/
import YieldLint.Effect.Aliases

namespace YieldLint

namespace Node

/-- The effect that an expression calls directly. -/
def resolveEffect (n : Node) (aliases : Aliases) (source : Bytes) : Option String := do
  let e ← n.unwrapParens
  match Shape.ofKind e.kind with
  | .call => aliases.resolve (e.calleeKey? source)
  | .conditional => none
  | .other => none

/-- Calls an effect, directly or in a branch. -/
def isEffectCall (n : Node) (aliases : Aliases) (source : Bytes) : Bool :=
  match _he : n.unwrapParens with
  | none => false
  | some e =>
    match Shape.ofKind e.kind with
    | .call => (aliases.resolve (e.calleeKey? source)).isSome
    | .conditional =>
      (match _hc : e.consequence? with
        | some c => c.isEffectCall aliases source
        | none => false) ||
      (match _ha : e.alternative? with
        | some c => c.isEffectCall aliases source
        | none => false)
    | .other => false
termination_by n.tree.size
decreasing_by
  · exact Nat.lt_of_lt_of_le (size_lt_of_childByField? ‹_›) (size_le_of_unwrapParens ‹_›)
  · exact Nat.lt_of_lt_of_le (size_lt_of_childByField? ‹_›) (size_le_of_unwrapParens ‹_›)

end Node

end YieldLint
