/-
Expressions and functions, as the rule looks at them.

A tree keeps the parentheses that an expression was written in, and comments
wherever they stand. The accessors here look through both: `unwrapParens` goes
down to the expression inside, `effectiveParent?` up to the node that the
parenthesised expression belongs to.
-/
import YieldLint.Tree.Basic
import YieldLint.Text.Utf8

namespace YieldLint

namespace Node

/-- The text that a node covers. A span outside the source is cut to it. -/
def text (n : Node) (source : Bytes) : String :=
  Utf8.decode ((source.take n.span.endByte).drop n.span.startByte)

/-! ## Parentheses and comments -/

def isParenthesized (n : Node) : Bool := n.kind == "parenthesized_expression"

/-- Counts as part of an expression: has a name and is no comment. -/
def isSignificant (n : Node) : Bool := n.named && n.kind != "comment"

def significantChildren (n : Node) : List Node := n.children.filter (·.isSignificant)

theorem size_lt_of_mem_significantChildren {c n : Node} (h : c ∈ n.significantChildren) :
    c.tree.size < n.tree.size :=
  size_lt_of_mem_children ((List.mem_filter.1 h).1)

/-- The expression inside any number of parentheses, if there is one. -/
def unwrapParens (n : Node) : Option Node :=
  if n.isParenthesized then
    match _h : n.significantChildren with
    | [] => none
    | c :: _ => c.unwrapParens
  else some n
termination_by n.tree.size
decreasing_by exact size_lt_of_mem_significantChildren (by simp [*])

theorem size_le_of_unwrapParens {n e : Node} (h : n.unwrapParens = some e) :
    e.tree.size ≤ n.tree.size := by
  fun_induction unwrapParens n with
  | case1 => simp at h
  | case2 n _ c _ hc ih =>
    exact Nat.le_of_lt (Nat.lt_of_le_of_lt (ih h)
      (size_lt_of_mem_significantChildren (by simp [hc])))
  | case3 => simp only [Option.some.injEq] at h; subst h; exact Nat.le_refl _

/-- The nearest node above that is no pair of parentheses. -/
def effectiveParent? (n : Node) : Option Node :=
  match n.above.dropWhile (·.tree.label.kind == "parenthesized_expression") with
  | [] => none
  | p :: rest => some { toPlaced := p, above := rest }

/-! ## Shapes -/

/-- What the rule distinguishes among expressions. -/
inductive Shape where
  | call
  | conditional
  | other
  deriving DecidableEq, Repr

namespace Shape

def name : Shape → String
  | call => "call"
  | conditional => "conditional"
  | other => "other"

def ofKind (kind : String) : Shape :=
  if kind = "call_expression" then call
  else if kind = "ternary_expression" then conditional
  else other

end Shape

/-- The shape of the expression inside the parentheses. -/
def shape (n : Node) : Shape :=
  match n.unwrapParens with
  | some e => .ofKind e.kind
  | none => .other

/-! ## Calls and conditionals -/

/-- The name by which a call is looked up: the callee itself if it is an
identifier, object and property if it is a member of an identifier, and none for
any other callee. -/
def calleeKey? (call : Node) (source : Bytes) : Option String := do
  let callee ← (← call.childByField? "function").unwrapParens
  if callee.kind = "identifier" then
    return callee.text source
  else if callee.kind = "member_expression" then
    let object ← (← callee.childByField? "object").unwrapParens
    let property ← callee.childByField? "property"
    if object.kind = "identifier" then
      return object.text source ++ "." ++ property.text source
    else none
  else none

def consequence? (n : Node) : Option Node := n.childByField? "consequence"

def alternative? (n : Node) : Option Node := n.childByField? "alternative"

/-! ## Yields -/

def isYield (n : Node) : Bool := n.kind == "yield_expression"

/-- A star stands directly below the node. -/
def hasStar (n : Node) : Bool := n.children.any (·.kind == "*")

/-- What a yield yields: the last child that is part of an expression. -/
def yieldArgument? (n : Node) : Option Node := n.significantChildren.getLast?

/-! ## Functions -/

/-- The kinds of the nodes that open a function. Grammars differ in their word for
a function expression. -/
def functionKinds : List String :=
  ["function_declaration", "function_expression", "function", "generator_function_declaration",
    "generator_function", "method_definition", "arrow_function"]

def isFunction (n : Node) : Bool := functionKinds.contains n.kind

/-- A generator by its kind, or a method marked by a star. -/
def isGenerator (n : Node) : Bool :=
  n.kind == "generator_function_declaration" || n.kind == "generator_function" ||
    (n.kind == "method_definition" && n.hasStar)

end Node

end YieldLint
