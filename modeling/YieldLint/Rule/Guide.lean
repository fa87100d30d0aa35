/-
What the rule is for, in words for its users.
-/
import YieldLint.Rule.Check

namespace YieldLint

/-- The documentation of a rule. -/
structure Guide where
  ruleId : String
  title : String
  type : String
  category : String
  rationale : String
  nonCompliant : String
  compliant : String
  fixStrategy : String
  recommended : Bool := true
  fixable : Option String := none
  url : String := ""
  deriving DecidableEq, Repr

namespace Guide

/-- The documentation of the one rule there is. -/
def delegateEffects : Guide where
  ruleId := Rule.id
  title := "Enforce yield* (delegate) on effects"
  type := "problem"
  category := "Possible Errors"
  rationale :=
    "typed-redux-saga wraps every redux-saga effect in a generator so " ++
    "that `yield*` can infer the effect's result type.  A plain `yield` " ++
    "passes the wrapper straight to the saga middleware: the result is " ++
    "typed as `any` and, without the babel macro, the effect is never " ++
    "run as intended."
  nonCompliant :=
    "import \x7b call, put \x7d from 'typed-redux-saga';\n" ++
    "\n" ++
    "function* fetchUser(id) \x7b\n" ++
    "    const user = yield call(api.fetchUser, id);\n" ++
    "    yield (user ? put(loaded(user)) : put(failed()));\n" ++
    "\x7d"
  compliant :=
    "import \x7b call, put \x7d from 'typed-redux-saga';\n" ++
    "\n" ++
    "function* fetchUser(id) \x7b\n" ++
    "    const user = yield* call(api.fetchUser, id);\n" ++
    "    yield* (user ? put(loaded(user)) : put(failed()));\n" ++
    "\x7d"
  fixStrategy :=
    "Replace `yield` with `yield*` in front of every effect imported " ++
    "from `typed-redux-saga` or `typed-redux-saga/macro`, including " ++
    "effects reached through a default import (`E.call(...)`) or a " ++
    "renamed import (`\x7b call as c \x7d`).  The auto-fix rewrites only the " ++
    "`yield` keyword and leaves the rest of the expression untouched."
  fixable := some "code"
  url := "https://github.com/jambit/eslint-plugin-typed-redux-saga/"

/-- All documented rules. -/
def all : List Guide := [delegateEffects]

/-- The part of a rule's name behind the first slash, or the name itself. -/
def withoutPlugin (ruleId : String) : String :=
  match ruleId.toList.dropWhile (· != '/') with
  | _ :: rest => String.ofList rest
  | [] => ruleId

/-- The documentation of a rule, whose name may carry that of its plugin. -/
def find? (ruleId : String) : Option Guide :=
  all.find? fun g => g.ruleId == withoutPlugin ruleId

def yesNo (b : Bool) : String := if b then "yes" else "no"

/-- A fenced block of code. -/
def fenced (code : String) : String := "```js\n" ++ code ++ "\n```"

/-- The documentation as one text. -/
def explanation (g : Guide) : String :=
  let fix := match g.fixable with
    | some what => "yes (" ++ what ++ ")"
    | none => "no"
  "## " ++ g.ruleId ++ " — " ++ g.title ++ "\n" ++
    "**Type**: " ++ g.type ++ " | **Category**: " ++ g.category ++
    " | **Recommended**: " ++ yesNo g.recommended ++ " | **Auto-fix**: " ++ fix ++ "\n\n" ++
    "### Rationale\n" ++ g.rationale ++ "\n\n" ++
    "### Non-Compliant Example\n" ++ fenced g.nonCompliant ++ "\n\n" ++
    "### Compliant Example\n" ++ fenced g.compliant ++ "\n\n" ++
    "### How to Fix\n" ++ g.fixStrategy ++
    (if g.url = "" then "" else "\n\n**Docs**: " ++ g.url)

/-- The documentation of a rule as one text, or a word that there is none. -/
def explain (ruleId : String) : String :=
  match find? ruleId with
  | some g => g.explanation
  | none => "Unknown rule: " ++ ruleId

end Guide

end YieldLint
