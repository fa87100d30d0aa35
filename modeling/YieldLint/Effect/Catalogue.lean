/-
The effects that the rule watches, and the modules that export them.
-/
import YieldLint.Text.Lines

namespace YieldLint

/-- The names of the tracked effects and of the modules whose imports bind them. -/
structure Catalogue where
  names : List String
  sources : List String
  deriving DecidableEq, Repr

namespace Catalogue

/-- The effects of typed-redux-saga, in the order in which it exports them. -/
def typedReduxSaga : Catalogue where
  names :=
    ["take", "takeMaybe", "takeEvery", "takeLatest", "takeLeading", "put", "putResolve", "call",
      "apply", "cps", "fork", "spawn", "join", "cancel", "select", "actionChannel", "cancelled",
      "flush", "getContext", "setContext", "throttle", "debounce", "retry", "delay", "all", "race"]
  sources := ["typed-redux-saga", "typed-redux-saga/macro"]

/-- An import names a tracked module. One that names no module does not. -/
def tracks (c : Catalogue) (specifier : Option String) : Bool :=
  match specifier with
  | some s => c.sources.contains s
  | none => false

/-- The report on what is tracked: sources in order, effects as they are exported. -/
def report (c : Catalogue) : String :=
  let quote (s : String) := "`" ++ s ++ "`"
  "# Tracked Effects\n\n" ++
    "**Import sources**: " ++ Text.joinWith ", " ((Text.ascending c.sources).map quote) ++ "\n\n" ++
    "**Effects (" ++ toString c.names.length ++ ")**: " ++
    Text.joinWith ", " (c.names.map quote) ++ "\n"

end Catalogue

end YieldLint
