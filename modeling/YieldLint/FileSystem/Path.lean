/-
Paths as texts.

A path is made of components between slashes. Some callers write backslashes;
`normalize` turns them into slashes, in which form reports show a path.
-/
namespace YieldLint.Path

/-- A path with slashes only. -/
def normalize (path : String) : String :=
  path.map fun c => if c = '\\' then '/' else c

theorem normalize_normalize (path : String) : normalize (normalize path) = normalize path := by
  rw [← String.toList_inj, normalize, normalize, String.toList_map, String.toList_map,
    List.map_map]
  refine List.map_congr_left fun c _ => ?_
  by_cases h : c = '\\'
  · simp [h]
  · simp [h]

def isAbsolute (path : String) : Bool := path.toList.head? == some '/'

/-- A path seen from a directory. An absolute one stays. -/
def join (directory path : String) : String :=
  if isAbsolute path then path
  else if directory = "" ∨ directory.toList.getLast? = some '/' then directory ++ path
  else directory ++ "/" ++ path

/-- Cuts at every slash: one component more than there are slashes. -/
def splitSlash : List Char → List (List Char)
  | [] => [[]]
  | c :: cs =>
    if c = '/' then [] :: splitSlash cs
    else match splitSlash cs with
      | [] => [[c]]
      | first :: rest => (c :: first) :: rest

/-- The components of a path, empty ones among them. -/
def components (path : String) : List String := (splitSlash path.toList).map String.ofList

/-- The last component. -/
def baseName (path : String) : String := (components path).getLast?.getD ""

/-- The part of a name from its last dot on, in lower case; dots at the start of a
name begin no extension. Only ASCII letters are folded, which is all that the
known extensions have. -/
def extension (path : String) : String :=
  let name := (baseName path).toList.dropWhile (· == '.')
  if '.' ∈ name then
    String.ofList ('.' :: ((name.reverse.takeWhile (· != '.')).reverse.map Char.toLower))
  else ""

end YieldLint.Path
