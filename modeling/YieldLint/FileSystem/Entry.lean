/-
Directory trees, addressed by lists of names.

`get?` looks an address up, `place` writes there, making the directories that
lead to it, and `remove` takes away what is there. `sources` lists the addresses
of the source files below a directory, leaving out whole directories by name.
-/
import YieldLint.Language
import YieldLint.Table

namespace YieldLint

/-- A file with its contents, or a directory with its entries. -/
inductive Entry where
  | file (content : Bytes)
  | dir (entries : List (String × Entry))
  deriving Inhabited

/-- An address from the root of a tree down. -/
abbrev Location := List String

namespace Entry

def isDir : Entry → Bool
  | dir _ => true
  | file _ => false

def isFile (e : Entry) : Bool := !e.isDir

/-- What a directory holds under a name. -/
def child? : Entry → String → Option Entry
  | file _, _ => none
  | dir es, name => es.lookup name

def get? : Entry → Location → Option Entry
  | e, [] => some e
  | e, name :: rest => (e.child? name).bind (·.get? rest)

/-- Changes what is at an address, or puts something there, with directories on
the way. Below a file there is no room. -/
def place (new : Option Entry → Entry) : Location → Option Entry → Entry
  | [], old => new old
  | name :: rest, none => dir [(name, place new rest none)]
  | name :: rest, some (dir es) => dir (putEntry name (place new rest (es.lookup name)) es)
  | _ :: _, some (file content) => file content

/-- Writes a file. -/
def write (e : Entry) (location : Location) (content : Bytes) : Entry :=
  place (fun _ => file content) location (some e)

/-- Makes a directory, unless there is something already. -/
def makeDir (e : Entry) (location : Location) : Entry :=
  place (fun old => old.getD (dir [])) location (some e)

/-- Takes away what is at an address below the root. -/
def remove : Location → Entry → Entry
  | [name], dir es => dir (es.filter fun e => e.1 != name)
  | name :: rest, dir es => dir (es.map fun e => if e.1 = name then (name, remove rest e.2) else e)
  | _, e => e

/-! ## Files below a directory -/

/-- Directories that hold no sources of their own: tools and build products. -/
def skippedDirs : List String :=
  [".git", "node_modules", "dist", "build", "coverage", ".vscode", ".idea", "__pycache__", "venv"]

mutual

/-- The addresses of the source files at and below an entry with a name. -/
def sourcesAt (name : String) : Entry → List Location
  | file _ => if (Language.ofPath? name).isSome then [[name]] else []
  | dir es => if skippedDirs.contains name then [] else (sourcesIn es).map (name :: ·)

def sourcesIn : List (String × Entry) → List Location
  | [] => []
  | (name, e) :: rest => sourcesAt name e ++ sourcesIn rest

end

/-- The addresses of the source files below an entry, from the entry down. -/
def sources : Entry → List Location
  | file _ => []
  | dir es => sourcesIn es

mutual

/-- The addresses and contents of all files below an entry. -/
def files : Entry → List (Location × Bytes)
  | file content => [([], content)]
  | dir es => filesIn es

def filesIn : List (String × Entry) → List (Location × Bytes)
  | [] => []
  | (name, e) :: rest => e.files.map (fun f => (name :: f.1, f.2)) ++ filesIn rest

end

end Entry

end YieldLint
