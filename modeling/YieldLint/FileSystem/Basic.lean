/-
A file system: a directory tree, a working directory, files that may not be
opened, and files to which not all can be written.

A path is followed component by component from the working directory, or from
the root if it is absolute (`locate?`). Every component but the last must be a
directory that exists, also one that `..` leaves again. Reading a file and
opening one for writing say why they fail, and change nothing.
-/
import YieldLint.FileSystem.Entry
import YieldLint.Text.Lines

namespace YieldLint

/-- Why what is written to a file is not stored, and how many bytes of it still are. -/
structure Fault where
  stored : Nat
  reason : String
  deriving DecidableEq, Repr

def Fault.failure (f : Fault) : Failure := .permissionDenied (.storing f.reason)

structure FileSystem where
  root : Entry
  workingDir : Location := []
  unreadable : List Location := []
  unwritable : List Location := []
  faults : List (Location × Fault) := []
  deriving Inhabited

namespace FileSystem

/-! ## Addresses -/

/-- Follows components from a directory. -/
def follow (root : Entry) : Location → List String → Option Location
  | here, [] => some here
  | here, name :: rest =>
    match root.get? here with
    | some (.dir es) =>
      if name = "" ∨ name = "." then follow root here rest
      else if name = ".." then follow root here.dropLast rest
      else if (es.lookup name).isSome then follow root (here ++ [name]) rest
      else none
    | _ => none

/-- Where a path begins. -/
def base (fs : FileSystem) (path : String) : Location :=
  if Path.isAbsolute path then [] else fs.workingDir

/-- The address of what a path leads to. The empty path leads nowhere. -/
def locate? (fs : FileSystem) (path : String) : Option Location :=
  if path = "" then none else follow fs.root (fs.base path) (Path.components path)

/-- The address that a path spells, whether anything is there or not. -/
def spell (fs : FileSystem) (path : String) : Location :=
  (Path.components path).foldl (fun here name =>
    if name = "" ∨ name = "." then here
    else if name = ".." then here.dropLast
    else here ++ [name]) (fs.base path)

/-- What a path leads to. -/
def entry? (fs : FileSystem) (path : String) : Option Entry :=
  (fs.locate? path).bind fs.root.get?

def isFile (fs : FileSystem) (path : String) : Bool := (fs.entry? path).any (·.isFile)

def isDir (fs : FileSystem) (path : String) : Bool := (fs.entry? path).any (·.isDir)

def hasPath (fs : FileSystem) (path : String) : Bool := (fs.entry? path).isSome

/-! ## Contents -/

/-- The contents of a file. -/
def read (fs : FileSystem) (path : String) : Except Failure Bytes :=
  match fs.locate? path with
  | none => .error (.fileNotFound path)
  | some location =>
    if fs.unreadable.contains location then .error (.permissionDenied (.opening path))
    else match fs.root.get? location with
      | some (.file content) => .ok content
      | _ => .error (.isADirectory path)

/-- The address of a file that may be opened for writing. -/
def writable (fs : FileSystem) (path : String) : Except Failure Location :=
  match fs.locate? path with
  | none => .error (.fileNotFound path)
  | some location =>
    if fs.unwritable.contains location then .error (.permissionDenied (.opening path))
    else match fs.root.get? location with
      | some (.file _) => .ok location
      | _ => .error (.isADirectory path)

/-- What is wrong with an address that is written to. -/
def fault? (fs : FileSystem) (location : Location) : Option Fault := fs.faults.lookup location

/-- The file system with other contents at an address. -/
def store (fs : FileSystem) (location : Location) (content : Bytes) : FileSystem :=
  { fs with root := fs.root.write location content }

/-- The source files below a directory, as paths from it with slashes only, in
ascending order. -/
def sources (fs : FileSystem) (path : String) : List String :=
  match fs.entry? path with
  | some e =>
    Text.ascending (e.sources.map fun location => Path.normalize (Text.joinWith "/" location))
  | none => []

/-! ## Changes from outside -/

/-- Creates or overwrites a file, with the directories that lead to it, whether or
not it may be written. -/
def create (fs : FileSystem) (path : String) (content : Bytes) : Except Failure FileSystem :=
  match fs.root.get? (fs.spell path) with
  | some (.dir _) => .error (.isADirectory path)
  | _ => .ok { fs with root := fs.root.write (fs.spell path) content }

/-- Makes a directory, with those that lead to it. -/
def makeDir (fs : FileSystem) (path : String) : FileSystem :=
  { fs with root := fs.root.makeDir (fs.spell path) }

/-- Removes a file or a whole directory; a path that leads nowhere removes
nothing. -/
def remove (fs : FileSystem) (path : String) : FileSystem :=
  match fs.locate? path with
  | some location => { fs with root := fs.root.remove location }
  | none => fs

def denyRead (fs : FileSystem) (path : String) : FileSystem :=
  { fs with unreadable := fs.spell path :: fs.unreadable }

def denyWrite (fs : FileSystem) (path : String) : FileSystem :=
  { fs with unwritable := fs.spell path :: fs.unwritable }

/-- From now on all writes to a file break off so, or none does any more. -/
def failWrites (fs : FileSystem) (path : String) (fault? : Option Fault) : FileSystem :=
  let others := fs.faults.filter fun f => f.1 != fs.spell path
  { fs with faults := (fault?.map fun fault => (fs.spell path, fault)).toList ++ others }

/-- Lifts all denials. -/
def allowAll (fs : FileSystem) : FileSystem := { fs with unreadable := [], unwritable := [] }

/-- All files below the working directory, by their paths from it, in ascending
order. -/
def listing (fs : FileSystem) : List (String × Bytes) :=
  match fs.root.get? fs.workingDir with
  | some e =>
    (e.files.map fun f => (Text.joinWith "/" f.1, f.2)).mergeSort fun a b => decide (a.1 ≤ b.1)
  | none => []

end FileSystem

end YieldLint
