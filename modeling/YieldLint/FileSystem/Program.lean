/-
Reading and writing files as programs over the file system.

A file is written in three steps. To open it for writing empties it, what is put
into it is stored as far as it can be, and to close it fails if not all was
stored. So a write that fails once the file is open leaves that file cut off.
-/
import YieldLint.Program
import YieldLint.FileSystem.Basic

namespace YieldLint

abbrev FileProgram (α : Type) := Program FileSystem α

namespace FileProgram

def hasPath (path : String) : FileProgram Bool := do return (← get).hasPath path

def read (path : String) : FileProgram Bytes := do (← get).read path

/-- Opens a file for writing, and empties it. -/
def openEmptied (path : String) : FileProgram Location := do
  let location ← (← get).writable path
  modify (·.store location [])
  return location

/-- Puts contents into an emptied file. -/
def put (location : Location) (content : Bytes) : FileProgram Unit := do
  match (← get).fault? location with
  | none => modify (·.store location content)
  | some fault =>
    modify (·.store location (content.take fault.stored))
    if fault.stored < content.length then throw fault.failure

/-- Closes a file that was put contents into. What was kept back until then may still
not be stored. -/
def close (location : Location) : FileProgram Unit := do
  match (← get).fault? location with
  | none => return
  | some fault => throw fault.failure

/-- Overwrites a file. -/
def write (path : String) (content : Bytes) : FileProgram Unit := do
  let location ← openEmptied path
  put location content
  close location

theorem exec_hasPath (path : String) (fs : FileSystem) :
    (hasPath path).exec fs = (.ok (fs.hasPath path), fs) := rfl

theorem exec_read (path : String) (fs : FileSystem) :
    (read path).exec fs = (fs.read path, fs) := rfl

theorem exec_openEmptied (path : String) (fs : FileSystem) :
    (openEmptied path).exec fs =
      match fs.writable path with
      | .ok location => (.ok location, fs.store location [])
      | .error e => (.error e, fs) := by
  rw [openEmptied, Program.exec_bind, Program.exec_get]
  dsimp only
  rw [Program.exec_bind, Program.exec_lift]
  cases fs.writable path with
  | ok location => rfl
  | error e => rfl

section Fault

variable {location : Location} {fault : Fault} {fs : FileSystem}

theorem exec_put_of_none (h : fs.fault? location = none) (content : Bytes) :
    (put location content).exec fs = (.ok (), fs.store location content) := by
  rw [put, Program.exec_bind, Program.exec_get]
  simp only [h]
  rfl

/-- What is stored of the contents is stored also if they cannot be. -/
theorem exec_put_of_some (h : fs.fault? location = some fault) (content : Bytes) :
    (put location content).exec fs =
      (if fault.stored < content.length then .error fault.failure else .ok (),
        fs.store location (content.take fault.stored)) := by
  rw [put, Program.exec_bind, Program.exec_get]
  simp only [h]
  split
  · rfl
  · rfl

theorem exec_close_of_none (h : fs.fault? location = none) :
    (close location).exec fs = (.ok (), fs) := by
  rw [close, Program.exec_bind, Program.exec_get]
  simp only [h]
  rfl

theorem exec_close_of_some (h : fs.fault? location = some fault) :
    (close location).exec fs = (.error fault.failure, fs) := by
  rw [close, Program.exec_bind, Program.exec_get]
  simp only [h]
  rfl

end Fault

end FileProgram

/-- The file system after a file is overwritten. -/
def FileSystem.write (fs : FileSystem) (path : String) (content : Bytes) :
    Except Failure FileSystem :=
  ((FileProgram.write path content).result fs).map Prod.snd

end YieldLint
