/-
Why an operation fails, and the words in which it says so.
-/
import YieldLint.Text.Quoted

namespace YieldLint

/-- What the file system does not let happen: that a path is opened, or that all which is
written to an open file is stored. The second gives its reason in words. -/
inductive Denial where
  | opening (path : String)
  | storing (reason : String)
  deriving DecidableEq, Repr

def Denial.message : Denial → String
  | opening path => "[Errno 13] Permission denied: " ++ Text.quoted path
  | storing reason => reason

/-- The causes of failure. A path is as the caller gave it. -/
inductive Failure where
  | unsupportedLanguage (name : String)
  | parserFailed (message : String)
  | missingField (name : String)
  | fileNotFound (path : String)
  | isADirectory (path : String)
  | permissionDenied (denial : Denial)
  deriving DecidableEq, Repr

namespace Failure

def message : Failure → String
  | unsupportedLanguage name => "Unsupported language: " ++ name
  | parserFailed message => message
  | missingField name => "'" ++ name ++ "'"
  | fileNotFound path => "File not found: " ++ path
  | isADirectory path => "[Errno 21] Is a directory: " ++ Text.quoted path
  | permissionDenied denial => denial.message

/-- Comes from the file system, and not from the parser or the caller. -/
def isFileError : Failure → Bool
  | fileNotFound _ | isADirectory _ | permissionDenied _ => true
  | unsupportedLanguage _ | parserFailed _ | missingField _ => false

/-- A failure is no answer, and not passed on. -/
def caught {α : Type} (x : Except Failure α) : Except Failure (Option α) :=
  tryCatch (do return some (← x)) fun _ => pure none

theorem caught_eq {α : Type} (x : Except Failure α) : caught x = .ok x.toOption := by
  cases x with
  | error e => rfl
  | ok a => rfl

end Failure

end YieldLint
