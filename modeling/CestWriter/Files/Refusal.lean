/-! Why the system does not do what it is asked. -/

namespace CestWriter

inductive Refusal
  | noSuchFile
  | permissionDenied
  | fileExists
  | notADirectory
  | isADirectory
  | nameTooLong
  /-- The path has a null character in it. -/
  | nullInPath
  /-- The name of a socket does not fit its address. -/
  | socketNameTooLong
  /-- Input that should be text is not UTF-8. -/
  | notText
  | other (text : String)
  deriving DecidableEq

namespace Refusal

/-- The refusals that the system gives by a number. -/
def numbered : List (Nat × Refusal) :=
  [(2, noSuchFile), (13, permissionDenied), (17, fileExists), (20, notADirectory), (21, isADirectory),
    (36, nameTooLong)]

def text : Refusal → String
  | noSuchFile => "No such file or directory (os error 2)"
  | permissionDenied => "Permission denied (os error 13)"
  | fileExists => "File exists (os error 17)"
  | notADirectory => "Not a directory (os error 20)"
  | isADirectory => "Is a directory (os error 21)"
  | nameTooLong => "File name too long (os error 36)"
  | nullInPath => "file name contained an unexpected NUL byte"
  | socketNameTooLong => "path must be shorter than SUN_LEN"
  | notText => "stream did not contain valid UTF-8"
  | other text => text

end Refusal

end CestWriter
