/-!
# File errors

What the file system answers when a call fails, with the wording and number of each answer.
-/

namespace Depot

/-- Why the file system refuses a call on names that are right. -/
inductive Refusal where
  | permission
  | readOnly
  | noSpace
  | damaged
  deriving DecidableEq, Repr

def Refusal.message : Refusal → String
  | .permission => "Permission denied (os error 13)"
  | .readOnly => "Read-only file system (os error 30)"
  | .noSpace => "No space left on device (os error 28)"
  | .damaged => "Input/output error (os error 5)"

inductive FileError where
  | noEntry
  | busy
  | alreadyExists
  | notDirectory
  | isDirectory
  | notEmpty
  | nameTooLong
  | nulByte
  | notText
  | refused (why : Refusal)
  | other (text : String)
  deriving DecidableEq, Repr

def FileError.message : FileError → String
  | .noEntry => "No such file or directory (os error 2)"
  | .busy => "Device or resource busy (os error 16)"
  | .alreadyExists => "File exists (os error 17)"
  | .notDirectory => "Not a directory (os error 20)"
  | .isDirectory => "Is a directory (os error 21)"
  | .notEmpty => "Directory not empty (os error 39)"
  | .nameTooLong => "File name too long (os error 36)"
  | .nulByte => "file name contained an unexpected NUL byte"
  | .notText => "stream did not contain valid UTF-8"
  | .refused why => why.message
  | .other text => text

end Depot
