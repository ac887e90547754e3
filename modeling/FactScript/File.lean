/-!
What is found at a path, and why it may not be readable as text.
-/
namespace FactScript

inductive FileStatus
  | missing
  /-- A part of the path that has to be a directory is a file. -/
  | blocked
  /-- A part of the path is longer than the name of a file can be. -/
  | nameTooLong
  | directory
  | bytes (content : ByteArray)

inductive FileError
  | missing
  | blocked
  | nameTooLong
  | directory
  | notText
  deriving DecidableEq, Repr

def FileError.message : FileError → String
  | missing => "No such file or directory (os error 2)"
  | blocked => "Not a directory (os error 20)"
  | nameTooLong => "File name too long (os error 36)"
  | directory => "Is a directory (os error 21)"
  | notText => "stream did not contain valid UTF-8"

/-- The text of a file, which has to be UTF-8. -/
def FileStatus.text : FileStatus → Except FileError String
  | missing => .error .missing
  | blocked => .error .blocked
  | nameTooLong => .error .nameTooLong
  | directory => .error .directory
  | bytes content =>
    match String.fromUTF8? content with
    | some text => .ok text
    | none => .error .notText

end FactScript
