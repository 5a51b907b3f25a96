/-!
# Files that cannot be read

The player reads two files, and says why when it cannot. A reason that the system gives comes with the
system's number for it.
-/

namespace Gameplay

/-- Why a file could not be read. -/
inductive FileFault
  | missing
  | forbidden
  | notFolder
  | isFolder
  | nameTooLong
  | tooManyLinks
  | notText
  | other (reason : String)
deriving DecidableEq, Repr

namespace FileFault

def message : FileFault → String
  | .missing => "No such file or directory (os error 2)"
  | .forbidden => "Permission denied (os error 13)"
  | .notFolder => "Not a directory (os error 20)"
  | .isFolder => "Is a directory (os error 21)"
  | .nameTooLong => "File name too long (os error 36)"
  | .tooManyLinks => "Too many levels of symbolic links (os error 40)"
  | .notText => "stream did not contain valid UTF-8"
  | .other reason => reason

end FileFault

end Gameplay
