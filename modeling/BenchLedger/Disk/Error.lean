/-!
# Disk errors

Why an operation on files or directories is refused, with the message and the number that an
operating system gives for it.
-/

namespace BenchLedger.Disk

/-- Why an operation on the disk is refused. -/
inductive Error
  | notFound
  | exists
  | notDirectory
  | isDirectory
  | noSpace
  | nameTooLong
  | nulInName
  deriving DecidableEq

def Error.message : Error → String
  | .notFound => "No such file or directory (os error 2)"
  | .exists => "File exists (os error 17)"
  | .notDirectory => "Not a directory (os error 20)"
  | .isDirectory => "Is a directory (os error 21)"
  | .noSpace => "No space left on device (os error 28)"
  | .nameTooLong => "File name too long (os error 36)"
  | .nulInName => "file name contained an unexpected NUL byte"

end BenchLedger.Disk
