/-!
# Errors of the host system

The ways in which the host refuses a file, in its own words.
-/

namespace StagedSandbox

inductive OsError where
  | notFound
  | alreadyExists
  | notDirectory
  | isDirectory
  | nameTooLong
  | tooManyLinks
  | invalidText
  deriving DecidableEq, Repr

def OsError.message : OsError → String
  | .notFound => "No such file or directory (os error 2)"
  | .alreadyExists => "File exists (os error 17)"
  | .notDirectory => "Not a directory (os error 20)"
  | .isDirectory => "Is a directory (os error 21)"
  | .nameTooLong => "File name too long (os error 36)"
  | .tooManyLinks => "Too many levels of symbolic links (os error 40)"
  | .invalidText => "stream did not contain valid UTF-8"

end StagedSandbox
