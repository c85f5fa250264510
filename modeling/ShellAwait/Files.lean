/-! # Files that cannot be read -/

namespace ShellAwait

inductive ReadError where
  | notFound
  | isDirectory
  | denied
  | notText
  | other (reason : String)
deriving DecidableEq, Repr

def ReadError.message : ReadError → String
  | .notFound => "No such file or directory (os error 2)"
  | .isDirectory => "Is a directory (os error 21)"
  | .denied => "Permission denied (os error 13)"
  | .notText => "stream did not contain valid UTF-8"
  | .other reason => reason

end ShellAwait
