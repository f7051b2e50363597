/-!
# Problems with files

Why an operation on a file or a directory fails.
-/

namespace SchemaClient.Store

/-- Why an operation fails. -/
inductive Problem where
  | notFound
  | alreadyExists
  | notDirectory
  | isDirectory
  | nameTooLong
  /-- A path holds a character that no name may hold. -/
  | invalidPath
  /-- A file is no text. -/
  | notText
  /-- Any other problem, as the system words it. -/
  | other (message : String)
deriving DecidableEq, Repr

/-- The wording of a problem. -/
def Problem.message : Problem → String
  | notFound => "No such file or directory"
  | alreadyExists => "File exists"
  | notDirectory => "Not a directory"
  | isDirectory => "Is a directory"
  | nameTooLong => "File name too long"
  | invalidPath => "file name contained an unexpected NUL byte"
  | notText => "stream did not contain valid UTF-8"
  | other message => message

end SchemaClient.Store
