/-!
# FileSystem/Error — why an operation on the file system fails

Each cause has one message, the one the operating system gives for it with its number; the last
cause is found before the operating system is asked.
-/

namespace SqlSanity

/-- Why an operation on the file system fails. -/
inductive FileError
  | noEntry
  | denied
  | busy
  | alreadyThere
  | notDirectory
  | isDirectory
  | invalid
  | nameTooLong
  | notEmpty
  | tooManyLinks
  | nulByte
  deriving DecidableEq, Repr

/-- The cause in words. -/
def FileError.message : FileError → String
  | noEntry => "No such file or directory (os error 2)"
  | denied => "Permission denied (os error 13)"
  | busy => "Device or resource busy (os error 16)"
  | alreadyThere => "File exists (os error 17)"
  | notDirectory => "Not a directory (os error 20)"
  | isDirectory => "Is a directory (os error 21)"
  | invalid => "Invalid argument (os error 22)"
  | nameTooLong => "File name too long (os error 36)"
  | notEmpty => "Directory not empty (os error 39)"
  | tooManyLinks => "Too many levels of symbolic links (os error 40)"
  | nulByte => "file name contained an unexpected NUL byte"

end SqlSanity
