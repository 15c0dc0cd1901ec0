-- SUMMARY: What can go wrong in a file system or process operation.

/-!
# Operation errors

The causes that file operations and process starts can fail with. A few of them
decide what a caller does next; the rest are only reported.
-/

namespace BuildServer

inductive IoError where
  | notFound
  | noReader
  | argumentsTooLong
  | notExecutable
  | wouldBlock
  | permissionDenied
  | exists
  | notADirectory
  | isADirectory
  | nameTooLong
  | tooManyLinks
  /-- A path holds a NUL character. -/
  | nulInPath
  /-- A program name or an argument holds a NUL character. -/
  | nulInArgument
  | notUtf8
  /-- A cause known by its text only. -/
  | other (text : String)
  deriving DecidableEq, Repr

def IoError.message : IoError → String
  | .notFound => "No such file or directory (os error 2)"
  | .noReader => "No such device or address (os error 6)"
  | .argumentsTooLong => "Argument list too long (os error 7)"
  | .notExecutable => "Exec format error (os error 8)"
  | .wouldBlock => "Resource temporarily unavailable (os error 11)"
  | .permissionDenied => "Permission denied (os error 13)"
  | .exists => "File exists (os error 17)"
  | .notADirectory => "Not a directory (os error 20)"
  | .isADirectory => "Is a directory (os error 21)"
  | .nameTooLong => "File name too long (os error 36)"
  | .tooManyLinks => "Too many levels of symbolic links (os error 40)"
  | .nulInPath => "file name contained an unexpected NUL byte"
  | .nulInArgument => "nul byte found in provided data"
  | .notUtf8 => "stream did not contain valid UTF-8"
  | .other text => text

end BuildServer
