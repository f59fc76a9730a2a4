/-!
# Failures of file access and of page stores

A `Failure` says what was attempted and on which path; where the file system
refused it, the `FileError` says why.
-/

namespace TagDoc

/-- Why the file system refuses an operation. -/
inductive FileError where
  | notFound
  | alreadyExists
  | notDirectory
  | isDirectory
  | nameTooLong
  | notText
  | zeroByte
deriving DecidableEq, Repr

def FileError.message : FileError → String
  | .notFound => "No such file or directory (os error 2)"
  | .alreadyExists => "File exists (os error 17)"
  | .notDirectory => "Not a directory (os error 20)"
  | .isDirectory => "Is a directory (os error 21)"
  | .nameTooLong => "File name too long (os error 36)"
  | .notText => "stream did not contain valid UTF-8"
  | .zeroByte => "file name contained an unexpected NUL byte"

/-- What could not be done.  `refused` is the answer of a store that has
reasons of its own. -/
inductive Failure where
  | read (path : String) (cause : FileError)
  | readConfig (path : String) (cause : FileError)
  | invalidConfig
  | invalidConfigIn (path : String)
  | invalidRegistry (path : String)
  | createOutput (path : String) (cause : FileError)
  | createDirectory (path : String) (cause : FileError)
  | write (path : String) (cause : FileError)
  | invalidIndex (path : String)
  | refused (attempt cause : String)
deriving DecidableEq, Repr

namespace Failure

def attempt : Failure → String
  | .read path _ => "failed to read " ++ path
  | .readConfig path _ => "failed to read config: " ++ path
  | .invalidConfig => "invalid configuration"
  | .invalidConfigIn path => "in " ++ path
  | .invalidRegistry path => "invalid registry: " ++ path
  | .createOutput path _ => "failed to create output directory: " ++ path
  | .createDirectory path _ => "failed to create " ++ path
  | .write path _ => "failed to write " ++ path
  | .invalidIndex path => "invalid page index: " ++ path
  | .refused attempt _ => attempt

/-- Why it failed, where that adds something. -/
def cause? : Failure → Option String
  | .read _ cause | .readConfig _ cause | .createOutput _ cause
  | .createDirectory _ cause | .write _ cause => some cause.message
  | .refused _ cause => some cause
  | .invalidConfig | .invalidConfigIn _ | .invalidRegistry _
  | .invalidIndex _ => none

def message (failure : Failure) : String :=
  match failure.cause? with
  | some cause => failure.attempt ++ ": " ++ cause
  | none => failure.attempt

end Failure

end TagDoc
