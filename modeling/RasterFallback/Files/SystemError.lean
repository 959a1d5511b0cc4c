/-!
Why a file operation failed.
-/
namespace RasterFallback.Files

inductive SystemError where
  | notFound
  | noDevice
  | permissionDenied
  | alreadyExists
  | notDirectory
  | isDirectory
  | storageFull
  | nameTooLong
  /-- A path that holds the null character. -/
  | nullInPath
  /-- A file that is read as text and is none. -/
  | invalidText
  /-- A directory whose ancestors all fail to exist. -/
  | noRoot
  deriving DecidableEq, Repr

namespace SystemError

/-- The number of the error, its kind and its wording, for those that the system reports. -/
def report? : SystemError → Option (Nat × String × String)
  | notFound => some (2, "NotFound", "No such file or directory")
  | noDevice => some (6, "Uncategorized", "No such device or address")
  | permissionDenied => some (13, "PermissionDenied", "Permission denied")
  | alreadyExists => some (17, "AlreadyExists", "File exists")
  | notDirectory => some (20, "NotADirectory", "Not a directory")
  | isDirectory => some (21, "IsADirectory", "Is a directory")
  | storageFull => some (28, "StorageFull", "No space left on device")
  | nameTooLong => some (36, "InvalidFilename", "File name too long")
  | nullInPath => none
  | invalidText => none
  | noRoot => none

/-- The kind and the wording of the other errors. -/
def notice : SystemError → String × String
  | nullInPath => ("InvalidInput", "file name contained an unexpected NUL byte")
  | invalidText => ("InvalidData", "stream did not contain valid UTF-8")
  | noRoot => ("Uncategorized", "failed to create whole tree")
  | _ => ("Other", "")

def wording (e : SystemError) : String :=
  match e.report? with
  | some (_, _, text) => text
  | none => e.notice.2

def message (e : SystemError) : String :=
  match e.report? with
  | some (code, _, _) => e.wording ++ " (os error " ++ toString code ++ ")"
  | none => e.wording

end SystemError

end RasterFallback.Files
