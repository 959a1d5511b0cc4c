import RasterFallback.Files.SystemError

/-!
What stands in a file tree: directories, files, and devices, some of which lead
to the channels of a program.
-/
namespace RasterFallback.Files

inductive Device where
  /-- Holds nothing, and swallows all it is given. -/
  | null
  /-- Holds nothing, and refuses all it is given. -/
  | full
  /-- Gives bytes without end, of which none are taken, and swallows all it is given. -/
  | endless
  /-- Nobody sits there: it is neither read nor written. -/
  | terminal
  | stdin
  | stdout
  | stderr
  deriving DecidableEq, Repr

inductive Entry where
  | dir (modified : Nat)
  | file (content : List UInt8) (modified : Nat)
  | device (d : Device) (modified : Nat)
  deriving DecidableEq, Repr

def Device.refusal? (d : Device) (bytes : List UInt8) : Option SystemError :=
  match d with
  | .full => if bytes.isEmpty then none else some .storageFull
  | .terminal => some .noDevice
  | _ => none

namespace Entry

def modified : Entry → Nat
  | dir t => t
  | file _ t => t
  | device _ t => t

def isDir : Entry → Bool
  | dir _ => true
  | file .. => false
  | device .. => false

def touch (t : Nat) : Entry → Entry
  | dir _ => dir t
  | file content _ => file content t
  | device d _ => device d t

@[simp] theorem modified_touch (t : Nat) (e : Entry) : (e.touch t).modified = t := by
  cases e <;> rfl

@[simp] theorem isDir_touch (t : Nat) (e : Entry) : (e.touch t).isDir = e.isDir := by
  cases e <;> rfl

end Entry

end RasterFallback.Files
