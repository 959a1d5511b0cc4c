import RasterFallback.Command.Status
import RasterFallback.Files.Tree

/-!
Commands, and what running one gives. All that a caller knows of a program is
how it ends, what it prints, and what it leaves in the file tree.
-/
namespace RasterFallback
open RasterFallback.Files

/-- A program with its arguments and what it can read. -/
structure Command where
  program : String
  args : List String := []
  stdin : List UInt8 := []
  deriving DecidableEq, Repr

namespace Command

/-- What is left when a program has ended. -/
structure Output where
  status : Status
  stdout : List UInt8 := []
  stderr : List UInt8 := []
  deriving DecidableEq, Repr

inductive LaunchFault where
  | system (e : SystemError)
  /-- A name or an argument with the null character. -/
  | nullInCommand
  deriving DecidableEq, Repr

def LaunchFault.message : LaunchFault → String
  | system e => e.message
  | nullInCommand => "nul byte found in provided data"

/-- The system that runs commands, with what it remembers of them. -/
abbrev Launcher (σ : Type) := Command → σ → Tree → Except LaunchFault Output × σ × Tree

def hasNull (c : Command) : Bool :=
  (c.program :: c.args).any fun s => s.toList.contains '\x00'

/-- Runs a command. One that holds the null character does not even start. -/
def run {σ : Type} (c : Command) (launch : Launcher σ) (memory : σ) (t : Tree) :
    Except LaunchFault Output × σ × Tree :=
  if c.hasNull then (.error .nullInCommand, memory, t) else launch c memory t

end Command

end RasterFallback
