/-!
Shell scripts: simple commands in a row, each with words that stand for its
arguments and with redirections of what it reads and prints.
-/
namespace RasterFallback.Command.Shell

inductive Parameter where
  /-- The name of the script for zero, then its arguments. -/
  | argument (n : Nat)
  /-- All arguments, each on its own. -/
  | all
  /-- All arguments with blanks between them. -/
  | joined
  | count
  /-- How the last command ended. -/
  | status
  /-- The number under which the system knows the script. -/
  | process
  /-- Anything else has no value. -/
  | unset
  deriving DecidableEq, Repr

inductive Piece where
  /-- Characters that stand for themselves. -/
  | text (s : List Char)
  /-- The value of a parameter, cut at blanks unless it is quoted. -/
  | value (p : Parameter) (quoted : Bool)
  deriving DecidableEq, Repr

abbrev Word := List Piece

inductive Direction where
  | read
  | write
  | append
  /-- To where another channel goes. -/
  | share
  deriving DecidableEq, Repr

/-- Where a channel comes from or goes to. The channels are numbered: input,
output, complaints. -/
structure Redirection where
  channel : Nat
  direction : Direction
  target : Word
  deriving DecidableEq, Repr

/-- When a command runs, by how the one before it ended. -/
inductive Link where
  | always
  | onSuccess
  | onFailure
  deriving DecidableEq, Repr

/-- A command with the line it was written in. -/
structure Simple where
  line : Nat
  words : List Word := []
  redirections : List Redirection := []
  deriving DecidableEq, Repr

abbrev Script := List (Link × Simple)

end RasterFallback.Command.Shell
