/-!
How a program ended: with a code of its own, or by a signal.
-/
namespace RasterFallback.Command

inductive Status where
  | exited (code : Nat)
  | signalled (number : Nat)
  deriving DecidableEq, Repr

namespace Status

/-- The name of a signal, behind `SIG`. -/
def signalName? : Nat → Option String
  | 1 => some "HUP"
  | 2 => some "INT"
  | 3 => some "QUIT"
  | 4 => some "ILL"
  | 5 => some "TRAP"
  | 6 => some "ABRT"
  | 7 => some "BUS"
  | 8 => some "FPE"
  | 9 => some "KILL"
  | 10 => some "USR1"
  | 11 => some "SEGV"
  | 12 => some "USR2"
  | 13 => some "PIPE"
  | 14 => some "ALRM"
  | 15 => some "TERM"
  | 16 => some "STKFLT"
  | 17 => some "CHLD"
  | 18 => some "CONT"
  | 19 => some "STOP"
  | 20 => some "TSTP"
  | 21 => some "TTIN"
  | 22 => some "TTOU"
  | 23 => some "URG"
  | 24 => some "XCPU"
  | 25 => some "XFSZ"
  | 26 => some "VTALRM"
  | 27 => some "PROF"
  | 28 => some "WINCH"
  | 29 => some "IO"
  | 30 => some "PWR"
  | 31 => some "SYS"
  | _ => none

/-- The number of a signal by its name. -/
def signalNumber? (name : String) : Option Nat :=
  (List.range 32).find? fun n => signalName? n == some name

/-- Signals that end nothing unless a program asks for them. -/
def isHarmless (n : Nat) : Bool := [0, 17, 18, 23, 28].contains n

def text : Status → String
  | exited code => "exit status: " ++ toString code
  | signalled n =>
    "signal: " ++ toString n ++
      match signalName? n with
      | some name => " (SIG" ++ name ++ ")"
      | none => ""

/-- Only an end with code zero is a success. -/
def success (s : Status) : Bool := s == exited 0

/-- The end with a code. Codes are bytes. -/
def ofCode (code : Int) : Status := exited (code.emod 256).toNat

end Status

end RasterFallback.Command
