import RasterFallback.Conversion.Failure

/-!
The report of an error that ends the program: what could not be done, and the
causes, the nearest first.
-/
namespace RasterFallback.CommandLine

structure Report where
  message : String
  causes : List String := []
  deriving DecidableEq, Repr

/-- The wording of a failure, and of what lies below it. -/
def chain : Failure → List String
  | .io e => [(Failure.io e).message, e.message]
  | e => [e.message]

namespace Report

def ofFailure (e : Failure) : Report := ⟨e.message, (chain e).tail⟩

/-- A failure as the cause of something that could not be done. -/
def because (message : String) (e : Failure) : Report := ⟨message, chain e⟩

/-- A system error as the cause of something that could not be done. -/
def becauseOf (message : String) (e : Files.SystemError) : Report := ⟨message, [e.message]⟩

/-- A text whose lines start with blanks, the first with `front`. -/
def indented (front blanks text : String) : String :=
  front ++ ("\n" ++ blanks).intercalate (text.splitOn "\n")

/-- The number of a cause, in five columns. -/
def numbered (i : Nat) : String :=
  let digits := toString i
  "".pushn ' ' (5 - digits.length) ++ digits ++ ": "

/-- The causes, each on lines of its own. Several are numbered. -/
def causeLines : List String → List String
  | [] => []
  | [cause] => [indented "    " "    " cause]
  | causes => causes.zipIdx.map fun (cause, i) => indented (numbered i) "       " cause

def text (r : Report) : String :=
  "Error: " ++ r.message ++
    (if r.causes.isEmpty then ""
     else "\n\nCaused by:\n" ++ "\n".intercalate (causeLines r.causes)) ++ "\n"

end Report

end RasterFallback.CommandLine
