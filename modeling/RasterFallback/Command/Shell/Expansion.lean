import RasterFallback.Command.Shell.Script

/-!
From words to arguments. A value that is not quoted is cut at blanks; a word
of which nothing is left gives no argument.
-/
namespace RasterFallback.Command.Shell

/-- The number of the process that runs a script. -/
def processNumber : Nat := 4242

/-- What parameters stand for. -/
structure Values where
  name : String
  args : List String := []
  status : Nat := 0
  deriving DecidableEq, Repr

/-- Arguments that are complete, and one that may go on. -/
structure Fields where
  complete : List (List Char) := []
  last : Option (List Char) := none
  deriving DecidableEq, Repr

namespace Fields

def add (f : Fields) (s : List Char) : Fields := { f with last := some (f.last.getD [] ++ s) }

def cut (f : Fields) : Fields := ⟨f.complete ++ f.last.toList, none⟩

def toList (f : Fields) : List String := f.cut.complete.map String.ofList

def isSeparator (c : Char) : Bool := c == ' ' || c == '\t' || c == '\n'

/-- Adds a value and cuts it at blanks. -/
def addCut (f : Fields) (s : List Char) : Fields :=
  s.foldl (fun f c => if isSeparator c then f.cut else f.add [c]) f

def addAll (f : Fields) (quoted : Bool) : List String → Fields
  | [] => f
  | [s] => if quoted then f.add s.toList else f.addCut s.toList
  | s :: ss => ((if quoted then f.add s.toList else f.addCut s.toList).cut).addAll quoted ss

end Fields

def Values.texts (v : Values) : Parameter → List String
  | .argument 0 => [v.name]
  | .argument (n + 1) => [v.args.getD n ""]
  | .all => v.args
  | .joined => [" ".intercalate v.args]
  | .count => [toString v.args.length]
  | .status => [toString v.status]
  | .process => [toString processNumber]
  | .unset => [""]

def Values.expandPiece (v : Values) (f : Fields) : Piece → Fields
  | .text s => f.add s
  | .value p quoted => f.addAll quoted (v.texts p)

def Values.expand (v : Values) (w : Word) : List String :=
  (w.foldl v.expandPiece {}).toList

/-- The one text that a word stands for where it is not cut. -/
def Values.text (v : Values) (w : Word) : String :=
  " ".intercalate ((w.map fun
    | .text s => Piece.text s
    | .value p _ => Piece.value p true).foldl v.expandPiece {}).toList

end RasterFallback.Command.Shell
