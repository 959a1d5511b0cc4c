import RasterFallback.Command.Escape
import RasterFallback.Command.Launch
import RasterFallback.Text.Digits

/-!
The commands that print their arguments.
-/
namespace RasterFallback.Command
open RasterFallback.Text

def bytesOf (s : String) : List UInt8 := utf8Bytes s.toList

/-- Arguments with a blank between each two, and a line end. An argument `-n` in
front leaves the line end out. Escapes are resolved. -/
def echoEscaped (args : List String) : List UInt8 :=
  let (bare, words) := match args with
    | "-n" :: words => (true, words)
    | words => (false, words)
  let (bytes, stopped) := unescape .behindZero (" ".intercalate words).toList
  bytes ++ if bare || stopped then [] else [10]

/-- The letters of an option that the echo program knows. -/
def echoOption? (arg : String) : Option (List Char) :=
  match arg.toList with
  | '-' :: c :: cs => if (c :: cs).all ['n', 'e', 'E'].contains then some (c :: cs) else none
  | _ => none

/-- The options in front of other arguments, and these. -/
def echoOptions : List String → List Char × List String
  | [] => ([], [])
  | arg :: args =>
    match echoOption? arg with
    | some letters => ((letters ++ (echoOptions args).1), (echoOptions args).2)
    | none => ([], arg :: args)

/-- Arguments with a blank between each two, and a line end unless an option asks to
leave it out. Escapes are resolved only if the last option about them says so. -/
def echo (args : List String) : List UInt8 :=
  let (letters, words) := echoOptions args
  let text := " ".intercalate words
  let lineEnd := if letters.contains 'n' then [] else [10]
  if (letters.filter fun c => c != 'n').getLast? == some 'e' then
    let (bytes, stopped) := unescape .behindZero text.toList
    bytes ++ if stopped then [] else lineEnd
  else bytesOf text ++ lineEnd

inductive FormatPiece where
  | bytes (b : List UInt8)
  /-- A percent sign with a letter. -/
  | conversion (letter : Char)
  deriving DecidableEq, Repr

/-- The pieces of a format. A percent sign is written twice. -/
def formatPieces : List Char → List FormatPiece
  | [] => []
  | '%' :: '%' :: s => .bytes [37] :: formatPieces s
  | '%' :: c :: s => .conversion c :: formatPieces s
  | '\\' :: s => .bytes (readEscape .bare s).1 :: formatPieces (readEscape .bare s).2
  | c :: s => .bytes (utf8Bytes [c]) :: formatPieces s
  termination_by s => s.length
  decreasing_by
    · exact Nat.lt_succ_of_lt (Nat.lt_succ_self _)
    · exact Nat.lt_succ_of_lt (Nat.lt_succ_self _)
    · have := readEscape_length .bare s
      simp
      omega
    · simp

/-- A whole number in decimal digits, with a sign or without. Nothing is zero. -/
def wholeNumber? (s : List Char) : Option Int :=
  match s with
  | [] => some 0
  | '-' :: ds => if !ds.isEmpty && ds.all Char.isDigit then some (-natOfDigits ds) else none
  | '+' :: ds => if !ds.isEmpty && ds.all Char.isDigit then some (natOfDigits ds) else none
  | ds => if ds.all Char.isDigit then some (natOfDigits ds) else none

/-- The text that a conversion makes of an argument: texts as they are, texts with
escapes resolved, the first character, or a whole number. -/
def converted? (letter : Char) (arg : String) : Option (List UInt8) :=
  match letter with
  | 's' => some (bytesOf arg)
  | 'b' => some (unescape .behindZero arg.toList).1
  | 'c' => some (utf8Bytes (arg.toList.take 1))
  | 'd' => (wholeNumber? arg.toList).map fun n => bytesOf (toString n)
  | _ => none

/-- Prints the pieces of a format with arguments for its conversions; where there
are too few, empty ones are taken. What is left of the arguments is returned. -/
def printOnce : List FormatPiece → List String → Option (List UInt8 × List String)
  | [], args => some ([], args)
  | .bytes b :: pieces, args => do
    let (more, left) ← printOnce pieces args
    some (b ++ more, left)
  | .conversion letter :: pieces, args => do
    let bytes ← converted? letter (args.headD "")
    let (more, left) ← printOnce pieces args.tail
    some (bytes ++ more, left)

/-- Prints a format again and again as long as arguments are left. `rounds` bounds
how often. -/
def printAgain (pieces : List FormatPiece) : Nat → List String → Option (List UInt8)
  | 0, _ => some []
  | rounds + 1, args => do
    let (bytes, left) ← printOnce pieces args
    if left.isEmpty || left.length = args.length then some bytes
    else some (bytes ++ (← printAgain pieces rounds left))

/-- Prints arguments as a format says, unless a conversion fails. -/
def printf? (format : String) (args : List String) : Option (List UInt8) :=
  printAgain (formatPieces format.toList) (args.length + 1) args

end RasterFallback.Command
