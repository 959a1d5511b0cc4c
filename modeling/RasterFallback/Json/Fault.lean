/-!
Why a JSON text is refused, and where: the line, and how many bytes of it lie
before the place.
-/
namespace RasterFallback.Json

inductive Fault where
  | endOfList
  | endOfObject
  | endOfString
  | endOfValue
  | missingColon
  | missingListComma
  | missingObjectComma
  | wrongWord
  | noValue
  | badEscape
  | badNumber
  | numberOutOfRange
  | controlCharacter
  | keyNotString
  | unpairedSurrogate
  | surrogateWithoutSecond
  | trailingComma
  | trailingCharacters
  | duplicateField (name : String)
  | wrongType (found expected : String)
  deriving DecidableEq, Repr

def Fault.message : Fault → String
  | endOfList => "EOF while parsing a list"
  | endOfObject => "EOF while parsing an object"
  | endOfString => "EOF while parsing a string"
  | endOfValue => "EOF while parsing a value"
  | missingColon => "expected `:`"
  | missingListComma => "expected `,` or `]`"
  | missingObjectComma => "expected `,` or `\x7d`"
  | wrongWord => "expected ident"
  | noValue => "expected value"
  | badEscape => "invalid escape"
  | badNumber => "invalid number"
  | numberOutOfRange => "number out of range"
  | controlCharacter => "control character (\\u0000-\\u001F) found while parsing a string"
  | keyNotString => "key must be a string"
  | unpairedSurrogate => "lone leading surrogate in hex escape"
  | surrogateWithoutSecond => "unexpected end of hex escape"
  | trailingComma => "trailing comma"
  | trailingCharacters => "trailing characters"
  | duplicateField name => "duplicate field `" ++ name ++ "`"
  | wrongType found expected => "invalid type: " ++ found ++ ", expected " ++ expected

/-- A fault `ahead` bytes behind the place where the text `rest` is left. -/
structure Error where
  fault : Fault
  rest : List Char
  ahead : Nat
  deriving DecidableEq

def Fault.here (f : Fault) (rest : List Char) : Error := ⟨f, rest, 0⟩

/-- A fault of the next character, counted as read. -/
def Fault.next (f : Fault) (rest : List Char) : Error := ⟨f, rest, if rest.isEmpty then 0 else 1⟩

def byteCount : List Char → Nat
  | [] => 0
  | c :: s => c.utf8Size + byteCount s

/-- Line and column of the place `n` bytes behind a place. -/
def place (line column : Nat) : Nat → List Char → Nat × Nat
  | n, [] => (line, column + n)
  | n, c :: s =>
    if n < c.utf8Size then (line, column + n)
    else if c = '\n' then place (line + 1) 0 (n - 1) s
    else place line (column + c.utf8Size) (n - c.utf8Size) s

/-- The fault with its place in the text. -/
def Error.message (whole : List Char) (e : Error) : String :=
  let p := place 1 0 (byteCount whole - byteCount e.rest + e.ahead) whole
  e.fault.message ++ " at line " ++ toString p.1 ++ " column " ++ toString p.2

end RasterFallback.Json
