import RasterFallback.Css.Token
import RasterFallback.Text.Position

/-!
Why a stylesheet is refused, and where.
-/
namespace RasterFallback
open RasterFallback.Text RasterFallback.Css

inductive ParseFault where
  | unterminatedComment
  /-- A closing brace without an opening one. -/
  | strayBrace
  /-- A block that the text ends in. -/
  | unclosedBlock
  | unterminatedString
  | malformedUrl
  /-- A selector that no block follows. -/
  | missingBlock (selector : String)
  /-- A property name with nothing behind it. -/
  | endOfInput
  /-- An at-rule among declarations. -/
  | misplacedAtRule (name : String)
  | unexpected (t : Token)
  deriving DecidableEq

def ParseFault.message : ParseFault → String
  | unterminatedComment => "unterminated comment"
  | strayBrace => "unexpected `\x7d`"
  | unclosedBlock => "unclosed block"
  | unterminatedString => "unterminated string"
  | malformedUrl =>
    "malformed `url(...)`: quotes, parentheses and whitespace must be escaped or quoted"
  | missingBlock selector => "expected `\x7b` after selector `" ++ selector ++ "`"
  | endOfInput => "unexpected end of input"
  | misplacedAtRule name => "unexpected `@" ++ name ++ "`"
  | unexpected t => "unexpected " ++ t.text

structure ParseError where
  position : Position
  fault : ParseFault
  deriving DecidableEq

def ParseError.message (e : ParseError) : String :=
  "Parse error at " ++ e.position.text ++ ": " ++ e.fault.message

end RasterFallback
