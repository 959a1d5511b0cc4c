import RasterFallback.Decimal.Layout
import RasterFallback.Text.Quoted

/-!
Tokens of a stylesheet, and their description in messages.
-/
namespace RasterFallback.Css
open RasterFallback.Text RasterFallback.Decimal

/-- The three kinds of brackets. A function name opens a parenthesis too. -/
inductive Bracket where
  | paren
  | square
  | curly
  deriving DecidableEq, Repr

/-- A number as read: its value, whether a sign was written, and the whole
number it is if it has neither a point nor an exponent, held to 32 bits. -/
structure Numeral where
  signed : Bool
  value : Float
  whole : Option Int
  deriving DecidableEq

/-- Names and contents have their escapes resolved. -/
inductive Token where
  | ident (name : String)
  | atKeyword (name : String)
  | hash (name : String)
  | idHash (name : String)
  | quotedString (content : String)
  | unquotedUrl (content : String)
  | delim (c : Char)
  | number (n : Numeral)
  | percentage (n : Numeral)
  | dimension (n : Numeral) (unit : String)
  | whitespace (content : String)
  | comment (content : String)
  | colon
  | semicolon
  | comma
  | includeMatch
  | dashMatch
  | prefixMatch
  | suffixMatch
  | substringMatch
  | cdo
  | cdc
  | function (name : String)
  | opening (b : Bracket)
  | closing (b : Bracket)
  | badUrl (content : String)
  | badString (content : String)
  deriving DecidableEq

namespace Token

def opens? : Token → Option Bracket
  | .function _ => some .paren
  | .opening b => some b
  | _ => none

def closes? : Token → Option Bracket
  | .closing b => some b
  | _ => none

/-- The character that a sign is spelled by. -/
def sign? : Token → Option Char
  | .opening .paren => some '('
  | .opening .square => some '['
  | .opening .curly => some '\x7b'
  | .closing .paren => some ')'
  | .closing .square => some ']'
  | .closing .curly => some '\x7d'
  | .comma => some ','
  | .colon => some ':'
  | .semicolon => some ';'
  | _ => none

/-- Two characters, of which the second is an equals sign. -/
def isPair : Token → Bool
  | .suffixMatch | .substringMatch | .prefixMatch | .dashMatch | .includeMatch => true
  | _ => false

def isSpace : Token → Bool
  | .whitespace _ => true
  | .comment _ => true
  | _ => false

def isBad : Token → Bool
  | .badUrl _ => true
  | .badString _ => true
  | _ => false

end Token

/-- From a ten-thousandth up to sixteen digits before the point positionally. -/
def numberLayout : Layout := { positional := fun e => -4 ≤ e && e < 16, tie := .up }

/-- A number with the shortest digits that identify it in 32 bits. -/
def numberText (x : Float) : String :=
  numberLayout.text (binary32.value x.toFloat32.toBits.toNat)

/-- The fields of a record in braces. -/
def record (name : String) (fields : List (String × String)) : String :=
  name ++ " \x7b " ++ String.intercalate ", " (fields.map fun f => f.1 ++ ": " ++ f.2) ++ " \x7d"

def applied (name argument : String) : String := name ++ "(" ++ argument ++ ")"

namespace Numeral

def signText (n : Numeral) : String × String := ("has_sign", if n.signed then "true" else "false")

def wholeText (n : Numeral) : String × String :=
  ("int_value", match n.whole with
    | some i => applied "Some" (toString i)
    | none => "None")

end Numeral

def Bracket.openingText : Bracket → String
  | .paren => "ParenthesisBlock"
  | .square => "SquareBracketBlock"
  | .curly => "CurlyBracketBlock"

def Bracket.closingText : Bracket → String
  | .paren => "CloseParenthesis"
  | .square => "CloseSquareBracket"
  | .curly => "CloseCurlyBracket"

def Token.text : Token → String
  | .ident s => applied "Ident" (quotedText s)
  | .atKeyword s => applied "AtKeyword" (quotedText s)
  | .hash s => applied "Hash" (quotedText s)
  | .idHash s => applied "IDHash" (quotedText s)
  | .quotedString s => applied "QuotedString" (quotedText s)
  | .unquotedUrl s => applied "UnquotedUrl" (quotedText s)
  | .delim c => applied "Delim" (quotedLetter c)
  | .number n =>
    record "Number" [n.signText, ("value", numberText n.value), n.wholeText]
  | .percentage n =>
    record "Percentage" [n.signText, ("unit_value", numberText (n.value / 100)), n.wholeText]
  | .dimension n unit =>
    record "Dimension"
      [n.signText, ("value", numberText n.value), n.wholeText, ("unit", quotedText unit)]
  | .whitespace s => applied "WhiteSpace" (quotedText s)
  | .comment s => applied "Comment" (quotedText s)
  | .colon => "Colon"
  | .semicolon => "Semicolon"
  | .comma => "Comma"
  | .includeMatch => "IncludeMatch"
  | .dashMatch => "DashMatch"
  | .prefixMatch => "PrefixMatch"
  | .suffixMatch => "SuffixMatch"
  | .substringMatch => "SubstringMatch"
  | .cdo => "CDO"
  | .cdc => "CDC"
  | .function s => applied "Function" (quotedText s)
  | .opening b => b.openingText
  | .closing b => b.closingText
  | .badUrl s => applied "BadUrl" (quotedText s)
  | .badString s => applied "BadString" (quotedText s)

end RasterFallback.Css
