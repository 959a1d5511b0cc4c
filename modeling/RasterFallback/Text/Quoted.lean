import RasterFallback.Text.Percent
import RasterFallback.Text.Visible

/-!
Quoted texts as messages show them: common controls by a letter, the quote and
the backslash behind a backslash, and every other character without a shape of
its own by its code point in braces.
-/
namespace RasterFallback.Text

/-- The hexadecimal digits of `n`, least first; `fuel` bounds their number. -/
def hexDigitsRev : Nat → Nat → List Char
  | 0, _ => []
  | fuel + 1, n => if n < 16 then [hexDigit n] else hexDigit (n % 16) :: hexDigitsRev fuel (n / 16)

def hex (n : Nat) : List Char := (hexDigitsRev (n + 1) n).reverse

/-- The character as it stands between two quote marks `q`. -/
def quotedChar (q c : Char) : List Char :=
  if c = '\x00' then ['\\', '0']
  else if c = '\t' then ['\\', 't']
  else if c = '\n' then ['\\', 'n']
  else if c = '\r' then ['\\', 'r']
  else if c = '\\' || c = q then ['\\', c]
  else if isVisible c then [c]
  else ['\\', 'u', '\x7b'] ++ hex c.toNat ++ ['\x7d']

def quoted (q : Char) (s : List Char) : List Char :=
  q :: s.flatMap (quotedChar q) ++ [q]

def quotedText (s : String) : String := String.ofList (quoted '\x22' s.toList)

def quotedLetter (c : Char) : String := String.ofList (quoted '\x27' [c])

end RasterFallback.Text
