import RasterFallback.Text.Percent

/-!
JSON values and how they are written: compactly, members in the order given.
-/
namespace RasterFallback.Json
open RasterFallback.Text

inductive Value where
  | null
  | bool (b : Bool)
  | whole (n : Int)
  | string (s : String)
  | array (items : List Value)
  | object (members : List (String × Value))

/-- A character inside a string. Quote marks, backslashes and controls are escaped. -/
def escaped (c : Char) : List Char :=
  if c = '\x22' then ['\\', '\x22']
  else if c = '\\' then ['\\', '\\']
  else if c = '\x08' then ['\\', 'b']
  else if c = '\x0c' then ['\\', 'f']
  else if c = '\n' then ['\\', 'n']
  else if c = '\r' then ['\\', 'r']
  else if c = '\t' then ['\\', 't']
  else if c.toNat < 0x20 then
    ['\\', 'u', '0', '0', hexDigit (c.toNat / 16), hexDigit (c.toNat % 16)]
  else [c]

def stringText (s : String) : List Char := '\x22' :: s.toList.flatMap escaped ++ ['\x22']

def commaSeparated : List (List Char) → List Char
  | [] => []
  | [t] => t
  | t :: ts => t ++ ',' :: commaSeparated ts

mutual

def Value.text : Value → List Char
  | .null => "null".toList
  | .bool b => if b then "true".toList else "false".toList
  | .whole n => (toString n).toList
  | .string s => stringText s
  | .array items => '[' :: commaSeparated (itemTexts items) ++ [']']
  | .object members => '\x7b' :: commaSeparated (memberTexts members) ++ ['\x7d']

def itemTexts : List Value → List (List Char)
  | [] => []
  | v :: vs => v.text :: itemTexts vs

/-- Names and values with a colon between them. -/
def memberTexts : List (String × Value) → List (List Char)
  | [] => []
  | (name, v) :: ms => (stringText name ++ ':' :: v.text) :: memberTexts ms

end

end RasterFallback.Json
