import RasterFallback.Image.Url
import RasterFallback.Text.Base64
import RasterFallback.Text.Blank
import RasterFallback.Text.Search
import RasterFallback.Text.Utf8
import RasterFallback.Text.WordChar

/-!
Where the drawing of a background comes from: a file with the extension
`.svg`, or markup inside a data url. Parameters of a data url stand between
its type and its payload; `base64` among them says how the payload is encoded.
-/
namespace RasterFallback
open RasterFallback.Text

inductive ImageSource where
  /-- A path as written. -/
  | file (path : String)
  /-- Decoded markup. -/
  | inline (markup : String)
  deriving DecidableEq, Repr

namespace ImageSource

def reference : ImageSource → String
  | file path => path
  | inline markup => markup

end ImageSource

def svgEnding : List Char := ['.', 's', 'v', 'g']

/-- A character that no path of a drawing holds. -/
def breaksPath (c : Char) : Bool := c == '\x27' || c == '\x22' || c == ')'

/-- The path in a url that names a drawing: something before the ending, without
quote marks and closing parentheses, blanks around it left out. -/
def filePath? (url : List Char) : Option (List Char) :=
  let path := trim url
  match before? svgEnding path with
  | some (c :: stem) => if (c :: stem).any breaksPath then none else some path
  | _ => none

/-- What comes before the parameters of a data url. -/
def svgDataType : List Char := "data:image/svg+xml".toList

def isParameterChar (c : Char) : Bool := isWordChar c || c == '.' || c == '=' || c == '-'

/-- The longest run of parameters, each behind a semicolon, and what follows it. -/
def parameters (s : List Char) : List (List Char) × List Char :=
  match s with
  | ';' :: r =>
    if (r.takeWhile isParameterChar).isEmpty then ([], s)
    else
      let more := parameters (r.dropWhile isParameterChar)
      (r.takeWhile isParameterChar :: more.1, more.2)
  | _ => ([], s)
  termination_by s.length
  decreasing_by
    have := (List.dropWhile_suffix (l := r) isParameterChar).length_le
    simp
    omega

/-- Parameters and payload of a data url that holds a drawing. A comma or a
semicolon stands before the payload; where neither follows the parameters, the
last of them belongs to the payload. -/
def dataUrl? (url : List Char) : Option (List (List Char) × List Char) := do
  let s ← behind? svgDataType url
  match parameters s with
  | (ps, ',' :: payload) => some (ps, payload)
  | (ps, ';' :: payload) => some (ps, payload)
  | (ps, rest) => do
    let last ← ps.getLast?
    some (ps.dropLast, last ++ rest)

/-- The parameter announces base 64. Case does not matter. -/
def isBase64 (parameter : List Char) : Bool := Css.lowerAscii parameter = "base64".toList

/-- The text that a payload encodes, if its bytes are well-formed UTF-8. -/
def payloadText? (ps : List (List Char)) (payload : List Char) : Option String :=
  if ps.any isBase64 then do ofUtf8? (← Base64.decode? (trim payload))
  else ofUtf8? (percentDecode payload)

/-- The drawing that urls name. The first data url decides, if there is one;
otherwise the first path. -/
def imageOfUrls? (urls : List String) : Option ImageSource :=
  match urls.findSome? fun u => dataUrl? u.toList with
  | some (ps, payload) => (payloadText? ps payload).map .inline
  | none => (urls.findSome? fun u => filePath? u.toList).map fun p => .file (String.ofList p)

/-- The drawing of a background value. -/
def backgroundImage? (value : String) : Option ImageSource := imageOfUrls? (urlArguments value)

end RasterFallback
