/-!
UTF-8: the bytes of a text, and two ways back. The strict one refuses
ill-formed bytes, the lenient one shows each maximal ill-formed piece as one
replacement character.
-/
namespace RasterFallback.Text

def utf8Bytes (s : List Char) : List UInt8 := s.flatMap String.utf8EncodeChar

/-- The text with these bytes, if they are well formed. -/
def ofUtf8? (bytes : List UInt8) : Option String :=
  String.fromUTF8? ⟨bytes.toArray⟩

/-- Stands for what cannot be read. -/
def replacement : Char := '\uFFFD'

def isContinuation (b : UInt8) : Bool := 0x80 ≤ b && b < 0xC0

/-- The range that the second byte of a sequence must lie in, by the first byte. -/
def secondByteRange (b : UInt8) : UInt8 × UInt8 :=
  if b == 0xE0 then (0xA0, 0xBF)
  else if b == 0xED then (0x80, 0x9F)
  else if b == 0xF0 then (0x90, 0xBF)
  else if b == 0xF4 then (0x80, 0x8F)
  else (0x80, 0xBF)

/-- How many bytes a sequence has that starts with `b`; zero if none does. -/
def sequenceLength (b : UInt8) : Nat :=
  if b < 0x80 then 1
  else if b < 0xC2 then 0
  else if b < 0xE0 then 2
  else if b < 0xF0 then 3
  else if b < 0xF5 then 4
  else 0

/-- How many of the bytes after the leading byte `b` fit a sequence that it starts. -/
def fittingTail (b : UInt8) (rest : List UInt8) : Nat :=
  match rest with
  | [] => 0
  | c :: more =>
    if (secondByteRange b).1 ≤ c && c ≤ (secondByteRange b).2 then
      1 + ((more.take (sequenceLength b - 2)).takeWhile isContinuation).length
    else 0

/-- The code point spelt by a leading byte and its continuation bytes. -/
def codePoint (b : UInt8) (tail : List UInt8) : Nat :=
  let lead := match tail.length with
    | 0 => b.toNat
    | 1 => b.toNat % 0x20
    | 2 => b.toNat % 0x10
    | _ => b.toNat % 0x08
  tail.foldl (fun n c => n * 0x40 + c.toNat % 0x40) lead

/-- The text of the bytes, each maximal ill-formed piece read as one replacement. -/
def lenient : List UInt8 → List Char
  | [] => []
  | b :: rest =>
    let n := sequenceLength b
    if n ≤ 1 then
      (if n = 1 then Char.ofNat b.toNat else replacement) :: lenient rest
    else
      let k := fittingTail b rest
      (if k + 1 = n then Char.ofNat (codePoint b (rest.take k)) else replacement) ::
        lenient (rest.drop k)
  termination_by bytes => bytes.length

@[simp] theorem utf8Bytes_nil : utf8Bytes [] = [] := rfl

@[simp] theorem utf8Bytes_append (s t : List Char) :
    utf8Bytes (s ++ t) = utf8Bytes s ++ utf8Bytes t := List.flatMap_append

end RasterFallback.Text
