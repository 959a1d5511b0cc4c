import RasterFallback.Text.Utf8

/-!
Backslash escapes in what programs are asked to print.
-/
namespace RasterFallback.Command
open RasterFallback.Text

/-- Where a code in octal digits may stand: behind the backslash, or behind a
zero that follows it. -/
inductive OctalForm where
  | bare
  | behindZero
  deriving DecidableEq, Repr

def isOctal (c : Char) : Bool := '0' ≤ c && c ≤ '7'

def escapedByte? : Char → Option UInt8
  | 'a' => some 7
  | 'b' => some 8
  | 't' => some 9
  | 'n' => some 10
  | 'v' => some 11
  | 'f' => some 12
  | 'r' => some 13
  | '\\' => some 92
  | _ => none

/-- Up to three octal digits at the front. -/
def octalDigits (s : List Char) : List Char := (s.takeWhile isOctal).take 3

def octalByte (ds : List Char) : UInt8 :=
  UInt8.ofNat (ds.foldl (fun n c => n * 8 + (c.toNat - '0'.toNat)) 0)

/-- Reads what follows a backslash. A backslash in front of anything unknown
stands for itself. -/
def readEscape (form : OctalForm) : List Char → List UInt8 × List Char
  | [] => ([92], [])
  | c :: s =>
    match escapedByte? c with
    | some b => ([b], s)
    | none =>
      match form with
      | .bare =>
        if isOctal c then
          ([octalByte (octalDigits (c :: s))], s.drop ((octalDigits (c :: s)).length - 1))
        else ([92], c :: s)
      | .behindZero =>
        if c = '0' then ([octalByte (octalDigits s)], s.drop (octalDigits s).length)
        else ([92], c :: s)

theorem readEscape_length (form : OctalForm) (s : List Char) :
    (readEscape form s).2.length ≤ s.length := by
  unfold readEscape
  split
  · simp
  · split
    · simp
    · split <;> split <;> simp <;> omega

/-- Resolves the escapes of a text. The second part tells whether `\c` ended it early. -/
def unescape (form : OctalForm) : List Char → List UInt8 × Bool
  | [] => ([], false)
  | '\\' :: 'c' :: _ => ([], true)
  | '\\' :: s =>
    let more := unescape form (readEscape form s).2
    ((readEscape form s).1 ++ more.1, more.2)
  | c :: s =>
    let more := unescape form s
    (utf8Bytes [c] ++ more.1, more.2)
  termination_by s => s.length
  decreasing_by
    · have := readEscape_length form s
      simp
      omega
    · simp

end RasterFallback.Command
