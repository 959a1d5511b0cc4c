import RasterFallback.Text.Percent

/-!
Names and escapes. Every function here reads from the front of a text and
returns what it read with the text that is left, which is always an end piece
of what it was given.
-/
namespace RasterFallback.Css
open RasterFallback.Text

def isNewline (c : Char) : Bool := c == '\n' || c == '\r' || c == '\x0c'

def isAsciiBlank (c : Char) : Bool := c == ' ' || c == '\t' || isNewline c

def startsNewline : List Char → Bool
  | [] => false
  | c :: _ => isNewline c

def startsDigit : List Char → Bool
  | [] => false
  | c :: _ => c.isDigit

def isNameStart (c : Char) : Bool := c.isAlpha || c == '_' || c == '\x00' || 0x80 ≤ c.toNat

/-- A character that may stand in a name. -/
def isNameChar (c : Char) : Bool := isNameStart c || c.isDigit || c == '-'

/-- The null character is read as the replacement character. -/
def unnull (c : Char) : Char := if c = '\x00' then replacement else c

/-- A name begins here: at a letter, at a hyphen with a letter, a hyphen or a
backslash behind it, or at a backslash that does not end its line. -/
def startsName : List Char → Bool
  | [] => false
  | '-' :: [] => false
  | '-' :: c :: _ => isNameStart c || c == '-' || c == '\\'
  | '\\' :: s => !startsNewline s
  | c :: _ => isNameStart c

def dropNewline : List Char → List Char
  | '\r' :: '\n' :: s => s
  | s => s.drop 1

/-- Leaves out one blank, if there is one. -/
def dropSpace : List Char → List Char
  | [] => []
  | c :: s => if isNewline c then dropNewline (c :: s) else if isAsciiBlank c then s else c :: s

/-- The character with this code, or the replacement where there is none. -/
def charOfCode (n : Nat) : Char :=
  if n = 0 || !n.isValidChar then replacement else Char.ofNat n

def hexNumber (digits : List Char) : Nat :=
  digits.foldl (fun n c => n * 16 + (hexValue? c).getD 0) 0

/-- The character that stands escaped behind a backslash: up to six hexadecimal
digits and one blank, or any character. -/
def escape : List Char → Char × List Char
  | [] => (replacement, [])
  | c :: s =>
    if (hexValue? c).isSome then
      let digits := ((c :: s).take 6).takeWhile fun d => (hexValue? d).isSome
      (charOfCode (hexNumber digits), dropSpace ((c :: s).drop digits.length))
    else (unnull c, s)

theorem dropNewline_suffix (s : List Char) : dropNewline s <:+ s := by
  unfold dropNewline
  split
  · exact (List.suffix_cons ..).trans (List.suffix_cons ..)
  · exact List.drop_suffix ..

theorem dropSpace_suffix (s : List Char) : dropSpace s <:+ s := by
  unfold dropSpace
  split
  · exact List.suffix_rfl
  · split
    · exact dropNewline_suffix _
    · split
      · exact List.suffix_cons ..
      · exact List.suffix_rfl

theorem escape_suffix (s : List Char) : (escape s).2 <:+ s := by
  unfold escape
  split
  · exact List.suffix_rfl
  · split
    · exact (dropSpace_suffix _).trans (List.drop_suffix ..)
    · exact List.suffix_cons ..

theorem escape_length (s : List Char) : (escape s).2.length ≤ s.length :=
  (escape_suffix s).length_le

/-- The longest name at the front, escapes resolved. -/
def name (s : List Char) : List Char × List Char :=
  match s with
  | [] => ([], [])
  | c :: s =>
    if isNameChar c then
      let n := name s
      (unnull c :: n.1, n.2)
    else if c = '\\' && !startsNewline s then
      let n := name (escape s).2
      ((escape s).1 :: n.1, n.2)
    else ([], c :: s)
  termination_by s.length
  decreasing_by
    · simp
    · have := escape_length s; simp; omega

theorem name_suffix (s : List Char) : (name s).2 <:+ s := by
  fun_induction name s with
  | case1 => exact List.suffix_rfl
  | case2 c s _ n ih => exact ih.trans (List.suffix_cons ..)
  | case3 c s _ _ n ih => exact (ih.trans (escape_suffix s)).trans (List.suffix_cons ..)
  | case4 => exact List.suffix_rfl

end RasterFallback.Css
