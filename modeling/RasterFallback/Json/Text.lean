import RasterFallback.Json.Fault
import RasterFallback.Text.Percent

/-!
Strings and words of a JSON text. Each function reads from the front and
returns the text that is left.
-/
namespace RasterFallback.Json
open RasterFallback.Text

/-- Blanks between values. -/
def isBlank (c : Char) : Bool := c == ' ' || c == '\n' || c == '\t' || c == '\r'

def skipBlanks (s : List Char) : List Char := s.dropWhile isBlank

/-- The rest of a word whose first letter was read. -/
def expectWord : List Char → List Char → Except Error (List Char)
  | [], s => .ok s
  | _ :: _, [] => .error (Fault.endOfValue.here [])
  | c :: word, d :: s => if c = d then expectWord word s else .error ⟨.wrongWord, d :: s, 1⟩

def hexFour (s : List Char) : Except Error (Nat × List Char) :=
  if byteCount (s.take 4) < 4 then .error (Fault.endOfString.here [])
  else
    match s with
    | a :: b :: c :: d :: rest =>
      match hexValue? a, hexValue? b, hexValue? c, hexValue? d with
      | some a, some b, some c, some d => .ok (((a * 16 + b) * 16 + c) * 16 + d, rest)
      | _, _, _, _ => .error ⟨.badEscape, s, 4⟩
    | _ => .error ⟨.badEscape, s, 4⟩

/-- The letters that stand for a character behind a backslash. -/
def letterEscape? : Char → Option Char
  | '\x22' => some '\x22'
  | '\\' => some '\\'
  | '/' => some '/'
  | 'b' => some '\x08'
  | 'f' => some '\x0c'
  | 'n' => some '\n'
  | 'r' => some '\r'
  | 't' => some '\t'
  | _ => none

/-- Half of a pair that stands for a character beyond sixteen bits: the first. -/
def isFirstSurrogate (n : Nat) : Bool := 0xD800 ≤ n && n ≤ 0xDBFF

def isSecondSurrogate (n : Nat) : Bool := 0xDC00 ≤ n && n ≤ 0xDFFF

/-- The second half of a pair whose first half is `first`. -/
def secondSurrogate (first : Nat) : List Char → Except Error (Char × List Char)
  | [] => .error (Fault.endOfString.here [])
  | '\\' :: [] => .error (Fault.endOfString.here [])
  | '\\' :: 'u' :: s => do
    let (second, rest) ← hexFour s
    if isSecondSurrogate second then
      .ok (Char.ofNat (0x10000 + (first - 0xD800) * 0x400 + (second - 0xDC00)), rest)
    else .error (Fault.unpairedSurrogate.here rest)
  | '\\' :: s => .error ⟨.surrogateWithoutSecond, s, 1⟩
  | s => .error ⟨.surrogateWithoutSecond, s, 1⟩

def readEscape : List Char → Except Error (Char × List Char)
  | [] => .error (Fault.endOfString.here [])
  | 'u' :: s => do
    let (n, rest) ← hexFour s
    if isSecondSurrogate n then .error (Fault.unpairedSurrogate.here rest)
    else if isFirstSurrogate n then secondSurrogate n rest
    else .ok (Char.ofNat n, rest)
  | c :: s =>
    match letterEscape? c with
    | some d => .ok (d, s)
    | none => .error ⟨.badEscape, c :: s, 1⟩

/-- Passes over what stands behind a backslash. Halves of pairs may stand alone. -/
def skipEscape : List Char → Except Error (List Char)
  | [] => .error (Fault.endOfString.here [])
  | 'u' :: s => do .ok (← hexFour s).2
  | c :: s => if (letterEscape? c).isSome then .ok s else .error ⟨.badEscape, c :: s, 1⟩

theorem hexFour_length {s rest : List Char} {n : Nat} (h : hexFour s = .ok (n, rest)) :
    rest.length < s.length := by
  unfold hexFour at h
  split at h
  · cases h
  · split at h
    · split at h
      · cases h; simp; omega
      · cases h
    · cases h

theorem secondSurrogate_length {n : Nat} {s rest : List Char} {c : Char}
    (h : secondSurrogate n s = .ok (c, rest)) : rest.length < s.length := by
  unfold secondSurrogate at h
  split at h
  · cases h
  · cases h
  · rename_i s
    cases hf : hexFour s with
    | error e => rw [hf] at h; cases h
    | ok p =>
      rw [hf] at h
      have := hexFour_length hf
      simp only [bind, Except.bind] at h
      split at h
      · injection h with h
        injection h with _ h
        subst h
        simp
        omega
      · cases h
  · cases h
  · cases h

theorem readEscape_length {s rest : List Char} {c : Char} (h : readEscape s = .ok (c, rest)) :
    rest.length < s.length := by
  unfold readEscape at h
  split at h
  · cases h
  · rename_i s
    cases hf : hexFour s with
    | error e => rw [hf] at h; cases h
    | ok p =>
      rw [hf] at h
      have := hexFour_length hf
      simp only [bind, Except.bind] at h
      split at h
      · cases h
      · split at h
        · have := secondSurrogate_length h; simp; omega
        · cases h; simp; omega
  · split at h
    · cases h; simp
    · cases h

theorem skipEscape_length {s rest : List Char} (h : skipEscape s = .ok rest) :
    rest.length < s.length := by
  unfold skipEscape at h
  split at h
  · cases h
  · rename_i s
    cases hf : hexFour s with
    | error e => rw [hf] at h; cases h
    | ok p =>
      rw [hf] at h
      have := hexFour_length hf
      cases h
      simp
      omega
  · split at h
    · cases h; simp
    · cases h

/-- The content of a string whose opening quote mark was read, and what follows
its closing one. -/
def readString (s : List Char) : Except Error (List Char × List Char) :=
  match s with
  | [] => .error (Fault.endOfString.here [])
  | '\x22' :: s => .ok ([], s)
  | '\\' :: s =>
    match _h : readEscape s with
    | .error e => .error e
    | .ok (c, rest) => do
      let (content, rest) ← readString rest
      .ok (c :: content, rest)
  | c :: s =>
    if c.toNat < 0x20 then .error (Fault.controlCharacter.here s)
    else do
      let (content, rest) ← readString s
      .ok (c :: content, rest)
  termination_by s.length
  decreasing_by
    · have := readEscape_length _h; simp; omega
    · simp

/-- What follows a string whose opening quote mark was read. -/
def skipString (s : List Char) : Except Error (List Char) :=
  match s with
  | [] => .error (Fault.endOfString.here [])
  | '\x22' :: s => .ok s
  | '\\' :: s =>
    match _h : skipEscape s with
    | .error e => .error e
    | .ok rest => skipString rest
  | c :: s =>
    if c.toNat < 0x20 then .error (Fault.controlCharacter.here (c :: s)) else skipString s
  termination_by s.length
  decreasing_by
    · have := skipEscape_length _h; simp; omega
    · simp

end RasterFallback.Json
