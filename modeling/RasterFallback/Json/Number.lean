import RasterFallback.Decimal.Layout
import RasterFallback.Json.Fault
import RasterFallback.Text.Digits

/-!
Numbers of a JSON text. Whole numbers of 64 bits are kept as such; all others
are read into binary floating point, from as many digits as 64 bits hold.
-/
namespace RasterFallback.Json
open RasterFallback.Text RasterFallback.Decimal

inductive Number where
  | whole (n : Int)
  | real (x : Float)

/-- From a hundred-thousandth up to sixteen digits before the point positionally. Powers
of ten carry their sign. -/
def numberLayout : Layout :=
  { positional := fun e => -5 ≤ e && e < 16, tie := .toEven, plus := true }

def Number.text : Number → String
  | .whole n => "integer `" ++ toString n ++ "`"
  | .real x =>
    "floating point `" ++ numberLayout.text (binary64.value x.toBits.toNat) ++ "`"

/-- Digits kept in a whole number of 64 bits, and how many digits were left out. -/
structure Significand where
  value : Nat
  omitted : Nat := 0

/-- Takes one more digit, unless one was left out before or the number gets too large. -/
def Significand.push (m : Significand) (c : Char) : Significand :=
  let value := m.value * 10 + digitValue c
  if m.omitted = 0 ∧ value < Nat.pow 2 64 then ⟨value, 0⟩ else ⟨m.value, m.omitted + 1⟩

def startsDigit : List Char → Bool
  | [] => false
  | c :: _ => c.isDigit

/-- The power of ten, exactly rounded. -/
def power (n : Nat) : Float := Float.ofScientific 1 false n

/-- A number out of its parts. `rest` is the text behind it. -/
def ofParts (negative : Bool) (m : Nat) (e : Int) (rest : List Char) : Except Error Float :=
  let x := Float.ofNat m
  let signed (y : Float) : Float := if negative then -y else y
  if 0 ≤ e then
    if e ≤ 308 then
      let y := x * power e.toNat
      if y.isInf then .error (Fault.numberOutOfRange.here rest) else .ok (signed y)
    else if m = 0 then .ok (signed x)
    else .error (Fault.numberOutOfRange.here rest)
  else
    let n := (-e).toNat
    if n ≤ 308 then .ok (signed (x / power n))
    else if n ≤ 616 then .ok (signed (x / power 308 / power (n - 308)))
    else .ok (signed 0)

/-- The number up to which exponents are kept. -/
def exponentLimit : Nat := Nat.pow 2 31

/-- The digits of an exponent. Where they get too large the number is zero, or out of range. -/
def exponentDigits (negative : Bool) (m : Nat) (e : Int) (divides : Bool) (value : Nat) :
    List Char → Except Error (Float × List Char)
  | c :: s =>
    if c.isDigit then
      let next := value * 10 + digitValue c
      if next < exponentLimit then exponentDigits negative m e divides next s
      else if m ≠ 0 ∧ !divides then .error (Fault.numberOutOfRange.here s)
      else .ok (if negative then -0.0 else 0.0, s.dropWhile Char.isDigit)
    else do .ok (← ofParts negative m (if divides then e - value else e + value) (c :: s), c :: s)
  | [] => do .ok (← ofParts negative m (if divides then e - value else e + value) [], [])

def readExponent (negative : Bool) (m : Nat) (e : Int) (s : List Char) :
    Except Error (Float × List Char) :=
  let (divides, digits) := match s with
    | '+' :: t => (false, t)
    | '-' :: t => (true, t)
    | t => (false, t)
  match digits with
  | [] => .error (Fault.endOfValue.here [])
  | c :: t =>
    if c.isDigit then exponentDigits negative m e divides (digitValue c) t
    else .error ⟨.badNumber, c :: t, 1⟩

/-- The fraction behind its point. `shift` digits of the whole part were left out. -/
def readFraction (negative : Bool) (m shift : Nat) (s : List Char) :
    Except Error (Float × List Char) :=
  let digits := s.takeWhile Char.isDigit
  let rest := s.dropWhile Char.isDigit
  if digits.isEmpty then
    .error (if rest.isEmpty then Fault.endOfValue.next rest else Fault.badNumber.next rest)
  else
    let all := digits.foldl Significand.push ⟨m, 0⟩
    let e : Int := shift - (digits.length - all.omitted)
    match rest with
    | 'e' :: t => readExponent negative all.value e t
    | 'E' :: t => readExponent negative all.value e t
    | _ => do .ok (← ofParts negative all.value e rest, rest)

/-- What follows the digits of the whole part. -/
def readTail (negative : Bool) (m : Significand) (s : List Char) :
    Except Error (Number × List Char) :=
  let real (r : Except Error (Float × List Char)) : Except Error (Number × List Char) := do
    let (x, rest) ← r
    .ok (.real x, rest)
  match s with
  | '.' :: t => real (readFraction negative m.value m.omitted t)
  | 'e' :: t => real (readExponent negative m.value m.omitted t)
  | 'E' :: t => real (readExponent negative m.value m.omitted t)
  | _ =>
    if m.omitted ≠ 0 ∨ (negative ∧ (m.value = 0 ∨ Nat.pow 2 63 < m.value)) then
      real do .ok (← ofParts negative m.value m.omitted s, s)
    else .ok (.whole (if negative then -m.value else m.value), s)

/-- A number behind its minus sign, if it has one. Zero is the only number that starts with zero. -/
def readNumber (negative : Bool) : List Char → Except Error (Number × List Char)
  | [] => .error (Fault.endOfValue.here [])
  | c :: s =>
    if c = '0' then
      if startsDigit s then .error (Fault.badNumber.next s) else readTail negative ⟨0, 0⟩ s
    else if c.isDigit then
      readTail negative ((s.takeWhile Char.isDigit).foldl Significand.push ⟨digitValue c, 0⟩)
        (s.dropWhile Char.isDigit)
    else .error ⟨.badNumber, c :: s, 1⟩

/-- Passes over the digits of an exponent, which must be there. -/
def skipExponent (s : List Char) : Except Error (List Char) :=
  let digits := match s with
    | '+' :: t => t
    | '-' :: t => t
    | t => t
  match digits with
  | [] => .error (Fault.badNumber.here [])
  | c :: t => if c.isDigit then .ok (t.dropWhile Char.isDigit) else .error ⟨.badNumber, c :: t, 1⟩

/-- Passes over what follows the whole part of a number. -/
def skipTail : List Char → Except Error (List Char)
  | '.' :: t =>
    if startsDigit t then
      match t.dropWhile Char.isDigit with
      | 'e' :: u => skipExponent u
      | 'E' :: u => skipExponent u
      | u => .ok u
    else .error (Fault.badNumber.next t)
  | 'e' :: t => skipExponent t
  | 'E' :: t => skipExponent t
  | t => .ok t

/-- Passes over a number behind its minus sign. Its size does not matter. -/
def skipNumber : List Char → Except Error (List Char)
  | [] => .error (Fault.badNumber.here [])
  | c :: s =>
    if c = '0' then
      if startsDigit s then .error (Fault.badNumber.next s) else skipTail s
    else if c.isDigit then skipTail (s.dropWhile Char.isDigit)
    else .error ⟨.badNumber, c :: s, 1⟩

end RasterFallback.Json
