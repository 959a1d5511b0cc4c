import RasterFallback.Css.Name
import RasterFallback.Css.Token
import RasterFallback.Text.Digits

/-!
Numbers: an optional sign, digits, a fraction and a power of ten. The value is
summed up digit by digit in binary floating point.
-/
namespace RasterFallback.Css
open RasterFallback.Text

/-- The digits at the front. -/
def digits (s : List Char) : List Char × List Char :=
  (s.takeWhile Char.isDigit, s.dropWhile Char.isDigit)

/-- The digits behind a point, if a digit stands there. -/
def fraction? : List Char → Option (List Char × List Char)
  | '.' :: s => if startsDigit s then some (digits s) else none
  | _ => none

/-- A power of ten: whether it divides, its digits, and the text behind it. -/
def exponent? : List Char → Option (Bool × List Char × List Char)
  | c :: s =>
    if c == 'e' || c == 'E' then
      match s with
      | '+' :: t => if startsDigit t then some (false, digits t) else none
      | '-' :: t => if startsDigit t then some (true, digits t) else none
      | t => if startsDigit t then some (false, digits t) else none
    else none
  | [] => none

/-- The value of whole digits, rounded after every digit. -/
def wholeValue (ds : List Char) : Float :=
  ds.foldl (fun x c => x * 10 + Float.ofNat (digitValue c)) 0

/-- The value of fraction digits, each weighted by a tenth of the weight before it. -/
def fractionValue (ds : List Char) : Float :=
  (ds.foldl (fun (x, weight) c => (x + Float.ofNat (digitValue c) * weight, weight * 0.1))
    ((0 : Float), (0.1 : Float))).1

/-- A power of ten; beyond four hundred it is infinite or zero. -/
def powerOfTen (divides : Bool) (ds : List Char) : Float :=
  Float.ofScientific 1 divides (min (natOfDigits ds) 400)

def held (i : Int) : Int := max (-2147483648) (min 2147483647 i)

/-- The sign at the front: whether there is one, whether it is a minus, and the rest. -/
def sign : List Char → Bool × Bool × List Char
  | '+' :: s => (true, false, s)
  | '-' :: s => (true, true, s)
  | s => (false, false, s)

def numeral (s : List Char) : Numeral × List Char :=
  let (signed, negative, s) := sign s
  let (whole, s) := digits s
  let (tenths, s, pointed) := match fraction? s with
    | some (ds, rest) => (ds, rest, true)
    | none => ([], s, false)
  let plain := (if negative then -1 else 1) * (wholeValue whole + fractionValue tenths)
  match exponent? s with
  | some (divides, ds, rest) => (⟨signed, plain * powerOfTen divides ds, none⟩, rest)
  | none =>
    let n : Int := natOfDigits whole
    (⟨signed, plain, if pointed then none else some (held (if negative then -n else n))⟩, s)

/-- A number begins here. -/
def startsNumber : List Char → Bool
  | '+' :: s => startsDigit s || (fraction? s).isSome
  | '-' :: s => startsDigit s || (fraction? s).isSome
  | s => startsDigit s || (fraction? s).isSome

/-- A number with the percent sign or the unit behind it. -/
def numericToken (s : List Char) : Token × List Char :=
  let (n, rest) := numeral s
  match rest with
  | '%' :: rest => (.percentage n, rest)
  | rest =>
    if startsName rest then
      (.dimension n (String.ofList (name rest).1), (name rest).2)
    else (.number n, rest)

theorem digits_suffix (s : List Char) : (digits s).2 <:+ s := List.dropWhile_suffix _

theorem sign_suffix (s : List Char) : (sign s).2.2 <:+ s := by
  unfold sign
  split
  · exact List.suffix_cons ..
  · exact List.suffix_cons ..
  · exact List.suffix_rfl

theorem fraction_suffix {s ds rest : List Char} (h : fraction? s = some (ds, rest)) :
    rest <:+ s := by
  unfold fraction? at h
  split at h
  · split at h
    · obtain rfl : rest = _ := by simpa [digits] using (congrArg (·.map Prod.snd) h).symm
      exact (List.dropWhile_suffix _).trans (List.suffix_cons ..)
    · simp at h
  · simp at h

theorem exponent_suffix {s ds rest : List Char} {d : Bool}
    (h : exponent? s = some (d, ds, rest)) : rest <:+ s := by
  have drop (t : List Char) : t.dropWhile Char.isDigit <:+ t := List.dropWhile_suffix _
  unfold exponent? at h
  split at h
  · split at h
    · split at h <;> split at h <;> simp only [Option.some.injEq, Prod.mk.injEq, digits,
        reduceCtorEq] at h
      all_goals obtain ⟨_, _, rfl⟩ := h
      · exact ((drop _).trans (List.suffix_cons ..)).trans (List.suffix_cons ..)
      · exact ((drop _).trans (List.suffix_cons ..)).trans (List.suffix_cons ..)
      · exact (drop _).trans (List.suffix_cons ..)
    · simp at h
  · simp at h

theorem numeral_suffix (s : List Char) : (numeral s).2 <:+ s := by
  have base : (digits (sign s).2.2).2 <:+ s := (digits_suffix _).trans (sign_suffix s)
  unfold numeral
  simp only
  cases hf : fraction? (digits (sign s).2.2).2 with
  | none =>
    simp only
    cases he : exponent? (digits (sign s).2.2).2 with
    | none => exact base
    | some e => exact (exponent_suffix he).trans base
  | some f =>
    have hf' := (fraction_suffix hf).trans base
    simp only
    cases he : exponent? f.2 with
    | none => exact hf'
    | some e => exact (exponent_suffix he).trans hf'

theorem dropWhile_cons_suffix {p : Char → Bool} {c : Char} (s : List Char) (h : p c = true) :
    (c :: s).dropWhile p <:+ s := by
  rw [List.dropWhile_cons_of_pos h]
  exact List.dropWhile_suffix _

/-- A number that begins at `c` takes at least `c`. -/
theorem numeral_tail {c : Char} {s : List Char} (h : startsNumber (c :: s) = true) :
    (numeral (c :: s)).2 <:+ s := by
  have key : ((digits (sign (c :: s)).2.2).2 <:+ s) ∨
      ∃ f, fraction? (digits (sign (c :: s)).2.2).2 = some f ∧ f.2 <:+ s := by
    unfold startsNumber at h
    split at h
    · rename_i t e
      injection e with e1 e2
      subst e1; subst e2
      exact .inl (digits_suffix _)
    · rename_i t e
      injection e with e1 e2
      subst e1; subst e2
      exact .inl (digits_suffix _)
    · rename_i t h1 h2
      have hs : sign (c :: s) = (false, false, c :: s) := by
        unfold sign
        split
        · rename_i u e; exact absurd e (h1 u)
        · rename_i u e; exact absurd e (h2 u)
        · rfl
      rw [hs]
      by_cases hd : c.isDigit = true
      · exact .inl (dropWhile_cons_suffix s hd)
      · right
        have hdrop : (digits (c :: s)).2 = c :: s := by
          simp [digits, hd]
        simp only [startsDigit, hd, Bool.false_or] at h
        simp only [hdrop]
        obtain ⟨f, hf⟩ := Option.isSome_iff_exists.mp h
        refine ⟨f, hf, ?_⟩
        unfold fraction? at hf
        split at hf
        · rename_i u e
          injection e with e1 e2
          subst e1; subst e2
          split at hf
          · obtain rfl := Option.some.inj hf
            exact digits_suffix s
          · simp at hf
        · simp at hf
  unfold numeral
  simp only
  rcases key with h | ⟨f, hf, hs⟩
  · cases hf : fraction? (digits (sign (c :: s)).2.2).2 with
    | none =>
      simp only
      cases he : exponent? (digits (sign (c :: s)).2.2).2 with
      | none => exact h
      | some e => exact (exponent_suffix he).trans h
    | some f =>
      have hf' := (fraction_suffix hf).trans h
      simp only
      cases he : exponent? f.2 with
      | none => exact hf'
      | some e => exact (exponent_suffix he).trans hf'
  · rw [hf]
    simp only
    cases he : exponent? f.2 with
    | none => exact hs
    | some e => exact (exponent_suffix he).trans hs

theorem numericToken_tail {c : Char} {s : List Char} (h : startsNumber (c :: s) = true) :
    (numericToken (c :: s)).2 <:+ s := by
  have h := numeral_tail h
  unfold numericToken
  generalize numeral (c :: s) = p at h
  obtain ⟨n, rest⟩ := p
  simp only at h ⊢
  split
  · exact (List.suffix_cons ..).trans h
  · split
    · exact (name_suffix _).trans h
    · exact h

end RasterFallback.Css
