import RasterFallback.Css.Lexer
import RasterFallback.Proofs.Css.Break

/-!
Separators: breaks, blanks and exclamation marks. In front of a separator names and
numbers end as they would at the end of the text, and a token that is read up to there
is read up to there whichever separator follows.
-/
namespace RasterFallback.Css
open RasterFallback.Text

/-- A character that belongs to no token but strings, comments, urls and escapes. -/
def isBreak (x : Char) : Bool :=
  x == ';' || x == ',' || x == ':' || x == '\x7b' || x == '\x7d'

/-- A character that no token but a string, a comment or a url goes on with. -/
def isSeparator (x : Char) : Bool := isBreak x || isAsciiBlank x || x == '!'

/-- Nothing follows, or a separator that does not go on with `<`. -/
def Separates (z : List Char) : Prop := (∀ x ∈ z.head?, isSeparator x) ∧ ¬['!', '-', '-'] <+: z

section Break

variable {x : Char}

theorem isBreak_cases (hx : isBreak x) : x = ';' ∨ x = ',' ∨ x = ':' ∨ x = '\x7b' ∨ x = '\x7d' := by
  simpa [isBreak, or_assoc] using hx

theorem endsEscape_of_isBreak (hx : isBreak x) : EndsEscape x := by
  rcases isBreak_cases hx with rfl | rfl | rfl | rfl | rfl <;> exact ⟨by decide, by decide⟩

theorem ne_of_isBreak {c : Char} (hx : isBreak x) (hc : isBreak c = false) : x ≠ c := by
  rintro rfl
  simp [hx] at hc

theorem prefix_of_break (hx : isBreak x) {p a w : List Char} (hp : p.all (!isBreak ·) = true)
    (h : p <+: a ++ x :: w) : p <+: a := by
  rcases List.prefix_or_prefix_of_prefix h (List.prefix_append a (x :: w)) with h' | ⟨q, rfl⟩
  · exact h'
  · cases q with
    | nil => simp
    | cons d q =>
      obtain ⟨rfl, -⟩ := List.cons_prefix_cons.1 ((List.prefix_append_right_inj a).1 h)
      simp [hx] at hp

theorem escape_break (hx : isBreak x) (w : List Char) : escape (x :: w) = (x, w) := by
  have hnull : x ≠ '\x00' := ne_of_isBreak hx rfl
  simp [escape, (endsEscape_of_isBreak hx).1, unnull, hnull]

theorem startsNewline_append (hx : isBreak x) (a w : List Char) :
    startsNewline (a ++ x :: w) = startsNewline a := by
  cases a with
  | nil => exact (endsEscape_of_isBreak hx).not_newline
  | cons c a => rfl

theorem isSeparator_of_isBreak (hx : isBreak x) : isSeparator x := by simp [isSeparator, hx]

theorem isSeparator_cases (hx : isSeparator x) : isBreak x ∨ isAsciiBlank x ∨ x = '!' := by
  simpa [isSeparator, or_assoc] using hx

theorem isAsciiBlank_cases (hx : isAsciiBlank x) :
    x = ' ' ∨ x = '\t' ∨ x = '\n' ∨ x = '\r' ∨ x = '\x0c' := by
  simpa [isAsciiBlank, isNewline, or_assoc] using hx

theorem ne_of_isSeparator {c : Char} (hx : isSeparator x) (hc : isSeparator c = false) : x ≠ c := by
  rintro rfl
  simp [hx] at hc

theorem not_nameChar_of_isSeparator (hx : isSeparator x) : isNameChar x = false := by
  rcases isSeparator_cases hx with hx | hx | rfl
  · rcases isBreak_cases hx with rfl | rfl | rfl | rfl | rfl <;> decide
  · rcases isAsciiBlank_cases hx with rfl | rfl | rfl | rfl | rfl <;> decide
  · decide

theorem not_nameChar_of_isBreak (hx : isBreak x) : isNameChar x = false :=
  not_nameChar_of_isSeparator (isSeparator_of_isBreak hx)

theorem not_digit_of_isSeparator (hx : isSeparator x) : x.isDigit = false := by
  have hname := not_nameChar_of_isSeparator hx
  simp only [isNameChar, Bool.or_eq_false_iff] at hname
  exact hname.1.2

theorem not_nameStart_of_isSeparator (hx : isSeparator x) : isNameStart x = false := by
  have hname := not_nameChar_of_isSeparator hx
  simp only [isNameChar, Bool.or_eq_false_iff] at hname
  exact hname.1.1

theorem separates_nil : Separates [] := ⟨nofun, by decide⟩

theorem separates_cons (hx : isSeparator x) (hbang : x ≠ '!') (w : List Char) :
    Separates (x :: w) := by
  refine ⟨fun y hy => ?_, fun h => hbang (List.cons_prefix_cons.1 h).1.symm⟩
  obtain rfl := Option.some.inj hy
  exact hx

theorem separates_of_isBreak (hx : isBreak x) (w : List Char) : Separates (x :: w) :=
  separates_cons (isSeparator_of_isBreak hx) (ne_of_isBreak hx rfl) w

end Break

theorem exponent?_plain {c : Char} {t : List Char} (hc : (c == 'e' || c == 'E') = true)
    (hp : t.head? ≠ some '+') (hm : t.head? ≠ some '-') :
    exponent? (c :: t) = if startsDigit t then some (false, digits t) else none := by
  simp only [exponent?, hc, ↓reduceIte]
  split
  · simp at hp
  · simp at hm
  · rfl

namespace Separates

variable {z : List Char} (hz : Separates z)
include hz

theorem ne_cons {c : Char} (hc : isSeparator c = false) (t : List Char) : z ≠ c :: t := by
  rintro rfl
  simp [hz.1 c rfl] at hc

theorem prefix_of_append {p a : List Char} (hp : p.all (!isSeparator ·) = true)
    (h : p <+: a ++ z) : p <+: a := by
  rcases List.prefix_or_prefix_of_prefix h (List.prefix_append a z) with h' | ⟨q, rfl⟩
  · exact h'
  · cases q with
    | nil => simp
    | cons d q =>
      obtain ⟨w, hw⟩ := (List.prefix_append_right_inj a).1 h
      have hd : isSeparator d := hz.1 d (by rw [← hw]; rfl)
      simp [hd] at hp

theorem startsDigit_append (a : List Char) : startsDigit (a ++ z) = startsDigit a := by
  cases a with
  | cons c a => rfl
  | nil =>
    cases z with
    | nil => rfl
    | cons x w => exact not_digit_of_isSeparator (hz.1 x rfl)

/-- A backslash at the end of `a` would begin a name if no line break followed. -/
theorem startsName_append {a : List Char} (h : startsNewline z = false ∨ '\\' ∉ a) :
    startsName (a ++ z) = startsName a := by
  have hstart (c : Char) (hc : c ∈ z.head?) :
      isNameStart c = false ∧ c ≠ '-' ∧ c ≠ '\\' :=
    ⟨not_nameStart_of_isSeparator (hz.1 c hc), ne_of_isSeparator (hz.1 c hc) rfl,
      ne_of_isSeparator (hz.1 c hc) rfl⟩
  cases a with
  | nil =>
    cases z with
    | nil => rfl
    | cons x w => simp [startsName, hstart x rfl]
  | cons c a =>
    by_cases hc : c = '-'
    · subst hc
      cases a with
      | cons d a => rfl
      | nil =>
        cases z with
        | nil => rfl
        | cons x w => simp [startsName, hstart x rfl]
    · by_cases hc' : c = '\\'
      · subst hc'
        have hline := h.resolve_right (by simp)
        cases a with
        | cons d a => rfl
        | nil =>
          show (!startsNewline z) = !startsNewline []
          rw [hline]
          rfl
      · simp [startsName, hc]

theorem digits_append (a : List Char) : digits (a ++ z) = ((digits a).1, (digits a).2 ++ z) := by
  have hdigit : ∀ x ∈ z.head?, x.isDigit = false := fun x hx => not_digit_of_isSeparator (hz.1 x hx)
  simp only [digits, takeWhile_append_of_head hdigit, dropWhile_append_of_head hdigit]

theorem fraction?_append (a : List Char) :
    fraction? (a ++ z) = (fraction? a).map fun f => (f.1, f.2 ++ z) := by
  cases a with
  | nil =>
    cases z with
    | nil => rfl
    | cons x w =>
      have hpoint : x ≠ '.' := ne_of_isSeparator (hz.1 x rfl) rfl
      simp [fraction?, hpoint]
  | cons c a =>
    by_cases hc : c = '.'
    · subst hc
      by_cases hd : startsDigit a = true <;>
        simp [fraction?, hz.startsDigit_append, hz.digits_append, hd]
    · simp [fraction?, hc]

theorem head?_append {c : Char} (hc : isSeparator c = false) {a : List Char}
    (ha : a.head? ≠ some c) : (a ++ z).head? ≠ some c := by
  cases a with
  | cons d a => exact ha
  | nil =>
    intro h
    simp [hz.1 c h] at hc

theorem exponent?_append (a : List Char) :
    exponent? (a ++ z) = (exponent? a).map fun e => (e.1, e.2.1, e.2.2 ++ z) := by
  have hdigit (d : Bool) (s : List Char) :
      (if startsDigit (s ++ z) then some (d, digits (s ++ z)) else none) =
        (if startsDigit s then some (d, digits s) else none).map
          fun e => (e.1, e.2.1, e.2.2 ++ z) := by
    rw [hz.startsDigit_append, hz.digits_append]
    split <;> rfl
  cases a with
  | nil =>
    cases z with
    | nil => rfl
    | cons x w =>
      have hsmall : x ≠ 'e' := ne_of_isSeparator (hz.1 x rfl) rfl
      have hlarge : x ≠ 'E' := ne_of_isSeparator (hz.1 x rfl) rfl
      simp [exponent?, hsmall, hlarge]
  | cons c a =>
    by_cases hc : (c == 'e' || c == 'E') = true
    · by_cases hp : a.head? = some '+'
      · obtain ⟨a, rfl⟩ := List.head?_eq_some_iff.1 hp
        simpa [exponent?, hc] using hdigit false a
      · by_cases hm : a.head? = some '-'
        · obtain ⟨a, rfl⟩ := List.head?_eq_some_iff.1 hm
          simpa [exponent?, hc] using hdigit true a
        · rw [exponent?_plain hc hp hm, List.cons_append,
            exponent?_plain hc (hz.head?_append rfl hp) (hz.head?_append rfl hm), hdigit]
    · simp [exponent?, hc]

theorem sign_append (a : List Char) :
    sign (a ++ z) = ((sign a).1, (sign a).2.1, (sign a).2.2 ++ z) := by
  cases a with
  | nil =>
    cases z with
    | nil => rfl
    | cons x w =>
      have hplus : x ≠ '+' := ne_of_isSeparator (hz.1 x rfl) rfl
      have hminus : x ≠ '-' := ne_of_isSeparator (hz.1 x rfl) rfl
      simp [sign, hplus, hminus]
  | cons c a =>
    by_cases hp : c = '+'
    · subst hp
      rfl
    · by_cases hm : c = '-'
      · subst hm
        rfl
      · simp [sign, hp, hm]

theorem startsNumber_append (a : List Char) : startsNumber (a ++ z) = startsNumber a := by
  have hfront (s : List Char) : (startsDigit (s ++ z) || (fraction? (s ++ z)).isSome) =
      (startsDigit s || (fraction? s).isSome) := by
    rw [hz.startsDigit_append, hz.fraction?_append, Option.isSome_map]
  cases a with
  | nil =>
    cases z with
    | nil => rfl
    | cons x w =>
      have hplus : x ≠ '+' := ne_of_isSeparator (hz.1 x rfl) rfl
      have hminus : x ≠ '-' := ne_of_isSeparator (hz.1 x rfl) rfl
      simpa [startsNumber, hplus, hminus] using hfront []
  | cons c a =>
    by_cases hp : c = '+'
    · subst hp
      exact hfront a
    · by_cases hm : c = '-'
      · subst hm
        exact hfront a
      · simpa [startsNumber, hp, hm] using hfront (c :: a)

theorem numeral_append (a : List Char) : numeral (a ++ z) = ((numeral a).1, (numeral a).2 ++ z) := by
  simp only [numeral, hz.sign_append, hz.digits_append, hz.fraction?_append]
  cases fraction? (digits (sign a).2.2).2 with
  | none =>
    simp only [Option.map_none, hz.exponent?_append]
    cases exponent? (digits (sign a).2.2).2 <;> rfl
  | some f =>
    simp only [Option.map_some, hz.exponent?_append]
    cases exponent? f.2 <;> rfl

/-- Behind the digits comes a percent sign, the name of a unit, or nothing more of the token. -/
theorem numericToken_append {a : List Char} (h : startsNewline z = false ∨ '\\' ∉ a) :
    numericToken (a ++ z) =
      if (numeral a).2.head? = some '%' then (.percentage (numeral a).1, (numeral a).2.tail ++ z)
      else if startsName (numeral a).2 then
        (.dimension (numeral a).1 (String.ofList (name ((numeral a).2 ++ z)).1),
          (name ((numeral a).2 ++ z)).2)
      else (.number (numeral a).1, (numeral a).2 ++ z) := by
  simp only [numericToken, hz.numeral_append]
  by_cases hp : (numeral a).2.head? = some '%'
  · obtain ⟨m, hm⟩ := List.head?_eq_some_iff.1 hp
    simp [hm]
  · rw [if_neg hp]
    split
    · rename_i rest heq
      have hhead := hz.head?_append (c := '%') rfl hp
      rw [heq] at hhead
      exact absurd rfl hhead
    · rw [hz.startsName_append (h.imp_right fun ha hmem => ha ((numeral_suffix a).subset hmem))]

end Separates

theorem startsName_append {x : Char} (hx : isBreak x) (a w : List Char) :
    startsName (a ++ x :: w) = startsName a :=
  (separates_of_isBreak hx w).startsName_append (.inl (endsEscape_of_isBreak hx).not_newline)

end RasterFallback.Css
