import RasterFallback.Json.Struct
import RasterFallback.Proofs.Json.Grammar

/-!
Values of any kind are passed over. What is behind a value must not belong to it, which matters
for numbers; the length of a value bounds how deep and how long it is.
-/
namespace RasterFallback.Json
open RasterFallback.Text

section Blanks

variable {a s : List Char} {c : Char}

theorem skipBlanks_append (h : AreBlank a) (s : List Char) : skipBlanks (a ++ s) = skipBlanks s :=
  List.dropWhile_append_of_pos h

theorem skipBlanks_cons (hc : isBlank c = false) (s : List Char) : skipBlanks (c :: s) = c :: s :=
  List.dropWhile_cons_of_neg (by simp [hc])

/-- What stands behind blanks. -/
theorem skipBlanks_append_cons (h : AreBlank a) (hc : isBlank c = false) (s : List Char) :
    skipBlanks (a ++ c :: s) = c :: s := by
  rw [skipBlanks_append h, skipBlanks_cons hc]

end Blanks

section Strings

variable {t rest : List Char} {n : Nat} {c : Char}

theorem hexFour_append (h : IsHexFour n t) (rest : List Char) :
    hexFour (t ++ rest) = .ok (n, rest) := by
  obtain @⟨a, b, c, d, k, l, m, n, ha, hb, hc, hd⟩ := h
  have hcount : ¬byteCount [a, b, c, d] < 4 := by
    have := a.utf8Size_pos
    have := b.utf8Size_pos
    have := c.utf8Size_pos
    have := d.utf8Size_pos
    simp only [byteCount]
    omega
  simp [hexFour, hcount, ha, hb, hc, hd]

theorem skipString_quote (s : List Char) : skipString ('\x22' :: s) = .ok s := by
  rw [skipString]

theorem skipString_plain (hcontrol : 0x20 ≤ c.toNat) (hquote : c ≠ '\x22') (hslash : c ≠ '\\')
    (s : List Char) : skipString (c :: s) = skipString s := by
  rw [skipString, if_neg (by omega)]
  · exact hquote
  · exact hslash

theorem skipString_escape {s : List Char} (h : skipEscape s = .ok rest) :
    skipString ('\\' :: s) = skipString rest := by
  rw [skipString]
  split
  · simp_all
  · simp_all

theorem skipString_piece (h : IsPiece t) (s : List Char) : skipString (t ++ s) = skipString s := by
  cases h with
  | plain control quote slash => exact skipString_plain control quote slash s
  | @letter l h =>
    have hl : l ≠ 'u' := by
      rintro rfl
      cases h
    have hskip : skipEscape (l :: s) = .ok s := by
      rw [skipEscape, if_pos h]
      exact hl
    exact skipString_escape hskip
  | @unit n t h =>
    have hskip : skipEscape ('u' :: (t ++ s)) = .ok s := by
      rw [skipEscape, hexFour_append h]
      rfl
    exact skipString_escape hskip

/-- A string is passed over up to its closing quote mark. -/
theorem skipString_append (h : IsString t) (rest : List Char) :
    skipString (t ++ '\x22' :: rest) = .ok rest := by
  induction h with
  | nil => exact skipString_quote rest
  | cons ht _ ih => rw [List.append_assoc, skipString_piece ht, ih]

end Strings

/-- Whether a value ends in front of a text. -/
def EndsValue (rest : List Char) : Prop :=
  ∀ c ∈ rest.head?, isBlank c ∨ c = ',' ∨ c = ']' ∨ c = '\x7d'

section Numbers

variable {t rest : List Char}

theorem ne_of_isDigit {c d : Char} (hc : c.isDigit) (hd : d.isDigit = false) : c ≠ d := by
  rintro rfl
  simp [hc] at hd

theorem not_isBlank_of_isDigit {c : Char} (hc : c.isDigit) : isBlank c = false := by
  have hne (d : Char) (hd : d.isDigit = false) : c ≠ d := ne_of_isDigit hc hd
  simp [isBlank, hne ' ', hne '\n', hne '\t', hne '\r']

theorem dropWhile_digits (ht : ∀ c ∈ t, c.isDigit) (hrest : startsDigit rest = false) :
    (t ++ rest).dropWhile Char.isDigit = rest := by
  rw [List.dropWhile_append_of_pos ht]
  cases rest with
  | nil => rfl
  | cons c rest =>
    rw [startsDigit] at hrest
    exact List.dropWhile_cons_of_neg (by simp [hrest])

theorem endsValue_cons {c : Char} (h : EndsValue (c :: rest)) :
    c.isDigit = false ∧ c ≠ '.' ∧ c ≠ 'e' ∧ c ≠ 'E' := by
  rcases h c rfl with hb | rfl | rfl | rfl
  · simp only [isBlank, Bool.or_eq_true, beq_iff_eq] at hb
    rcases hb with ((rfl | rfl) | rfl) | rfl <;> decide
  all_goals decide

theorem EndsValue.startsDigit (h : EndsValue rest) : startsDigit rest = false := by
  cases rest with
  | nil => rfl
  | cons c rest => exact (endsValue_cons h).1

theorem skipExponent_append {sign : List Char}
    (hsign : sign = [] ∨ sign = ['+'] ∨ sign = ['-']) (ht : AreDigits t) (hrest : EndsValue rest) :
    skipExponent (sign ++ (t ++ rest)) = .ok rest := by
  obtain ⟨hne, hdigits⟩ := ht
  obtain ⟨c, t, rfl⟩ := List.exists_cons_of_ne_nil hne
  obtain ⟨hc, ht⟩ := List.forall_mem_cons.1 hdigits
  have hplus : c ≠ '+' := ne_of_isDigit hc rfl
  have hminus : c ≠ '-' := ne_of_isDigit hc rfl
  have hdrop := dropWhile_digits ht hrest.startsDigit
  rcases hsign with rfl | rfl | rfl <;> simp [skipExponent, hplus, hminus, hc, hdrop]

theorem startsDigit_append (ht : AreDigits t) (rest : List Char) : startsDigit (t ++ rest) := by
  obtain ⟨c, t, rfl⟩ := List.exists_cons_of_ne_nil ht.1
  exact ht.2 c (List.mem_cons_self ..)

/-- An exponent, if there is one, is not a part of the digits before it. -/
theorem startsDigit_exponent (h : IsExponent t) (hrest : EndsValue rest) :
    startsDigit (t ++ rest) = false := by
  cases h with
  | none => exact hrest.startsDigit
  | digits he => rcases he with rfl | rfl <;> rfl

theorem skipTail_none (hrest : EndsValue rest) : skipTail rest = .ok rest := by
  cases rest with
  | nil => rfl
  | cons c rest =>
    obtain ⟨-, hdot, he, hE⟩ := endsValue_cons hrest
    simp [skipTail, hdot, he, hE]

theorem skipTail_exponent (h : IsExponent t) (hrest : EndsValue rest) :
    skipTail (t ++ rest) = .ok rest := by
  cases h with
  | none => exact skipTail_none hrest
  | @digits e sign t he hsign ht =>
    have hdigits := skipExponent_append hsign ht hrest
    rw [← List.append_assoc] at hdigits
    rcases he with rfl | rfl <;> exact hdigits

/-- A fraction is passed over, and the rest is looked at once more. -/
theorem skipTail_fraction {s : List Char} (ht : AreDigits t) (hdigit : startsDigit s = false)
    (hdot : s.head? ≠ some '.') : skipTail ('.' :: (t ++ s)) = skipTail s := by
  rw [skipTail, if_pos (startsDigit_append ht s), dropWhile_digits ht.2 hdigit]
  cases s with
  | nil => rfl
  | cons c s =>
    have hc : c ≠ '.' := fun h => hdot (congrArg some h)
    by_cases he : c = 'e'
    · simp [skipTail, he]
    · by_cases hE : c = 'E' <;> simp [skipTail, hc, he, hE]

theorem skipTail_append {fraction exponent : List Char} (hfraction : IsFraction fraction)
    (hexponent : IsExponent exponent) (hrest : EndsValue rest) :
    skipTail (fraction ++ (exponent ++ rest)) = .ok rest := by
  have htail := skipTail_exponent hexponent hrest
  cases hfraction with
  | none => exact htail
  | @digits t ht =>
    have hdigit := startsDigit_exponent hexponent hrest
    have hdot : (exponent ++ rest).head? ≠ some '.' := by
      cases hexponent with
      | none =>
        intro h
        obtain ⟨rest, rfl⟩ := List.head?_eq_some_iff.1 h
        exact (endsValue_cons hrest).2.1 rfl
      | digits he => rcases he with rfl | rfl <;> simp
    rw [List.cons_append, skipTail_fraction ht hdigit hdot, htail]

theorem skipNumber_whole {whole : List Char} (h : IsWhole whole)
    (hrest : startsDigit rest = false) : skipNumber (whole ++ rest) = skipTail rest := by
  cases h with
  | zero => simp [skipNumber, hrest]
  | positive hc hzero ht => simp [skipNumber, hc, hzero, dropWhile_digits ht hrest]

theorem startsDigit_tail {fraction exponent : List Char} (hfraction : IsFraction fraction)
    (hexponent : IsExponent exponent) (hrest : EndsValue rest) :
    startsDigit (fraction ++ (exponent ++ rest)) = false := by
  have h := startsDigit_exponent hexponent hrest
  cases hfraction with
  | none => exact h
  | digits => rfl

/-- The whole part of a number begins with a digit. -/
theorem IsWhole.exists_digit {whole : List Char} (h : IsWhole whole) :
    ∃ c t, whole = c :: t ∧ c.isDigit := by
  cases h with
  | zero => exact ⟨'0', [], rfl, rfl⟩
  | @positive c t hc => exact ⟨c, t, rfl, hc⟩

end Numbers

section Values

variable {t rest : List Char} {fuel : Nat}

theorem expectWord_append (word rest : List Char) : expectWord word (word ++ rest) = .ok rest := by
  induction word with
  | nil => cases rest <;> rfl
  | cons c word ih => rw [List.cons_append, expectWord, if_pos rfl, ih]

theorem skipValue_congr {s r : List Char} (h : skipBlanks s = skipBlanks r) (fuel : Nat) :
    skipValue (fuel + 1) s = skipValue (fuel + 1) r := by
  rw [skipValue, skipValue, h]

theorem skipMember_congr {s r : List Char} (h : skipBlanks s = skipBlanks r) (fuel : Nat) :
    skipMember (fuel + 1) s = skipMember (fuel + 1) r := by
  rw [skipMember, skipMember, h]

/-- A digit is none of the characters that other values begin with. -/
theorem skipValue_digit {c : Char} (hc : c.isDigit) (fuel : Nat) (s : List Char) :
    skipValue (fuel + 1) (c :: s) = skipNumber (c :: s) := by
  have hne (d : Char) (hd : d.isDigit = false) : c ≠ d := ne_of_isDigit hc hd
  rw [skipValue, skipBlanks_cons (not_isBlank_of_isDigit hc)]
  simp [hc, hne 'n', hne 't', hne 'f', hne '-', hne '\x22', hne '[', hne '\x7b']

theorem skipValue_number (h : IsNumber t) (hrest : EndsValue rest) (fuel : Nat) :
    skipValue (fuel + 1) (t ++ rest) = .ok rest := by
  obtain @⟨minus, whole, fraction, exponent, hminus, hwhole, hfraction, hexponent⟩ := h
  have hnumber : skipNumber (whole ++ (fraction ++ (exponent ++ rest))) = .ok rest := by
    rw [skipNumber_whole hwhole (startsDigit_tail hfraction hexponent hrest)]
    exact skipTail_append hfraction hexponent hrest
  obtain ⟨c, whole, rfl, hc⟩ := hwhole.exists_digit
  simp only [List.append_assoc]
  rcases hminus with rfl | rfl
  · exact (skipValue_digit hc fuel _).trans hnumber
  · exact hnumber

/-- How a value is passed over. -/
def Passes (v : List Char) : Prop :=
  ∀ fuel rest, v.length ≤ fuel → EndsValue rest → skipValue fuel (v ++ rest) = .ok rest

theorem endsValue_comma (s : List Char) : EndsValue (',' :: s) := by simp [EndsValue]

theorem endsValue_bracket (s : List Char) : EndsValue (']' :: s) := by simp [EndsValue]

theorem endsValue_brace (s : List Char) : EndsValue ('\x7d' :: s) := by simp [EndsValue]

theorem endsValue_blanks {a : List Char} (ha : AreBlank a) (h : EndsValue rest) :
    EndsValue (a ++ rest) := by
  cases a with
  | nil => exact h
  | cons b a =>
    intro c hc
    obtain rfl : b = c := Option.some.inj hc
    exact .inl (ha b (List.mem_cons_self ..))

theorem Passes.padded {v : List Char} (h : Passes v) (ht : IsPadded v t) :
    ∃ behind, AreBlank behind ∧ ∀ fuel rest, t.length < fuel → EndsValue rest →
      skipValue fuel (t ++ rest) = .ok (behind ++ rest) := by
  obtain ⟨front, behind, hfront, hbehind, rfl⟩ := ht
  refine ⟨behind, hbehind, ?_⟩
  intro fuel rest hfuel hrest
  obtain ⟨fuel, rfl⟩ := Nat.exists_eq_add_one_of_ne_zero (Nat.ne_zero_of_lt hfuel)
  rw [List.append_assoc, skipValue_congr (skipBlanks_append hfront _), List.append_assoc]
  apply h
  · simp only [List.length_append] at hfuel
    omega
  · exact endsValue_blanks hbehind hrest

theorem skipItems_end {a : List Char} (ha : AreBlank a) (fuel : Nat) (rest : List Char) :
    skipItems (fuel + 1) (a ++ ']' :: rest) = .ok rest := by
  rw [skipItems, skipBlanks_append_cons ha rfl]
  rfl

theorem skipItems_comma {a : List Char} (ha : AreBlank a) (fuel : Nat) (rest : List Char) :
    skipItems (fuel + 1) (a ++ ',' :: rest) = skipValue fuel rest >>= skipItems fuel := by
  rw [skipItems, skipBlanks_append_cons ha rfl]
  rfl

theorem skipItems_separated {vs : List (List Char)} (h : AreSeparated IsPadded vs t)
    (hvs : ∀ v ∈ vs, Passes v) (hne : vs ≠ []) (hfuel : t.length < fuel) (rest : List Char) :
    skipValue fuel (t ++ ']' :: rest) >>= skipItems fuel = .ok rest := by
  induction h generalizing fuel with
  | none => exact absurd rfl hne
  | @last v t ha =>
    obtain ⟨behind, hbehind, hskip⟩ := (hvs v (List.mem_cons_self ..)).padded ha
    rw [hskip fuel (']' :: rest) hfuel (endsValue_bracket rest)]
    obtain ⟨fuel, rfl⟩ := Nat.exists_eq_add_one_of_ne_zero (Nat.ne_zero_of_lt hfuel)
    exact skipItems_end hbehind fuel rest
  | @cons v w vs t u ha _ ih =>
    obtain ⟨hv, hvs⟩ := List.forall_mem_cons.1 hvs
    obtain ⟨behind, hbehind, hskip⟩ := hv.padded ha
    rw [List.length_append, List.length_cons] at hfuel
    have ht : t.length < fuel := by omega
    rw [List.append_assoc, List.cons_append, hskip fuel _ ht (endsValue_comma _)]
    obtain ⟨fuel, rfl⟩ := Nat.exists_eq_add_one_of_ne_zero (Nat.ne_zero_of_lt hfuel)
    have hu : u.length < fuel := by omega
    exact (skipItems_comma hbehind fuel _).trans (ih hvs (List.cons_ne_nil _ _) hu)

section Members

variable {k key s r behind : List Char}

/-- What a reader that passes over a member still reads behind the value. -/
def skipBehindMember (fuel : Nat) (r : List Char) : Except Error (List Char) :=
  match skipBlanks r with
  | [] => .error (Fault.endOfObject.here [])
  | ',' :: t => skipMember fuel t
  | '\x7d' :: t => .ok t
  | t => .error (Fault.missingObjectComma.next t)

theorem skipMember_name (hk : IsString k) (hkey : IsPadded (quoted k) key)
    (hskip : skipValue fuel s = .ok r) :
    skipMember (fuel + 1) (key ++ ':' :: s) = skipBehindMember fuel r := by
  obtain ⟨front, behind, hfront, hbehind, rfl⟩ := hkey
  have htext : front ++ (quoted k ++ behind) ++ ':' :: s =
      front ++ '\x22' :: (k ++ '\x22' :: (behind ++ ':' :: s)) := by
    simp [quoted]
  have hcolon : skipBlanks (behind ++ ':' :: s) = ':' :: s := skipBlanks_append_cons hbehind rfl s
  rw [htext, skipMember, skipBlanks_append_cons hfront rfl]
  simp only [skipString_append hk, bind, Except.bind, hcolon, hskip]
  rfl

theorem skipMember_end (hk : IsString k) (hkey : IsPadded (quoted k) key) (hb : AreBlank behind)
    (hskip : skipValue fuel s = .ok (behind ++ '\x7d' :: rest)) :
    skipMember (fuel + 1) (key ++ ':' :: s) = .ok rest := by
  rw [skipMember_name hk hkey hskip, skipBehindMember, skipBlanks_append_cons hb rfl]
  rfl

theorem skipMember_comma (hk : IsString k) (hkey : IsPadded (quoted k) key) (hb : AreBlank behind)
    (hskip : skipValue fuel s = .ok (behind ++ ',' :: rest)) :
    skipMember (fuel + 1) (key ++ ':' :: s) = skipMember fuel rest := by
  rw [skipMember_name hk hkey hskip, skipBehindMember, skipBlanks_append_cons hb rfl]
  rfl

theorem skipMember_separated {ms : List (List Char × List Char)}
    (h : AreSeparated (IsMember fun name k => k = name ∧ IsString k) ms t)
    (hms : ∀ m ∈ ms, Passes m.2) (hne : ms ≠ []) (hfuel : t.length < fuel) (rest : List Char) :
    skipMember fuel (t ++ '\x7d' :: rest) = .ok rest := by
  induction h generalizing fuel with
  | none => exact absurd rfl hne
  | @last m t ha =>
    obtain ⟨k, key, value, ⟨-, hk⟩, hkey, hvalue, rfl⟩ := ha
    obtain ⟨fuel, rfl⟩ := Nat.exists_eq_add_one_of_ne_zero (Nat.ne_zero_of_lt hfuel)
    rw [List.length_append, List.length_cons] at hfuel
    have hlength : value.length < fuel := by omega
    obtain ⟨behind, hbehind, hskip⟩ := (hms m (List.mem_cons_self ..)).padded hvalue
    rw [List.append_assoc, List.cons_append]
    exact skipMember_end hk hkey hbehind (hskip fuel _ hlength (endsValue_brace rest))
  | @cons m n ms t u ha _ ih =>
    obtain ⟨hv, hms⟩ := List.forall_mem_cons.1 hms
    obtain ⟨k, key, value, ⟨-, hk⟩, hkey, hvalue, rfl⟩ := ha
    obtain ⟨fuel, rfl⟩ := Nat.exists_eq_add_one_of_ne_zero (Nat.ne_zero_of_lt hfuel)
    simp only [List.length_append, List.length_cons] at hfuel
    have hlength : value.length < fuel := by omega
    have hu : u.length < fuel := by omega
    obtain ⟨behind, hbehind, hskip⟩ := hv.padded hvalue
    rw [List.append_assoc, List.append_assoc, List.cons_append, List.cons_append,
      skipMember_comma hk hkey hbehind (hskip fuel _ hlength (endsValue_comma _))]
    exact ih hms (List.cons_ne_nil _ _) hu

end Members

/-- Whether a text begins with a character that neither is a blank nor separates or ends values. -/
def BeginsValue (t : List Char) : Prop := ∃ c u, t = c :: u ∧ isBlank c = false ∧ c ≠ ',' ∧ c ≠ ']'

theorem IsValue.begins (h : IsValue t) : BeginsValue t := by
  cases h with
  | word h => rcases h with rfl | rfl | rfl <;> exact ⟨_, _, rfl, by decide⟩
  | number h =>
    obtain @⟨minus, whole, fraction, exponent, hminus, hwhole, hfraction, hexponent⟩ := h
    obtain ⟨c, whole, rfl, hc⟩ := hwhole.exists_digit
    rcases hminus with rfl | rfl
    · exact ⟨c, _, rfl, not_isBlank_of_isDigit hc, ne_of_isDigit hc rfl, ne_of_isDigit hc rfl⟩
    · exact ⟨'-', _, rfl, by decide⟩
  | string h => exact ⟨_, _, rfl, by decide⟩
  | list h => exact ⟨_, _, rfl, by decide⟩
  | object h => exact ⟨_, _, rfl, by decide⟩

/-- What stands first in a list that has elements. -/
theorem exists_skipBlanks_items {v : List Char} {vs : List (List Char)}
    (h : AreSeparated IsPadded (v :: vs) t) (hv : BeginsValue v) (rest : List Char) :
    ∃ c u, skipBlanks (t ++ rest) = c :: u ∧ isBlank c = false ∧ c ≠ ']' := by
  obtain ⟨c, u, rfl, hblank, -, hc⟩ := hv
  have hpadded {t rest : List Char} (ht : IsPadded (c :: u) t) :
      ∃ u, skipBlanks (t ++ rest) = c :: u ∧ isBlank c = false ∧ c ≠ ']' := by
    obtain ⟨front, behind, hfront, -, rfl⟩ := ht
    refine ⟨u ++ behind ++ rest, ?_, hblank, hc⟩
    rw [List.append_assoc, List.cons_append, List.cons_append]
    exact skipBlanks_append_cons hfront hblank _
  cases h with
  | last ht => exact ⟨c, hpadded ht⟩
  | cons ht =>
    rw [List.append_assoc]
    exact ⟨c, hpadded ht⟩

theorem skipValue_list {vs : List (List Char)} (h : AreSeparated IsPadded vs t)
    (hvs : ∀ v ∈ vs, IsValue v) (hpasses : ∀ v ∈ vs, Passes v) (hfuel : t.length < fuel) :
    skipValue (fuel + 1) ('[' :: (t ++ ']' :: rest)) = .ok rest := by
  rw [skipValue, skipBlanks_cons rfl]
  cases vs with
  | nil =>
    cases h with
    | none ht =>
      have hend : skipBlanks (t ++ ']' :: rest) = ']' :: rest := skipBlanks_append_cons ht rfl rest
      simp [hend]
  | cons v vs =>
    have hitems := skipItems_separated h hpasses (List.cons_ne_nil _ _) hfuel rest
    obtain ⟨c, u, hhead, hblank, hc⟩ :=
      exists_skipBlanks_items h (hvs v (List.mem_cons_self ..)).begins (']' :: rest)
    obtain ⟨fuel, rfl⟩ := Nat.exists_eq_add_one_of_ne_zero (Nat.ne_zero_of_lt hfuel)
    have hskip : skipValue (fuel + 1) (c :: u) = skipValue (fuel + 1) (t ++ ']' :: rest) := by
      apply skipValue_congr
      rw [hhead, skipBlanks_cons hblank]
    simpa [hhead, hc, hskip] using hitems

theorem exists_skipBlanks_members {α : Type} {named : α → List Char → Prop} {m : α × List Char}
    {ms : List (α × List Char)} (h : AreSeparated (IsMember named) (m :: ms) t) (rest : List Char) :
    ∃ u, skipBlanks (t ++ rest) = '\x22' :: u := by
  have hmember {t rest : List Char} (ht : IsMember named m t) :
      ∃ u, skipBlanks (t ++ rest) = '\x22' :: u := by
    obtain ⟨k, key, value, -, ⟨front, behind, hfront, -, rfl⟩, -, rfl⟩ := ht
    refine ⟨k ++ ['\x22'] ++ behind ++ ':' :: value ++ rest, ?_⟩
    rw [List.append_assoc, List.append_assoc, quoted]
    simpa using skipBlanks_append_cons hfront rfl _
  cases h with
  | last ht => exact hmember ht
  | cons ht =>
    rw [List.append_assoc]
    exact hmember ht

theorem skipValue_object {ms : List (List Char × List Char)}
    (h : AreSeparated (IsMember fun name k => k = name ∧ IsString k) ms t)
    (hms : ∀ m ∈ ms, Passes m.2) (hfuel : t.length < fuel) :
    skipValue (fuel + 1) ('\x7b' :: (t ++ '\x7d' :: rest)) = .ok rest := by
  rw [skipValue, skipBlanks_cons rfl]
  cases ms with
  | nil =>
    cases h with
    | none ht =>
      have hend : skipBlanks (t ++ '\x7d' :: rest) = '\x7d' :: rest :=
        skipBlanks_append_cons ht rfl rest
      simp [hend]
  | cons m ms =>
    have hmembers := skipMember_separated h hms (List.cons_ne_nil _ _) hfuel rest
    obtain ⟨u, hhead⟩ := exists_skipBlanks_members h ('\x7d' :: rest)
    obtain ⟨fuel, rfl⟩ := Nat.exists_eq_add_one_of_ne_zero (Nat.ne_zero_of_lt hfuel)
    have hskip :
        skipMember (fuel + 1) ('\x22' :: u) = skipMember (fuel + 1) (t ++ '\x7d' :: rest) := by
      apply skipMember_congr
      rw [hhead, skipBlanks_cons rfl]
    simpa [hhead, hskip] using hmembers

theorem passes_of_succ (hne : t ≠ [])
    (h : ∀ fuel rest, t.length ≤ fuel + 1 → EndsValue rest →
      skipValue (fuel + 1) (t ++ rest) = .ok rest) : Passes t := by
  intro fuel rest hfuel hrest
  cases fuel with
  | zero => exact absurd (List.length_eq_zero_iff.1 (Nat.le_zero.1 hfuel)) hne
  | succ fuel => exact h fuel rest hfuel hrest

theorem IsValue.ne_nil (h : IsValue t) : t ≠ [] := by
  obtain ⟨c, u, rfl, -⟩ := h.begins
  exact List.cons_ne_nil c u

/-- Values of any kind are passed over. -/
theorem IsValue.passes (h : IsValue t) : Passes t := by
  apply passes_of_succ h.ne_nil
  intro fuel rest hfuel hrest
  induction h generalizing fuel rest with
  | word h =>
    rcases h with rfl | rfl | rfl
    · exact expectWord_append "ull".toList rest
    · exact expectWord_append "rue".toList rest
    · exact expectWord_append "alse".toList rest
  | number h => exact skipValue_number h hrest fuel
  | @string t h =>
    have hstring : skipString (t ++ ['\x22'] ++ rest) = .ok rest := by
      simpa using skipString_append h rest
    exact hstring
  | list h hvs ih =>
    simp only [List.length_cons, List.length_append] at hfuel
    rw [List.cons_append, List.append_assoc]
    apply skipValue_list h hvs
    · exact fun v hv => passes_of_succ (hvs v hv).ne_nil (ih v hv)
    · omega
  | object h hms ih =>
    simp only [List.length_cons, List.length_append] at hfuel
    rw [List.cons_append, List.append_assoc]
    apply skipValue_object h
    · exact fun m hm => passes_of_succ (hms m hm).ne_nil (ih m hm)
    · omega

end Values

end RasterFallback.Json
