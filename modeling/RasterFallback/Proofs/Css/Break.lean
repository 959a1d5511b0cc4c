import RasterFallback.Css.Lexeme

/-!
Breaks: characters that end whatever stands before them, unless a string, a
comment, a url or an escape is open there. What is read before a break does not
depend on what follows the break.
-/
namespace RasterFallback.Css
open RasterFallback.Text

section While

variable {p : Char → Bool}

theorem dropWhile_append_of_head {z : List Char} (hz : ∀ x ∈ z.head?, p x = false)
    (a : List Char) : (a ++ z).dropWhile p = a.dropWhile p ++ z := by
  induction a with
  | nil =>
    cases z with
    | nil => rfl
    | cons x z => simp [hz x rfl]
  | cons c a ih => by_cases hc : p c = true <;> simp [hc, ih]

theorem takeWhile_append_of_head {z : List Char} (hz : ∀ x ∈ z.head?, p x = false)
    (a : List Char) : (a ++ z).takeWhile p = a.takeWhile p := by
  induction a with
  | nil =>
    cases z with
    | nil => rfl
    | cons x z => simp [hz x rfl]
  | cons c a ih => by_cases hc : p c = true <;> simp [hc, ih]

theorem dropWhile_append_cons {x : Char} (hx : p x = false) (a w : List Char) :
    (a ++ x :: w).dropWhile p = a.dropWhile p ++ x :: w :=
  dropWhile_append_of_head (by simpa using hx) a

theorem takeWhile_append_cons {x : Char} (hx : p x = false) (a w : List Char) :
    (a ++ x :: w).takeWhile p = a.takeWhile p :=
  takeWhile_append_of_head (by simpa using hx) a

theorem of_mem_of_dropWhile {a : List Char} (h : a.dropWhile p = []) : ∀ x ∈ a, p x = true := by
  have hall : a.takeWhile p = a := by
    have happend := List.takeWhile_append_dropWhile (p := p) (l := a)
    rwa [h, List.append_nil] at happend
  have htake : (a.takeWhile p).all p = true := List.all_takeWhile
  rw [hall] at htake
  exact List.all_eq_true.1 htake

end While

/-- A character that ends an escape in front of it and is not part of it. -/
def EndsEscape (x : Char) : Prop := hexValue? x = none ∧ isAsciiBlank x = false

namespace EndsEscape

variable {x : Char}

theorem not_newline (h : EndsEscape x) : isNewline x = false := by
  have hb := h.2
  simp only [isAsciiBlank, Bool.or_eq_false_iff] at hb
  exact hb.2

theorem takeWhile_take (h : EndsEscape x) (s rest : List Char) (n : Nat) :
    ((s ++ x :: rest).take n).takeWhile (fun d => (hexValue? d).isSome) =
      (s.take n).takeWhile fun d => (hexValue? d).isSome := by
  induction s generalizing n with
  | nil => cases n <;> simp [h.1]
  | cons c s ih =>
    cases n with
    | zero => rfl
    | succ n => simp only [List.cons_append, List.take_succ_cons, List.takeWhile_cons, ih]

theorem dropNewline_append (h : EndsEscape x) (c : Char) (s rest : List Char) :
    dropNewline (c :: s ++ x :: rest) = dropNewline (c :: s) ++ x :: rest := by
  have hx : x ≠ '\n' := by
    rintro rfl
    exact absurd h.2 (by decide)
  cases s with
  | nil =>
    simp only [dropNewline, List.cons_append, List.nil_append]
    split
    · rename_i heq
      simp_all
    · simp
  | cons d s =>
    by_cases hc : c = '\r' ∧ d = '\n'
    · obtain ⟨rfl, rfl⟩ := hc
      rfl
    · unfold dropNewline
      split
      · simp_all
      · split
        · simp_all
        · rfl

theorem dropSpace_append (h : EndsEscape x) (s rest : List Char) :
    dropSpace (s ++ x :: rest) = dropSpace s ++ x :: rest := by
  cases s with
  | nil => simp [dropSpace, h.not_newline, h.2]
  | cons c s =>
    unfold dropSpace
    simp only [List.cons_append]
    split
    · exact h.dropNewline_append c s rest
    · split <;> rfl

theorem escape_append (h : EndsEscape x) {s : List Char} (hs : s ≠ []) (rest : List Char) :
    escape (s ++ x :: rest) = ((escape s).1, (escape s).2 ++ x :: rest) := by
  obtain ⟨c, s, rfl⟩ := List.exists_cons_of_ne_nil hs
  by_cases hc : (hexValue? c).isSome
  · have hle : (((c :: s).take 6).takeWhile fun d => (hexValue? d).isSome).length ≤
        (c :: s).length :=
      ((List.takeWhile_prefix _).trans (List.take_prefix 6 (c :: s))).length_le
    have hdigits := h.takeWhile_take (c :: s) rest 6
    simp only [List.cons_append] at hdigits
    simp only [escape, List.cons_append, hc, ↓reduceIte, hdigits]
    rw [← List.cons_append, List.drop_append_of_le_length hle, h.dropSpace_append]
  · simp [escape, hc]

end EndsEscape

end RasterFallback.Css
