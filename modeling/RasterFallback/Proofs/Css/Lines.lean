import Mathlib.Data.List.DropRight
import RasterFallback.Proofs.Css.Places

/-!
Places as numbers of line breaks and of UTF-16 units. They are counted from the whole text in
front of a place, though positions are kept lexeme by lexeme: no token ends within a line break,
so no break is counted twice where two lexemes meet.
-/
namespace RasterFallback.Css
open RasterFallback.Text

/-- How many line breaks a text has. A carriage return makes one with the line feed after it. -/
def lineBreaks : List Char → Nat
  | '\r' :: '\n' :: s => lineBreaks s + 1
  | c :: s => lineBreaks s + if isNewline c then 1 else 0
  | [] => 0

/-- What stands behind the last line break of a text. -/
def lastLine (s : List Char) : List Char := s.rtakeWhile fun c => !isNewline c

/-- How many 16-bit units a text takes: characters beyond the first plane take two. -/
def utf16Length : List Char → Nat
  | [] => 0
  | c :: s => (if c.toNat < 0x10000 then 1 else 2) + utf16Length s

/-- The place behind a text. Lines and columns are counted from one. -/
def placeBehind (s : List Char) : Position := ⟨1 + lineBreaks s, 1 + utf16Length (lastLine s)⟩

/-- Whether no line break is cut where a text ends and the next begins. -/
def Adjoins (front rest : List Char) : Prop := front.getLast? = some '\r' → rest.head? ≠ some '\n'

section Counting

variable {s front rest : List Char} {c : Char}

theorem isNewline_cases (hc : isNewline c) : c = '\n' ∨ c = '\r' ∨ c = '\x0c' := by
  simpa [isNewline, or_assoc] using hc

/-- A text is empty, or goes on behind a line break or behind another character. -/
theorem lineBreaks_induction {motive : List Char → Prop} (nil : motive [])
    (pair : ∀ s, motive s → motive ('\r' :: '\n' :: s))
    (newline : ∀ c s, isNewline c → Adjoins [c] s → motive s → motive (c :: s))
    (other : ∀ c s, isNewline c = false → motive s → motive (c :: s)) (s : List Char) :
    motive s := by
  fun_induction lineBreaks s with
  | case1 s ih => exact pair s ih
  | case2 c s hpair ih =>
    by_cases hc : isNewline c = true
    · refine newline c s hc ?_ ih
      intro hr hn
      obtain ⟨t, rfl⟩ := List.head?_eq_some_iff.1 hn
      exact hpair t (Option.some.inj hr) rfl
    · exact other c s (Bool.eq_false_iff.2 hc) ih
  | case3 => exact nil

theorem lineBreaks_newline (hc : isNewline c) (h : Adjoins [c] s) :
    lineBreaks (c :: s) = lineBreaks s + 1 := by
  rw [lineBreaks, if_pos hc]
  rintro t rfl rfl
  exact h rfl rfl

theorem lineBreaks_other (hc : isNewline c = false) : lineBreaks (c :: s) = lineBreaks s := by
  rw [lineBreaks, if_neg (by simp [hc]), Nat.add_zero]
  rintro t rfl
  cases hc

theorem after_newline (hc : isNewline c) (h : Adjoins [c] s) (p : Position) :
    p.after (c :: s) = p.newline.after s := by
  rcases isNewline_cases hc with rfl | rfl | rfl
  · rw [Position.after]
  · rw [Position.after]
    rintro t rfl
    exact h rfl rfl
  · rw [Position.after]

theorem after_other (hc : isNewline c = false) (p : Position) :
    p.after (c :: s) = (p.forward c).after s := by
  have hne : ∀ d, isNewline d → c ≠ d := by
    rintro d hd rfl
    simp [hc] at hd
  rw [Position.after]
  · intro t hr
    exact absurd hr (hne '\r' rfl)
  · exact hne '\r' rfl
  · exact hne '\n' rfl
  · exact hne '\x0c' rfl

theorem Adjoins.tail (h : Adjoins (c :: front) rest) : Adjoins front rest := by
  cases front with
  | nil => exact nofun
  | cons d front => exact h

/-- Where no break is cut, the position behind two texts is reached over the first. -/
theorem after_append (h : Adjoins front rest) (p : Position) :
    p.after (front ++ rest) = (p.after front).after rest := by
  induction front using lineBreaks_induction generalizing p with
  | nil => rfl
  | pair s ih => exact ih h.tail.tail p.newline
  | newline c s hc hs ih =>
    have hjoined : Adjoins [c] (s ++ rest) := by
      cases s with
      | nil => exact h
      | cons d s => exact hs
    rw [List.cons_append, after_newline hc hjoined, after_newline hc hs, ih h.tail]
  | other c s hc ih => rw [List.cons_append, after_other hc, after_other hc, ih h.tail]

theorem lineBreaks_eq_zero : lineBreaks s = 0 ↔ ∀ x ∈ s, isNewline x = false := by
  induction s using lineBreaks_induction with
  | nil => simp [lineBreaks]
  | pair s ih => simp [lineBreaks, isNewline]
  | newline c s hc hs ih => simp [lineBreaks_newline hc hs, hc]
  | other c s hc ih => simp [lineBreaks_other hc, hc, ih]

/-- Nothing in front of a line break stands on the last line. -/
theorem lastLine_append (hc : isNewline c) (a : List Char) :
    lastLine (a ++ c :: s) = lastLine s := by
  have hstop : ∀ x ∈ (c :: a.reverse).head?, (!isNewline x) = false := by
    simpa using hc
  rw [lastLine, lastLine, List.rtakeWhile, List.rtakeWhile, List.reverse_append,
    List.reverse_cons, List.append_assoc, List.singleton_append, takeWhile_append_of_head hstop]

theorem lastLine_eq_self (h : lineBreaks s = 0) : lastLine s = s := by
  apply List.rtakeWhile_eq_self_iff.2
  intro x hx
  simp [lineBreaks_eq_zero.1 h x hx]

theorem lastLine_other (hc : isNewline c = false) :
    lastLine (c :: s) = if lineBreaks s = 0 then c :: lastLine s else lastLine s := by
  split
  · rename_i hs
    rw [lastLine_eq_self ((lineBreaks_other hc).trans hs), lastLine_eq_self hs]
  · rename_i hs
    obtain ⟨x, hx, hnewline⟩ : ∃ x ∈ s, isNewline x = true := by
      simpa using mt lineBreaks_eq_zero.2 hs
    obtain ⟨a, b, rfl⟩ := List.append_of_mem hx
    rw [← List.cons_append, lastLine_append hnewline, lastLine_append hnewline]

theorem line_after (p : Position) (s : List Char) : (p.after s).line = p.line + lineBreaks s := by
  induction s using lineBreaks_induction generalizing p with
  | nil => rfl
  | pair s ih =>
    have hrest : (p.newline.after s).line = p.line + 1 + lineBreaks s := ih p.newline
    show (p.newline.after s).line = p.line + (lineBreaks s + 1)
    omega
  | newline c s hc hs ih =>
    have hrest : (p.newline.after s).line = p.line + 1 + lineBreaks s := ih p.newline
    rw [after_newline hc hs, lineBreaks_newline hc hs]
    omega
  | other c s hc ih =>
    rw [after_other hc, lineBreaks_other hc]
    exact ih (p.forward c)

theorem column_after (p : Position) (s : List Char) : (p.after s).column =
    (if lineBreaks s = 0 then p.column else 1) + utf16Length (lastLine s) := by
  induction s using lineBreaks_induction generalizing p with
  | nil => rfl
  | pair s ih =>
    have hrest : (p.newline.after s).column = 1 + utf16Length (lastLine s) := by
      rw [ih, Position.newline, ite_self]
    have hlast : lastLine ('\r' :: '\n' :: s) = lastLine s := lastLine_append rfl ['\r']
    rw [lineBreaks, if_neg (Nat.succ_ne_zero _), hlast]
    exact hrest
  | newline c s hc hs ih =>
    have hrest : (p.newline.after s).column = 1 + utf16Length (lastLine s) := by
      rw [ih, Position.newline, ite_self]
    have hlast : lastLine (c :: s) = lastLine s := lastLine_append hc []
    rw [after_newline hc hs, lineBreaks_newline hc hs, if_neg (Nat.succ_ne_zero _), hlast]
    exact hrest
  | other c s hc ih =>
    have hforward : (p.forward c).column = p.column + if c.toNat < 0x10000 then 1 else 2 := rfl
    rw [after_other hc, ih, lineBreaks_other hc, lastLine_other hc]
    split
    · rw [hforward, utf16Length, Nat.add_assoc]
    · rfl

/-- Positions are places behind texts. -/
theorem after_first (s : List Char) : Position.first.after s = placeBehind s := by
  have hline : (Position.first.after s).line = 1 + lineBreaks s := line_after .first s
  have hcolumn := column_after .first s
  rw [Position.first, ite_self] at hcolumn
  rw [placeBehind, ← hline, ← hcolumn]
  rfl

end Counting

/-- Whether `rest` is what is left of `s` behind a place that is not within a line break. -/
def IsLeft (rest s : List Char) : Prop := ∃ front, s = front ++ rest ∧ Adjoins front rest

namespace IsLeft

variable {s t rest front : List Char} {c : Char}

theorem refl (s : List Char) : IsLeft s s := ⟨[], rfl, nofun⟩

theorem trans (hst : IsLeft s t) (ht : IsLeft t rest) : IsLeft s rest := by
  obtain ⟨a, rfl, ha⟩ := hst
  obtain ⟨b, rfl, hb⟩ := ht
  refine ⟨b ++ a, (List.append_assoc ..).symm, ?_⟩
  cases a with
  | nil => rwa [List.append_nil]
  | cons x a =>
    intro hr
    rw [List.getLast?_append_of_ne_nil _ (List.cons_ne_nil x a)] at hr
    exact ha hr

/-- What does not begin with a line feed is not cut off from a line break. -/
theorem of_suffix (h : rest <:+ s) (hrest : rest.head? ≠ some '\n') : IsLeft rest s := by
  obtain ⟨front, rfl⟩ := h
  exact ⟨front, rfl, fun _ => hrest⟩

theorem nil (s : List Char) : IsLeft [] s := .of_suffix List.nil_suffix (by decide)

/-- What stands behind another character than a carriage return is not cut off from a break. -/
theorem behind (hc : c ≠ '\r') (front rest : List Char) : IsLeft rest (front ++ c :: rest) := by
  refine ⟨front ++ [c], by simp, ?_⟩
  intro hr
  rw [List.getLast?_concat] at hr
  exact absurd (Option.some.inj hr) hc

theorem tail (hc : c ≠ '\r') (s : List Char) : IsLeft s (c :: s) := behind hc [] s

theorem cons (h : IsLeft rest s) (hc : c ≠ '\r') : IsLeft rest (c :: s) := h.trans (tail hc s)

theorem drop (h : front <+: s) (hfront : '\r' ∉ front) : IsLeft (s.drop front.length) s := by
  obtain ⟨rest, rfl⟩ := h
  rw [List.drop_left]
  refine ⟨front, rfl, ?_⟩
  intro hr
  exact absurd (List.mem_of_getLast? hr) hfront

end IsLeft

section Readers

variable {c : Char}

theorem ne_return (hc : isNewline c = false) : c ≠ '\r' := by
  rintro rfl
  cases hc

theorem isLeft_dropNewline (s : List Char) : IsLeft (dropNewline s) s := by
  unfold dropNewline
  split
  · exact ⟨['\r', '\n'], rfl, nofun⟩
  · rename_i hpair
    cases s with
    | nil => exact .refl []
    | cons c s =>
      refine ⟨[c], rfl, ?_⟩
      rintro hr hn
      obtain rfl : c = '\r' := Option.some.inj hr
      obtain ⟨t, ht⟩ := List.head?_eq_some_iff.1 hn
      exact hpair t (congrArg ('\r' :: ·) ht)

theorem isLeft_dropSpace (s : List Char) : IsLeft (dropSpace s) s := by
  cases s with
  | nil => exact .refl []
  | cons c s =>
    rw [dropSpace]
    split
    · exact isLeft_dropNewline (c :: s)
    · rename_i hc
      split
      · exact .tail (ne_return (Bool.eq_false_iff.2 hc)) s
      · exact .refl (c :: s)

theorem isLeft_escape {s : List Char} (hs : startsNewline s = false) : IsLeft (escape s).2 s := by
  cases s with
  | nil => exact .refl []
  | cons c s =>
    rw [escape]
    split
    · -- Behind the digits one blank is taken, which may be a pair of line breaks.
      refine (isLeft_dropSpace _).trans (.drop ?_ ?_)
      · exact (List.takeWhile_prefix _).trans (List.take_prefix 6 (c :: s))
      · intro hr
        have hdigit := List.mem_takeWhile_imp hr
        cases hdigit
    · exact .tail (ne_return hs) s

theorem isLeft_name (s : List Char) : IsLeft (name s).2 s := by
  fun_induction name s with
  | case1 => exact .refl []
  | case2 c s hc n ih =>
    have hr : c ≠ '\r' := by
      rintro rfl
      cases hc
    exact ih.cons hr
  | case3 c s _ hc n ih =>
    obtain ⟨rfl, hs⟩ : c = '\\' ∧ startsNewline s = false := by simpa using hc
    exact (ih.trans (isLeft_escape hs)).cons (by decide)
  | case4 c s => exact .refl (c :: s)

theorem isLeft_numeral (s : List Char) : IsLeft (numeral s).2 s := by
  obtain ⟨front, hs⟩ := numeral_suffix s
  refine ⟨front, hs.symm, ?_⟩
  intro hr _
  -- The number would end in front of the carriage return.
  obtain ⟨a, rfl⟩ := List.getLast?_eq_some_iff.1 hr
  have hseparates : Separates ('\r' :: (numeral s).2) := separates_cons rfl (by decide) _
  have hread := hseparates.numeral_append a
  rw [← List.singleton_append, ← List.append_assoc, hs] at hread
  have hlength := congrArg (fun n => n.2.length) hread
  simp only [List.length_append, List.length_cons, List.length_nil] at hlength
  omega

theorem isLeft_numericToken (s : List Char) : IsLeft (numericToken s).2 s := by
  have h := isLeft_numeral s
  unfold numericToken
  generalize numeral s = n at h
  obtain ⟨n, rest⟩ := n
  dsimp only at h ⊢
  split
  · rename_i rest
    exact (IsLeft.tail (by decide) rest).trans h
  · split
    · exact (isLeft_name rest).trans h
    · exact h

theorem isLeft_quotedContent {q : Char} (hq : q ≠ '\r') (s : List Char) :
    IsLeft (quotedContent q s).2.2 s := by
  fun_induction quotedContent q s with
  | case1 => exact .refl []
  | case2 s => exact .tail hq s
  | case3 c s => exact .refl (c :: s)
  | case4 s => exact .nil _
  | case5 s _ _ _ _ ih => exact (ih.trans (isLeft_dropNewline s)).cons (by decide)
  | case6 s _ hs r _ _ ih =>
    have hescape := isLeft_escape (Bool.eq_false_iff.2 hs)
    exact (ih.trans hescape).cons (by decide)
  | case7 c s _ hc _ r ih => exact ih.cons (ne_return (Bool.eq_false_iff.2 hc))

theorem isLeft_quotedToken {q : Char} (hq : q ≠ '\r') (s : List Char) :
    IsLeft (quotedToken q s).2 s := by
  have h := isLeft_quotedContent hq s
  unfold quotedToken
  split <;> simp_all

/-- The end of a url goes on to the end of the text, or up to a character that is not blank. -/
theorem urlEnd_cases (s : List Char) : (urlEnd s).2 = [] ∨
    ∃ front x, isAsciiBlank x = false ∧ s = front ++ x :: (urlEnd s).2 := by
  induction s with
  | nil => exact .inl rfl
  | cons c s ih =>
    rw [urlEnd]
    split
    · rename_i hc
      exact .inr ⟨[], c, by rw [hc]; rfl, rfl⟩
    · split
      · rcases ih with hnil | ⟨front, x, hx, hs⟩
        · exact .inl hnil
        · exact .inr ⟨c :: front, x, hx, congrArg (c :: ·) hs⟩
      · rename_i hc
        exact .inr ⟨[], c, Bool.eq_false_iff.2 hc, rfl⟩

theorem ne_return_of_not_blank (hc : isAsciiBlank c = false) : c ≠ '\r' := by
  rintro rfl
  cases hc

theorem isLeft_urlEnd (s : List Char) (c : Char) : IsLeft (urlEnd s).2 (c :: s) := by
  rcases urlEnd_cases s with hnil | ⟨front, x, hx, hs⟩
  · rw [hnil]
    exact .nil _
  · have h := IsLeft.behind (ne_return_of_not_blank hx) (c :: front) (urlEnd s).2
    rwa [List.cons_append, ← hs] at h

theorem isLeft_urlContent (s : List Char) : IsLeft (urlContent s).2 s := by
  fun_induction urlContent s with
  | case1 => exact .refl []
  | case2 s => exact .tail (by decide) s
  | case3 c s _ _ e => exact isLeft_urlEnd s c
  | case4 c s _ hb => exact .tail (ne_return_of_not_blank (Bool.eq_false_iff.2 hb)) s
  | case5 s => exact .tail (by decide) s
  | case6 s hs r _ _ _ ih =>
    have hescape := isLeft_escape (Bool.eq_false_iff.2 hs)
    exact (ih.trans hescape).cons (by decide)
  | case7 c s _ hb _ _ r ih => exact ih.cons (ne_return_of_not_blank (Bool.eq_false_iff.2 hb))

theorem isLeft_brokenUrlEnd (s : List Char) : IsLeft ((brokenUrlEnd s).drop 1) s := by
  have hsuffix := brokenUrlEnd_suffix s
  rcases brokenUrlEnd_eq s with hnil | ⟨t, ht⟩
  · rw [hnil]
    exact .nil _
  · rw [ht] at hsuffix ⊢
    exact (IsLeft.tail (by decide) t).trans (.of_suffix hsuffix nofun)

theorem isLeft_blanks (s : List Char) : IsLeft (s.dropWhile isAsciiBlank) s := by
  refine .of_suffix (List.dropWhile_suffix _) ?_
  intro hn
  have h := List.head?_dropWhile_not isAsciiBlank s
  rw [hn] at h
  cases h

theorem isLeft_urlToken (f : Token) (s : List Char) : IsLeft (urlToken f s).2 s := by
  unfold urlToken
  dsimp only
  split
  · exact .refl s
  · exact .refl s
  · have hcontent := (isLeft_urlContent (s.dropWhile isAsciiBlank)).trans (isLeft_blanks s)
    split
    · rename_i heq
      rwa [heq] at hcontent
    · rename_i rest heq
      rw [heq] at hcontent
      exact (isLeft_brokenUrlEnd rest).trans hcontent

theorem isLeft_nameToken (s : List Char) : IsLeft (nameToken s).2 s := by
  have h := isLeft_name s
  unfold nameToken
  dsimp only
  split
  · rename_i rest heq
    rw [heq] at h
    have hrest : IsLeft rest s := (IsLeft.tail (by decide) rest).trans h
    split
    · exact (isLeft_urlToken _ rest).trans hrest
    · exact hrest
  · exact h

theorem commentContent_cases (s : List Char) : (commentContent s).2 = [] ∨
    ∃ front, s = front ++ '/' :: (commentContent s).2 := by
  fun_induction commentContent s with
  | case1 => exact .inl rfl
  | case2 s => exact .inr ⟨['*'], rfl⟩
  | case3 c s _ ih =>
    rcases ih with hnil | ⟨front, hs⟩
    · exact .inl hnil
    · exact .inr ⟨c :: front, congrArg (c :: ·) hs⟩

theorem isLeft_commentContent (s : List Char) : IsLeft (commentContent s).2 s := by
  rcases commentContent_cases s with hnil | ⟨front, hs⟩
  · rw [hnil]
    exact .nil _
  · have h := IsLeft.behind (by decide : '/' ≠ '\r') front (commentContent s).2
    rwa [← hs] at h

theorem isLeft_symbolOrMatch (c : Char) (t : Token) (s : List Char) :
    IsLeft (symbolOrMatch c t s).2 s := by
  unfold symbolOrMatch
  split
  · exact .tail (by decide) _
  · exact .refl s

theorem isLeft_hashToken (s : List Char) : IsLeft (hashToken s).2 s := by
  unfold hashToken
  split
  · exact isLeft_name s
  · split
    · split
      · exact isLeft_name _
      · exact .refl _
    · exact .refl []

/-- No token ends within a line break. -/
theorem Token.isLeft_read (c : Char) (s : List Char) : IsLeft (Token.read c s).2 (c :: s) := by
  by_cases hb : isAsciiBlank c = true
  · have hblanks := isLeft_blanks (c :: s)
    rw [List.dropWhile_cons_of_pos hb] at hblanks
    rwa [Token.read_blank hb]
  · have hc : c ≠ '\r' := ne_return_of_not_blank (Bool.eq_false_iff.2 hb)
    have hreading := Token.reading c s
    generalize Token.read c s = r at hreading ⊢
    cases hreading with
    | blank h => exact absurd h hb
    | number => exact isLeft_numericToken (c :: s)
    | @cdc rest _ h => exact h ▸ .behind (by decide) [c, '-'] rest
    | @cdo rest _ h => exact h ▸ .behind (by decide) [c, '!', '-'] rest
    | @comment rest _ h => exact h ▸ ((isLeft_commentContent rest).cons (by decide)).cons hc
    | quoted => exact (isLeft_quotedToken hc s).cons hc
    | hash => exact (isLeft_hashToken s).cons hc
    | keyword => exact (isLeft_name s).cons hc
    | pair => exact (isLeft_symbolOrMatch ..).cons hc
    | named => exact isLeft_nameToken (c :: s)
    | sign | delim => exact .tail hc s

end Readers

theorem adjoins_read (c : Char) (s : List Char) :
    Adjoins (c :: consumed s (Token.read c s).2) (Token.read c s).2 := by
  obtain ⟨front, hs, hadjoins⟩ := Token.isLeft_read c s
  have hpiece : c :: consumed s (Token.read c s).2 ++ (Token.read c s).2 = c :: s :=
    congrArg (c :: ·) (consumed_append (Token.read_suffix c s))
  rwa [List.append_cancel_right (hpiece.trans hs)]

theorem Adjoins.shorten {front rest w : List Char} (h : Adjoins front rest) (hw : w <+: rest) :
    Adjoins front w := by
  intro hr hn
  obtain ⟨t, rfl⟩ := List.head?_eq_some_iff.1 hn
  obtain ⟨u, rfl⟩ := hw
  exact h hr rfl

/-- A lexeme starts at the position behind the text of all lexemes in front of it. -/
theorem start_eq_after {p : Position} {s : List Char} {front behind : List Lexeme} {l : Lexeme}
    (h : lexemes p s = front ++ l :: behind) : l.start = p.after (front.flatMap Lexeme.text) := by
  induction front generalizing p s with
  | nil =>
    cases s with
    | nil => simp [lexemes] at h
    | cons c s =>
      rw [lexemes, List.nil_append] at h
      exact congrArg Lexeme.start (List.cons.inj h).1.symm
  | cons m front ih =>
    cases s with
    | nil => simp [lexemes] at h
    | cons c s =>
      rw [lexemes, List.cons_append] at h
      obtain ⟨rfl, hrest⟩ := List.cons.inj h
      have htext := lexemes_text (p.after (c :: consumed s (Token.read c s).2)) (Token.read c s).2
      rw [hrest, List.flatMap_append] at htext
      have hadjoins := (adjoins_read c s).shorten ⟨_, htext⟩
      rw [List.flatMap_cons, after_append hadjoins]
      exact ih hrest

end RasterFallback.Css
