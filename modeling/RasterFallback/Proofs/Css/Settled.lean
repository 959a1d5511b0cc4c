import RasterFallback.Proofs.Css.Route
import RasterFallback.Proofs.Css.Url

/-!
Reading in front of a break. A semicolon, a comma, a colon or a brace ends every
token but an open string, comment, url or escape. So a reader either stops in
front of the break, and then nothing behind the break matters, or it goes over it.
-/
namespace RasterFallback.Css
open RasterFallback.Text

/-- What `read` makes of `a` is settled in front of the break `x`, whatever follows,
or `read` goes over the break. -/
def Settles {α : Type} (x : Char) (read : List Char → α × List Char) (a : List Char) : Prop :=
  (∃ v m, ∀ w, read (a ++ x :: w) = (v, m ++ x :: w)) ∨
    ∀ w, (read (a ++ x :: w)).2.length ≤ w.length

namespace Settles

variable {α β : Type} {x : Char} {read : List Char → α × List Char} {a : List Char}

/-- A reader that reads on after `b` with another one. -/
theorem map {next : List Char → β × List Char} {b : List Char} (h : Settles x next b) (f : β → α)
    (hread : ∀ w, read (a ++ x :: w) = (f (next (b ++ x :: w)).1, (next (b ++ x :: w)).2)) :
    Settles x read a := by
  rcases h with ⟨v, m, hm⟩ | hover
  · exact .inl ⟨f v, m, fun w => by rw [hread, hm]⟩
  · exact .inr fun w => by rw [hread]; exact hover w

theorem passes (h : ∀ w, (read (a ++ x :: w)).2 <:+ w) : Settles x read a :=
  .inr fun w => (h w).length_le

theorem of_append {v w : List Char} {r : α} (h : Settles x read a)
    (hv : read (a ++ x :: v) = (r, w ++ x :: v)) : ∀ u, read (a ++ x :: u) = (r, w ++ x :: u) := by
  rcases h with ⟨s, m, hm⟩ | hover
  · obtain ⟨rfl, he⟩ := Prod.mk.inj ((hm v).symm.trans hv)
    obtain rfl := List.append_cancel_right he
    exact hm
  · have hlen := hover v
    rw [hv] at hlen
    simp at hlen
    omega

end Settles

section Break

variable {x : Char}

/-- A name ends in front of a break as at the end of the text, unless it ends in a backslash: then
it takes the break and goes on behind it. -/
theorem name_append_break (hx : isBreak x) (a : List Char) :
    (∀ w, name (a ++ x :: w) = ((name a).1, (name a).2 ++ x :: w)) ∨
      (name a).2 = [] ∧ ∀ w, (name (a ++ x :: w)).2 = (name w).2 := by
  have hslash : x ≠ '\\' := ne_of_isBreak hx rfl
  fun_induction name a with
  | case1 => exact .inl fun w => by simp [name, not_nameChar_of_isBreak hx, hslash]
  | case2 c s hc n ih =>
    have hread (w : List Char) : name (c :: s ++ x :: w) =
        (unnull c :: (name (s ++ x :: w)).1, (name (s ++ x :: w)).2) := by simp [name, hc]
    rcases ih with hstop | ⟨hnil, hover⟩
    · exact .inl fun w => by rw [hread, hstop]
    · exact .inr ⟨hnil, fun w => by rw [hread, hover]⟩
  | case3 c s hc hs n ih =>
    obtain ⟨rfl, hn⟩ : c = '\\' ∧ startsNewline s = false := by simpa using hs
    have hread (w : List Char) : name ('\\' :: s ++ x :: w) =
        ((escape (s ++ x :: w)).1 :: (name (escape (s ++ x :: w)).2).1,
          (name (escape (s ++ x :: w)).2).2) := by
      have hw := startsNewline_append hx s w
      rw [hn] at hw
      simp [name, hc, hw]
    by_cases hne : s = []
    · subst hne
      exact .inr ⟨by simp [n, escape, name], fun w => by
        rw [hread, List.nil_append, escape_break hx]⟩
    · have hescape (w : List Char) := (endsEscape_of_isBreak hx).escape_append hne w
      rcases ih with hstop | ⟨hnil, hover⟩
      · exact .inl fun w => by rw [hread, hescape, hstop]
      · exact .inr ⟨hnil, fun w => by rw [hread, hescape, hover]⟩
  | case4 c s hc hs =>
    refine .inl fun w => ?_
    have hw := startsNewline_append hx s w
    simp only [Bool.and_eq_true, Bool.not_eq_true', not_and, decide_eq_true_eq] at hs
    rw [List.cons_append, name, if_neg hc, if_neg]
    simpa [hw] using hs

theorem name_settles (hx : isBreak x) (a : List Char) : Settles x name a := by
  rcases name_append_break hx a with hstop | ⟨-, hover⟩
  · exact .inl ⟨_, _, hstop⟩
  · exact .passes fun w => by rw [hover]; exact name_suffix w

theorem numericToken_settles (hx : isBreak x) (a : List Char) : Settles x numericToken a := by
  have hread (w : List Char) := (separates_of_isBreak hx w).numericToken_append (a := a)
    (.inl (endsEscape_of_isBreak hx).not_newline)
  by_cases hp : (numeral a).2.head? = some '%'
  · exact .inl ⟨_, _, fun w => by rw [hread, if_pos hp]⟩
  · by_cases hn : startsName (numeral a).2 = true
    · exact (name_settles hx (numeral a).2).map
        (fun n => .dimension (numeral a).1 (String.ofList n)) fun w => by
          rw [hread, if_neg hp, if_pos hn]
    · exact .inl ⟨_, _, fun w => by rw [hread, if_neg hp, if_neg hn]⟩

theorem quotedContent_settles (hx : isBreak x) {q : Char} (hq : isBreak q = false) (a : List Char) :
    (∃ c b m, ∀ w, quotedContent q (a ++ x :: w) = (c, b, m ++ x :: w)) ∨
      ∀ w, (quotedContent q (a ++ x :: w)).2.2.length ≤ w.length := by
  have hesc := endsEscape_of_isBreak hx
  have hslash : x ≠ '\\' := ne_of_isBreak hx rfl
  fun_induction quotedContent q a with
  | case1 =>
    right
    intro w
    rw [List.nil_append, quotedContent, if_neg (ne_of_isBreak hx hq),
      if_neg (by simp [hesc.not_newline]), if_neg hslash]
    exact (quotedContent_suffix q w).length_le
  | case2 s => exact .inl ⟨[], false, s, fun w => by simp [quotedContent]⟩
  | case3 c s hc hn => exact .inl ⟨[], true, c :: s, fun w => by simp [quotedContent, hc, hn]⟩
  | case4 s hs hc hn =>
    obtain rfl : s = [] := by simpa using hs
    right
    intro w
    have hw : startsNewline (x :: w) = false := hesc.not_newline
    simp [quotedContent, hc, hn, hw, escape_break hx, (quotedContent_suffix q w).length_le]
  | case5 s hs hline hc hn ih =>
    obtain ⟨d, s, rfl⟩ := List.exists_cons_of_ne_nil (by simpa using hs : s ≠ [])
    have hw (w : List Char) : startsNewline (d :: s ++ x :: w) = true := hline
    simp only [List.cons_append] at hw
    have hread (w : List Char) : quotedContent q ('\\' :: (d :: s) ++ x :: w) =
        quotedContent q (dropNewline (d :: s) ++ x :: w) := by
      rw [← hesc.dropNewline_append]
      simp [quotedContent, hc, hn, hw]
    simpa only [hread] using ih
  | case6 s hs hline r hc hn ih =>
    obtain ⟨d, s, rfl⟩ := List.exists_cons_of_ne_nil (by simpa using hs : s ≠ [])
    have hw (w : List Char) : startsNewline (d :: s ++ x :: w) = false :=
      Bool.eq_false_iff.2 hline
    have hread (w : List Char) : quotedContent q ('\\' :: (d :: s) ++ x :: w) =
        ((escape (d :: s)).1 :: (quotedContent q ((escape (d :: s)).2 ++ x :: w)).1,
          (quotedContent q ((escape (d :: s)).2 ++ x :: w)).2) := by
      have he := hesc.escape_append (List.cons_ne_nil d s) w
      simp only [List.cons_append] at hw he
      simp [quotedContent, hc, hn, hw, he]
    rcases ih with ⟨c, b, m, hm⟩ | hover
    · exact .inl ⟨(escape (d :: s)).1 :: c, b, m, fun w => by rw [hread, hm]⟩
    · exact .inr fun w => by rw [hread]; exact hover w
  | case7 c s hc hn hs r ih =>
    have hread (w : List Char) : quotedContent q (c :: s ++ x :: w) =
        (unnull c :: (quotedContent q (s ++ x :: w)).1, (quotedContent q (s ++ x :: w)).2) := by
      simp [quotedContent, hc, hn, hs]
    rcases ih with ⟨d, b, m, hm⟩ | hover
    · exact .inl ⟨unnull c :: d, b, m, fun w => by rw [hread, hm]⟩
    · exact .inr fun w => by rw [hread]; exact hover w

theorem quotedToken_settles (hx : isBreak x) {q : Char} (hq : isBreak q = false) (a : List Char) :
    Settles x (quotedToken q) a := by
  rcases quotedContent_settles hx hq a with ⟨c, b, m, hm⟩ | hover
  · cases b with
    | true => exact .inl ⟨.badString (String.ofList c), m, fun w => by simp [quotedToken, hm]⟩
    | false => exact .inl ⟨.quotedString (String.ofList c), m, fun w => by simp [quotedToken, hm]⟩
  · right
    intro w
    have hlen := hover w
    unfold quotedToken
    split <;> simp_all

theorem commentContent_settles (hx : isBreak x) (a : List Char) : Settles x commentContent a := by
  have hstar : x ≠ '*' := ne_of_isBreak hx rfl
  have hslash : x ≠ '/' := ne_of_isBreak hx rfl
  fun_induction commentContent a with
  | case1 => exact .passes fun w => by simp [commentContent, hstar, commentContent_suffix]
  | case2 s => exact .inl ⟨[], s, fun w => by simp [commentContent]⟩
  | case3 c s hend ih =>
    apply ih.map (c :: ·)
    intro w
    rw [List.cons_append, commentContent]
    rintro t rfl ht
    cases s with
    | nil => exact hslash (List.cons.inj ht).1
    | cons d s =>
      obtain ⟨rfl, -⟩ := List.cons.inj ht
      exact hend s rfl rfl

theorem symbolOrMatch_settles (hx : isBreak x) (c : Char) (t : Token) (a : List Char) :
    Settles x (symbolOrMatch c t) a := by
  have hequals : x ≠ '=' := ne_of_isBreak hx rfl
  cases a with
  | nil => exact .inl ⟨.delim c, [], fun w => by simp [symbolOrMatch, hequals]⟩
  | cons d a =>
    by_cases hd : d = '='
    · subst hd
      exact .inl ⟨t, a, fun w => rfl⟩
    · exact .inl ⟨.delim c, d :: a, fun w => by simp [symbolOrMatch, hd]⟩

theorem hashToken_settles (hx : isBreak x) (a : List Char) : Settles x hashToken a := by
  by_cases hn : startsName a = true
  · exact (name_settles hx a).map (fun n => .idHash (String.ofList n)) fun w => by
      simp [hashToken, startsName_append hx, hn]
  · cases a with
    | nil =>
      have hhyphen : x ≠ '-' := ne_of_isBreak hx rfl
      refine .inl ⟨.delim '#', [], ?_⟩
      intro w
      have hw := startsName_append hx [] w
      simp only [List.nil_append] at hw
      simp [hashToken, hw, hn, not_digit_of_isSeparator (isSeparator_of_isBreak hx), hhyphen]
    | cons c a =>
      have hw (w : List Char) := startsName_append hx (c :: a) w
      simp only [List.cons_append] at hw
      by_cases hc : (c.isDigit || c == '-') = true
      · exact (name_settles hx (c :: a)).map (fun n => .hash (String.ofList n)) fun w => by
          simp [hashToken, hw, hn, hc]
      · exact .inl ⟨.delim '#', c :: a, fun w => by simp [hashToken, hw, hn, hc]⟩

theorem urlEnd_settles (hx : isBreak x) (a : List Char) : Settles x urlEnd a := by
  have hparen : x ≠ ')' := ne_of_isBreak hx rfl
  induction a with
  | nil => exact .passes fun w => by simp [urlEnd, hparen, (endsEscape_of_isBreak hx).2]
  | cons c a ih =>
    by_cases hc : c = ')'
    · exact .inl ⟨true, a, fun w => by simp [urlEnd, hc]⟩
    · by_cases hb : isAsciiBlank c = true
      · exact ih.map id fun w => by simp [urlEnd, hc, hb]
      · exact .inl ⟨false, a, fun w => by simp [urlEnd, hc, hb]⟩

theorem urlContent_settles (hx : isBreak x) (a : List Char) : Settles x urlContent a := by
  have hesc := endsEscape_of_isBreak hx
  have hparen : x ≠ ')' := ne_of_isBreak hx rfl
  have hslash : x ≠ '\\' := ne_of_isBreak hx rfl
  fun_induction urlContent a with
  | case1 =>
    apply Settles.passes
    intro w
    by_cases hb : breaksUrl x = true <;>
      simp [urlContent, hparen, hesc.2, hslash, hb, urlContent_suffix]
  | case2 s => exact .inl ⟨some [], s, fun w => by simp [urlContent]⟩
  | case3 c s hc hb e =>
    exact (urlEnd_settles hx s).map (fun b => if b then some [] else none) fun w => by
      simp [urlContent, hc, hb]
  | case4 c s hc hb hbreak => exact .inl ⟨none, s, fun w => by simp [urlContent, hc, hb, hbreak]⟩
  | case5 s hn hc hb hbreak =>
    refine .inl ⟨none, s, ?_⟩
    intro w
    have hw := startsNewline_append hx s w
    rw [hn] at hw
    simp [urlContent, hb, hbreak, hw]
  | case6 s hn r hc hb hbreak ih =>
    by_cases hne : s = []
    · subst hne
      apply Settles.passes
      intro w
      have hw : startsNewline (x :: w) = false := hesc.not_newline
      simp [urlContent, hb, hbreak, hw, escape_break hx, urlContent_suffix]
    · apply ih.map (·.map ((escape s).1 :: ·))
      intro w
      have hw := startsNewline_append hx s w
      rw [Bool.eq_false_iff.2 hn] at hw
      simp [urlContent, hb, hbreak, hw, hesc.escape_append hne]
  | case7 c s hc hb hbreak hs r ih =>
    exact ih.map (·.map (unnull c :: ·)) fun w => by simp [urlContent, hc, hb, hbreak, hs]

theorem brokenUrlEnd_settles (hx : isBreak x) (a : List Char) :
    (∃ m, ∀ w, brokenUrlEnd (a ++ x :: w) = ')' :: (m ++ x :: w)) ∨
      ∀ w, brokenUrlEnd (a ++ x :: w) <:+ w := by
  have hparen : x ≠ ')' := ne_of_isBreak hx rfl
  have hslash : x ≠ '\\' := ne_of_isBreak hx rfl
  have hbreak (w : List Char) : brokenUrlEnd (x :: w) = brokenUrlEnd w := by
    rw [brokenUrlEnd, if_neg hparen]
    · rintro t rfl
      exact (hslash rfl).elim
    · rintro t rfl
      exact (hslash rfl).elim
  fun_induction brokenUrlEnd a with
  | case1 => exact .inr fun w => by simpa [hbreak] using brokenUrlEnd_suffix w
  | case2 s ih => simpa [brokenUrlEnd] using ih
  | case3 s ih => simpa [brokenUrlEnd] using ih
  | case4 s => exact .inl ⟨s, fun w => by simp [brokenUrlEnd]⟩
  | case5 c s hp hs hc ih =>
    have hread (w : List Char) : brokenUrlEnd (c :: s ++ x :: w) = brokenUrlEnd (s ++ x :: w) := by
      rw [List.cons_append, brokenUrlEnd, if_neg hc]
      · rintro t rfl ht
        cases s with
        | nil => exact hparen (List.cons.inj ht).1
        | cons d s =>
          obtain ⟨rfl, -⟩ := List.cons.inj ht
          exact hp s rfl rfl
      · rintro t rfl ht
        cases s with
        | nil => exact hslash (List.cons.inj ht).1
        | cons d s =>
          obtain ⟨rfl, -⟩ := List.cons.inj ht
          exact hs s rfl rfl
    simpa only [hread] using ih

theorem urlToken_settles (hx : isBreak x) (f : Token) (a : List Char) :
    Settles x (urlToken f) a := by
  have hblank := (endsEscape_of_isBreak hx).2
  have hdouble : x ≠ '\x22' := ne_of_isBreak hx rfl
  have hsingle : x ≠ '\x27' := ne_of_isBreak hx rfl
  by_cases hq : (a.dropWhile isAsciiBlank).head? = some '\x22' ∨
      (a.dropWhile isAsciiBlank).head? = some '\x27'
  · refine .inl ⟨f, a, ?_⟩
    intro w
    rcases hq with hq | hq
    all_goals
      obtain ⟨b, hb⟩ := List.head?_eq_some_iff.1 hq
      simp [urlToken, dropWhile_append_cons hblank, hb]
  · simp only [not_or] at hq
    have hquote {q : Char} (hb : isBreak q = false)
        (ha : (a.dropWhile isAsciiBlank).head? ≠ some q) (w : List Char) :
        ((a ++ x :: w).dropWhile isAsciiBlank).head? ≠ some q := by
      rw [dropWhile_append_cons hblank]
      cases hd : a.dropWhile isAsciiBlank with
      | nil => simpa using ne_of_isBreak hx hb
      | cons c t => simpa [hd] using ha
    have hread (w : List Char) := urlToken_unquoted f
      (hquote (by decide) hq.1 w) (hquote (by decide) hq.2 w)
    simp only [dropWhile_append_cons hblank] at hread
    rcases urlContent_settles hx (a.dropWhile isAsciiBlank) with ⟨u, m, hm⟩ | hover
    · cases u with
      | some u => exact .inl ⟨.unquotedUrl (String.ofList u), m, fun w => by rw [hread, hm]⟩
      | none =>
        rcases brokenUrlEnd_settles hx m with ⟨n, hn⟩ | hover
        · -- The content of the broken url is what lies before its parenthesis.
          obtain ⟨b, hb⟩ : ∃ b, b ++ ')' :: n = a.dropWhile isAsciiBlank := by
            have hsuffix := (brokenUrlEnd_suffix (m ++ [x])).trans
              ((congrArg Prod.snd (hm [])) ▸ urlContent_suffix (a.dropWhile isAsciiBlank ++ [x]))
            obtain ⟨b, hb⟩ := hn [] ▸ hsuffix
            exact ⟨b, List.append_cancel_right (by simpa using hb)⟩
          refine .inl ⟨.badUrl (String.ofList b), n, ?_⟩
          intro w
          rw [hread, hm]
          simp only [hn, ← hb, List.append_assoc, List.cons_append, List.drop_succ_cons,
            List.drop_zero]
          rw [consumed_append_self]
        · apply Settles.passes
          intro w
          rw [hread, hm]
          exact (List.drop_suffix ..).trans (hover w)
    · right
      intro w
      have hlen := hover w
      rw [hread]
      split
      · rename_i heq
        rwa [heq] at hlen
      · rename_i left heq
        rw [heq] at hlen
        exact Nat.le_trans ((List.drop_suffix ..).trans (brokenUrlEnd_suffix left)).length_le hlen

theorem nameToken_settles (hx : isBreak x) (a : List Char) : Settles x nameToken a := by
  have hparen : x ≠ '(' := ne_of_isBreak hx rfl
  rcases name_settles hx a with ⟨n, m, hm⟩ | hover
  · by_cases hp : m.head? = some '('
    · obtain ⟨m, rfl⟩ := List.head?_eq_some_iff.1 hp
      by_cases hu : lowerAscii n = ['u', 'r', 'l']
      · exact (urlToken_settles hx (.function (String.ofList n)) m).map id fun w => by
          simp [nameToken, hm, hu]
      · exact .inl ⟨.function (String.ofList n), m, fun w => by simp [nameToken, hm, hu]⟩
    · refine .inl ⟨.ident (String.ofList n), m, ?_⟩
      intro w
      simp only [nameToken, hm]
      split
      · rename_i rest heq
        cases m with
        | nil => simp_all
        | cons d m => simp_all
      · rfl
  · right
    intro w
    have hlen := hover w
    unfold nameToken
    simp only
    split
    · rename_i rest heq
      rw [heq] at hlen
      have hrest : rest.length ≤ w.length := by
        simp at hlen
        omega
      split
      · exact Nat.le_trans (urlToken_suffix _ rest).length_le hrest
      · exact hrest
    · exact hlen

/-- Every token is settled in front of a break, or goes over it. -/
theorem Token.read_settles (hx : isBreak x) (c : Char) (a : List Char) :
    Settles x (Token.read c) a := by
  have hblank := (endsEscape_of_isBreak hx).2
  obtain ⟨read, hroute, hread⟩ := exists_route c a
  have hbreak (w : List Char) : Token.read c (a ++ x :: w) = read (a ++ x :: w) :=
    hread _ (separates_of_isBreak hx w) (.inl (endsEscape_of_isBreak hx).not_newline)
  suffices hsettles : Settles x read a from hsettles.map id hbreak
  cases hroute with
  | blank hb =>
    exact .inl ⟨.whitespace (String.ofList (c :: a.takeWhile isAsciiBlank)),
      a.dropWhile isAsciiBlank, fun w => by
        simp [takeWhile_append_cons hblank, dropWhile_append_cons hblank]⟩
  | number => exact (numericToken_settles hx (c :: a)).map id fun w => rfl
  | marks t h =>
    obtain ⟨m, rfl⟩ := h
    exact .inl ⟨t, m, fun w => by simp⟩
  | pair t => exact symbolOrMatch_settles hx c t a
  | quoted hquote =>
    have hq : isBreak c = false := by rcases hquote with rfl | rfl <;> rfl
    exact quotedToken_settles hx hq a
  | hash => exact hashToken_settles hx a
  | keyword hs => exact (name_settles hx a).map (fun n => .atKeyword (String.ofList n)) fun w => rfl
  | comment hc h =>
    subst h
    exact (commentContent_settles hx _).map (fun s => .comment (String.ofList s)) fun w => rfl
  | named hs => exact (nameToken_settles hx (c :: a)).map id fun w => rfl

end Break

end RasterFallback.Css
