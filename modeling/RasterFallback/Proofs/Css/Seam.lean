import RasterFallback.Proofs.Css.Enclosed

/-!
Texts joined by a break. What is read in front of the break is read as at the end of the text, if
nothing is left open there; a backslash at the end takes the break into the name in front of it.
-/
namespace RasterFallback.Css
open RasterFallback.Text

/-- Tokens without an end mark that neither open a block nor close one. -/
def Token.isFlat (t : Token) : Bool := t.opens?.isNone && t.closes?.isNone && !t.isEnclosed

/-- In front of the break `x` a token ends as at the end of the text, or it is a name that takes
the break and ends at the next blank. -/
def Joins (x : Char) (read : List Char → Token × List Char) (a : List Char) : Prop :=
  (∀ w, read (a ++ x :: w) = ((read a).1, (read a).2 ++ x :: w)) ∨
    (read a).2 = [] ∧ (read a).1.isFlat ∧ ∀ y w, isAsciiBlank y →
      ∃ t : Token, t.isFlat ∧ read (a ++ x :: y :: w) = (t, y :: w)

section Readers

variable {x : Char} {read next : List Char → Token × List Char} {a b : List Char}

theorem Joins.congr (h : Joins x next b) (ha : read a = next b)
    (hread : ∀ w, read (a ++ x :: w) = next (b ++ x :: w)) : Joins x read a := by
  unfold Joins
  simp only [ha, hread]
  exact h

theorem name_blank {y : Char} (hy : isAsciiBlank y) (w : List Char) :
    name (y :: w) = ([], y :: w) := by
  rcases isAsciiBlank_cases hy with rfl | rfl | rfl | rfl | rfl <;>
    simp [name, isNameChar, isNameStart]

/-- A token that consists of a name, or ends in one. -/
theorem joins_name (hx : isBreak x) {f : List Char → Token} (hf : ∀ n, (f n).isFlat)
    (ha : read a = (f (name b).1, (name b).2))
    (hread : ∀ w, read (a ++ x :: w) = (f (name (b ++ x :: w)).1, (name (b ++ x :: w)).2)) :
    Joins x read a := by
  unfold Joins
  simp only [ha, hread]
  rcases name_append_break hx b with hstop | ⟨hnil, hover⟩
  · exact .inl fun w => by rw [hstop]
  · refine .inr ⟨hnil, hf _, fun y w hy => ⟨_, hf _, Prod.ext rfl ?_⟩⟩
    exact (hover (y :: w)).trans (congrArg Prod.snd (name_blank hy w))

theorem Joins.of_stops (hx : isBreak x) (h : Stops read a) : Joins x read a :=
  .inl fun w => h (x :: w) (separates_of_isBreak hx w)

variable (hx : isBreak x)
include hx

theorem numericToken_joins (a : List Char) : Joins x numericToken a := by
  have hread (w : List Char) := (separates_of_isBreak hx w).numericToken_append (a := a)
    (.inl (endsEscape_of_isBreak hx).not_newline)
  have ha := separates_nil.numericToken_append (a := a) (.inl rfl)
  rw [List.append_nil, List.append_nil, List.append_nil] at ha
  by_cases hp : (numeral a).2.head? = some '%'
  · simp only [if_pos hp] at ha hread
    exact .inl fun w => by rw [hread, ha]
  · by_cases hn : startsName (numeral a).2 = true
    · simp only [if_neg hp, if_pos hn] at ha hread
      exact joins_name hx (f := fun n => .dimension (numeral a).1 (String.ofList n))
        (fun _ => rfl) ha hread
    · simp only [if_neg hp, if_neg hn] at ha hread
      exact .inl fun w => by rw [hread, ha]

theorem hashToken_joins (a : List Char) : Joins x hashToken a := by
  by_cases hn : startsName a = true
  · exact joins_name hx (b := a) (f := fun n => .idHash (String.ofList n)) (fun _ => rfl)
      (by simp [hashToken, hn]) fun w => by simp [hashToken, startsName_append hx, hn]
  · cases a with
    | nil =>
      have hhyphen : x ≠ '-' := ne_of_isBreak hx rfl
      refine .inl fun w => ?_
      have hw := startsName_append hx [] w
      rw [List.nil_append] at hw
      simp [hashToken, hw, hn, not_digit_of_isSeparator (isSeparator_of_isBreak hx), hhyphen]
    | cons c a =>
      have hw (w : List Char) := startsName_append hx (c :: a) w
      simp only [List.cons_append] at hw
      by_cases hc : (c.isDigit || c == '-') = true
      · exact joins_name hx (b := c :: a) (f := fun n => .hash (String.ofList n)) (fun _ => rfl)
          (by simp [hashToken, hn, hc]) fun w => by simp [hashToken, hw, hn, hc]
      · exact .inl fun w => by simp [hashToken, hw, hn, hc]

/-- A quote mark makes a url a function, whatever stands behind the mark. -/
theorem urlToken_joins {f : Token} {s : List Char}
    (h : (urlToken f s).1.isEnclosed = false) : Joins x (urlToken f) s := by
  have hblank := (endsEscape_of_isBreak hx).2
  by_cases hq : (s.dropWhile isAsciiBlank).head? = some '\x22' ∨
      (s.dropWhile isAsciiBlank).head? = some '\x27'
  · refine .inl fun w => ?_
    rcases hq with hq | hq
    all_goals
      obtain ⟨b, hb⟩ := List.head?_eq_some_iff.1 hq
      simp [urlToken, dropWhile_append_cons hblank, hb]
  · rw [not_or] at hq
    rw [urlToken_unquoted f hq.1 hq.2] at h
    split at h <;> cases h

omit hx in
theorem nameToken_of_head {s : List Char} (h : (name s).2.head? ≠ some '(') :
    nameToken s = (.ident (String.ofList (name s).1), (name s).2) := by
  unfold nameToken
  simp only
  split
  · rename_i rest hr
    rw [hr] at h
    exact absurd rfl h
  · rfl

theorem nameToken_joins (h : (nameToken a).1.isEnclosed = false) : Joins x nameToken a := by
  rcases name_append_break hx a with hstop | ⟨hnil, hover⟩
  · by_cases hp : (name a).2.head? = some '('
    · obtain ⟨m, hm⟩ := List.head?_eq_some_iff.1 hp
      by_cases hurl : lowerAscii (name a).1 = ['u', 'r', 'l']
      · have ha : nameToken a = urlToken (.function (String.ofList (name a).1)) m := by
          simp [nameToken, hm, hurl]
        rw [ha] at h
        exact (urlToken_joins hx h).congr ha fun w => by simp [nameToken, hstop, hm, hurl]
      · exact .inl fun w => by simp [nameToken, hstop, hm, hurl]
    · refine .inl fun w => ?_
      have hw : (name (a ++ x :: w)).2.head? ≠ some '(' := by
        rw [hstop]
        exact (separates_of_isBreak hx w).head?_append rfl hp
      rw [nameToken_of_head hw, nameToken_of_head hp, hstop]
  · have ha := nameToken_of_head (s := a) (by simp [hnil])
    rw [Joins, ha]
    refine .inr ⟨hnil, rfl, fun y w hy =>
      ⟨.ident (String.ofList (name (a ++ x :: y :: w)).1), rfl, ?_⟩⟩
    have hw : (name (a ++ x :: y :: w)).2 = y :: w :=
      (hover (y :: w)).trans (congrArg Prod.snd (name_blank hy w))
    have hparen : y ≠ '(' := by
      rintro rfl
      cases hy
    rw [nameToken_of_head (by rw [hw]; simpa using hparen), hw]

omit hx in
theorem isEnclosed_quotedToken (q : Char) (s : List Char) : (quotedToken q s).1.isEnclosed := by
  obtain ⟨u, b, -, hkind⟩ :=
    quotedToken_eq (t := (quotedToken q s).1) (r := (quotedToken q s).2) rfl
  rw [hkind]
  cases b <;> rfl

/-- A token without an end mark in front of a break. -/
theorem Token.read_joins {c : Char} (h : (Token.read c a).1.isEnclosed = false) :
    Joins x (Token.read c) a := by
  have hblank := (endsEscape_of_isBreak hx).2
  obtain ⟨read, hroute, hread⟩ := exists_route c a
  have ha : Token.read c a = read a := by
    have hnil := hread [] separates_nil (.inl rfl)
    rwa [List.append_nil] at hnil
  have hbreak (w : List Char) : Token.read c (a ++ x :: w) = read (a ++ x :: w) :=
    hread _ (separates_of_isBreak hx w) (.inl (endsEscape_of_isBreak hx).not_newline)
  rw [ha] at h
  suffices hjoins : Joins x read a from hjoins.congr ha hbreak
  cases hroute with
  | blank hb =>
    exact .inl fun w => by simp [takeWhile_append_cons hblank, dropWhile_append_cons hblank]
  | number => exact (numericToken_joins hx (c :: a)).congr rfl fun w => rfl
  | marks t hfront =>
    obtain ⟨m, rfl⟩ := hfront
    exact .inl fun w => by simp
  | pair t => exact .of_stops hx (symbolOrMatch_stops c t a)
  | quoted hquote => exact absurd (isEnclosed_quotedToken c a) (by simp [h])
  | hash => exact hashToken_joins hx a
  | keyword hs =>
    exact joins_name hx (f := fun n => .atKeyword (String.ofList n)) (fun _ => rfl) rfl fun w => rfl
  | comment hc hstar => cases h
  | named hs => exact (nameToken_joins hx h).congr rfl fun w => rfl

/-- A token with something behind it ends in front of a break as at the end of the text. -/
theorem Token.read_append_break {c : Char} {s r : List Char} {t : Token}
    (h : Token.read c s = (t, r)) (hr : r ≠ []) (w : List Char) :
    Token.read c (s ++ x :: w) = (t, r ++ x :: w) := by
  by_cases hkind : t.isEnclosed = true
  · exact read_append_of_isEnclosed h hkind hr (x :: w)
  · have hjoins := read_joins (a := s) (c := c) hx (by rw [h]; exact Bool.eq_false_iff.2 hkind)
    rw [Joins, h] at hjoins
    rcases hjoins with hstop | ⟨hnil, -⟩
    · exact hstop w
    · exact absurd hnil hr

end Readers

theorem quotedContent_of_badString (q : Char) (s : List Char) (h : (quotedContent q s).2.1 = true) :
    (quotedContent q s).2.2 ≠ [] := by
  fun_induction quotedContent q s with
  | case1 => cases h
  | case2 => cases h
  | case3 c s => exact List.cons_ne_nil c s
  | case4 => cases h
  | case5 s _ _ _ _ ih => exact ih h
  | case6 s _ _ _ _ r ih => exact ih h
  | case7 c s _ _ _ r ih => exact ih h

/-- A line break stands behind a string that it cuts off. -/
theorem ne_nil_of_badString {c : Char} {s r : List Char} {content : String}
    (h : Token.read c s = (.badString content, r)) : r ≠ [] := by
  have horigin := Token.read_origin c s
  rw [h] at horigin
  obtain ⟨u, b, hu, hkind⟩ := quotedToken_eq horigin.2.symm
  cases b with
  | false => cases hkind
  | true =>
    have hne := quotedContent_of_badString c s (by rw [hu])
    rwa [hu] at hne

section Texts

variable {x y : Char} (hx : isBreak x) {a : List Char} {front : List Lexeme} {l : Lexeme}
include hx

/-- All lexemes but the last are read in front of a break as at the end of the text. -/
theorem spelled_append_of_last (h : spelled a = front ++ [l]) (w : List Char) :
    spelled (a ++ x :: w) = front ++ spelled (l.text ++ x :: w) := by
  have hlast := spelled_of_append h
  rw [List.flatMap_singleton] at hlast
  have htext : a = front.flatMap Lexeme.text ++ l.text := by
    rw [← spelled_text a, h, List.flatMap_append, List.flatMap_singleton]
  have hne : l.text ≠ [] := by
    intro hnil
    rw [hnil, spelled_nil] at hlast
    cases hlast
  have hfront : spelled (front.flatMap Lexeme.text ++ l.text) = front ++ spelled l.text := by
    rw [← htext, h, hlast]
  rw [htext, List.append_assoc]
  refine spelled_append_congr hfront fun c b m t _ hread _ => ?_
  have hagain := Token.read_append_break hx hread (by simp [hne]) w
  rwa [List.append_assoc, List.append_assoc] at hagain

/-- A text that leaves nothing open is read in front of a break and a blank as at its end, but for
a name at the end that takes the break. -/
theorem spelled_append_of_isEnded (hended : (Components.ofText a).IsEnded) (hy : isAsciiBlank y)
    (w : List Char) :
    spelled (a ++ x :: y :: w) = spelled a ++ spelled (x :: y :: w) ∨
      ∃ front l t, spelled a = front ++ [l] ∧ l.token.isFlat ∧ t.isFlat ∧
        spelled (a ++ x :: y :: w) =
          front ++ ⟨t, l.text ++ [x], .first⟩ :: spelled (y :: w) := by
  rcases List.eq_nil_or_concat (spelled a) with hnil | ⟨front, l, ha⟩
  · obtain rfl := eq_nil_of_spelled hnil
    exact .inl (by rw [spelled_nil]; rfl)
  rw [List.concat_eq_append] at ha
  have hlast := spelled_of_append ha
  rw [List.flatMap_singleton] at hlast
  obtain ⟨c, k, hl, hread, htext, -⟩ := exists_read_of_spelled hlast
  rw [List.flatMap_nil, List.append_nil] at hread htext
  rw [spelled_append_of_last hx ha, htext, List.cons_append, spelled_cons]
  have hstop (hk : Token.read c (k ++ x :: y :: w) = (l.token, x :: y :: w)) :
      front ++ ⟨(Token.read c (k ++ x :: y :: w)).1,
        c :: consumed (k ++ x :: y :: w) (Token.read c (k ++ x :: y :: w)).2, .first⟩ ::
          spelled (Token.read c (k ++ x :: y :: w)).2 = spelled a ++ spelled (x :: y :: w) := by
    rw [hk, consumed_append_self, ← hl, ha, List.append_assoc]
    rfl
  by_cases hkind : l.token.isEnclosed = true
  · obtain ⟨l', hmem, rfl⟩ : ∃ l' ∈ (Components.ofText a).lexemes, l'.unplaced = l := by
      rw [Components.lexemes_ofText]
      exact List.mem_map.1 (show l ∈ spelled a by rw [ha]; simp)
    obtain ⟨c', k', z, htext', hz, hread'⟩ := hended.lexemes l' hmem hkind
    obtain ⟨rfl, rfl⟩ : c = c' ∧ k = k' := List.cons.inj (htext.symm.trans htext')
    refine .inl (hstop (Token.read_resume hread' hkind ?_ hz _))
    intro content hcontent
    exact ne_nil_of_badString (hread.trans (congrArg (·, []) hcontent)) rfl
  · have hjoins := Token.read_joins (a := k) (c := c) hx
      (by rw [hread]; exact Bool.eq_false_iff.2 hkind)
    rw [Joins, hread] at hjoins
    rcases hjoins with hk | ⟨-, hflat, htake⟩
    · exact .inl (hstop (hk _))
    · obtain ⟨t, ht, hk⟩ := htake y w hy
      refine .inr ⟨front, l, t, ha, hflat, ht, ?_⟩
      have hconsumed : consumed (k ++ x :: y :: w) (y :: w) = k ++ [x] := by
        rw [← consumed_append_self (k ++ [x]) (y :: w), List.append_assoc]
        rfl
      rw [hk, hconsumed, htext]
      rfl

end Texts

namespace Components

variable {b : Option Bracket} {cs : Components}

/-- A last lexeme that closes no block stands outside all blocks. -/
theorem Closed.exists_append_leaf (h : cs.Closed b) {front : List Lexeme} {l : Lexeme}
    (hcs : cs.lexemes = front ++ [l]) (hl : l.token.isFlat) :
    ∃ (ds : Components) (p : Position),
      ds.Closed b ∧ ds.lexemes = front ∧ cs = ds.append (.leaf l (nil p)) := by
  induction cs generalizing front with
  | nil => simp [lexemes] at hcs
  | leaf k rest ih =>
    obtain ⟨ho, hc, hrest⟩ := h
    rcases List.eq_nil_or_concat rest.lexemes with hnil | ⟨mid, l', hmid⟩
    · obtain ⟨p, rfl⟩ := exists_nil_of_lexemes hnil
      obtain ⟨rfl, hk⟩ := List.append_inj' (show [] ++ [k] = front ++ [l] from hcs) rfl
      obtain rfl := List.singleton_inj.1 hk
      exact ⟨nil p, p, trivial, rfl, rfl⟩
    · rw [List.concat_eq_append] at hmid
      rw [lexemes, hmid, ← List.cons_append] at hcs
      obtain ⟨rfl, hl'⟩ := List.append_inj' hcs rfl
      obtain rfl := List.singleton_inj.1 hl'
      obtain ⟨ds, p, hds, rfl, rfl⟩ := ih hrest hmid
      exact ⟨.leaf k ds, p, ⟨ho, hc, hds⟩, rfl, rfl⟩
  | block opener inner closer rest _ ih =>
    obtain ⟨c, k, ho, rfl, hk, hinner, hrest⟩ := h
    have hblock : (block opener inner (some k) rest).lexemes =
        (opener :: inner.lexemes ++ [k]) ++ rest.lexemes := by simp [lexemes]
    rcases List.eq_nil_or_concat rest.lexemes with hnil | ⟨mid, l', hmid⟩
    · -- The last lexeme would close the block.
      rw [hblock, hnil, List.append_nil] at hcs
      obtain ⟨-, hl'⟩ := List.append_inj' hcs rfl
      obtain rfl := List.singleton_inj.1 hl'
      simp [Token.isFlat, hk] at hl
    · rw [List.concat_eq_append] at hmid
      rw [hblock, hmid, ← List.append_assoc] at hcs
      obtain ⟨rfl, hl'⟩ := List.append_inj' hcs rfl
      obtain rfl := List.singleton_inj.1 hl'
      obtain ⟨ds, p, hds, rfl, rfl⟩ := ih hrest hmid
      exact ⟨.block opener inner (some k) ds, p, ⟨c, k, ho, rfl, hk, hinner, hds⟩,
        by simp [lexemes], rfl⟩

end Components

end RasterFallback.Css
