import RasterFallback.Image.Url
import RasterFallback.Proofs.Css.Break

/-!
Texts between `url(` and `)`. A text is read back as it was written if and only
if all its characters stand for themselves there; a blank may break the url off,
and an escape always comes out shorter than it was written.
-/
namespace RasterFallback.Css
open RasterFallback.Text

/-- A character that an unquoted url holds as it is written. -/
def standsInUrl (c : Char) : Bool :=
  !(c == ')' || isAsciiBlank c || breaksUrl c || c == '\\' || c == '\x00')

theorem escape_length_lt {s : List Char} (h : s ≠ []) : (escape s).2.length < s.length := by
  obtain ⟨c, s, rfl⟩ := List.exists_cons_of_ne_nil h
  unfold escape
  simp only
  split
  · rename_i hc
    have hdrop := (dropSpace_suffix ((c :: s).drop
      (((c :: s).take 6).takeWhile fun d => (hexValue? d).isSome).length)).length_le
    have hpos : 0 < (((c :: s).take 6).takeWhile fun d => (hexValue? d).isSome).length := by
      simp [hc]
    simp only [List.length_drop, List.length_cons] at hdrop ⊢
    omega
  · simp

theorem urlContent_closing (s : List Char) : urlContent (')' :: s) = (some [], s) := by
  simp [urlContent]

theorem urlContent_append {s : List Char} (h : ∀ c ∈ s, standsInUrl c) (rest : List Char) :
    urlContent (s ++ ')' :: rest) = (some s, rest) := by
  induction s with
  | nil => exact urlContent_closing rest
  | cons c s ih =>
    have hc := h c (List.mem_cons_self ..)
    simp only [standsInUrl, Bool.not_eq_true', Bool.or_eq_false_iff, beq_eq_false_iff_ne] at hc
    obtain ⟨⟨⟨⟨hparen, hblank⟩, hbreak⟩, hslash⟩, hnull⟩ := hc
    rw [List.cons_append, urlContent, if_neg hparen, if_neg (by simp [hblank]),
      if_neg (by simp [hbreak]), if_neg hslash, ih fun c hc => h c (List.mem_cons_of_mem _ hc)]
    simp [unnull, hnull]

theorem urlContent_length (s : List Char) :
    ∀ u, (urlContent s).1 = some u → u.length ≤ s.length := by
  fun_induction urlContent s with
  | case1 => simp
  | case2 => simp
  | case3 => simp
  | case4 => simp
  | case5 => simp
  | case6 s _ _ _ _ r ih =>
    intro u h
    obtain ⟨v, hv, rfl⟩ := Option.map_eq_some_iff.1 h
    have hlen := ih v hv
    have hesc := escape_length s
    simp only [List.length_cons]
    omega
  | case7 c s _ _ _ _ r ih =>
    intro u h
    obtain ⟨v, hv, rfl⟩ := Option.map_eq_some_iff.1 h
    simpa using ih v hv

theorem urlContent_length_lt (s : List Char) (hs : ')' ∈ s) :
    ∀ u, (urlContent s).1 = some u → u.length < s.length := by
  fun_induction urlContent s with
  | case1 => simp at hs
  | case2 => simp
  | case3 => simp
  | case4 => simp
  | case5 => simp
  | case6 s _ _ _ _ r ih =>
    intro u h
    obtain ⟨v, hv, rfl⟩ := Option.map_eq_some_iff.1 h
    have hlen := urlContent_length _ v hv
    have hne : s ≠ [] := by rintro rfl; simp at hs
    have hesc := escape_length_lt hne
    simp only [List.length_cons]
    omega
  | case7 c s hc _ _ _ r ih =>
    intro u h
    obtain ⟨v, hv, rfl⟩ := Option.map_eq_some_iff.1 h
    have hmem : ')' ∈ s := (List.mem_cons.1 hs).resolve_left fun e => hc e.symm
    simpa using ih hmem v hv

/-- Only characters that stand for themselves come out as they were written. -/
theorem standsInUrl_of_urlContent {s : List Char} (h : (urlContent (s ++ [')'])).1 = some s) :
    ∀ c ∈ s, standsInUrl c := by
  induction s with
  | nil => simp
  | cons c s ih =>
    rw [List.cons_append, urlContent] at h
    split at h
    · simp at h
    · rename_i hparen
      split at h
      · simpa using (Option.ite_none_right_eq_some.1 h).2
      · rename_i hblank
        split at h
        · simp at h
        · rename_i hbreak
          split at h
          · -- An escape leaves too little text for a content as long as what was written.
            exfalso
            split at h
            · simp at h
            · obtain ⟨v, hv, hcons⟩ := Option.map_eq_some_iff.1 h
              obtain ⟨hfirst, rfl⟩ := List.cons.inj hcons
              have hesc := escape_length_lt (s := v ++ [')']) (by simp)
              have hsuffix := escape_suffix (v ++ [')'])
              by_cases hmem : ')' ∈ (escape (v ++ [')'])).2
              · have hlen := urlContent_length_lt _ hmem v hv
                simp at hesc
                omega
              · have hnil : (escape (v ++ [')'])).2 = [] := by
                  rcases List.eq_nil_or_concat (escape (v ++ [')'])).2 with hn | ⟨t, x, ht⟩
                  · exact hn
                  · rw [ht] at hsuffix hmem
                    obtain ⟨w, hw⟩ := hsuffix
                    rw [List.concat_eq_append, ← List.append_assoc] at hw
                    obtain ⟨-, hx⟩ := List.append_inj' hw rfl
                    simp [(List.cons.inj hx).1] at hmem
                rw [hnil] at hv
                obtain rfl : v = [] := by simpa [urlContent] using hv.symm
                simp_all [escape, hexValue?, unnull]
          · rename_i hslash
            obtain ⟨v, hv, hcons⟩ := Option.map_eq_some_iff.1 h
            obtain ⟨hfirst, rfl⟩ := List.cons.inj hcons
            intro x hx
            rcases List.mem_cons.1 hx with rfl | hx
            · have hnull : x ≠ '\x00' := by
                rintro rfl
                exact absurd hfirst (by decide)
              simp [standsInUrl, hparen, hblank, hbreak, hslash, hnull]
            · exact ih hv x hx

/-- No parenthesis closes the text `s`, and none behind it is escaped. -/
def OpenUrl (s : List Char) : Prop := ')' ∉ s ∧ s.getLast? ≠ some '\\'

theorem OpenUrl.suffix {s t : List Char} (h : OpenUrl s) (ht : t <:+ s) : OpenUrl t := by
  obtain ⟨w, rfl⟩ := ht
  refine ⟨fun hm => h.1 (List.mem_append_right w hm), fun hl => h.2 ?_⟩
  rw [List.getLast?_append, hl]
  rfl

theorem urlEnd_append {s : List Char} (h : ')' ∉ s) :
    (∀ rest, urlEnd (s ++ ')' :: rest) = (true, rest)) ∨
      ∃ t, t <:+ s ∧ ∀ rest, urlEnd (s ++ ')' :: rest) = (false, t ++ ')' :: rest) := by
  induction s with
  | nil => exact .inl fun rest => by simp [urlEnd]
  | cons c s ih =>
    obtain ⟨hc, hs⟩ := List.ne_and_not_mem_of_not_mem_cons h
    by_cases hb : isAsciiBlank c = true
    · rcases ih hs with ih | ⟨t, ht, ih⟩
      · exact .inl fun rest => by simp [urlEnd, hc.symm, hb, ih]
      · exact .inr ⟨t, ht.trans (List.suffix_cons ..), fun rest => by
          simp [urlEnd, hc.symm, hb, ih]⟩
    · exact .inr ⟨s, List.suffix_cons .., fun rest => by simp [urlEnd, hc.symm, hb]⟩

/-- A broken url ends at a closing parenthesis, or with the text. -/
theorem brokenUrlEnd_eq (s : List Char) : brokenUrlEnd s = [] ∨ ∃ r, brokenUrlEnd s = ')' :: r := by
  fun_induction brokenUrlEnd s with
  | case1 => exact .inl rfl
  | case2 s ih => exact ih
  | case3 s ih => exact ih
  | case4 s => exact .inr ⟨s, rfl⟩
  | case5 c s hparen hslash hc ih => exact ih

theorem brokenUrlEnd_append (s : List Char) (h : OpenUrl s) (rest : List Char) :
    brokenUrlEnd (s ++ ')' :: rest) = ')' :: rest := by
  fun_induction brokenUrlEnd s with
  | case1 => simp [brokenUrlEnd]
  | case2 s ih => exact (h.1 (by simp)).elim
  | case3 s ih =>
    have hs := h.suffix ((List.suffix_cons '\\' s).trans (List.suffix_cons '\\' _))
    simpa [brokenUrlEnd] using ih hs
  | case4 => exact (h.1 (by simp)).elim
  | case5 c s hparen hslash hc ih =>
    have hs := h.suffix (List.suffix_cons c s)
    rw [List.cons_append, brokenUrlEnd]
    · rw [if_neg hc, ih hs]
    · rintro t rfl ht
      cases s with
      | nil => exact h.2 rfl
      | cons d s =>
        obtain ⟨rfl, rfl⟩ := List.cons.inj ht
        exact hparen s rfl rfl
    · rintro t rfl ht
      cases s with
      | nil => exact h.2 rfl
      | cons d s =>
        obtain ⟨rfl, rfl⟩ := List.cons.inj ht
        exact hslash s rfl rfl

theorem endsEscape_paren : EndsEscape ')' := ⟨by decide, by decide⟩

/-- What an unquoted url holds is settled at its parenthesis, whatever follows. -/
theorem urlContent_settled (s : List Char) (h : OpenUrl s) :
    (∃ u, ∀ rest, urlContent (s ++ ')' :: rest) = (some u, rest)) ∨
      ∃ t, t <:+ s ∧ ∀ rest, urlContent (s ++ ')' :: rest) = (none, t ++ ')' :: rest) := by
  fun_induction urlContent s with
  | case1 => exact .inl ⟨[], urlContent_closing⟩
  | case2 => exact (h.1 (by simp)).elim
  | case3 c s hc hb _ =>
    have hs := (h.suffix (List.suffix_cons c s)).1
    rcases urlEnd_append hs with he | ⟨t, ht, he⟩
    · exact .inl ⟨[], fun rest => by simp [urlContent, hc, hb, he]⟩
    · exact .inr ⟨t, ht.trans (List.suffix_cons ..), fun rest => by simp [urlContent, hc, hb, he]⟩
  | case4 c s hc hb hbreak =>
    exact .inr ⟨s, List.suffix_cons .., fun rest => by simp [urlContent, hc, hb, hbreak]⟩
  | case5 s hn _ hb hbreak =>
    refine .inr ⟨s, List.suffix_cons .., ?_⟩
    intro rest
    have hn' : startsNewline (s ++ ')' :: rest) = true := by
      cases s with
      | nil => simp [startsNewline] at hn
      | cons d s => exact hn
    simp [urlContent, hb, hbreak, hn']
  | case6 s hn r _ hb hbreak ih =>
    have hne : s ≠ [] := by
      rintro rfl
      exact h.2 rfl
    have hn' (rest : List Char) : ¬startsNewline (s ++ ')' :: rest) = true := by
      obtain ⟨d, s, rfl⟩ := List.exists_cons_of_ne_nil hne
      exact hn
    have hsuffix := (escape_suffix s).trans (List.suffix_cons '\\' s)
    rcases ih (h.suffix hsuffix) with ⟨u, hu⟩ | ⟨t, ht, hu⟩
    · refine .inl ⟨(escape s).1 :: u, ?_⟩
      intro rest
      simp [urlContent, hb, hbreak, hn', endsEscape_paren.escape_append hne, hu]
    · refine .inr ⟨t, ht.trans hsuffix, ?_⟩
      intro rest
      simp [urlContent, hb, hbreak, hn', endsEscape_paren.escape_append hne, hu]
  | case7 c s hc hb hbreak hslash r ih =>
    rcases ih (h.suffix (List.suffix_cons c s)) with ⟨u, hu⟩ | ⟨t, ht, hu⟩
    · refine .inl ⟨unnull c :: u, ?_⟩
      intro rest
      simp [urlContent, hc, hb, hbreak, hslash, hu]
    · refine .inr ⟨t, ht.trans (List.suffix_cons ..), ?_⟩
      intro rest
      simp [urlContent, hc, hb, hbreak, hslash, hu]

/-- No quote mark makes the text a function's argument. -/
def Unquoted (s : List Char) : Prop := ∀ c ∈ s, c ≠ '\x22' ∧ c ≠ '\x27'

theorem consumed_append_self (w rest : List Char) : consumed (w ++ rest) rest = w :=
  List.append_cancel_right (consumed_append (List.suffix_append w rest))

/-- The content of an unquoted url, unless something breaks it. Blanks may stand before it. -/
def unquoted? (s : List Char) : Option (List Char) :=
  (urlContent (s.dropWhile isAsciiBlank ++ [')'])).1

theorem urlToken_unquoted {s : List Char} (f : Token)
    (hd : (s.dropWhile isAsciiBlank).head? ≠ some '\x22')
    (hs : (s.dropWhile isAsciiBlank).head? ≠ some '\x27') :
    urlToken f s = match urlContent (s.dropWhile isAsciiBlank) with
      | (some content, left) => (.unquotedUrl (String.ofList content), left)
      | (none, left) =>
        (.badUrl (String.ofList (consumed (s.dropWhile isAsciiBlank) (brokenUrlEnd left))),
          (brokenUrlEnd left).drop 1) := by
  unfold urlToken
  simp only
  split
  · simp_all
  · simp_all
  · rfl

/-- Up to its parenthesis an unquoted text is one token, a url or a broken one. -/
theorem urlToken_settled {s : List Char} (h : OpenUrl s) (hq : Unquoted s) (f : Token) :
    (∃ u, unquoted? s = some u ∧
        ∀ rest, urlToken f (s ++ ')' :: rest) = (.unquotedUrl (String.ofList u), rest)) ∨
      unquoted? s = none ∧ ∃ b, ∀ rest, urlToken f (s ++ ')' :: rest) = (.badUrl b, rest) := by
  have hsuffix : s.dropWhile isAsciiBlank <:+ s := List.dropWhile_suffix _
  have hdrop (rest : List Char) := dropWhile_append_cons endsEscape_paren.2 s rest
  have hquote {q : Char} (hp : q ≠ ')') (hs : ∀ c ∈ s, c ≠ q) (rest : List Char) :
      ((s ++ ')' :: rest).dropWhile isAsciiBlank).head? ≠ some q := by
    rw [hdrop]
    cases hd : s.dropWhile isAsciiBlank with
    | nil => simpa using hp.symm
    | cons c t => simpa using hs c (hsuffix.mem (hd ▸ List.mem_cons_self ..))
  have hbody (rest : List Char) := urlToken_unquoted f
    (hquote (by decide) (fun c hc => (hq c hc).1) rest)
    (hquote (by decide) (fun c hc => (hq c hc).2) rest)
  simp only [hdrop] at hbody
  rcases urlContent_settled _ (h.suffix hsuffix) with ⟨u, hu⟩ | ⟨t, ht, hu⟩
  · refine .inl ⟨u, by simp [unquoted?, hu], ?_⟩
    intro rest
    rw [hbody, hu]
  · refine .inr ⟨by simp [unquoted?, hu], String.ofList (s.dropWhile isAsciiBlank),
      fun rest => ?_⟩
    rw [hbody, hu]
    simp only [brokenUrlEnd_append t (h.suffix (ht.trans hsuffix)), consumed_append_self,
      List.drop_succ_cons, List.drop_zero]

/-- A text is read back from an unquoted url as it was written if and only if all its
characters stand for themselves. -/
theorem unquoted?_eq_self_iff (s : List Char) :
    unquoted? s = some s ↔ ∀ c ∈ s, standsInUrl c := by
  constructor
  · intro h
    have hlen := urlContent_length_lt _ (by simp) s h
    have hdrop : s.dropWhile isAsciiBlank = s := by
      refine (List.dropWhile_suffix _).eq_of_length_le ?_
      simp at hlen
      omega
    rw [unquoted?, hdrop] at h
    exact standsInUrl_of_urlContent h
  · intro h
    have hdrop : s.dropWhile isAsciiBlank = s := by
      cases s with
      | nil => rfl
      | cons c s =>
        have hc := h c (List.mem_cons_self ..)
        simp only [standsInUrl, Bool.not_eq_true', Bool.or_eq_false_iff] at hc
        exact List.dropWhile_cons_of_neg (by simp [hc.1.1.1.2])
    rw [unquoted?, hdrop, urlContent_append h]

theorem read_url (s : List Char) :
    Token.read 'u' ('r' :: 'l' :: '(' :: s) = urlToken (.function "url") s := by
  have hname : name ('u' :: 'r' :: 'l' :: '(' :: s) = (['u', 'r', 'l'], '(' :: s) := by
    simp [name, isNameChar, isNameStart, unnull]
  have hread : Token.read 'u' ('r' :: 'l' :: '(' :: s) =
      nameToken ('u' :: 'r' :: 'l' :: '(' :: s) := by
    simp [Token.read, isAsciiBlank, isNewline, startsNumber, startsDigit, fraction?, startsName,
      isNameStart]
  rw [hread, nameToken, hname]
  rfl

/-- Between quote marks a text is read back as it was written if its characters stand for
themselves in an unquoted url. -/
theorem quotedContent_append {q : Char} (hq : q = '\x22' ∨ q = '\x27') {s : List Char}
    (hs : ∀ c ∈ s, standsInUrl c) (rest : List Char) :
    quotedContent q (s ++ q :: rest) = (s, false, rest) := by
  induction s with
  | nil => simp [quotedContent]
  | cons c s ih =>
    have hc := hs c (List.mem_cons_self ..)
    simp only [standsInUrl, isAsciiBlank, breaksUrl, Bool.not_eq_true', Bool.or_eq_false_iff,
      beq_eq_false_iff_ne] at hc
    obtain ⟨⟨⟨⟨-, -, hnewline⟩, hmarks, -⟩, hslash⟩, hnull⟩ := hc
    have hquote : c ≠ q := by rcases hq with rfl | rfl <;> simp_all
    rw [List.cons_append, quotedContent, if_neg hquote, if_neg (by simp [hnewline]),
      if_neg hslash, ih fun c hc => hs c (List.mem_cons_of_mem _ hc)]
    simp [unnull, hnull]

theorem read_quoted {q : Char} (hq : q = '\x22' ∨ q = '\x27') {s : List Char}
    (hs : ∀ c ∈ s, standsInUrl c) (rest : List Char) :
    Token.read q (s ++ q :: rest) = (.quotedString (String.ofList s), rest) := by
  have hread : Token.read q (s ++ q :: rest) = quotedToken q (s ++ q :: rest) := by
    rcases hq with rfl | rfl
    · simp [Token.read, isAsciiBlank, isNewline, startsNumber, startsDigit, fraction?]
    · simp [Token.read, isAsciiBlank, isNewline, startsNumber, startsDigit, fraction?]
  rw [hread, quotedToken, quotedContent_append hq hs]

theorem read_closeParen (s : List Char) : Token.read ')' s = (.closing .paren, s) := by
  simp [Token.read, isAsciiBlank, isNewline, startsNumber, startsDigit, fraction?]

/-- A quote mark makes the url a function. -/
theorem read_url_quoted {q : Char} (hq : q = '\x22' ∨ q = '\x27') (s : List Char) :
    Token.read 'u' ('r' :: 'l' :: '(' :: q :: s) = (.function "url", q :: s) := by
  rw [read_url, urlToken]
  rcases hq with rfl | rfl <;> rfl

end RasterFallback.Css

namespace RasterFallback
open RasterFallback.Text RasterFallback.Css

theorem lexemes_cons (p : Position) {c : Char} {s rest : List Char} {t : Token}
    (h : Token.read c s = (t, rest)) (w : List Char) (hs : s = w ++ rest) :
    Css.lexemes p (c :: s) = ⟨t, c :: w, p⟩ :: Css.lexemes (p.after (c :: w)) rest := by
  subst hs
  rw [Css.lexemes]
  simp [h, consumed_append_self]

theorem lexemes_single (p : Position) {c : Char} {s : List Char} {t : Token}
    (h : Token.read c s = (t, [])) : Css.lexemes p (c :: s) = [⟨t, c :: s, p⟩] := by
  rw [lexemes_cons p h s (List.append_nil s).symm, Css.lexemes]

/-- The urls of a value that is one unquoted url. -/
theorem urlArguments_url {s : List Char} (h : OpenUrl s) (hq : Unquoted s) :
    urlArguments (String.ofList ('u' :: 'r' :: 'l' :: '(' :: (s ++ [')']))) =
      ((unquoted? s).map String.ofList).toList := by
  rw [urlArguments, Components.ofText, String.toList_ofList]
  rcases urlToken_settled h hq (.function "url") with ⟨u, hu, ht⟩ | ⟨hu, b, ht⟩
  · rw [lexemes_single Position.first ((read_url _).trans (ht [])), hu]
    rfl
  · rw [lexemes_single Position.first ((read_url _).trans (ht [])), hu]
    rfl

/-- The url of a value that is one unquoted url in which all characters stand for themselves. -/
theorem urlArguments_bare {s : List Char} (hs : ∀ c ∈ s, standsInUrl c) :
    urlArguments (String.ofList ('u' :: 'r' :: 'l' :: '(' :: (s ++ [')']))) = [String.ofList s] := by
  have hne {x : Char} (hx : standsInUrl x = false) : ∀ c ∈ s, c ≠ x := by
    rintro c hc rfl
    have hstands := hs c hc
    rw [hx] at hstands
    cases hstands
  have hopen : OpenUrl s :=
    ⟨fun h => hne (by decide) ')' h rfl, fun h => hne (by decide) '\\' (List.mem_of_getLast? h) rfl⟩
  have hquotes : Unquoted s := fun c hc => ⟨hne (by decide) c hc, hne (by decide) c hc⟩
  rw [urlArguments_url hopen hquotes, (unquoted?_eq_self_iff s).2 hs]
  rfl

/-- The url of a value that is one url with its argument in quotes. -/
theorem urlArguments_quoted {q : Char} (hq : q = '\x22' ∨ q = '\x27') {s : List Char}
    (hs : ∀ c ∈ s, standsInUrl c) :
    urlArguments (String.ofList ('u' :: 'r' :: 'l' :: '(' :: q :: (s ++ [q, ')']))) =
      [String.ofList s] := by
  have hopener (p : Position) :=
    lexemes_cons p (read_url_quoted hq (s ++ [q, ')'])) ['r', 'l', '('] rfl
  have hstring (p : Position) := lexemes_cons p (read_quoted hq hs [')']) (s ++ [q]) (by simp)
  have hcloser (p : Position) := lexemes_cons p (read_closeParen []) [] rfl
  rw [urlArguments, Components.ofText, String.toList_ofList, hopener, hstring, hcloser,
    Css.lexemes]
  rfl

end RasterFallback
