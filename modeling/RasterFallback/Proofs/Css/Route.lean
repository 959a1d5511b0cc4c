import RasterFallback.Proofs.Css.Separator

/-!
Which reader a token is read by. The first character and what stands behind it decide, and
separators behind that do not change it.
-/
namespace RasterFallback.Css
open RasterFallback.Text

theorem Token.read_cdc (s : List Char) : Token.read '-' ('-' :: '>' :: s) = (.cdc, s) := by
  simp [Token.read, isAsciiBlank, isNewline, startsNumber, startsDigit, fraction?]

theorem Token.read_cdo (s : List Char) : Token.read '<' ('!' :: '-' :: '-' :: s) = (.cdo, s) := by
  simp [Token.read, isAsciiBlank, isNewline, startsNumber, startsDigit, fraction?]

theorem Token.read_comment (s : List Char) : Token.read '/' ('*' :: s) =
    (.comment (String.ofList (commentContent s).1), (commentContent s).2) := by
  simp [Token.read, isAsciiBlank, isNewline, startsNumber, startsDigit, fraction?]

theorem Token.read_blank {c : Char} (hc : isAsciiBlank c) (s : List Char) : Token.read c s =
    (.whitespace (String.ofList (c :: s.takeWhile isAsciiBlank)), s.dropWhile isAsciiBlank) := by
  simp [Token.read, hc]

theorem Token.read_quote {c : Char} (hc : c = '\x22' ∨ c = '\x27') (s : List Char) :
    Token.read c s = quotedToken c s := by
  rcases hc with rfl | rfl <;>
    simp [Token.read, isAsciiBlank, isNewline, startsNumber, startsDigit, fraction?]

theorem not_nameStart_of_isDigit {c : Char} (h : c.isDigit) : isNameStart c = false := by
  have hall : ∀ n < 58, 48 ≤ n → isNameStart (Char.ofNat n) = false := by decide
  have hc : 48 ≤ c.toNat ∧ c.toNat ≤ 57 := by
    simpa [Char.isDigit, UInt32.le_iff_toNat_le] using h
  rw [← Char.ofNat_toNat c]
  exact hall c.toNat (by omega) hc.1

theorem not_startsNumber_of_startsName {s : List Char} (h : startsName s) :
    startsNumber s = false := by
  have hdigit {c : Char} (hc : isNameStart c = true ∨ c = '-' ∨ c = '\\') (t : List Char) :
      startsDigit (c :: t) = false ∧ fraction? (c :: t) = none := by
    have hc' : c.isDigit = false ∧ c ≠ '.' := by
      rcases hc with hc | rfl | rfl
      · refine ⟨Bool.eq_false_iff.2 fun hd => ?_, ?_⟩
        · simp [not_nameStart_of_isDigit hd] at hc
        · rintro rfl
          exact absurd hc (by decide)
      · exact ⟨by decide, by decide⟩
      · exact ⟨by decide, by decide⟩
    exact ⟨hc'.1, by simp [fraction?, hc'.2]⟩
  unfold startsName at h
  split at h
  · cases h
  · cases h
  · rename_i c t
    have hc := hdigit (c := c) (by simpa [or_assoc] using h) t
    simp [startsNumber, hc.1, hc.2]
  · rename_i t
    have hc := hdigit (c := '\\') (by simp) t
    simp [startsNumber, hc.1, hc.2]
  · rename_i c t _ _ _
    have hc := hdigit (c := c) (.inl h) t
    have hplus : c ≠ '+' := by
      rintro rfl
      exact absurd h (by decide)
    have hminus : c ≠ '-' := by
      rintro rfl
      exact absurd h (by decide)
    simp [startsNumber, hplus, hminus, hc.1, hc.2]

/-- Where a name begins a token with a name is read, unless there is an arrow. -/
theorem Token.read_name {c : Char} {s : List Char} (h : startsName (c :: s))
    (harrow : ¬(c = '-' ∧ ['-', '>'] <+: s)) : Token.read c s = nameToken (c :: s) := by
  have hnumber := not_startsNumber_of_startsName h
  have hc : isNameStart c = true ∨ c = '-' ∨ c = '\\' := by
    by_cases hdash : c = '-'
    · exact .inr (.inl hdash)
    · by_cases hslash : c = '\\'
      · exact .inr (.inr hslash)
      · exact .inl (by simpa [startsName, hdash, hslash] using h)
  have hblank : isAsciiBlank c = false := by
    refine Bool.eq_false_iff.2 fun hb => ?_
    rcases isAsciiBlank_cases hb with rfl | rfl | rfl | rfl | rfl <;> exact absurd hc (by decide)
  unfold Token.read
  rw [if_neg (by simp [hblank]), if_neg (by simp [hnumber])]
  split
  case h_1 rest => exact absurd ⟨rfl, rest, rfl⟩ harrow
  case h_22 => rw [if_pos h]
  all_goals exact absurd hc (by decide)

/-- The readers for what starts with the character `c` in front of `a`. -/
inductive Route (c : Char) (a : List Char) : (List Char → Token × List Char) → Prop where
  | blank (h : isAsciiBlank c) : Route c a fun s =>
      (.whitespace (String.ofList (c :: s.takeWhile isAsciiBlank)), s.dropWhile isAsciiBlank)
  | number : Route c a fun s => numericToken (c :: s)
  /-- A token that is always spelled alike. -/
  | marks (t : Token) {front : List Char} (h : front <+: a) :
      Route c a fun s => (t, s.drop front.length)
  | pair (t : Token) : Route c a (symbolOrMatch c t)
  | quoted (h : c = '\x22' ∨ c = '\x27') : Route c a (quotedToken c)
  | hash : Route c a hashToken
  | keyword (h : startsName a) :
      Route c a fun s => (.atKeyword (String.ofList (name s).1), (name s).2)
  | comment {b : List Char} (hc : c = '/') (h : a = '*' :: b) : Route c a fun s =>
      (.comment (String.ofList (commentContent s.tail).1), (commentContent s.tail).2)
  | named (h : startsName (c :: a)) : Route c a fun s => nameToken (c :: s)

/-- Whatever separators stand behind, the reader is the same. A backslash at the end of `a` would
begin a name, but not in front of a line break. -/
theorem Token.exists_route (c : Char) (a : List Char) : ∃ read, Route c a read ∧
    ∀ z, Separates z → (startsNewline z = false ∨ '\\' ∉ c :: a) →
      Token.read c (a ++ z) = read (a ++ z) := by
  by_cases hb : isAsciiBlank c = true
  · exact ⟨_, .blank hb, fun z _ _ => read_blank hb (a ++ z)⟩
  by_cases hn : startsNumber (c :: a) = true
  · refine ⟨_, .number, fun z hz _ => ?_⟩
    have hw := hz.startsNumber_append (c :: a)
    rw [hn, List.cons_append] at hw
    simp [Token.read, hb, hw]
  have hnumber (z : List Char) (hz : Separates z) : ¬startsNumber (c :: (a ++ z)) = true := by
    have hw := hz.startsNumber_append (c :: a)
    rw [List.cons_append] at hw
    rwa [hw]
  by_cases hsign : c ∈ ['(', '[', '\x7b', ')', ']', '\x7d', ',', ':', ';']
  · simp only [List.mem_cons, List.not_mem_nil, or_false] at hsign
    refine ⟨_, .marks (Token.read c a).1 List.nil_prefix, fun z hz _ => ?_⟩
    unfold Token.read
    rw [if_neg hb, if_neg (hnumber z hz), if_neg hb, if_neg hn]
    rcases hsign with rfl | rfl | rfl | rfl | rfl | rfl | rfl | rfl | rfl <;> rfl
  by_cases hmatch : c ∈ ['$', '*', '^', '|', '~']
  · simp only [List.mem_cons, List.not_mem_nil, or_false] at hmatch
    refine ⟨_, .pair (Token.read c ['=']).1, fun z hz _ => ?_⟩
    unfold Token.read
    rw [if_neg hb, if_neg (hnumber z hz)]
    rcases hmatch with rfl | rfl | rfl | rfl | rfl <;> rfl
  by_cases hquote : c = '\x22' ∨ c = '\x27'
  · exact ⟨_, .quoted hquote, fun z _ _ => read_quote hquote (a ++ z)⟩
  by_cases hhash : c = '#'
  · subst hhash
    refine ⟨_, .hash, fun z hz _ => ?_⟩
    rw [Token.read, if_neg hb, if_neg (hnumber z hz)]
  by_cases hat : c = '@'
  · subst hat
    have hread (z : List Char) (hz : Separates z)
        (hline : startsNewline z = false ∨ '\\' ∉ '@' :: a) :
        Token.read '@' (a ++ z) =
          if startsName a then (.atKeyword (String.ofList (name (a ++ z)).1), (name (a ++ z)).2)
          else (.delim '@', a ++ z) := by
      rw [Token.read, if_neg hb, if_neg (hnumber z hz),
        hz.startsName_append (hline.imp_right fun h hmem => h (List.mem_cons_of_mem _ hmem))]
    by_cases hs : startsName a = true
    · exact ⟨_, .keyword hs, fun z hz hline => by rw [hread z hz hline, if_pos hs]⟩
    · exact ⟨_, .marks (.delim '@') List.nil_prefix, fun z hz hline => by
        rw [hread z hz hline, if_neg hs]
        rfl⟩
  by_cases hcdc : c = '-' ∧ ['-', '>'] <+: a
  · obtain ⟨rfl, m, rfl⟩ := hcdc
    exact ⟨_, .marks .cdc (List.prefix_append ..), fun z _ _ => read_cdc (m ++ z)⟩
  by_cases hcdo : c = '<' ∧ ['!', '-', '-'] <+: a
  · obtain ⟨rfl, m, rfl⟩ := hcdo
    exact ⟨_, .marks .cdo (List.prefix_append ..), fun z _ _ => read_cdo (m ++ z)⟩
  by_cases hcomment : c = '/' ∧ ['*'] <+: a
  · obtain ⟨rfl, m, rfl⟩ := hcomment
    exact ⟨_, .comment rfl rfl, fun z _ _ => read_comment (m ++ z)⟩
  simp only [List.mem_cons, List.not_mem_nil, or_false, not_or] at hsign hmatch hquote
  have hread (z : List Char) (hz : Separates z) (hline : startsNewline z = false ∨ '\\' ∉ c :: a) :
      Token.read c (a ++ z) =
        if startsName (c :: a) then nameToken (c :: (a ++ z)) else (.delim c, a ++ z) := by
    have hname := hz.startsName_append hline
    rw [List.cons_append] at hname
    unfold Token.read
    rw [if_neg hb, if_neg (hnumber z hz), ← hname]
    split
    · rename_i heq
      exact (hcdc ⟨rfl, hz.prefix_of_append (by decide) ⟨_, heq.symm⟩⟩).elim
    · rename_i rest heq
      cases a with
      | nil => exact (hz.2 ⟨rest, heq.symm⟩).elim
      | cons d a =>
        obtain ⟨rfl, htail⟩ := List.cons.inj heq
        have hdash : ['-', '-'] <+: a := hz.prefix_of_append (by decide) ⟨rest, htail.symm⟩
        exact (hcdo ⟨rfl, List.cons_prefix_cons.2 ⟨rfl, hdash⟩⟩).elim
    · rename_i heq
      exact (hcomment ⟨rfl, hz.prefix_of_append (by decide) ⟨_, heq.symm⟩⟩).elim
    all_goals first | rfl | simp_all
  by_cases hs : startsName (c :: a) = true
  · exact ⟨_, .named hs, fun z hz hline => by rw [hread z hz hline, if_pos hs]⟩
  · exact ⟨_, .marks (.delim c) List.nil_prefix, fun z hz hline => by
      rw [hread z hz hline, if_neg hs]
      rfl⟩

end RasterFallback.Css
