import RasterFallback.Css.Lexeme
import RasterFallback.Proofs.Css.Origin
import RasterFallback.Proofs.Css.Settled

/-!
Texts without escapes. In front of a separator a token of such a text either ends, and then
nothing behind it matters, or it is a string, a comment or a url that is open there.
-/
namespace RasterFallback.Css
open RasterFallback.Text

/-- A character of a text without escapes: printable ASCII but the backslash, a tab or a line
break. -/
def isPlain (c : Char) : Bool :=
  (0x20 ≤ c.toNat && c.toNat ≤ 0x7E && c != '\\') || c == '\t' || isNewline c

theorem isPlain_facts {c : Char} (h : isPlain c) :
    c ≠ '\\' ∧ c ≠ '\x00' ∧ isBlank c = isAsciiBlank c := by
  have hall : ∀ n < 127, isPlain (Char.ofNat n) → Char.ofNat n ≠ '\\' ∧ Char.ofNat n ≠ '\x00' ∧
      isBlank (Char.ofNat n) = isAsciiBlank (Char.ofNat n) := by decide
  have hlt : c.toNat < 127 := by
    simp only [isPlain, isNewline, Bool.or_eq_true, Bool.and_eq_true, decide_eq_true_eq,
      beq_iff_eq] at h
    rcases h with (h | rfl) | (rfl | rfl) | rfl
    · omega
    all_goals decide
  rw [← Char.ofNat_toNat c] at h ⊢
  exact hall c.toNat hlt h

/-- Strings, comments and urls: tokens that have an end mark of their own. -/
def Token.isEnclosed : Token → Bool
  | .quotedString _ => true
  | .badString _ => true
  | .comment _ => true
  | .unquotedUrl _ => true
  | .badUrl _ => true
  | _ => false

/-- A string, a comment or a url without its end mark. A line break ends a string too. -/
def Lexeme.isOpen (l : Lexeme) : Bool :=
  match l.token with
  | .quotedString _ => l.text.length < 2 || l.text.getLast? != l.text.head?
  | .comment _ => l.text.length < 4 || !(['*', '/'].isSuffixOf l.text)
  | .unquotedUrl _ => l.text.getLast? != some ')'
  | .badUrl _ => l.text.getLast? != some ')'
  | _ => false

/-- A lexeme that goes on with what follows it, or that a line break cut off. -/
def Lexeme.IsLoose (l : Lexeme) : Prop := l.isOpen ∨ ∃ content, l.token = .badString content

/-- `read` stops within `a`, or at its end, whichever separator follows. -/
def Stops {α : Type} (read : List Char → α × List Char) (a : List Char) : Prop :=
  ∀ z, Separates z → read (a ++ z) = ((read a).1, (read a).2 ++ z)

/-- `read` goes over the end of `a`, unless the text ends there. -/
def Overruns {α : Type} (read : List Char → α × List Char) (a : List Char) : Prop :=
  ∀ z, Separates z → (read (a ++ z)).2 <:+ z ∧ ((read (a ++ z)).2 = z → z = [])

section Readers

variable {α β : Type} {read : List Char → α × List Char} {next : List Char → β × List Char}
  {a b : List Char}

theorem Stops.intro (v : α) (m : List Char) (h : ∀ z, Separates z → read (a ++ z) = (v, m ++ z)) :
    Stops read a := by
  intro z hz
  have ha := h [] separates_nil
  rw [List.append_nil, List.append_nil] at ha
  rw [h z hz, ha]

/-- A reader that reads on after `b` with another one. -/
theorem Stops.map (h : Stops next b) (f : β → α)
    (hread : ∀ z, Separates z → read (a ++ z) = (f (next (b ++ z)).1, (next (b ++ z)).2)) :
    Stops read a :=
  .intro (f (next b).1) (next b).2 fun z hz => by rw [hread z hz, h z hz]

theorem Overruns.map (h : Overruns next b)
    (hread : ∀ z, Separates z → (read (a ++ z)).2 = (next (b ++ z)).2) : Overruns read a := by
  intro z hz
  rw [hread z hz]
  exact h z hz

theorem Overruns.nil (h : ∀ x w, isSeparator x → (read (x :: w)).2 <:+ w)
    (hnil : (read []).2 = []) : Overruns read [] := by
  intro z hz
  rw [List.nil_append]
  cases z with
  | nil => exact ⟨by simp [hnil], fun _ => rfl⟩
  | cons x w =>
    have hsuffix := h x w (hz.1 x rfl)
    refine ⟨hsuffix.trans (List.suffix_cons x w), fun heq => ?_⟩
    have hlen := hsuffix.length_le
    rw [heq, List.length_cons] at hlen
    omega

end Readers

section Plain

variable {a : List Char} (ha : '\\' ∉ a)
include ha

theorem name_stops : Stops name a := by
  fun_induction name a with
  | case1 =>
    refine .intro [] [] fun z hz => ?_
    cases z with
    | nil => simp [name]
    | cons x w =>
      have hslash : x ≠ '\\' := ne_of_isSeparator (hz.1 x rfl) rfl
      rw [List.nil_append, name, if_neg (by simp [not_nameChar_of_isSeparator (hz.1 x rfl)]),
        if_neg (by simp [hslash])]
  | case2 c s hc n ih =>
    exact (ih fun h => ha (List.mem_cons_of_mem _ h)).map (unnull c :: ·) fun z _ => by
      simp [name, hc]
  | case3 c s hc hs n ih =>
    obtain ⟨rfl, -⟩ : c = '\\' ∧ startsNewline s = false := by simpa using hs
    exact absurd (List.mem_cons_self ..) ha
  | case4 c s hc hs =>
    have hslash : c ≠ '\\' := fun h => ha (h ▸ List.mem_cons_self ..)
    exact .intro [] (c :: s) fun z _ => by simp [name, hc, hslash]

theorem numericToken_stops : Stops numericToken a := by
  have hread (z : List Char) (hz : Separates z) := hz.numericToken_append (.inr ha)
  by_cases hp : (numeral a).2.head? = some '%'
  · exact .intro _ _ fun z hz => by rw [hread z hz, if_pos hp]
  · by_cases hn : startsName (numeral a).2 = true
    · have hrest : '\\' ∉ (numeral a).2 := fun h => ha ((numeral_suffix a).subset h)
      exact (name_stops hrest).map (fun n => .dimension (numeral a).1 (String.ofList n))
        fun z hz => by rw [hread z hz, if_neg hp, if_pos hn]
    · exact .intro _ _ fun z hz => by rw [hread z hz, if_neg hp, if_neg hn]

theorem hashToken_stops : Stops hashToken a := by
  by_cases hn : startsName a = true
  · exact (name_stops ha).map (fun n => .idHash (String.ofList n)) fun z hz => by
      simp [hashToken, hz.startsName_append (.inr ha), hn]
  · cases a with
    | nil =>
      refine .intro (.delim '#') [] fun z hz => ?_
      cases z with
      | nil => rfl
      | cons x w =>
        have hhyphen : x ≠ '-' := ne_of_isSeparator (hz.1 x rfl) rfl
        have hw := hz.startsName_append (a := []) (.inr ha)
        rw [List.nil_append] at hw
        simp [hashToken, hw, hn, not_digit_of_isSeparator (hz.1 x rfl), hhyphen]
    | cons c a =>
      have hw (z : List Char) (hz : Separates z) := hz.startsName_append (.inr ha)
      simp only [List.cons_append] at hw
      by_cases hc : (c.isDigit || c == '-') = true
      · exact (name_stops ha).map (fun n => .hash (String.ofList n)) fun z hz => by
          simp [hashToken, hw z hz, hn, hc]
      · exact .intro (.delim '#') (c :: a) fun z hz => by simp [hashToken, hw z hz, hn, hc]

omit ha in
theorem symbolOrMatch_stops (c : Char) (t : Token) (a : List Char) :
    Stops (symbolOrMatch c t) a := by
  cases a with
  | nil =>
    refine .intro (.delim c) [] fun z hz => ?_
    cases z with
    | nil => rfl
    | cons x w =>
      have hequals : x ≠ '=' := ne_of_isSeparator (hz.1 x rfl) rfl
      simp [symbolOrMatch, hequals]
  | cons d a =>
    by_cases hd : d = '='
    · subst hd
      exact .intro t a fun z _ => rfl
    · exact .intro (.delim c) (d :: a) fun z _ => by simp [symbolOrMatch, hd]

/-- A string ends in `a`, or there is no quote mark in `a`. -/
theorem quotedContent_stops_or {q : Char} (hq : isSeparator q = false) :
    (∀ z, Separates z → quotedContent q (a ++ z) =
        ((quotedContent q a).1, (quotedContent q a).2.1, (quotedContent q a).2.2 ++ z)) ∨
      q ∉ a ∧ ∀ z, Separates z → (quotedContent q (a ++ z)).2.2 <:+ z ∧
        ((quotedContent q (a ++ z)).2.2 = z → z = [] ∨ (quotedContent q (a ++ z)).2.1 = true) := by
  fun_induction quotedContent q a with
  | case1 =>
    refine .inr ⟨List.not_mem_nil, fun z hz => ?_⟩
    rw [List.nil_append]
    cases z with
    | nil => exact ⟨quotedContent_suffix q [], fun _ => .inl rfl⟩
    | cons x w =>
      have hxq : x ≠ q := ne_of_isSeparator (hz.1 x rfl) hq
      have hslash : x ≠ '\\' := ne_of_isSeparator (hz.1 x rfl) rfl
      by_cases hline : isNewline x = true
      · simp [quotedContent, hxq, hline]
      · have hsuffix := quotedContent_suffix q w
        have hread : (quotedContent q (x :: w)).2.2 = (quotedContent q w).2.2 := by
          simp [quotedContent, hxq, hline, hslash]
        rw [hread]
        refine ⟨hsuffix.trans (List.suffix_cons x w), fun heq => ?_⟩
        have hlen := hsuffix.length_le
        rw [heq, List.length_cons] at hlen
        omega
  | case2 s => exact .inl fun z _ => by simp [quotedContent]
  | case3 c s hc hn => exact .inl fun z _ => by simp [quotedContent, hc, hn]
  | case4 s => exact absurd (List.mem_cons_self ..) ha
  | case5 s => exact absurd (List.mem_cons_self ..) ha
  | case6 s => exact absurd (List.mem_cons_self ..) ha
  | case7 c s hc hn hs r ih =>
    have hread (z : List Char) : quotedContent q (c :: s ++ z) =
        (unnull c :: (quotedContent q (s ++ z)).1, (quotedContent q (s ++ z)).2) := by
      simp [quotedContent, hc, hn, hs]
    rcases ih fun h => ha (List.mem_cons_of_mem _ h) with hstop | ⟨hmem, hover⟩
    · exact .inl fun z hz => by rw [hread, hstop z hz]
    · refine .inr ⟨fun h => ?_, fun z hz => by rw [hread]; exact hover z hz⟩
      exact (List.mem_cons.1 h).elim (fun h => hc h.symm) hmem

omit ha in
theorem commentContent_stops_or (a : List Char) : Stops commentContent a ∨
    ¬['*', '/'] <:+: a ∧ Overruns commentContent a := by
  fun_induction commentContent a with
  | case1 =>
    refine .inr ⟨by simp, .nil (fun x w hx => ?_) rfl⟩
    have hstar : x ≠ '*' := ne_of_isSeparator hx rfl
    simp [commentContent, hstar, commentContent_suffix]
  | case2 s => exact .inl (.intro [] s fun z _ => by simp [commentContent])
  | case3 c s hend ih =>
    have hread (z : List Char) (hz : Separates z) : commentContent (c :: s ++ z) =
        (c :: (commentContent (s ++ z)).1, (commentContent (s ++ z)).2) := by
      rw [List.cons_append, commentContent]
      rintro t rfl ht
      cases s with
      | nil => exact hz.ne_cons rfl t ht
      | cons d s =>
        obtain ⟨rfl, -⟩ := List.cons.inj ht
        exact hend s rfl rfl
    rcases ih with hstop | ⟨hmarks, hover⟩
    · exact .inl (hstop.map (c :: ·) hread)
    · refine .inr ⟨fun h => ?_, hover.map fun z hz => by rw [hread z hz]⟩
      rcases List.infix_cons_iff.1 h with ⟨t, ht⟩ | h
      · obtain ⟨rfl, rfl⟩ := List.cons.inj ht
        exact hend t rfl rfl
      · exact hmarks h

omit ha in
theorem urlEnd_stops_or (a : List Char) : Stops urlEnd a ∨ ')' ∉ a ∧ Overruns urlEnd a := by
  induction a with
  | nil =>
    refine .inr ⟨List.not_mem_nil, .nil (fun x w hx => ?_) rfl⟩
    have hparen : x ≠ ')' := ne_of_isSeparator hx rfl
    by_cases hb : isAsciiBlank x = true <;> simp [urlEnd, hparen, hb, urlEnd_suffix]
  | cons c a ih =>
    by_cases hc : c = ')'
    · exact .inl (.intro true a fun z _ => by simp [urlEnd, hc])
    · by_cases hb : isAsciiBlank c = true
      · rcases ih with hstop | ⟨hmem, hover⟩
        · exact .inl (hstop.map id fun z _ => by simp [urlEnd, hc, hb])
        · refine .inr ⟨fun h => ?_, hover.map fun z _ => by simp [urlEnd, hc, hb]⟩
          exact (List.mem_cons.1 h).elim (fun h => hc h.symm) hmem
      · exact .inl (.intro false a fun z _ => by simp [urlEnd, hc, hb])

theorem urlContent_stops_or : Stops urlContent a ∨ ')' ∉ a ∧ Overruns urlContent a := by
  fun_induction urlContent a with
  | case1 =>
    refine .inr ⟨List.not_mem_nil, .nil (fun x w hx => ?_) (by simp [urlContent])⟩
    have hparen : x ≠ ')' := ne_of_isSeparator hx rfl
    have hslash : x ≠ '\\' := ne_of_isSeparator hx rfl
    by_cases hb : isAsciiBlank x = true <;> by_cases hbreak : breaksUrl x = true <;>
      simp [urlContent, hparen, hslash, hb, hbreak, urlEnd_suffix, urlContent_suffix]
  | case2 s => exact .inl (.intro (some []) s fun z _ => by simp [urlContent])
  | case3 c s hc hb e =>
    rcases urlEnd_stops_or s with hstop | ⟨hmem, hover⟩
    · exact .inl (hstop.map (fun b => if b then some [] else none) fun z _ => by
        simp [urlContent, hc, hb])
    · refine .inr ⟨fun h => ?_, hover.map fun z _ => by simp [urlContent, hc, hb]⟩
      exact (List.mem_cons.1 h).elim (fun h => hc h.symm) hmem
  | case4 c s hc hb hbreak =>
    exact .inl (.intro none s fun z _ => by simp [urlContent, hc, hb, hbreak])
  | case5 s => exact absurd (List.mem_cons_self ..) ha
  | case6 s => exact absurd (List.mem_cons_self ..) ha
  | case7 c s hc hb hbreak hs r ih =>
    have hread (z : List Char) : urlContent (c :: s ++ z) =
        ((urlContent (s ++ z)).1.map (unnull c :: ·), (urlContent (s ++ z)).2) := by
      simp [urlContent, hc, hb, hbreak, hs]
    rcases ih fun h => ha (List.mem_cons_of_mem _ h) with hstop | ⟨hmem, hover⟩
    · exact .inl (hstop.map (·.map (unnull c :: ·)) fun z _ => hread z)
    · refine .inr ⟨fun h => ?_, hover.map fun z _ => by rw [hread]⟩
      exact (List.mem_cons.1 h).elim (fun h => hc h.symm) hmem

/-- A broken url ends with the first parenthesis. -/
theorem brokenUrlEnd_stops_or : (∃ m, ∀ z, brokenUrlEnd (a ++ z) = ')' :: (m ++ z)) ∨
    ')' ∉ a ∧ ∀ z, brokenUrlEnd (a ++ z) = brokenUrlEnd z := by
  induction a with
  | nil => exact .inr ⟨List.not_mem_nil, fun _ => rfl⟩
  | cons c a ih =>
    have hslash : c ≠ '\\' := fun h => ha (h ▸ List.mem_cons_self ..)
    have hread (s : List Char) : brokenUrlEnd (c :: s) =
        if c = ')' then c :: s else brokenUrlEnd s := by
      rw [brokenUrlEnd]
      · rintro t rfl
        exact absurd rfl hslash
      · rintro t rfl
        exact absurd rfl hslash
    simp only [List.cons_append, hread]
    by_cases hc : c = ')'
    · subst hc
      exact .inl ⟨a, fun _ => rfl⟩
    · simp only [if_neg hc]
      rcases ih fun h => ha (List.mem_cons_of_mem _ h) with hstop | ⟨hmem, hover⟩
      · exact .inl hstop
      · exact .inr ⟨fun h => (List.mem_cons.1 h).elim (fun h => hc h.symm) hmem, hover⟩

omit ha in
theorem urlEnd_broken {s : List Char} (h : (urlEnd s).1 = false) :
    ∃ k, s = k ++ (urlEnd s).2 ∧ ')' ∉ k := by
  induction s with
  | nil => cases h
  | cons c s ih =>
    unfold urlEnd at h ⊢
    split at h
    · cases h
    · rename_i hc
      have hparen (k : List Char) (hk : ')' ∉ k) : ')' ∉ c :: k :=
        fun hmem => (List.mem_cons.1 hmem).elim (fun heq => hc heq.symm) hk
      rw [if_neg hc]
      split at h
      · rename_i hb
        rw [if_pos hb]
        obtain ⟨k, hk, hmem⟩ := ih h
        exact ⟨c :: k, by rw [List.cons_append, ← hk], hparen k hmem⟩
      · rename_i hb
        rw [if_neg hb]
        exact ⟨[c], rfl, hparen [] List.not_mem_nil⟩

/-- What breaks a url comes before its parenthesis. -/
theorem urlContent_broken (h : (urlContent a).1 = none) :
    ∃ k, a = k ++ (urlContent a).2 ∧ ')' ∉ k := by
  have hparen {c : Char} (hc : ¬c = ')') (k : List Char) (hk : ')' ∉ k) : ')' ∉ c :: k :=
    fun hmem => (List.mem_cons.1 hmem).elim (fun heq => hc heq.symm) hk
  fun_induction urlContent a with
  | case1 => cases h
  | case2 => cases h
  | case3 c s hc hb e =>
    have hbroken : (urlEnd s).1 = false := by
      cases hend : (urlEnd s).1 with
      | false => rfl
      | true => simp [e, hend] at h
    obtain ⟨k, hk, hmem⟩ := urlEnd_broken hbroken
    exact ⟨c :: k, congrArg (c :: ·) hk, hparen hc k hmem⟩
  | case4 c s hc hb hbreak => exact ⟨[c], rfl, hparen hc [] List.not_mem_nil⟩
  | case5 s => exact absurd (List.mem_cons_self ..) ha
  | case6 s => exact absurd (List.mem_cons_self ..) ha
  | case7 c s hc hb hbreak hs r ih =>
    have hnone : (urlContent s).1 = none := by simpa using h
    obtain ⟨k, hk, hmem⟩ := ih (fun hmem => ha (List.mem_cons_of_mem _ hmem)) hnone
    exact ⟨c :: k, congrArg (c :: ·) hk, hparen hc k hmem⟩

theorem quotedToken_stops_or {q : Char} (hq : isSeparator q = false) :
    Stops (quotedToken q) a ∨ q ∉ a ∧ ∀ z, Separates z → (quotedToken q (a ++ z)).2 <:+ z ∧
      ((quotedToken q (a ++ z)).2 = z →
        z = [] ∨ ∃ content, (quotedToken q (a ++ z)).1 = .badString content) := by
  rcases quotedContent_stops_or ha hq with hstop | ⟨hmem, hover⟩
  · obtain ⟨b, hb⟩ : ∃ b, (quotedContent q a).2.1 = b := ⟨_, rfl⟩
    have hread (z : List Char) (hz : Separates z) := hstop z hz
    rw [hb] at hread
    cases b with
    | true =>
      exact .inl (.intro (.badString (String.ofList (quotedContent q a).1))
        (quotedContent q a).2.2 fun z hz => by
        simp [quotedToken, hread z hz])
    | false =>
      exact .inl (.intro (.quotedString (String.ofList (quotedContent q a).1))
        (quotedContent q a).2.2 fun z hz => by
        simp [quotedToken, hread z hz])
  · refine .inr ⟨hmem, fun z hz => ?_⟩
    obtain ⟨hsuffix, hsame⟩ := hover z hz
    unfold quotedToken
    split
    · rename_i content rest heq
      rw [heq] at hsuffix
      exact ⟨hsuffix, fun _ => .inr ⟨_, rfl⟩⟩
    · rename_i content rest heq
      rw [heq] at hsuffix hsame
      exact ⟨hsuffix, fun h => .inl ((hsame h).resolve_right Bool.false_ne_true)⟩

omit ha in
theorem mem_dropWhile_blank (h : ')' ∈ a) : ')' ∈ a.dropWhile isAsciiBlank := by
  rw [← List.takeWhile_append_dropWhile (p := isAsciiBlank) (l := a)] at h
  rcases List.mem_append.1 h with h | h
  · exact absurd (List.all_eq_true.1 List.all_takeWhile _ h) (by decide)
  · exact h

/-- A url ends in `a`, or there is no parenthesis in `a`. -/
theorem urlToken_stops_or (f : Token) (hne : a.dropWhile isAsciiBlank ≠ []) :
    Stops (urlToken f) a ∨ ')' ∉ a ∧ Overruns (urlToken f) a ∧
      ∀ z, Separates z → ∃ content, (urlToken f (a ++ z)).1 = .unquotedUrl content ∨
        (urlToken f (a ++ z)).1 = .badUrl content := by
  have hbody (z : List Char) : (a ++ z).dropWhile isAsciiBlank = a.dropWhile isAsciiBlank ++ z := by
    rw [List.dropWhile_append, if_neg (by simpa using hne)]
  have hplain : '\\' ∉ a.dropWhile isAsciiBlank :=
    fun h => ha ((List.dropWhile_suffix _).subset h)
  have hmem (h : ')' ∉ a.dropWhile isAsciiBlank) : ')' ∉ a := fun h' => h (mem_dropWhile_blank h')
  by_cases hq : (a.dropWhile isAsciiBlank).head? = some '\x22' ∨
      (a.dropWhile isAsciiBlank).head? = some '\x27'
  · refine .inl (.intro f a fun z _ => ?_)
    rcases hq with hq | hq
    all_goals
      obtain ⟨b, hb⟩ := List.head?_eq_some_iff.1 hq
      simp [urlToken, hbody, hb]
  · rw [not_or] at hq
    have hhead {q : Char} (h : (a.dropWhile isAsciiBlank).head? ≠ some q) (z : List Char) :
        ((a ++ z).dropWhile isAsciiBlank).head? ≠ some q := by
      rw [hbody]
      cases hd : a.dropWhile isAsciiBlank with
      | nil => exact absurd hd hne
      | cons c t => simpa [hd] using h
    have hread (z : List Char) := urlToken_unquoted f (hhead hq.1 z) (hhead hq.2 z)
    simp only [hbody] at hread
    have hurl (z : List Char) : ∃ content, (urlToken f (a ++ z)).1 = .unquotedUrl content ∨
        (urlToken f (a ++ z)).1 = .badUrl content := by
      rw [hread]
      split
      · exact ⟨_, .inl rfl⟩
      · exact ⟨_, .inr rfl⟩
    generalize a.dropWhile isAsciiBlank = body at *
    rcases urlContent_stops_or hplain with hstop | ⟨hnone, hover⟩
    · have hcontent (z : List Char) (hz : Separates z) := hstop z hz
      cases hu : (urlContent body).1 with
      | some u =>
        rw [hu] at hcontent
        exact .inl (.intro (.unquotedUrl (String.ofList u)) (urlContent body).2 fun z hz => by
          rw [hread, hcontent z hz])
      | none =>
        rw [hu] at hcontent
        obtain ⟨k, hk, hfront⟩ := urlContent_broken hplain hu
        have hleft : '\\' ∉ (urlContent body).2 :=
          fun h => hplain ((urlContent_suffix body).subset h)
        rcases brokenUrlEnd_stops_or hleft with ⟨m, hm⟩ | ⟨hparen, hover⟩
        · -- The content of the broken url is what lies before its parenthesis.
          obtain ⟨p, rfl⟩ : ∃ p, p ++ ')' :: m = body := by
            have hsuffix := (brokenUrlEnd_suffix _).trans (urlContent_suffix body)
            have hnil := hm []
            rw [List.append_nil, List.append_nil] at hnil
            rwa [hnil] at hsuffix
          refine .inl (.intro (.badUrl (String.ofList p)) m fun z hz => ?_)
          rw [hread, hcontent z hz]
          simp only [hm, List.append_assoc, List.cons_append, List.drop_succ_cons, List.drop_zero]
          rw [consumed_append_self]
        · refine .inr ⟨hmem fun h => ?_, fun z hz => ?_, fun z _ => hurl z⟩
          · rw [hk] at h
            exact (List.mem_append.1 h).elim hfront hparen
          · rw [hread, hcontent z hz]
            simp only [hover]
            have hsuffix := brokenUrlEnd_suffix z
            refine ⟨(List.drop_suffix ..).trans hsuffix, fun h => ?_⟩
            have hlen := congrArg List.length h
            have hle := hsuffix.length_le
            rw [List.length_drop] at hlen
            exact List.eq_nil_of_length_eq_zero (by omega)
    · refine .inr ⟨hmem hnone, fun z hz => ?_, fun z _ => hurl z⟩
      obtain ⟨hsuffix, hsame⟩ := hover z hz
      rw [hread]
      split
      · rename_i content left heq
        rw [heq] at hsuffix hsame
        exact ⟨hsuffix, hsame⟩
      · rename_i left heq
        rw [heq] at hsuffix hsame
        have hend : (brokenUrlEnd left).drop 1 <:+ left :=
          (List.drop_suffix ..).trans (brokenUrlEnd_suffix left)
        refine ⟨hend.trans hsuffix, fun h => hsame ?_⟩
        replace h : (brokenUrlEnd left).drop 1 = z := h
        rw [h] at hend
        exact hsuffix.eq_of_length_le hend.length_le

/-- A name either ends in `a`, or begins a url that is open there, or is followed by a parenthesis
and nothing but blanks, so that it rests on what follows whether it begins a url. -/
theorem nameToken_stops_or : Stops nameToken a ∨
    (a.getLast? ≠ some ')' ∧ Overruns nameToken a ∧
      ∀ z, Separates z → ∃ content, (nameToken (a ++ z)).1 = .unquotedUrl content ∨
        (nameToken (a ++ z)).1 = .badUrl content) ∨
    ∃ k b, a = k ++ '(' :: b ∧ b.dropWhile isAsciiBlank = [] ∧
      ∀ z, Separates z → (∃ n, nameToken (a ++ z) = (.function n, b ++ z)) ∨
        (nameToken (a ++ z)).2 <:+ b ++ z ∧ ∃ content, (nameToken (a ++ z)).1 = .unquotedUrl content ∨
          (nameToken (a ++ z)).1 = .badUrl content := by
  have hname := name_stops ha
  by_cases hp : (name a).2.head? = some '('
  · obtain ⟨b, hb⟩ := List.head?_eq_some_iff.1 hp
    have hn (z : List Char) (hz : Separates z) : name (a ++ z) = ((name a).1, '(' :: (b ++ z)) := by
      rw [hname z hz, hb]
      rfl
    obtain ⟨k, hk⟩ : ∃ k, k ++ '(' :: b = a := hb ▸ name_suffix a
    by_cases hurl : lowerAscii (name a).1 = ['u', 'r', 'l']
    · have hread (z : List Char) (hz : Separates z) : nameToken (a ++ z) =
          urlToken (.function (String.ofList (name a).1)) (b ++ z) := by
        simp [nameToken, hn z hz, hurl]
      by_cases hblank : b.dropWhile isAsciiBlank = []
      · refine .inr (.inr ⟨k, b, hk.symm, hblank, fun z hz => ?_⟩)
        rw [hread z hz]
        have hsuffix := urlToken_suffix (.function (String.ofList (name a).1)) (b ++ z)
        rcases urlToken_kind (.function (String.ofList (name a).1)) (b ++ z) with hsame | hurl
        · exact .inl ⟨_, hsame⟩
        · exact .inr ⟨hsuffix, hurl⟩
      · have hplain : '\\' ∉ b := fun h => ha (by simp [← hk, h])
        rcases urlToken_stops_or hplain (.function (String.ofList (name a).1)) hblank with
          hstop | ⟨hparen, hover, hkind⟩
        · exact .inl (hstop.map id hread)
        · refine .inr (.inl ⟨fun hlast => ?_, hover.map fun z hz => by rw [hread z hz],
            fun z hz => by rw [hread z hz]; exact hkind z hz⟩)
          have hne : b ≠ [] := by
            rintro rfl
            exact hblank rfl
          obtain ⟨c, b, rfl⟩ := List.exists_cons_of_ne_nil hne
          rw [← hk, List.getLast?_append, List.getLast?_cons_cons] at hlast
          exact hparen (List.mem_of_getLast? hlast)
    · exact .inl (.intro (.function (String.ofList (name a).1)) b fun z hz => by
        simp [nameToken, hn z hz, hurl])
  · refine .inl (.intro (.ident (String.ofList (name a).1)) (name a).2 fun z hz => ?_)
    have hhead := hz.head?_append (c := '(') rfl hp
    simp only [nameToken, hname z hz]
    split
    · rename_i rest heq
      rw [heq] at hhead
      exact absurd rfl hhead
    · rfl

end Plain

section Tokens

variable (c : Char) (a : List Char)

/-- The token that begins with `c` and `a` is a string, a comment or a url, and is open at the
end of `a`. -/
def LeavesOpen : Prop := ∀ z, Separates z →
  (Token.read c (a ++ z)).1.isEnclosed ∧ (Token.read c (a ++ z)).2 <:+ z ∧
    ((Token.read c (a ++ z)).2 = z →
      (⟨(Token.read c (a ++ z)).1, c :: a, .first⟩ : Lexeme).IsLoose)

/-- A name with a parenthesis behind which there are only blanks: a function, or a url. -/
def LeavesCall : Prop := ∃ k b, c :: a = k ++ '(' :: b ∧ b.dropWhile isAsciiBlank = [] ∧
  ∀ z, Separates z → (∃ n, Token.read c (a ++ z) = (.function n, b ++ z)) ∨
    (Token.read c (a ++ z)).2 <:+ b ++ z ∧ ∃ content,
      (Token.read c (a ++ z)).1 = .unquotedUrl content ∨
        (Token.read c (a ++ z)).1 = .badUrl content

variable {c a}

theorem stops_blank (hb : isAsciiBlank c = true) (ha : a.dropWhile isAsciiBlank ≠ []) :
    Stops (Token.read c) a := by
  have hdrop (z : List Char) : (a ++ z).dropWhile isAsciiBlank = a.dropWhile isAsciiBlank ++ z := by
    rw [List.dropWhile_append, if_neg (by simpa using ha)]
  have htake (z : List Char) : (a ++ z).takeWhile isAsciiBlank = a.takeWhile isAsciiBlank := by
    have happend : (a ++ z).takeWhile isAsciiBlank ++ (a.dropWhile isAsciiBlank ++ z) =
        a.takeWhile isAsciiBlank ++ (a.dropWhile isAsciiBlank ++ z) := by
      rw [← hdrop, List.takeWhile_append_dropWhile, hdrop, ← List.append_assoc,
        List.takeWhile_append_dropWhile]
    exact List.append_cancel_right happend
  exact .intro (.whitespace (String.ofList (c :: a.takeWhile isAsciiBlank)))
    (a.dropWhile isAsciiBlank) fun z _ => by simp [Token.read, hb, hdrop, htake]

theorem leavesOpen_quote (hmem : c ∉ a)
    (hread : ∀ z, Token.read c (a ++ z) = quotedToken c (a ++ z))
    (hover : ∀ z, Separates z → (quotedToken c (a ++ z)).2 <:+ z ∧
      ((quotedToken c (a ++ z)).2 = z →
        z = [] ∨ ∃ content, (quotedToken c (a ++ z)).1 = .badString content)) :
    LeavesOpen c a := by
  intro z hz
  rw [hread]
  obtain ⟨hsuffix, hsame⟩ := hover z hz
  have hkind : (∃ content, (quotedToken c (a ++ z)).1 = .badString content) ∨
      ∃ content, (quotedToken c (a ++ z)).1 = .quotedString content := by
    unfold quotedToken
    split
    · exact .inl ⟨_, rfl⟩
    · exact .inr ⟨_, rfl⟩
  rcases hkind with ⟨content, hbad⟩ | ⟨content, hstring⟩
  · exact ⟨by rw [hbad]; rfl, hsuffix, fun _ => .inr ⟨content, hbad⟩⟩
  · refine ⟨by rw [hstring]; rfl, hsuffix, fun _ => .inl ?_⟩
    simp only [Lexeme.isOpen, hstring]
    cases a with
    | nil => simp
    | cons d a =>
      have hlast : (d :: a).getLast? ≠ some c := fun h => hmem (List.mem_of_getLast? h)
      simp [hlast]

theorem leavesOpen_comment {b : List Char} (hmarks : ¬['*', '/'] <:+: b)
    (hover : Overruns commentContent b) : LeavesOpen '/' ('*' :: b) := by
  intro z hz
  rw [List.cons_append, Token.read_comment]
  obtain ⟨hsuffix, hsame⟩ := hover z hz
  refine ⟨rfl, hsuffix, fun _ => .inl ?_⟩
  -- A comment of four characters has its end mark behind the mark that opens it.
  have hends : ['*', '/'] <:+ '/' :: '*' :: b → b.length < 2 := by
    rintro ⟨t, ht⟩
    match t, ht with
    | [_], ht =>
      obtain rfl : ['/'] = b := (List.cons.inj (List.cons.inj ht).2).2
      decide
    | _ :: _ :: t, ht =>
      exact absurd ⟨t, [], by simpa using (List.cons.inj (List.cons.inj ht).2).2⟩ hmarks
  simp only [Lexeme.isOpen, Bool.or_eq_true, decide_eq_true_eq, List.length_cons, Bool.not_eq_true']
  by_cases hlong : b.length < 2
  · exact .inl (by omega)
  · exact .inr (Bool.eq_false_iff.2 fun h => hlong (hends (List.isSuffixOf_iff_suffix.1 h)))

theorem Token.read_plain (hb : isAsciiBlank c = false) (hplain : '\\' ∉ c :: a) :
    Stops (Token.read c) a ∨ LeavesOpen c a ∨ LeavesCall c a := by
  have ha : '\\' ∉ a := fun h => hplain (List.mem_cons_of_mem _ h)
  obtain ⟨read, hroute, hall⟩ := exists_route c a
  have hread (z : List Char) (hz : Separates z) : Token.read c (a ++ z) = read (a ++ z) :=
    hall z hz (.inr hplain)
  have hstop (h : Stops read a) : Stops (Token.read c) a := h.map id hread
  cases hroute with
  | blank h => exact absurd h (by simp [hb])
  | number => exact .inl (hstop ((numericToken_stops hplain).map id fun z _ => rfl))
  | marks t h =>
    obtain ⟨m, rfl⟩ := h
    exact .inl (hstop (.intro t m fun z _ => by simp))
  | pair t => exact .inl (hstop (symbolOrMatch_stops c t a))
  | quoted hquote =>
    have hq : isSeparator c = false := by rcases hquote with rfl | rfl <;> rfl
    rcases quotedToken_stops_or ha hq with h | ⟨hmem, hover⟩
    · exact .inl (hstop h)
    · exact .inr (.inl (leavesOpen_quote hmem (fun z => read_quote hquote (a ++ z)) hover))
  | hash => exact .inl (hstop (hashToken_stops ha))
  | keyword hs =>
    exact .inl (hstop ((name_stops ha).map (fun n => .atKeyword (String.ofList n)) fun z _ => rfl))
  | comment hc h =>
    subst hc h
    rcases commentContent_stops_or _ with h | ⟨hmarks, hover⟩
    · exact .inl (hstop (h.map (fun s => .comment (String.ofList s)) fun z _ => rfl))
    · exact .inr (.inl (leavesOpen_comment hmarks hover))
  | named hs =>
    rcases nameToken_stops_or hplain with h | ⟨hlast, hover, hkind⟩ | ⟨k, b, hk, hb, hcall⟩
    · exact .inl (hstop (h.map id fun z _ => rfl))
    · refine .inr (.inl fun z hz => ?_)
      rw [hread z hz]
      obtain ⟨hsuffix, hsame⟩ := hover z hz
      obtain ⟨content, hurl | hurl⟩ := hkind z hz
      all_goals
        rw [List.cons_append] at hsuffix hsame hurl
        exact ⟨by rw [hurl]; rfl, hsuffix, fun _ => .inl (by simp [Lexeme.isOpen, hurl, hlast])⟩
    · exact .inr (.inr ⟨k, b, hk, hb, fun z hz => by rw [hread z hz]; exact hcall z hz⟩)

end Tokens

end RasterFallback.Css
