import RasterFallback.Css.Lexer

/-!
Where tokens come from: a string is read behind its quote mark, a name at a place where names
begin, a keyword behind an at sign. For texts without escapes a name is spelled by its characters.
-/
namespace RasterFallback.Css
open RasterFallback.Text

/-- How the token and the text behind it are read, from the character `c` and the text `s`. -/
def Origin (c : Char) (s : List Char) (r : Token × List Char) : Prop :=
  match r.1 with
  | .quotedString _ | .badString _ => (c = '\x22' ∨ c = '\x27') ∧ r = quotedToken c s
  | .ident _ | .function _ | .unquotedUrl _ | .badUrl _ =>
    startsName (c :: s) = true ∧ r = nameToken (c :: s)
  | .atKeyword _ =>
    c = '@' ∧ startsName s = true ∧ r = (.atKeyword (String.ofList (name s).1), (name s).2)
  | .comment _ => c = '/' ∧ ['*'] <+: s
  | _ => True

section Readers

variable (c : Char) (s : List Char)

theorem origin_numericToken (u : List Char) : Origin c s (numericToken u) := by
  unfold numericToken
  generalize numeral u = n
  obtain ⟨n, rest⟩ := n
  simp only
  split
  · trivial
  · split <;> trivial

theorem origin_hashToken (u : List Char) : Origin c s (hashToken u) := by
  unfold hashToken
  split
  · trivial
  · split
    · split <;> trivial
    · trivial

theorem origin_symbolOrMatch {t : Token} (ht : ∀ rest, Origin c s (t, rest)) (u : List Char) :
    Origin c s (symbolOrMatch c t u) := by
  unfold symbolOrMatch
  split
  · exact ht _
  · trivial

theorem urlToken_kind (f : Token) (s : List Char) : urlToken f s = (f, s) ∨
    ∃ content, (urlToken f s).1 = .unquotedUrl content ∨ (urlToken f s).1 = .badUrl content := by
  unfold urlToken
  dsimp only
  split
  · exact .inl rfl
  · exact .inl rfl
  · split
    · exact .inr ⟨_, .inl rfl⟩
    · exact .inr ⟨_, .inr rfl⟩

theorem origin_nameToken (hs : startsName (c :: s)) : Origin c s (nameToken (c :: s)) := by
  have hkind : ∃ n, (nameToken (c :: s)).1 = .ident n ∨ (nameToken (c :: s)).1 = .function n ∨
      (nameToken (c :: s)).1 = .unquotedUrl n ∨ (nameToken (c :: s)).1 = .badUrl n := by
    unfold nameToken
    simp only
    split
    · rename_i rest _
      split
      · rcases urlToken_kind (.function (String.ofList (name (c :: s)).1)) rest with hf | ⟨n, hurl⟩
        · rw [hf]
          exact ⟨_, .inr (.inl rfl)⟩
        · exact ⟨n, .inr (.inr hurl)⟩
      · exact ⟨_, .inr (.inl rfl)⟩
    · exact ⟨_, .inl rfl⟩
  obtain ⟨n, hn | hn | hn | hn⟩ := hkind
  all_goals
    unfold Origin
    rw [hn]
    exact ⟨hs, rfl⟩

theorem origin_quotedToken (hc : c = '\x22' ∨ c = '\x27') : Origin c s (quotedToken c s) := by
  have hkind : (∃ u, (quotedToken c s).1 = .badString u) ∨
      ∃ u, (quotedToken c s).1 = .quotedString u := by
    unfold quotedToken
    split
    · exact .inl ⟨_, rfl⟩
    · exact .inr ⟨_, rfl⟩
  rcases hkind with ⟨u, hu⟩ | ⟨u, hu⟩
  all_goals
    unfold Origin
    rw [hu]
    exact ⟨hc, rfl⟩

theorem origin_of_isPair {t : Token} (ht : t.isPair) (rest : List Char) :
    Origin c s (t, rest) := by
  cases t <;> simp_all [Token.isPair, Origin]

theorem origin_of_sign {t : Token} {x : Char} (ht : t.sign? = some x) (rest : List Char) :
    Origin c s (t, rest) := by
  cases t <;> simp_all [Token.sign?, Origin]

theorem Token.read_origin : Origin c s (Token.read c s) := by
  have hreading := Token.reading c s
  generalize Token.read c s = r at hreading ⊢
  cases hreading with
  | blank | cdc | cdo | delim => trivial
  | number => exact origin_numericToken c s (c :: s)
  | comment hc h => exact ⟨hc, _, h.symm⟩
  | quoted hc => exact origin_quotedToken c s hc
  | hash => exact origin_hashToken c s s
  | keyword hc h => exact ⟨hc, h, rfl⟩
  | pair ht => exact origin_symbolOrMatch c s (origin_of_isPair c s ht) s
  | sign ht => exact origin_of_sign c s ht s
  | named h => exact origin_nameToken c s h

end Readers

section Names

variable {k r : List Char}

/-- A name without escapes is spelled by its characters. -/
theorem name_of_plain (hplain : ∀ x ∈ k, x ≠ '\\' ∧ x ≠ '\x00') (h : (name (k ++ r)).2 = r) :
    (name (k ++ r)).1 = k ∧ ∀ x ∈ k, isNameChar x := by
  induction k with
  | nil =>
    refine ⟨?_, nofun⟩
    rw [List.nil_append] at h ⊢
    have hlong {s : List Char} {c : Char} (hs : s <:+ r.tail) (hr : r = c :: r.tail) : s ≠ r := by
      intro heq
      have hlen := hs.length_le
      rw [heq] at hlen
      have hr' := congrArg List.length hr
      rw [List.length_cons] at hr'
      omega
    fun_cases name r with
    | case1 => rfl
    | case2 c s hc n =>
      rw [name, if_pos hc] at h
      exact absurd h (hlong (name_suffix s) rfl)
    | case3 c s hc hs n =>
      rw [name, if_neg hc, if_pos hs] at h
      exact absurd h (hlong ((name_suffix _).trans (escape_suffix s)) rfl)
    | case4 c s hc hs => rfl
  | cons c k ih =>
    have hc := hplain c (List.mem_cons_self ..)
    by_cases hname : isNameChar c = true
    · rw [List.cons_append, name, if_pos hname] at h ⊢
      obtain ⟨hk, hall⟩ := ih (fun x hx => hplain x (List.mem_cons_of_mem _ hx)) h
      refine ⟨?_, List.forall_mem_cons.2 ⟨hname, hall⟩⟩
      simp [hk, unnull, hc.2]
    · rw [List.cons_append, name, if_neg hname, if_neg (by simp [hc.1])] at h
      have hlen := congrArg List.length h
      simp only [List.length_cons, List.length_append] at hlen
      omega

theorem startsName_of_plain (hplain : ∀ x ∈ k, x ≠ '\\' ∧ x ≠ '\x00')
    (hr : r.head? ≠ some '\\') (hne : k ≠ []) (h : (name (k ++ r)).2 = r)
    (hs : startsName (k ++ r)) : startsName k := by
  obtain ⟨c, k, rfl⟩ := List.exists_cons_of_ne_nil hne
  have hslash := (hplain c (List.mem_cons_self ..)).1
  by_cases hc : c = '-'
  · subst hc
    cases k with
    | cons d k => exact hs
    | nil =>
      cases r with
      | nil => exact hs
      | cons d r =>
        -- The name would go on with what follows.
        have hd : isNameChar d = true := by
          have hd' : d ≠ '\\' := fun h => hr (congrArg some h)
          have hs' : d = '-' ∨ isNameStart d = true := by
            simpa [startsName, hd', or_comm] using hs
          rcases hs' with rfl | hs'
          · rfl
          · simp [isNameChar, hs']
        have hlen := (name_suffix r).length_le
        have hname : (name ('-' :: d :: r)).2 = (name r).2 := by
          rw [name, if_pos (by decide), name, if_pos hd]
        rw [List.singleton_append, hname] at h
        rw [h, List.length_cons] at hlen
        omega
  · simpa [startsName, hc, hslash] using hs

end Names

end RasterFallback.Css
