import RasterFallback.Proofs.Css.Ended

/-!
Tokens with an end mark of their own. A string, a comment or a url that ends in front of some
text ends there in front of any other text too: its end mark is the last that was looked at.
-/
namespace RasterFallback.Css
open RasterFallback.Text

theorem eq_nil_of_append_suffix {α : Type} {m z : List α} (h : m ++ z <:+ z) : m = [] := by
  have hlen := h.length_le
  rw [List.length_append] at hlen
  exact List.eq_nil_of_length_eq_zero (by omega)

theorem exists_of_append_suffix {α : Type} {m r z : List α} (hm : m ≠ []) (h : m ++ z <:+ r) :
    ∃ j, j ≠ [] ∧ r = j ++ z := by
  obtain ⟨p, rfl⟩ := h
  exact ⟨p ++ m, by simp [hm], (List.append_assoc ..).symm⟩

theorem front_of_append_suffix {α : Type} {k m z : List α} (hm : m ≠ []) (h : m ++ z <:+ k ++ z) :
    k ≠ [] ∧ m.length ≤ k.length := by
  have hlen := h.length_le
  have hpos := List.length_pos_iff.2 hm
  simp only [List.length_append] at hlen
  exact ⟨List.ne_nil_of_length_pos (by omega), by omega⟩

theorem not_append_suffix_tail {α : Type} {c : α} {m z : List α} (h : m ++ c :: z <:+ z) :
    False := by
  have hlen := h.length_le
  simp only [List.length_append, List.length_cons] at hlen
  omega

section Readers

variable {k m z : List Char}

theorem dropNewline_resume (hm : m ≠ []) (h : dropNewline (k ++ z) = m ++ z) (w : List Char) :
    dropNewline (k ++ w) = m ++ w := by
  match k, h with
  | [], h => exact absurd (eq_nil_of_append_suffix (h ▸ dropNewline_suffix z)) hm
  | [c], h =>
    have hz : dropNewline (c :: z) <:+ z := by
      unfold dropNewline
      split
      · rename_i heq
        obtain ⟨-, rfl⟩ := List.cons.inj heq
        exact List.suffix_cons ..
      · exact List.suffix_rfl
    exact absurd (eq_nil_of_append_suffix (h ▸ hz)) hm
  | c :: d :: k, h =>
    simp only [List.cons_append] at h ⊢
    by_cases hc : c = '\r' ∧ d = '\n'
    · obtain ⟨rfl, rfl⟩ := hc
      obtain rfl := List.append_cancel_right h
      rfl
    · have hread (u : List Char) : dropNewline (c :: d :: u) = d :: u := by
        unfold dropNewline
        split
        · simp_all
        · rfl
      rw [hread] at h ⊢
      obtain rfl := List.append_cancel_right (show d :: k ++ z = m ++ z from h)
      rfl

theorem dropSpace_resume (hm : m ≠ []) (h : dropSpace (k ++ z) = m ++ z) (w : List Char) :
    dropSpace (k ++ w) = m ++ w := by
  cases k with
  | nil => exact absurd (eq_nil_of_append_suffix (h ▸ dropSpace_suffix z)) hm
  | cons c k =>
    simp only [List.cons_append, dropSpace] at h ⊢
    split
    · rename_i hn
      rw [if_pos hn, ← List.cons_append] at h
      exact dropNewline_resume hm h w
    · rename_i hn
      rw [if_neg hn] at h
      split
      · rename_i hb
        rw [if_pos hb] at h
        rw [List.append_cancel_right h]
      · rename_i hb
        rw [if_neg hb, ← List.cons_append] at h
        rw [← List.cons_append, List.append_cancel_right h]

/-- The digits of an escape end within a text that is longer than they are. -/
theorem takeWhile_take_append {p : Char → Bool} {n : Nat} {k z : List Char}
    (h : (((k ++ z).take n).takeWhile p).length < k.length) (w : List Char) :
    ((k ++ w).take n).takeWhile p = ((k ++ z).take n).takeWhile p := by
  induction k generalizing n with
  | nil => simp at h
  | cons c k ih =>
    cases n with
    | zero => rfl
    | succ n =>
      simp only [List.cons_append, List.take_succ_cons, List.takeWhile_cons] at h ⊢
      by_cases hc : p c = true
      · simp only [hc, ↓reduceIte, List.length_cons] at h ⊢
        rw [ih (by omega)]
      · simp [hc]

theorem escape_resume {e : Char} (hm : m ≠ []) (h : escape (k ++ z) = (e, m ++ z))
    (w : List Char) : escape (k ++ w) = (e, m ++ w) := by
  cases k with
  | nil =>
    have hsuffix := escape_suffix z
    rw [List.nil_append] at h
    rw [h] at hsuffix
    exact absurd (eq_nil_of_append_suffix hsuffix) hm
  | cons c k =>
    simp only [List.cons_append, escape] at h ⊢
    split
    · rename_i hc
      rw [if_pos hc] at h
      obtain ⟨rfl, hdrop⟩ := Prod.mk.inj h
      simp only [← List.cons_append] at hdrop ⊢
      generalize hp : (fun d : Char => (hexValue? d).isSome) = p at *
      have hshort : (((c :: k ++ z).take 6).takeWhile p).length < (c :: k).length := by
        refine Nat.lt_of_not_le fun hlong => hm ?_
        have hsuffix := dropSpace_suffix
          ((c :: k ++ z).drop (((c :: k ++ z).take 6).takeWhile p).length)
        rw [hdrop, List.drop_append, List.drop_eq_nil_of_le hlong, List.nil_append] at hsuffix
        exact eq_nil_of_append_suffix (hsuffix.trans (List.drop_suffix ..))
      rw [takeWhile_take_append hshort w]
      rw [List.drop_append_of_le_length (Nat.le_of_lt hshort)] at hdrop ⊢
      rw [dropSpace_resume hm hdrop w]
    · rename_i hc
      rw [if_neg hc] at h
      obtain ⟨rfl, hk⟩ := Prod.mk.inj h
      rw [List.append_cancel_right hk]

theorem startsNewline_append_of_ne_nil (hk : k ≠ []) (z w : List Char) :
    startsNewline (k ++ w) = startsNewline (k ++ z) := by
  obtain ⟨c, k, rfl⟩ := List.exists_cons_of_ne_nil hk
  rfl

/-- A name in front of a parenthesis. -/
theorem name_resume {n : List Char} (h : name (k ++ z) = (n, '(' :: (m ++ z))) (w : List Char) :
    name (k ++ w) = (n, '(' :: (m ++ w)) := by
  generalize hs : k ++ z = s at h
  induction s using name.induct generalizing k n with
  | case1 => simp [name] at h
  | case2 c s hc ih =>
    rw [name, if_pos hc] at h
    obtain ⟨rfl, hrest⟩ := Prod.mk.inj h
    cases k with
    | nil =>
      subst hs
      exact (not_append_suffix_tail (m := '(' :: m) (hrest ▸ name_suffix s)).elim
    | cons d k =>
      obtain ⟨rfl, rfl⟩ : d = c ∧ k ++ z = s := List.cons.inj hs
      rw [List.cons_append, name, if_pos hc, ih rfl (Prod.ext rfl hrest)]
  | case3 c s hc hslash ih =>
    rw [name, if_neg hc, if_pos hslash] at h
    obtain ⟨rfl, hrest⟩ := Prod.mk.inj h
    have hleft := name_suffix (escape s).2
    rw [hrest, ← List.cons_append] at hleft
    cases k with
    | nil =>
      subst hs
      exact (not_append_suffix_tail (hleft.trans (escape_suffix s))).elim
    | cons d k =>
      obtain ⟨rfl, rfl⟩ : d = c ∧ k ++ z = s := List.cons.inj hs
      obtain ⟨j, hj, hescape⟩ := exists_of_append_suffix (List.cons_ne_nil '(' m) hleft
      obtain ⟨hk, -⟩ := front_of_append_suffix hj (hescape ▸ escape_suffix (k ++ z))
      have hline := startsNewline_append_of_ne_nil hk z w
      rw [List.cons_append, name, if_neg hc, if_pos (by rw [hline]; exact hslash),
        escape_resume hj (Prod.ext rfl hescape) w, ih hescape.symm (Prod.ext rfl hrest)]
  | case4 c s hc hslash =>
    rw [name, if_neg hc, if_neg hslash] at h
    obtain ⟨rfl, hrest⟩ := Prod.mk.inj h
    obtain ⟨rfl, rfl⟩ := List.cons.inj hrest
    obtain rfl : k = '(' :: m := List.append_cancel_right hs
    simp [name, isNameChar, isNameStart]

theorem commentContent_tail (c : Char) (s : List Char) : (commentContent (c :: s)).2 <:+ s := by
  unfold commentContent
  split
  · exact List.nil_suffix
  · rename_i heq
    obtain ⟨-, rfl⟩ := List.cons.inj heq
    exact List.suffix_cons ..
  · rename_i heq
    obtain ⟨-, rfl⟩ := List.cons.inj heq
    exact commentContent_suffix _

/-- A comment up to its end mark. -/
theorem commentContent_resume (hz : z ≠ []) {u : List Char}
    (h : commentContent (k ++ z) = (u, m ++ z)) (w : List Char) :
    commentContent (k ++ w) = (u, m ++ w) := by
  induction k generalizing u with
  | nil =>
    obtain ⟨c, z, rfl⟩ := List.exists_cons_of_ne_nil hz
    exact (not_append_suffix_tail (congrArg Prod.snd h ▸ commentContent_tail c z)).elim
  | cons c k ih =>
    by_cases hend : c = '*' ∧ ∃ t, k ++ z = '/' :: t
    · obtain ⟨rfl, t, ht⟩ := hend
      rw [List.cons_append, ht, commentContent] at h
      obtain ⟨rfl, rfl⟩ := Prod.mk.inj h
      cases k with
      | nil =>
        have hlen := congrArg List.length ht
        simp only [List.nil_append, List.length_cons, List.length_append] at hlen
        omega
      | cons d k =>
        obtain ⟨rfl, hk⟩ : d = '/' ∧ k ++ z = m ++ z := List.cons.inj ht
        rw [List.append_cancel_right hk]
        rfl
    · have hread (u : List Char) (hu : ∀ t, c = '*' → u = '/' :: t → False) :
          commentContent (c :: u) = (c :: (commentContent u).1, (commentContent u).2) := by
        rw [commentContent]
        exact hu
      rw [List.cons_append, hread _ fun t hc ht => hend ⟨hc, t, ht⟩] at h
      obtain ⟨rfl, hrest⟩ := Prod.mk.inj h
      rw [List.cons_append, hread, ih (Prod.ext rfl hrest)]
      rintro t rfl ht
      cases k with
      | nil =>
        obtain ⟨c, z, rfl⟩ := List.exists_cons_of_ne_nil hz
        exact not_append_suffix_tail (hrest ▸ commentContent_tail c z)
      | cons d k =>
        obtain ⟨rfl, -⟩ : d = '/' ∧ k ++ w = t := List.cons.inj ht
        exact hend ⟨rfl, k ++ z, rfl⟩

theorem quotedContent_tail {q : Char} {z : List Char} (h : (quotedContent q z).2.1 = false)
    (hz : m ++ z <:+ (quotedContent q z).2.2) : z = [] := by
  have hsame : (quotedContent q z).2.2 = z := by
    refine (quotedContent_suffix q z).eq_of_length_le ?_
    have hlen := hz.length_le
    rw [List.length_append] at hlen
    omega
  rcases quotedContent_of_rest_eq hsame with hnil | hbad
  · exact hnil
  · rw [h] at hbad
    cases hbad

/-- A string up to its quote mark, or up to a line break with which more is left. -/
theorem quotedContent_resume {q : Char} {b : Bool} (hm : m ≠ [] ∨ z ≠ [] ∧ b = false)
    {u : List Char} (h : quotedContent q (k ++ z) = (u, b, m ++ z)) (w : List Char) :
    quotedContent q (k ++ w) = (u, b, m ++ w) := by
  have hfront {j v : List Char} (hj : quotedContent q (j ++ z) = (v, b, m ++ z)) : j ≠ [] := by
    rintro rfl
    rw [List.nil_append] at hj
    have hsuffix := quotedContent_suffix q z
    rcases hm with hm | ⟨hz, rfl⟩
    · exact hm (eq_nil_of_append_suffix (by rwa [hj] at hsuffix))
    · have hrest : (quotedContent q z).2.2 = m ++ z := by rw [hj]
      exact hz (quotedContent_tail (by rw [hj]) ⟨[], hrest.symm⟩)
  have hleft {r v : List Char} (hr : quotedContent q r = (v, b, m ++ z)) :
      ∃ j, j ≠ [] ∧ r = j ++ z := by
    have hsuffix := quotedContent_suffix q r
    rw [hr] at hsuffix
    obtain ⟨j, rfl⟩ := (List.suffix_append m z).trans hsuffix
    exact ⟨j, hfront hr, rfl⟩
  induction hn : k.length using Nat.strongRecOn generalizing k u with
  | ind n ih =>
    obtain ⟨c, k, rfl⟩ := List.exists_cons_of_ne_nil (hfront h)
    rw [List.length_cons] at hn
    rw [List.cons_append, quotedContent] at h ⊢
    by_cases hc : c = q
    · rw [if_pos hc] at h ⊢
      obtain ⟨rfl, hend⟩ := Prod.mk.inj h
      obtain ⟨rfl, hk⟩ := Prod.mk.inj hend
      rw [List.append_cancel_right hk]
    rw [if_neg hc] at h ⊢
    by_cases hline : isNewline c = true
    · rw [if_pos hline, ← List.cons_append] at h ⊢
      obtain ⟨rfl, hend⟩ := Prod.mk.inj h
      obtain ⟨rfl, hk⟩ := Prod.mk.inj hend
      rw [List.append_cancel_right hk]
    rw [if_neg hline] at h ⊢
    by_cases hslash : c = '\\'
    · rw [if_pos hslash] at h ⊢
      by_cases hempty : (k ++ z).isEmpty = true
      · rw [if_pos hempty] at h
        have hnil : m ++ z = [] := (Prod.mk.inj (Prod.mk.inj h).2).2.symm
        simp_all
      rw [if_neg hempty] at h
      by_cases hjoin : startsNewline (k ++ z) = true
      · rw [if_pos hjoin] at h
        obtain ⟨j, hj, hrest⟩ := hleft h
        obtain ⟨hk, hlen⟩ := front_of_append_suffix hj (hrest ▸ dropNewline_suffix (k ++ z))
        rw [hrest] at h
        rw [if_neg (by simp [hk]), startsNewline_append_of_ne_nil hk z, if_pos hjoin,
          dropNewline_resume hj hrest w]
        exact ih j.length (by omega) h rfl
      · rw [if_neg hjoin] at h
        obtain ⟨rfl, hcontent⟩ := Prod.mk.inj h
        obtain ⟨j, hj, hrest⟩ := hleft (Prod.ext rfl hcontent)
        obtain ⟨hk, hlen⟩ := front_of_append_suffix hj (hrest ▸ escape_suffix (k ++ z))
        rw [hrest] at hcontent
        rw [if_neg (by simp [hk]), startsNewline_append_of_ne_nil hk z, if_neg hjoin,
          escape_resume hj (Prod.ext rfl hrest) w,
          ih j.length (by omega) (Prod.ext rfl hcontent) rfl, hrest]
    · rw [if_neg hslash] at h ⊢
      obtain ⟨rfl, hcontent⟩ := Prod.mk.inj h
      rw [ih k.length (by omega) (Prod.ext rfl hcontent) rfl]

theorem urlEnd_tail (c : Char) (s : List Char) : (urlEnd (c :: s)).2 <:+ s := by
  unfold urlEnd
  split
  · exact List.suffix_rfl
  · split
    · exact urlEnd_suffix s
    · exact List.suffix_rfl

theorem urlEnd_resume (hz : z ≠ []) {b : Bool} (h : urlEnd (k ++ z) = (b, m ++ z))
    (w : List Char) : urlEnd (k ++ w) = (b, m ++ w) := by
  induction k with
  | nil =>
    obtain ⟨c, z, rfl⟩ := List.exists_cons_of_ne_nil hz
    exact (not_append_suffix_tail (congrArg Prod.snd h ▸ urlEnd_tail c z)).elim
  | cons c k ih =>
    rw [List.cons_append, urlEnd] at h ⊢
    split
    · rename_i hc
      rw [if_pos hc] at h
      obtain ⟨rfl, hk⟩ := Prod.mk.inj h
      rw [List.append_cancel_right hk]
    · rename_i hc
      rw [if_neg hc] at h
      split
      · rename_i hb
        rw [if_pos hb] at h
        exact ih h
      · rename_i hb
        rw [if_neg hb] at h
        obtain ⟨rfl, hk⟩ := Prod.mk.inj h
        rw [List.append_cancel_right hk]

theorem urlContent_tail (c : Char) (s : List Char) : (urlContent (c :: s)).2 <:+ s := by
  rw [urlContent]
  split
  · exact List.suffix_rfl
  split
  · exact urlEnd_suffix s
  split
  · exact List.suffix_rfl
  split
  · split
    · exact List.suffix_rfl
    · exact (urlContent_suffix _).trans (escape_suffix s)
  · exact urlContent_suffix s

/-- The content of a url up to its parenthesis, or what breaks it if there is more of it. -/
theorem urlContent_resume (hz : z ≠ []) {u : Option (List Char)} (hm : m ≠ [] ∨ u.isSome)
    (h : urlContent (k ++ z) = (u, m ++ z)) (w : List Char) :
    urlContent (k ++ w) = (u, m ++ w) := by
  have hfront {j : List Char} {v : Option (List Char)} (hj : urlContent (j ++ z) = (v, m ++ z)) :
      j ≠ [] := by
    rintro rfl
    obtain ⟨c, z, rfl⟩ := List.exists_cons_of_ne_nil hz
    exact not_append_suffix_tail (congrArg Prod.snd hj ▸ urlContent_tail c z)
  have hleft {r : List Char} {v : Option (List Char)} (hr : urlContent r = (v, m ++ z)) :
      ∃ j, j ≠ [] ∧ r = j ++ z := by
    have hsuffix := urlContent_suffix r
    rw [hr] at hsuffix
    obtain ⟨j, rfl⟩ := (List.suffix_append m z).trans hsuffix
    exact ⟨j, hfront hr, rfl⟩
  induction hn : k.length using Nat.strongRecOn generalizing k u with
  | ind n ih =>
    obtain ⟨c, k, rfl⟩ := List.exists_cons_of_ne_nil (hfront h)
    rw [List.length_cons] at hn
    rw [List.cons_append, urlContent] at h ⊢
    by_cases hc : c = ')'
    · rw [if_pos hc] at h ⊢
      obtain ⟨rfl, hk⟩ := Prod.mk.inj h
      rw [List.append_cancel_right hk]
    rw [if_neg hc] at h ⊢
    by_cases hb : isAsciiBlank c = true
    · rw [if_pos hb] at h ⊢
      obtain ⟨rfl, hend⟩ := Prod.mk.inj h
      rw [urlEnd_resume hz (Prod.ext rfl hend) w]
    rw [if_neg hb] at h ⊢
    by_cases hbreak : breaksUrl c = true
    · rw [if_pos hbreak] at h ⊢
      obtain ⟨rfl, hk⟩ := Prod.mk.inj h
      rw [List.append_cancel_right hk]
    rw [if_neg hbreak] at h ⊢
    by_cases hslash : c = '\\'
    · rw [if_pos hslash] at h ⊢
      by_cases hline : startsNewline (k ++ z) = true
      · rw [if_pos hline] at h
        obtain ⟨rfl, hk⟩ := Prod.mk.inj h
        obtain rfl := List.append_cancel_right hk
        have hne : k ≠ [] := hm.resolve_right (by simp)
        rw [startsNewline_append_of_ne_nil hne z, if_pos hline]
      · rw [if_neg hline] at h
        obtain ⟨rfl, hcontent⟩ := Prod.mk.inj h
        obtain ⟨j, hj, hrest⟩ := hleft (Prod.ext rfl hcontent)
        obtain ⟨hne, hlen⟩ := front_of_append_suffix hj (hrest ▸ escape_suffix (k ++ z))
        rw [hrest] at hm hcontent
        rw [startsNewline_append_of_ne_nil hne z, if_neg hline,
          escape_resume hj (Prod.ext rfl hrest) w,
          ih j.length (by omega) (by simpa using hm) (Prod.ext rfl hcontent) rfl, hrest]
    · rw [if_neg hslash] at h ⊢
      obtain ⟨rfl, hcontent⟩ := Prod.mk.inj h
      rw [ih k.length (by omega) (by simpa using hm) (Prod.ext rfl hcontent) rfl]

/-- The parenthesis that ends a broken url. -/
theorem brokenUrlEnd_resume (h : brokenUrlEnd (k ++ z) = ')' :: (m ++ z)) (w : List Char) :
    brokenUrlEnd (k ++ w) = ')' :: (m ++ w) := by
  -- What is passed over before the parenthesis is not part of `z`.
  have hfront {c : Char} {j s : List Char} (hs : j ++ z = c :: s) (hr : ')' :: (m ++ z) <:+ s) :
      ∃ d i, j = c :: d :: i ∧ d :: i ++ z = s := by
    have hlen := hr.length_le
    have hlens := congrArg List.length hs
    rw [List.length_cons, List.length_append] at hlen
    match j, hs with
    | [], _ =>
      simp only [List.nil_append, List.length_cons] at hlens
      omega
    | [_], _ =>
      simp only [List.length_append, List.length_cons, List.length_nil] at hlens
      omega
    | _ :: d :: i, hs =>
      obtain ⟨rfl, rfl⟩ := List.cons.inj hs
      exact ⟨d, i, rfl, rfl⟩
  generalize hs : k ++ z = s at h
  induction s using brokenUrlEnd.induct generalizing k with
  | case1 => cases h
  | case2 s ih =>
    rw [brokenUrlEnd] at h
    obtain ⟨d, i, rfl, hi⟩ := hfront hs ((h ▸ brokenUrlEnd_suffix s).trans (List.suffix_cons ..))
    obtain ⟨rfl, rfl⟩ : d = ')' ∧ i ++ z = s := List.cons.inj hi
    rw [List.cons_append, List.cons_append, brokenUrlEnd, ih rfl h]
  | case3 s ih =>
    rw [brokenUrlEnd] at h
    obtain ⟨d, i, rfl, hi⟩ := hfront hs ((h ▸ brokenUrlEnd_suffix s).trans (List.suffix_cons ..))
    obtain ⟨rfl, rfl⟩ : d = '\\' ∧ i ++ z = s := List.cons.inj hi
    rw [List.cons_append, List.cons_append, brokenUrlEnd, ih rfl h]
  | case4 s hparen hslash =>
    have hread : brokenUrlEnd (')' :: s) = ')' :: s := by
      rw [brokenUrlEnd, if_pos rfl]
      · exact hparen
      · exact hslash
    rw [hread] at h
    obtain ⟨-, rfl⟩ := List.cons.inj h
    obtain rfl : k = ')' :: m := List.append_cancel_right hs
    simp [brokenUrlEnd]
  | case5 c s hparen hslash hc ih =>
    have hread : brokenUrlEnd (c :: s) = brokenUrlEnd s := by
      rw [brokenUrlEnd, if_neg hc]
      · exact hparen
      · exact hslash
    rw [hread] at h
    obtain ⟨d, i, rfl, rfl⟩ := hfront hs (h ▸ brokenUrlEnd_suffix s)
    rw [List.cons_append, brokenUrlEnd, if_neg hc]
    · exact ih rfl h
    · rintro t rfl ht
      obtain ⟨rfl, -⟩ : d = ')' ∧ i ++ w = t := List.cons.inj ht
      exact hparen (i ++ z) rfl rfl
    · rintro t rfl ht
      obtain ⟨rfl, -⟩ : d = '\\' ∧ i ++ w = t := List.cons.inj ht
      exact hslash (i ++ z) rfl rfl

theorem dropWhile_resume {p : Char → Bool} (hm : m ≠ []) (h : (k ++ z).dropWhile p = m ++ z)
    (w : List Char) : (k ++ w).dropWhile p = m ++ w := by
  rw [List.dropWhile_append] at h ⊢
  split at h
  · exact absurd (eq_nil_of_append_suffix (h ▸ List.dropWhile_suffix p)) hm
  · rename_i hk
    rw [if_neg hk, List.append_cancel_right h]

/-- A url or a broken url, up to its parenthesis. -/
theorem urlToken_resume (hz : z ≠ []) {f t : Token} (ht : t ≠ f) (h : urlToken f (k ++ z) = (t, z))
    (w : List Char) : urlToken f (k ++ w) = (t, w) := by
  have hquote : ((k ++ z).dropWhile isAsciiBlank).head? ≠ some '\x22' ∧
      ((k ++ z).dropWhile isAsciiBlank).head? ≠ some '\x27' := by
    constructor
    all_goals
      intro hq
      obtain ⟨b, hb⟩ := List.head?_eq_some_iff.1 hq
      rw [urlToken, hb] at h
      exact ht (Prod.mk.inj h).1.symm
  rw [urlToken_unquoted f hquote.1 hquote.2] at h
  -- The content of the url begins in `k`, in front of `w` as in front of `z`.
  have hbegins {j : List Char} (hj : j ≠ []) (hdrop : j ++ z = (k ++ z).dropWhile isAsciiBlank) :
      (k ++ w).dropWhile isAsciiBlank = j ++ w ∧
        ((k ++ w).dropWhile isAsciiBlank).head? = ((k ++ z).dropWhile isAsciiBlank).head? := by
    have hagain := dropWhile_resume hj hdrop.symm w
    obtain ⟨c, j, rfl⟩ := List.exists_cons_of_ne_nil hj
    exact ⟨hagain, by rw [← hdrop, hagain]; rfl⟩
  have hsuffix := urlContent_suffix ((k ++ z).dropWhile isAsciiBlank)
  cases hcontent : urlContent ((k ++ z).dropWhile isAsciiBlank) with
  | mk u left =>
    rw [hcontent] at h hsuffix
    cases u with
    | some content =>
      obtain ⟨rfl, rfl⟩ := Prod.mk.inj h
      obtain ⟨j, hdrop⟩ := hsuffix
      have hj : j ≠ [] := by
        rintro rfl
        obtain ⟨c, left, rfl⟩ := List.exists_cons_of_ne_nil hz
        have htail := urlContent_tail c left
        rw [show c :: left = _ from hdrop, hcontent] at htail
        exact not_append_suffix_tail (m := []) htail
      obtain ⟨hagain, hhead⟩ := hbegins hj hdrop
      rw [← hdrop] at hcontent
      rw [urlToken_unquoted f (hhead ▸ hquote.1) (hhead ▸ hquote.2), hagain,
        urlContent_resume (m := []) hz (.inr rfl) hcontent w]
      rfl
    | none =>
      obtain ⟨rfl, hleft⟩ := Prod.mk.inj h
      have hend : brokenUrlEnd left = ')' :: z := by
        rcases brokenUrlEnd_eq left with hnil | ⟨r, hr⟩
        · rw [hnil] at hleft
          exact absurd hleft.symm hz
        · rw [hr] at hleft ⊢
          exact congrArg (')' :: ·) hleft
      obtain ⟨i, hi, rfl⟩ := exists_of_append_suffix (List.cons_ne_nil ')' [])
        (hend ▸ brokenUrlEnd_suffix left)
      obtain ⟨p, hp⟩ := (hend ▸ brokenUrlEnd_suffix (i ++ z)).trans hsuffix
      obtain ⟨hagain, hhead⟩ := hbegins (j := p ++ [')']) (by simp) (by simpa using hp)
      have hcontent' : urlContent (p ++ [')'] ++ z) = (none, i ++ z) := by simpa [hp] using hcontent
      rw [urlToken_unquoted f (hhead ▸ hquote.1) (hhead ▸ hquote.2), hagain,
        urlContent_resume hz (.inl hi) hcontent' w, ← hp, hend, consumed_append_self]
      have hend' := brokenUrlEnd_resume (m := []) hend w
      simp only [hend', List.append_assoc, List.nil_append, List.singleton_append,
        consumed_append_self, List.drop_succ_cons, List.drop_zero]

end Readers

/-- A name that becomes a url. -/
theorem exists_name_of_isEnclosed {s : List Char} (h : (nameToken s).1.isEnclosed) :
    ∃ n r, name s = (n, '(' :: r) ∧ lowerAscii n = ['u', 'r', 'l'] ∧
      nameToken s = urlToken (.function (String.ofList n)) r := by
  unfold nameToken at h ⊢
  simp only at h ⊢
  split at h
  · rename_i r hr
    split at h
    · rename_i hurl
      exact ⟨_, r, Prod.ext rfl hr, hurl, by simp [hurl]⟩
    · cases h
  · cases h

/-- The name of a url with the url behind it. Its first character is not all that comes before the
parenthesis. -/
theorem nameToken_resume {c : Char} {k z : List Char} (hz : z ≠ []) {t : Token}
    (hs : startsName (c :: (k ++ z))) (h : nameToken (c :: (k ++ z)) = (t, z)) (ht : t.isEnclosed)
    (w : List Char) : Token.read c (k ++ w) = (t, w) := by
  obtain ⟨n, r, hname, hurl, hread⟩ :=
    exists_name_of_isEnclosed (s := c :: (k ++ z)) (by rw [h]; exact ht)
  rw [hread] at h
  have hleft := startsName_name_suffix hs
  obtain ⟨i, rfl⟩ := congrArg Prod.snd h ▸ urlToken_suffix (.function (String.ofList n)) r
  rw [hname, ← List.cons_append] at hleft
  obtain ⟨hk, -⟩ := front_of_append_suffix (List.cons_ne_nil '(' i) hleft
  have hdash : c ≠ '-' := by
    rintro rfl
    have hfirst : (name ('-' :: (k ++ z))).1.head? = some '-' := by
      rw [name, if_pos (by decide)]
      rfl
    rw [hname] at hfirst
    obtain ⟨n, rfl⟩ := List.head?_eq_some_iff.1 hfirst
    simp [lowerAscii] at hurl
  have hstarts : startsName (c :: (k ++ w)) := by
    obtain ⟨d, k, rfl⟩ := List.exists_cons_of_ne_nil hk
    by_cases hslash : c = '\\'
    · subst hslash
      exact hs
    · simpa [startsName, hdash, hslash] using hs
  have hne : t ≠ .function (String.ofList n) := by
    rintro rfl
    cases ht
  have hagain : name (c :: (k ++ w)) = (n, '(' :: (i ++ w)) := name_resume (k := c :: k) hname w
  rw [Token.read_name hstarts fun h => hdash h.1, nameToken, hagain]
  simp only [if_pos hurl, urlToken_resume hz hne h w]

theorem quotedToken_eq {q : Char} {s : List Char} {t : Token} {r : List Char}
    (h : quotedToken q s = (t, r)) : ∃ u b, quotedContent q s = (u, b, r) ∧
      t = if b then .badString (String.ofList u) else .quotedString (String.ofList u) := by
  unfold quotedToken at h
  split at h
  · rename_i u rest heq
    obtain ⟨rfl, rfl⟩ := Prod.mk.inj h
    exact ⟨u, true, heq, rfl⟩
  · rename_i u rest heq
    obtain ⟨rfl, rfl⟩ := Prod.mk.inj h
    exact ⟨u, false, heq, rfl⟩

/-- A string, a comment or a url that ends in front of some text, and not because of a line break
there, ends in front of any. -/
theorem Token.read_resume {c : Char} {k z : List Char} {t : Token}
    (h : Token.read c (k ++ z) = (t, z)) (ht : t.isEnclosed)
    (hbad : ∀ content, t ≠ .badString content) (hz : z ≠ []) (w : List Char) :
    Token.read c (k ++ w) = (t, w) := by
  have horigin := Token.read_origin c (k ++ z)
  rw [h] at horigin
  cases t
  case quotedString content =>
    obtain ⟨hquote, hread⟩ := horigin
    obtain ⟨u, b, hu, hkind⟩ := quotedToken_eq hread.symm
    cases b with
    | true => cases hkind
    | false =>
      rw [read_quote hquote, quotedToken, quotedContent_resume (m := []) (.inr ⟨hz, rfl⟩) hu w,
        hkind]
      rfl
  case badString content => exact absurd rfl (hbad content)
  case comment content =>
    obtain ⟨rfl, r, hr⟩ := horigin
    rw [← hr, List.singleton_append, read_comment] at h
    obtain ⟨hcontent, hrest⟩ := Prod.mk.inj h
    cases k with
    | nil =>
      have hsuffix := hrest ▸ commentContent_suffix r
      rw [← show '*' :: r = z from hr] at hsuffix
      exact (not_append_suffix_tail (m := []) hsuffix).elim
    | cons d k =>
      obtain ⟨rfl, rfl⟩ : '*' = d ∧ r = k ++ z := List.cons.inj hr
      rw [List.cons_append, read_comment,
        commentContent_resume (m := []) hz (Prod.ext rfl hrest) w, hcontent]
      rfl
  case unquotedUrl content => exact nameToken_resume hz horigin.1 horigin.2.symm rfl w
  case badUrl content => exact nameToken_resume hz horigin.1 horigin.2.symm rfl w
  all_goals cases ht

/-- A string, a comment or a url with something behind it is read alike when the text goes on. -/
theorem Token.read_append_of_isEnclosed {c : Char} {s r : List Char} {t : Token}
    (h : Token.read c s = (t, r)) (ht : t.isEnclosed) (hr : r ≠ []) (w : List Char) :
    Token.read c (s ++ w) = (t, r ++ w) := by
  have hsuffix := Token.read_suffix c s
  rw [h] at hsuffix
  obtain ⟨k, rfl⟩ := hsuffix
  by_cases hbad : ∃ content, t = .badString content
  · obtain ⟨content, rfl⟩ := hbad
    have horigin := Token.read_origin c (k ++ r)
    rw [h] at horigin
    obtain ⟨hquote, hread⟩ := horigin
    obtain ⟨u, b, hu, hkind⟩ := quotedToken_eq hread.symm
    rw [← List.append_nil (k ++ r)] at hu
    conv at hu => rhs; rw [← List.append_nil r]
    rw [read_quote hquote, quotedToken, quotedContent_resume (.inl hr) hu w]
    cases b with
    | true => rw [hkind]; rfl
    | false => cases hkind
  · rw [List.append_assoc]
    exact read_resume h ht (fun content hc => hbad ⟨content, hc⟩) hr (r ++ w)

end RasterFallback.Css
