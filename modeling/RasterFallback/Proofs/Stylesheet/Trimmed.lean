import RasterFallback.Proofs.Css.Standing
import RasterFallback.Proofs.Stylesheet.Spelling

/-!
Pieces that were trimmed. Whatever blanks are around a selector list, the parameters of an
at-rule or a value, trimming gives the same text, and that text is readable where it is written.
-/
namespace RasterFallback
open RasterFallback.Text RasterFallback.Css RasterFallback.Css.Components

section Text

variable {s t : List Char}

theorem selectorText_of_pads (h : Pads t s) (ht : IsTrimmed t) :
    selectorText (s ++ ['\x7b']) = String.ofList t := by
  have hlast : ∀ x ∈ s.getLast?, (x == '\x7b') = false := by
    intro x hx
    rw [beq_eq_false_iff_ne]
    rcases h.last hx with hb | hx
    · rintro rfl
      exact absurd hb (by decide)
    · exact (ht.last x hx).2.2
  rw [selectorText, dropEndWhile_concat, if_pos (by decide), dropEndWhile_of_last hlast, h.trim ht]

theorem pads_refl (t : List Char) : Pads t t :=
  ⟨[], [], by simp, allBlank_nil, allBlank_nil⟩

/-- Parameters are trimmed around the sign that ends them. -/
theorem paramsText_of_pads (h : Pads t s) (ht : IsTrimmed t) {e : List Char}
    (he : e = [] ∨ e = [';'] ∨ e = ['\x7b']) : paramsText (s ++ e) = String.ofList t := by
  have hkeep {v : List Char} (hv : Pads t v) :
      dropEndWhile (fun c => c == ';' || c == '\x7b') v = v := by
    refine dropEndWhile_of_last fun x hx => ?_
    simp only [Bool.or_eq_false_iff, beq_eq_false_iff_ne]
    rcases hv.last hx with hb | hx
    · constructor <;> (rintro rfl; exact absurd hb (by decide))
    · exact (ht.last x hx).2
  obtain ⟨v, hv, htrim⟩ : ∃ v, Pads t v ∧
      dropEndWhile (fun c => c == ';' || c == '\x7b') (trim (s ++ e)) = v := by
    rcases he with rfl | he
    · rw [List.append_nil, h.trim ht]
      exact ⟨t, pads_refl t, hkeep (pads_refl t)⟩
    · obtain ⟨x, rfl, hx, hb⟩ : ∃ x, e = [x] ∧ (x == ';' || x == '\x7b') = true ∧
          isBlank x = false := by
        rcases he with rfl | rfl
        · exact ⟨';', rfl, rfl, rfl⟩
        · exact ⟨'\x7b', rfl, rfl, rfl⟩
      obtain ⟨r, u, rfl, hr, hu⟩ := h
      -- What is before the sign keeps the blanks behind it.
      obtain ⟨v, hv, htrim⟩ : ∃ v, Pads t v ∧ trim (r ++ (t ++ u) ++ [x]) = v ++ [x] := by
        by_cases hnil : t = []
        · subst hnil
          have hall : AllBlank (r ++ u) := fun y hy => (List.mem_append.1 hy).elim (hr y) (hu y)
          have h := trim_append (s := [x]) (t := []) hall (by simp [hb]) (by simp [hb]) allBlank_nil
          exact ⟨[], pads_refl [], by simpa using h⟩
        · obtain ⟨c, t, rfl⟩ := List.exists_cons_of_ne_nil hnil
          have h := trim_append (s := c :: t ++ u ++ [x]) (t := []) hr
            (fun y hy => ht.first y hy) (fun y hy => ?_) allBlank_nil
          · exact ⟨c :: t ++ u, ⟨[], u, rfl, allBlank_nil, hu⟩, by simpa using h⟩
          · rw [List.getLast?_concat] at hy
            obtain rfl : x = y := Option.some.inj hy
            exact hb
      refine ⟨v, hv, ?_⟩
      rw [htrim, dropEndWhile_concat, if_pos hx, hkeep hv]
  rw [paramsText, htrim, hv.trim ht]

theorem splitLastBang?_append {a b : List Char} (hb : '!' ∉ b) :
    splitLastBang? (a ++ '!' :: b) = some (a, b) := by
  have htake : (a ++ '!' :: b).reverse.takeWhile (· != '!') = b.reverse := by
    have hall : ∀ c ∈ b.reverse, (c != '!') = true := by
      intro c hc
      rw [bne_iff_ne]
      rintro rfl
      exact hb (List.mem_reverse.1 hc)
    rw [List.reverse_append, List.reverse_cons, List.append_assoc,
      List.takeWhile_append_of_pos hall]
    simp
  rw [splitLastBang?, htake]
  simp

theorem splitLastBang?_eq_some {a b : List Char} (h : splitLastBang? s = some (a, b)) :
    s = a ++ '!' :: b := by
  rw [splitLastBang?] at h
  have hsplit := List.takeWhile_append_dropWhile (p := (· != '!')) (l := s.reverse)
  have hhead := List.head?_dropWhile_not (· != '!') s.reverse
  generalize List.takeWhile (· != '!') s.reverse = behind at h hsplit
  rw [← hsplit, List.drop_left] at h
  generalize List.dropWhile (· != '!') s.reverse = d at h hsplit hhead
  cases d with
  | nil => cases h
  | cons c before =>
    obtain ⟨rfl, rfl⟩ := Prod.mk.inj (Option.some.inj h)
    obtain rfl : c = '!' := by simpa using hhead
    rw [← List.reverse_reverse s, ← hsplit]
    simp

theorem mem_of_important {x : Char} (h : lowerAscii (trim s) = "important".toList) (hx : x ∈ s) :
    isBlank x ∨ x.toLower ∈ "important".toList := by
  refine (mem_trim hx).imp id fun hx => ?_
  rw [← h]
  exact List.mem_map_of_mem hx

theorem splitImportant_congr {s t : List Char} (h : trim s = trim t) :
    splitImportant s = splitImportant t := by
  rw [splitImportant, splitImportant, h]

theorem splitImportant_of_false (h : (splitImportant s).2 = false) :
    splitImportant s = (trim s, false) := by
  unfold splitImportant at h ⊢
  dsimp only at h ⊢
  split at h
  · split at h
    · cases h
    · rename_i hno
      rw [if_neg hno]
  · rfl

/-- A trimmed value is read back in front of `!important`. -/
theorem splitImportant_bang (ht : IsTrimmed t) :
    splitImportant (' ' :: t ++ " !important".toList) = (t, true) := by
  obtain ⟨u, hu, htrim⟩ : ∃ u, AllBlank u ∧
      trim (' ' :: t ++ " !important".toList) = t ++ u ++ '!' :: "important".toList := by
    by_cases hnil : t = []
    · exact ⟨[], allBlank_nil, by rw [hnil]; decide⟩
    · obtain ⟨c, t, rfl⟩ := List.exists_cons_of_ne_nil hnil
      refine ⟨[' '], by simp [AllBlank, isBlank], ?_⟩
      have h := trim_append (r := [' ']) (s := c :: t ++ " !important".toList) (t := [])
        (by simp [AllBlank, isBlank]) (fun y hy => ht.first y hy) (fun y hy => ?_) allBlank_nil
      · simpa using h
      · rw [List.getLast?_append] at hy
        obtain rfl : 't' = y := Option.some.inj hy
        rfl
  have hsplit := splitLastBang?_append (a := t ++ u) (b := "important".toList) (by decide)
  rw [splitImportant, htrim, hsplit]
  simp only [show lowerAscii (trim "important".toList) = "important".toList by decide, ↓reduceIte,
    trimEnd_append (fun x hx => (ht.last x hx).1) hu]

end Text

theorem stands_of_append {cs ds : Components} {z : List Char} (hcs : cs.Stands (ds.text ++ z))
    (hds : ds.Stands z) : (cs.append ds).Stands z := by
  rw [Stands] at *
  rw [text_append, lexemes_append, List.append_assoc, List.append_assoc, hcs, hds]

/-- The components of a spelled text have no positions. -/
theorem unplaced_of_stands {cs : Components} {z : List Char} (h : cs.Stands z) :
    cs.unplaced.lexemes = cs.lexemes := by
  have hfixed (s : List Char) : (spelled s).map Lexeme.unplaced = spelled s := by
    rw [spelled, List.map_map]
    rfl
  have hmap := congrArg (List.map Lexeme.unplaced) h
  rw [hfixed, List.map_append, hfixed, h] at hmap
  rw [Components.lexemes_unplaced]
  exact (List.append_cancel_right hmap).symm

section Runs

variable {ok : Token → Bool} {ts us : List Token} {s t z : List Char} {x : Char}

theorem exists_nil_of_unplaced {cs : Components} {p : Position} (h : cs.unplaced = .nil p) :
    ∃ q, cs = .nil q := by
  cases cs with
  | nil q => exact ⟨q, rfl⟩
  | leaf => cases h
  | block => cases h

theorem runsTo_unplaced (cs : Components) : cs.unplaced.runsTo ok = cs.runsTo ok := by
  induction cs with
  | nil => rfl
  | leaf l rest ih =>
    cases rest with
    | nil => rfl
    | leaf m rest => exact congrArg (ok l.token && ·) ih
    | block opener inner closer rest => exact congrArg (ok l.token && ·) ih
  | block opener inner closer rest _ ih =>
    by_cases hend : (∃ p, inner = .nil p) ∧ closer = none ∧ ∃ q, rest = .nil q
    · obtain ⟨⟨p, rfl⟩, rfl, q, rfl⟩ := hend
      rfl
    · rw [unplaced, runsTo, runsTo, ih, Lexeme.unplaced_token]
      · rintro p q rfl rfl rfl
        exact hend ⟨⟨p, rfl⟩, rfl, q, rfl⟩
      · intro p q hinner hcloser hrest
        exact hend ⟨exists_nil_of_unplaced hinner, Option.map_eq_none_iff.1 hcloser,
          exists_nil_of_unplaced hrest⟩

theorem runsTo_append {cs ds : Components} (hcs : ∀ t ∈ cs.tops, ok t) (hds : ds.runsTo ok) :
    (cs.append ds).runsTo ok := by
  induction cs with
  | nil => exact hds
  | leaf l rest ih =>
    have hmore := ih fun t ht => hcs t (List.mem_cons_of_mem _ ht)
    rw [leaf_append, runsTo]
    · rw [hmore, hcs l.token (List.mem_cons_self ..)]
      rfl
    · intro p hp
      rw [hp] at hmore
      cases hmore
  | block opener inner closer rest _ ih =>
    have hmore := ih fun t ht => hcs t (List.mem_cons_of_mem _ ht)
    rw [block_append, runsTo]
    · rw [hmore, hcs opener.token (List.mem_cons_self ..)]
      rfl
    · intro p q _ _ hp
      rw [hp] at hmore
      cases hmore

/-- In front of `z` the text `t` is read as closed components with the tokens `ts` outside
brackets. -/
def RunsAs (ts : List Token) (z t : List Char) : Prop :=
  ∃ cs : Components, cs.text = t ∧ cs.tops = ts ∧ cs.Stands z ∧ cs.Closed none

theorem RunsAs.nil (z : List Char) : RunsAs [] z [] :=
  ⟨Components.nil .first, rfl, rfl, rfl, trivial⟩

theorem RunsAs.append (hs : RunsAs ts (t ++ z) s) (ht : RunsAs us z t) :
    RunsAs (ts ++ us) z (s ++ t) := by
  obtain ⟨cs, rfl, rfl, hcs, hclosed⟩ := hs
  obtain ⟨ds, rfl, rfl, hds, hclosed'⟩ := ht
  exact ⟨cs.append ds, text_append cs ds, tops_append cs ds, stands_of_append hcs hds,
    Closed.append_iff.2 ⟨hclosed, hclosed'⟩⟩

theorem RunsAs.token {c : Char} {k : Token} (h : Token.read c (s ++ z) = (k, z))
    (ho : k.opens? = none) : RunsAs [k] z (c :: s) := by
  refine ⟨leaf ⟨k, c :: s, .first⟩ (Components.nil .first), ?_, rfl, ?_, ho, nofun, trivial⟩
  · rw [text_leaf]
    exact List.append_nil _
  · have htext : (leaf ⟨k, c :: s, .first⟩ (Components.nil .first)).text = c :: s :=
      List.append_nil _
    rw [Stands, htext, List.cons_append, spelled_cons, h, consumed_append_self]
    rfl

/-- Blanks make a single token. -/
theorem RunsAs.blanks (hs : s.all isAsciiBlank) (hz : ∀ x ∈ z.head?, isAsciiBlank x = false) :
    ∃ ts, RunsAs ts z s ∧ (∀ t ∈ ts, ∃ content, t = .whitespace content) ∧ (s = [] → ts = []) := by
  cases s with
  | nil => exact ⟨[], .nil z, nofun, fun _ => rfl⟩
  | cons c s =>
    rw [List.all_cons, Bool.and_eq_true] at hs
    refine ⟨[.whitespace (String.ofList (c :: s))], .token ?_ rfl, by simp,
      fun h => absurd h (List.cons_ne_nil c s)⟩
    have hall := List.all_eq_true.1 hs.2
    have htake : s.takeWhile isAsciiBlank = s := by
      have happend := @List.takeWhile_append_of_pos Char isAsciiBlank s [] hall
      simpa using happend
    have hdrop : s.dropWhile isAsciiBlank = [] := by
      have happend := @List.dropWhile_append_of_pos Char isAsciiBlank s [] hall
      simpa using happend
    rw [Token.read_blank hs.1, takeWhile_append_of_head hz, dropWhile_append_of_head hz, htake,
      hdrop, List.nil_append]

theorem RunsAs.of_movable {cs : Components} (h : cs.Movable) (hz : Separates z) :
    RunsAs cs.tops z cs.text :=
  ⟨cs, rfl, rfl, h.stands z hz, h.closed⟩

theorem grouped_brace : grouped [] ['\x7b'] =
    (block ⟨.opening .curly, ['\x7b'], .first⟩ (Components.nil .first) none
      (Components.nil .first), []) := by
  have hinner : group .first [] [.curly] =
      (Components.nil .first, [⟨none, Components.nil .first⟩]) := rfl
  rw [grouped, spelled_cons, Token.read_openBrace, spelled_nil]
  exact group_opening .first _ rfl hinner

/-- In front of a semicolon or an opening brace such a text is a run. -/
theorem RunsAs.isRun (h : RunsAs ts [x] t) (hx : x = ';' ∨ x = '\x7b') (hok : ∀ k ∈ ts, ok k) :
    isRun ok x t ∧ ts <+: (ofText (t ++ [x])).tops := by
  obtain ⟨cs, rfl, rfl, hcs, hclosed⟩ := h
  have htext : (ofText (cs.text ++ [x])).unplaced = cs.unplaced.append (grouped [] [x]).1 := by
    have hgroup : (grouped [] (cs.text ++ [x])).1 = (ofText (cs.text ++ [x])).unplaced :=
      congrArg Prod.fst (group_unplaced _ _ [])
    have happend := @group_append cs [] hclosed (spelled [x])
    rw [unplaced_of_stands hcs] at happend
    rw [← hgroup, grouped, hcs, happend]
    rfl
  have hend : (grouped [] [x]).1.runsTo ok := by
    rcases hx with rfl | rfl
    · rw [grouped_semicolon, grouped_nil]
      rfl
    · rw [grouped_brace]
      rfl
  constructor
  · rw [Components.isRun, ← runsTo_unplaced, htext]
    exact runsTo_append (by rwa [tops_unplaced]) hend
  · rw [← tops_unplaced (ofText _), htext, tops_append, tops_unplaced]
    exact List.prefix_append ..

theorem not_blank_head {c : Char} {z : List Char} (h : z.head? = some c)
    (hc : isAsciiBlank c = false) : ∀ x ∈ z.head?, isAsciiBlank x = false := by
  rw [h]
  exact fun x hx => Option.some.inj hx ▸ hc

/-- What is trimmed is read alike with blanks around it. -/
theorem RunsAs.padded {cs : Components} (h : cs.Movable) {r u : List Char} (hr : r.all isAsciiBlank)
    (hu : u.all isAsciiBlank) (hz : Separates (u ++ z))
    (hblank : ∀ x ∈ z.head?, isAsciiBlank x = false) :
    ∃ us, RunsAs us z (r ++ (cs.text ++ u)) ∧
      (∀ t ∈ us, t ∈ cs.tops ∨ ∃ content, t = .whitespace content) ∧
      (r = [] → cs.tops <+: us) := by
  by_cases hne : cs.text = []
  · -- The blanks on both sides make one token.
    have hstands := h.stands [] separates_nil
    rw [Stands, hne, List.nil_append, spelled_nil, List.append_nil] at hstands
    obtain ⟨p, rfl⟩ := exists_nil_of_lexemes hstands.symm
    obtain ⟨us, hus, hus', -⟩ :=
      RunsAs.blanks (s := r ++ u) (by rw [List.all_append, hr, hu]; rfl) hblank
    exact ⟨us, hus, fun t ht => .inr (hus' t ht), fun _ => List.nil_prefix⟩
  · obtain ⟨vs, hvs, hvs', -⟩ := RunsAs.blanks hu hblank
    obtain ⟨c, t, ht⟩ := List.exists_cons_of_ne_nil hne
    obtain ⟨ws, hws, hws', hnil⟩ := RunsAs.blanks (z := cs.text ++ u ++ z) hr fun x hx => by
      rw [ht] at hx
      exact not_isAsciiBlank (h.trimmed.first x (by rw [ht]; exact hx))
    refine ⟨ws ++ (cs.tops ++ vs), hws.append ((RunsAs.of_movable h hz).append hvs), ?_, ?_⟩
    · intro k hk
      rcases List.mem_append.1 hk with hk | hk
      · exact .inr (hws' k hk)
      · exact (List.mem_append.1 hk).imp id (hvs' k)
    · intro hr
      rw [hnil hr]
      exact List.prefix_append ..

end Runs

section Pieces

variable {b : Option Bracket} {z : List Char} {ps : Components} {ok : Token → Bool}

theorem isInner_of_isValueToken {t : Token} (h : isValueToken t) : isInner t := by
  simp only [isValueToken, Bool.and_eq_true, decide_eq_true_eq, Bool.not_eq_true'] at h
  simp [isInner, h.1.1, h.2]

theorem isValueToken_of_isPreludeToken {t : Token} (h : isPreludeToken t) : isValueToken t := by
  simp only [isPreludeToken, Bool.and_eq_true] at h
  exact h.1

theorem text_of_tops {cs : Components} (h : cs.tops = []) : cs.text = [] := by
  cases cs with
  | nil => rfl
  | leaf => cases h
  | block => cases h

/-- Between the blanks around them components have the tokens they had. -/
theorem exists_trimmed (h : ps.Sits b z) (hok : ∀ t ∈ ps.tops, ok t)
    (hinner : ∀ t, ok t → isInner t) : ∃ ts : Components, ts.Movable ∧ Pads ts.text ps.text ∧
      (∀ t ∈ ts.tops, ok t) ∧
      ∀ t ∈ ps.tops.head?, t.isSpace = false → ts.text = [] ∨ ts.tops.head? = some t := by
  obtain ⟨lead, ts, trail, rfl, hts, hlead, htrail⟩ :=
    h.exists_movable fun t ht => hinner t (hok t ht)
  have htops : (lead.append (ts.append trail)).tops = lead.tops ++ (ts.tops ++ trail.tops) := by
    rw [tops_append, tops_append]
  refine ⟨ts, hts, ⟨lead.text, trail.text, by rw [text_append, text_append], hlead.text,
    htrail.text⟩, fun t ht => hok t ?_, fun t ht hspace => ?_⟩
  · rw [htops]
    exact List.mem_append_right _ (List.mem_append_left _ ht)
  · rw [htops] at ht
    cases hl : lead.tops with
    | cons w ws =>
      -- A blank in front would be the first token.
      rw [hl] at ht
      obtain rfl : w = t := Option.some.inj ht
      obtain ⟨content, rfl⟩ := hlead.tokens w (by simp [hl])
      cases hspace
    | nil =>
      rw [hl, List.nil_append] at ht
      cases htt : ts.tops with
      | nil => exact .inl (text_of_tops htt)
      | cons k ks =>
        rw [htt] at ht
        exact .inr ht

theorem runsAs_important : RunsAs [.delim '!', .ident "important"] [';'] "!important".toList := by
  have hname := read_plainName (c := 'i') (s := "mportant".toList) (by decide) (x := ';') rfl []
  have hident : RunsAs [.ident "important"] [';'] "important".toList := .token hname rfl
  have hbang : Token.read '!' ([] ++ ("important".toList ++ [';'])) =
      (.delim '!', "important".toList ++ [';']) := by
    simp [Token.read, isAsciiBlank, isNewline, startsNumber, startsDigit, fraction?, startsName,
      isNameStart]
  exact (RunsAs.token hbang rfl).append hident

theorem ok_of_padded {ts : Components} {us : List Token} (hts : ∀ k ∈ ts.tops, ok k)
    (hus : ∀ k ∈ us, k ∈ ts.tops ∨ ∃ content, k = .whitespace content)
    (hblank : ∀ content, ok (.whitespace content)) : ∀ k ∈ us, ok k := by
  intro k hk
  rcases hus k hk with hk | ⟨content, rfl⟩
  · exact hts k hk
  · exact hblank content

theorem allBlank_of_all {s : List Char} (h : s.all isAsciiBlank) : AllBlank s :=
  fun x hx => isBlank_of_isAsciiBlank (List.all_eq_true.1 h x hx)

/-- A trimmed selector list is readable. -/
theorem isReadableSelector_of_sits (h : ps.Sits b z) (hok : ∀ t ∈ ps.tops, isPreludeToken t)
    (hhead : ∀ t ∈ ps.tops.head?, startsRule t) :
    isReadableSelector (selectorText (ps.text ++ ['\x7b'])) := by
  obtain ⟨ts, hts, hpads, htok, hfirst⟩ := exists_trimmed h hok fun t ht =>
    isInner_of_isValueToken (isValueToken_of_isPreludeToken ht)
  have hpad : Pads ts.text (ts.text ++ [' ']) :=
    ⟨[], [' '], rfl, allBlank_nil, allBlank_of_all rfl⟩
  obtain ⟨us, hruns, hus, hfront⟩ := RunsAs.padded (r := []) (u := [' ']) (z := ['\x7b']) hts rfl rfl
    (separates_cons rfl (by decide) _) (not_blank_head rfl rfl)
  obtain ⟨hrun, htops⟩ := hruns.isRun (.inr rfl) (ok_of_padded htok hus fun _ => rfl)
  rw [selectorText_of_pads hpads hts.trimmed]
  simp only [isReadableSelector, Bool.and_eq_true, Bool.or_eq_true, beq_iff_eq,
    String.toList_ofList]
  have hlist : ts.text ++ [' ', '\x7b'] = ts.text ++ [' '] ++ ['\x7b'] := by simp
  rw [hlist]
  refine ⟨⟨hrun, selectorText_of_pads hpad hts.trimmed⟩, ?_⟩
  by_cases hne : ts.text = []
  · exact .inl (by rw [hne]; rfl)
  · have hps : ps.text ≠ [] := by
      obtain ⟨r, u, hpad, -⟩ := hpads
      simp [hpad, hne]
    obtain ⟨t, ks, hps⟩ := List.exists_cons_of_ne_nil (tops_ne_nil hps)
    rw [hps] at hhead hfirst
    have ht := hhead t rfl
    have hspace : t.isSpace = false := by
      cases t with
      | whitespace => cases ht
      | comment => cases ht
      | _ => rfl
    have hts' := (hfirst t rfl hspace).resolve_left hne
    obtain ⟨ks, hks⟩ := List.head?_eq_some_iff.1 hts'
    obtain ⟨vs, hvs⟩ := (hfront rfl).trans htops
    rw [List.nil_append, hks] at hvs
    refine .inr ?_
    rw [← hvs]
    simpa using ht

/-- Trimmed parameters are readable. -/
theorem isReadable_atHead {name : String} (hname : isPlainName name.toList) (h : ps.Sits b z)
    (hok : ∀ t ∈ ps.tops, isPreludeToken t) {e : List Char}
    (he : e = [] ∨ e = [';'] ∨ e = ['\x7b']) {gap : List Char} (hgap : gap = [] ∨ gap = [' '])
    {x : Char} (hx : x = ';' ∨ x = '\x7b') :
    (⟨name, paramsText (ps.text ++ e), none⟩ : AtHead).isReadable gap x := by
  obtain ⟨ts, hts, hpads, htok, -⟩ := exists_trimmed h hok fun t ht =>
    isInner_of_isValueToken (isValueToken_of_isPreludeToken ht)
  rw [paramsText_of_pads hpads hts.trimmed he]
  have hgap' : gap.all isAsciiBlank := by rcases hgap with rfl | rfl <;> rfl
  obtain ⟨r, hr, htail⟩ : ∃ r : List Char, r.all isAsciiBlank ∧
      (⟨name, String.ofList ts.text, none⟩ : AtHead).tail = r ++ ts.text := by
    by_cases hne : ts.text = []
    · exact ⟨[], rfl, by rw [hne]; rfl⟩
    · refine ⟨[' '], rfl, ?_⟩
      rw [AtHead.tail, if_neg, String.toList_ofList]
      · rfl
      · simpa using hne
  have hbreak : isBreak x := by rcases hx with rfl | rfl <;> rfl
  have hseparates : Separates (gap ++ [x]) := by
    rcases hgap with rfl | rfl
    · exact separates_of_isBreak hbreak []
    · exact separates_cons rfl (by decide) [x]
  obtain ⟨us, hruns, hus, -⟩ := RunsAs.padded (z := [x]) hts hr hgap' hseparates (by
    simpa using (endsEscape_of_isBreak hbreak).2)
  obtain ⟨hrun, -⟩ := hruns.isRun hx (ok_of_padded htok hus fun _ => rfl)
  have hpad : Pads ts.text (r ++ (ts.text ++ gap)) :=
    ⟨r, gap, rfl, allBlank_of_all hr, allBlank_of_all hgap'⟩
  simp only [AtHead.isReadable, Bool.and_eq_true, beq_iff_eq]
  rw [htail, List.append_assoc]
  refine ⟨⟨hname, hrun⟩, paramsText_of_pads hpad hts.trimmed (.inr ?_)⟩
  rcases hx with rfl | rfl
  · exact .inl rfl
  · exact .inr rfl

/-- A value without its `!important` is what stands between blanks of it. -/
theorem exists_value (h : ps.Sits b z) (hok : ∀ t ∈ ps.tops, isValueToken t) :
    ∃ ts : Components, ts.Movable ∧ (∀ t ∈ ts.tops, isValueToken t) ∧
      ts.text = (splitImportant ps.text).1 := by
  obtain ⟨lead, ts, trail, rfl, hts, hlead, htrail⟩ :=
    h.exists_movable fun t ht => isInner_of_isValueToken (hok t ht)
  have hpads : Pads ts.text (lead.append (ts.append trail)).text :=
    ⟨lead.text, trail.text, by rw [text_append, text_append], hlead.text, htrail.text⟩
  have htok : ∀ t ∈ ts.tops, isValueToken t := fun t ht => hok t (by
    rw [tops_append, tops_append]
    exact List.mem_append_right _ (List.mem_append_left _ ht))
  rw [splitImportant, hpads.trim hts.trimmed]
  split
  · rename_i before behind hsplit
    by_cases himportant : lowerAscii (trim behind) = "important".toList
    · rw [if_pos himportant]
      have htext := splitLastBang?_eq_some hsplit
      have hmark : ∀ y ∈ behind, isEndMark y = false := by
        intro y hy
        refine Bool.eq_false_iff.2 fun hy' => ?_
        have hletter := (mem_of_important himportant hy).resolve_left (by simp [(isEndMark_facts hy').1])
        simp only [isEndMark, Bool.or_eq_true, beq_iff_eq] at hy'
        rcases hy' with ((((rfl | rfl) | rfl) | rfl) | rfl) | rfl <;> exact absurd hletter (by decide)
      have hbang (w : List Char) : Separates ('!' :: (behind ++ w)) := by
        refine ⟨fun x hx => ?_, fun hdash => ?_⟩
        · obtain rfl : '!' = x := Option.some.inj hx
          rfl
        · cases behind with
          | nil => exact absurd himportant (by decide)
          | cons y behind =>
            obtain ⟨rfl, -⟩ := List.cons_prefix_cons.1 (List.cons_prefix_cons.1 hdash).2
            exact absurd (mem_of_important himportant (List.mem_cons_self ..)) (by decide)
      have hsits := h.append_right.append_left (h.append_right.append_right.separates_blanks htrail)
      obtain ⟨qs, es, rfl, rfl, hes⟩ := hsits.exists_split
        (fun t ht => isInner_of_isValueToken (htok t ht)) htext (hbang _) hmark
      rw [tops_append] at htok
      have hqs := hsits.append_left (by rw [hes]; exact hbang _)
      obtain ⟨front, ws, back, rfl, hws, hfront, hback⟩ :=
        hqs.exists_movable fun t ht => isInner_of_isValueToken (htok t (List.mem_append_left _ ht))
      refine ⟨ws, hws, fun t ht => htok t ?_, ?_⟩
      · rw [tops_append, tops_append]
        exact List.mem_append_left _ (List.mem_append_right _ (List.mem_append_left _ ht))
      · -- A value that was trimmed begins with no blank.
        have hnil : front.text = [] := by
          cases hf : front.text with
          | nil => rfl
          | cons x f =>
            have hx := hts.trimmed.first x (by
              rw [text_append, text_append, hf]
              rfl)
            rw [hfront.text x (by simp [hf])] at hx
            cases hx
        rw [text_append, text_append, hnil, List.nil_append,
          trimEnd_append (fun x hx => (hws.trimmed.last x hx).1) hback.text]
    · rw [if_neg himportant]
      exact ⟨ts, hts, htok, rfl⟩
  · exact ⟨ts, hts, htok, rfl⟩

/-- A declaration with a trimmed value is readable. -/
theorem isReadable_declaration {prop : String} (hname : isPlainName prop.toList) (h : ps.Sits b z)
    (hok : ∀ t ∈ ps.tops, isValueToken t) :
    (⟨prop, String.ofList (splitImportant ps.text).1, (splitImportant ps.text).2, none⟩ :
      Declaration).isReadable := by
  obtain ⟨ts, hts, htok, htext⟩ := exists_value h hok
  rw [← htext]
  generalize himportant : (splitImportant ps.text).2 = important
  have htail : (⟨prop, String.ofList ts.text, important, none⟩ : Declaration).tail =
      ' ' :: ts.text ++ if important then " !important".toList else [] := by
    rw [Declaration.tail, String.toList_ofList]
  have hsplit : splitImportant (⟨prop, String.ofList ts.text, important, none⟩ : Declaration).tail =
      (ts.text, important) := by
    rw [htail]
    cases important with
    | true => exact splitImportant_bang hts.trimmed
    | false =>
      have hsame := splitImportant_of_false himportant
      have hpad : Pads ts.text (' ' :: ts.text ++ []) :=
        ⟨[' '], [], rfl, allBlank_of_all rfl, allBlank_nil⟩
      rw [if_neg (by decide), splitImportant_congr (t := ps.text), hsame, htext, hsame]
      rw [hpad.trim hts.trimmed, htext, hsame]
  have hrun : isRun isValueToken ';'
      (⟨prop, String.ofList ts.text, important, none⟩ : Declaration).tail := by
    rw [htail]
    cases important with
    | true =>
      obtain ⟨us, hruns, hus, -⟩ := RunsAs.padded (r := [' ']) (u := [' '])
        (z := "!important".toList ++ [';']) hts rfl rfl (separates_cons rfl (by decide) _)
        (not_blank_head rfl rfl)
      have hok : ∀ k ∈ us ++ [.delim '!', .ident "important"], isValueToken k := by
        intro k hk
        rcases List.mem_append.1 hk with hk | hk
        · exact ok_of_padded htok hus (fun _ => rfl) k hk
        · simp only [List.mem_cons, List.not_mem_nil, or_false] at hk
          rcases hk with rfl | rfl <;> rfl
      obtain ⟨hrun, -⟩ := (hruns.append runsAs_important).isRun (.inl rfl) hok
      have happend : ' ' :: ts.text ++ " !important".toList =
          [' '] ++ (ts.text ++ [' ']) ++ "!important".toList := by simp
      rwa [if_pos rfl, happend]
    | false =>
      obtain ⟨us, hruns, hus, -⟩ := RunsAs.padded (r := [' ']) (u := []) (z := [';']) hts rfl rfl
        (separates_of_isBreak rfl []) (not_blank_head rfl rfl)
      rw [if_neg (by decide), List.cons_append]
      exact (hruns.isRun (.inl rfl) (ok_of_padded htok hus fun _ => rfl)).1
  simp only [Declaration.isReadable, Bool.and_eq_true, beq_iff_eq]
  exact ⟨⟨hname, hrun⟩, by rw [hsplit, String.toList_ofList]⟩

end Pieces

end RasterFallback
