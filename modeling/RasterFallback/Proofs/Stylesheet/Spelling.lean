import RasterFallback.Proofs.Stylesheet.Readable

/-!
Reading what was written. A readable part is read as itself wherever inside braces
it stands, so a stylesheet of readable parts is read back as it was written.
-/
namespace RasterFallback
open RasterFallback.Text RasterFallback.Css RasterFallback.Css.Components

/-- Two readings one behind the other. -/
def joined {α : Type} (a b : Option (List α)) : Option (List α) := a.bind fun x => b.map (x ++ ·)

theorem joined_nil {α : Type} (b : Option (List α)) : joined (some []) b = b := by
  cases b <;> rfl

theorem joined_assoc {α : Type} (a b c : Option (List α)) :
    joined (joined a b) c = joined a (joined b c) := by
  cases a <;> cases b <;> cases c <;> simp [joined]

/-- Wherever inside braces the text `s` stands, `read` makes `result` of it and reads on behind
it. -/
def ReadsAs {α : Type} (read : Components → Option (List α)) (s : List Char)
    (result : Option (List α)) : Prop :=
  ∀ (rest : List Char) (pending : List Bracket), (∀ b ∈ pending, b = .curly) →
    read (grouped pending (s ++ rest)).1 = joined result (read (grouped pending rest).1) ∧
      (grouped pending (s ++ rest)).2 = (grouped pending rest).2

section Grouped

variable (pending : List Bracket)

theorem grouped_token {c : Char} {s w : List Char} {t : Token} (h : Token.read c (s ++ w) = (t, w))
    (ho : t.opens? = none) (hc : t.closes? = none) :
    grouped pending (c :: (s ++ w)) =
      (leaf ⟨t, c :: s, .first⟩ (grouped pending w).1, (grouped pending w).2) := by
  rw [grouped, spelled_cons, h, consumed_append_self]
  apply group_leaf .first _ ho
  intro b _
  rw [hc]
  exact (Option.some_ne_none b).symm

theorem grouped_colon (w : List Char) :
    grouped pending (':' :: w) =
      (leaf ⟨.colon, [':'], .first⟩ (grouped pending w).1, (grouped pending w).2) :=
  grouped_token pending (s := []) (Token.read_colon w) rfl rfl

theorem grouped_semicolon (w : List Char) :
    grouped pending (';' :: w) =
      (leaf ⟨.semicolon, [';'], .first⟩ (grouped pending w).1, (grouped pending w).2) :=
  grouped_token pending (s := []) (Token.read_semicolon w) rfl rfl

/-- Blanks make a single token. -/
theorem grouped_blank {d : Char} (hd : isAsciiBlank d) (u : List Char) :
    grouped pending (d :: u) =
      (leaf ⟨.whitespace (String.ofList (d :: u.takeWhile isAsciiBlank)),
          d :: u.takeWhile isAsciiBlank, .first⟩ (grouped pending (u.dropWhile isAsciiBlank)).1,
        (grouped pending (u.dropWhile isAsciiBlank)).2) := by
  have htoken : Token.read d (u.takeWhile isAsciiBlank ++ u.dropWhile isAsciiBlank) =
      (.whitespace (String.ofList (d :: u.takeWhile isAsciiBlank)),
        u.dropWhile isAsciiBlank) := by
    simp [Token.read, hd]
  have h := grouped_token pending htoken rfl rfl
  rwa [List.takeWhile_append_dropWhile] at h

theorem grouped_braces {pending : List Bracket} {α : Type} {read : Components → Option (List α)}
    (hread : ∀ p, read (nil p) = some []) {s : List Char} {result : Option (List α)}
    (h : ReadsAs read s result) (hp : ∀ b ∈ pending, b = .curly) (w : List Char) :
    ∃ opener inner closer, opener.token = .opening .curly ∧ opener.text = ['\x7b'] ∧
      read inner = result ∧
      grouped pending ('\x7b' :: (s ++ '\x7d' :: w)) =
        (block opener inner (some closer) (grouped pending w).1, (grouped pending w).2) := by
  have hclose : grouped (.curly :: pending) ('\x7d' :: w) = (nil .first,
      ⟨some ⟨.closing .curly, ['\x7d'], .first⟩, (grouped pending w).1⟩ ::
        (grouped pending w).2) := by
    have hconsumed : consumed w w = [] := consumed_append_self [] w
    rw [grouped, spelled_cons, Token.read_closeBrace, hconsumed]
    exact group_closing .first _ rfl
  obtain ⟨hinner, houter⟩ := h ('\x7d' :: w) (.curly :: pending) (by simpa using hp)
  rw [hclose, hread] at hinner
  rw [hclose] at houter
  refine ⟨⟨.opening .curly, ['\x7b'], .first⟩, _, ⟨.closing .curly, ['\x7d'], .first⟩, rfl, rfl,
    hinner.trans ?_, ?_⟩
  · cases result <;> simp [joined]
  · have hconsumed (u : List Char) : consumed u u = [] := consumed_append_self [] u
    rw [grouped, spelled_cons, Token.read_openBrace, hconsumed]
    exact group_opening .first _ rfl (Prod.ext rfl houter)

end Grouped

namespace ReadsAs

variable {α : Type} {read : Components → Option (List α)} {s t : List Char}
  {a b : Option (List α)}

theorem nil : ReadsAs read [] (some []) :=
  fun _ _ _ => ⟨(joined_nil _).symm, rfl⟩

theorem append (hs : ReadsAs read s a) (ht : ReadsAs read t b) :
    ReadsAs read (s ++ t) (joined a b) := by
  intro rest pending hp
  obtain ⟨hread, htails⟩ := hs (t ++ rest) pending hp
  obtain ⟨hread', htails'⟩ := ht rest pending hp
  rw [List.append_assoc, hread, htails, hread', joined_assoc]
  exact ⟨rfl, htails'⟩

/-- A blank is read as nothing, also where it joins other blanks. -/
theorem blank (hread : ∀ (content : String) (text : List Char) (rest : Components),
      read (leaf ⟨.whitespace content, text, .first⟩ rest) = read rest)
    {c : Char} (hc : isAsciiBlank c) : ReadsAs read [c] (some []) := by
  have hgrouped {d : Char} (hd : isAsciiBlank d) (u : List Char) (pending : List Bracket) :
      read (grouped pending (d :: u)).1 =
          read (grouped pending (u.dropWhile isAsciiBlank)).1 ∧
        (grouped pending (d :: u)).2 = (grouped pending (u.dropWhile isAsciiBlank)).2 := by
    rw [grouped_blank pending hd, hread]
    exact ⟨rfl, rfl⟩
  intro rest pending _
  rw [joined_nil, List.singleton_append, (hgrouped hc rest pending).1, (hgrouped hc rest pending).2]
  cases rest with
  | nil => exact ⟨rfl, rfl⟩
  | cons d rest =>
    by_cases hd : isAsciiBlank d = true
    · rw [List.dropWhile_cons_of_pos hd, (hgrouped hd rest pending).1, (hgrouped hd rest pending).2]
      exact ⟨rfl, rfl⟩
    · rw [List.dropWhile_cons_of_neg hd]
      exact ⟨rfl, rfl⟩

end ReadsAs

theorem declarations?_whitespace (content : String) (text : List Char) (rest : Components) :
    declarations? (leaf ⟨.whitespace content, text, .first⟩ rest) = declarations? rest := by
  rw [declarations?_leaf]

theorem nodes?_whitespace (content : String) (text : List Char) (rest : Components) :
    nodes? (leaf ⟨.whitespace content, text, .first⟩ rest) = nodes? rest := by
  rw [nodes?_leaf]

/-- A declaration without the indentation before it. -/
def Declaration.text (d : Declaration) : List Char := d.prop.toList ++ ':' :: (d.tail ++ [';'])

/-- A readable declaration is read as itself. -/
theorem readsAs_declaration {d : Declaration} (h : d.isReadable) :
    ReadsAs declarations? d.text (some [d.unplaced]) := by
  simp only [Declaration.isReadable, Bool.and_eq_true, beq_iff_eq] at h
  obtain ⟨⟨hname, hrun⟩, hsplit⟩ := h
  obtain ⟨ps, htops, htext, -, hgrouped⟩ := grouped_of_isRun (x := ';') rfl hrun rfl
  intro rest pending hp
  cases hprop : d.prop.toList with
  | nil =>
    rw [hprop] at hname
    exact absurd hname (by decide)
  | cons c s =>
    rw [hprop] at hname
    have hline : d.text ++ rest = c :: (s ++ ':' :: (d.tail ++ ';' :: rest)) := by
      simp [Declaration.text, hprop]
    rw [hline, grouped_token pending (read_plainName hname rfl _) rfl rfl, grouped_colon,
      hgrouped rest pending fun b hb => hp b (List.mem_of_head? hb), grouped_semicolon]
    refine ⟨?_, rfl⟩
    rw [declarations?_leaf]
    have hvalue (next : Components) :
        value? (ps.append (leaf ⟨.semicolon, [';'], .first⟩ next)) = some (d.tail, next) := by
      rw [value?_append htops, value?_leaf, if_pos rfl, htext]
      simp
    simp only [colon?_colon, Option.bind_some, hvalue, hsplit, ← hprop, String.ofList_toList]
    cases declarations? (grouped pending rest).1 <;> rfl

/-- The end mark of a whole comment stands behind the mark that opens it. -/
theorem suffix_of_isWholeComment {k : List Char} (h : isWholeComment ('/' :: '*' :: k)) :
    ['*', '/'] <:+ k := by
  simp only [isWholeComment, Bool.and_eq_true, decide_eq_true_eq, List.length_cons] at h
  obtain ⟨t, ht⟩ := List.isSuffixOf_iff_suffix.1 h.2
  have hlen := congrArg List.length ht
  simp only [List.length_append, List.length_cons, List.length_nil] at hlen
  match t with
  | [] => simp only [List.length_nil] at hlen; omega
  | [_] => simp only [List.length_cons, List.length_nil] at hlen; omega
  | _ :: _ :: t => exact ⟨t, by simpa using (List.cons.inj (List.cons.inj ht).2).2⟩

theorem commentContent_append {s : List Char} (h : commentContent (s ++ ['*', '/']) = (s, []))
    (w : List Char) : commentContent (s ++ '*' :: '/' :: w) = (s, w) := by
  induction s with
  | nil => simp [commentContent]
  | cons c s ih =>
    have hend : ∀ t, c = '*' → s ++ ['*', '/'] ≠ '/' :: t := by
      rintro t rfl ht
      rw [List.cons_append, ht] at h
      simp [commentContent] at h
    have hrest : commentContent (s ++ ['*', '/']) = (s, []) := by
      rw [List.cons_append, commentContent] at h
      · obtain ⟨hs, ht⟩ := Prod.mk.inj h
        exact Prod.ext (List.cons.inj hs).2 ht
      · exact hend
    have hend' : ∀ t, c = '*' → s ++ '*' :: '/' :: w ≠ '/' :: t := by
      rintro t rfl ht
      cases s with
      | nil => cases ht
      | cons d s =>
        obtain ⟨rfl, -⟩ := List.cons.inj ht
        exact hend _ rfl rfl
    rw [List.cons_append, commentContent]
    · rw [ih hrest]
    · exact hend'

theorem readsAs_comment {content : String} (h : isReadableComment content) :
    ReadsAs nodes? (['/', '*'] ++ content.toList ++ ['*', '/']) (some [.comment content]) := by
  intro rest pending _
  have hcontent := commentContent_append (beq_iff_eq.1 h) rest
  have htoken : Token.read '/' (('*' :: (content.toList ++ ['*', '/'])) ++ rest) =
      (.comment content, rest) := by
    have happend : ('*' :: (content.toList ++ ['*', '/'])) ++ rest =
        '*' :: (content.toList ++ '*' :: '/' :: rest) := by simp
    rw [happend, Token.read_comment, hcontent, String.ofList_toList]
  have hgrouped := grouped_token pending htoken rfl rfl
  have htext : ['/', '*'] ++ content.toList ++ ['*', '/'] ++ rest =
      '/' :: (('*' :: (content.toList ++ ['*', '/'])) ++ rest) := by simp
  have hwhole : isWholeComment ('/' :: '*' :: (content.toList ++ ['*', '/'])) := by
    have hsuffix : ['*', '/'] <:+ '/' :: '*' :: (content.toList ++ ['*', '/']) :=
      (List.suffix_append _ _).trans ((List.suffix_cons _ _).trans (List.suffix_cons _ _))
    simp [isWholeComment, hsuffix]
  rw [htext, hgrouped]
  refine ⟨?_, rfl⟩
  rw [nodes?_leaf]
  simp only [hwhole, ↓reduceIte]
  cases nodes? (grouped pending rest).1 <;> rfl

theorem readsAs_block {body : List Char} {ds : Option (List Declaration)}
    (hbody : ReadsAs declarations? body ds) :
    ReadsAs nodes? ('\x7b' :: (body ++ ['\x7d'])) (ds.map fun ds => [.rule ⟨"", ds, none⟩]) := by
  intro rest pending hp
  obtain ⟨opener, inner, closer, hopener, htext, hinner, hblock⟩ :=
    grouped_braces declarations?_nil hbody hp rest
  have happend : '\x7b' :: (body ++ ['\x7d']) ++ rest = '\x7b' :: (body ++ '\x7d' :: rest) := by
    simp
  have hselector : selectorText ['\x7b'] = "" := rfl
  rw [happend, hblock]
  refine ⟨?_, rfl⟩
  rw [nodes?_block, rule?, prelude?_block, if_pos hopener, htext]
  simp only [Option.bind_some, closed?, Option.isSome_some, ↓reduceIte, hinner, hselector]
  cases ds <;> cases nodes? (grouped pending rest).1 <;> rfl

theorem tops_ne_nil {ps : Components} (h : ps.text ≠ []) : ps.tops ≠ [] := by
  cases ps with
  | nil => exact absurd rfl h
  | leaf => exact List.cons_ne_nil _ _
  | block => exact List.cons_ne_nil _ _

/-- What comes first in a text comes first in its components in front. -/
theorem head?_of_prefix {ps : Components} {ts : List Token} (hps : ps.tops <+: ts)
    (htext : ps.text ≠ []) {ok : Token → Bool} (hts : ts.head?.any ok) :
    ∃ t, ps.tops.head? = some t ∧ ok t := by
  obtain ⟨t, us, hus⟩ := List.exists_cons_of_ne_nil (tops_ne_nil htext)
  obtain ⟨vs, rfl⟩ := hps
  rw [hus] at hts ⊢
  exact ⟨t, rfl, hts⟩

/-- A rule with a readable selector list is read as itself, as its declarations are. -/
theorem readsAs_rule {selector : String} (h : isReadableSelector selector) {body : List Char}
    {ds : Option (List Declaration)} (hbody : ReadsAs declarations? body ds) :
    ReadsAs nodes? (selector.toList ++ [' ', '\x7b'] ++ body ++ ['\x7d'])
      (ds.map fun ds => [.rule ⟨selector, ds, none⟩]) := by
  simp only [isReadableSelector, Bool.and_eq_true, Bool.or_eq_true, beq_iff_eq] at h
  obtain ⟨⟨hrun, htext⟩, hstart⟩ := h
  by_cases hempty : selector = ""
  · subst hempty
    exact joined_nil (ds.map fun ds => [Node.rule ⟨"", ds, none⟩]) ▸
      (ReadsAs.blank nodes?_whitespace (c := ' ') rfl).append (readsAs_block hbody)
  · obtain ⟨ps, htops, hps, hprefix, hgrouped⟩ := grouped_of_isRun (x := '\x7b') rfl hrun rfl
    intro rest pending hp
    obtain ⟨opener, inner, closer, hopener, hopenerText, hinner, hblock⟩ :=
      grouped_braces declarations?_nil hbody hp rest
    have happend : selector.toList ++ [' ', '\x7b'] ++ body ++ ['\x7d'] ++ rest =
        selector.toList ++ [' '] ++ '\x7b' :: (body ++ '\x7d' :: rest) := by simp
    have hprelude (next : Components) :
        prelude? (ps.append (block opener inner (some closer) next)) =
          some (selector.toList ++ [' ', '\x7b'], .block opener inner (some closer) next) := by
      rw [prelude?_append htops, prelude?_block, if_pos hopener, hopenerText, hps]
      simp
    rw [List.append_assoc] at hprefix
    obtain ⟨t, ht, hrule⟩ := head?_of_prefix hprefix (by simp [hps])
      (hstart.resolve_left (by simpa using hempty))
    rw [happend, hgrouped _ _ fun b hb => hp b (List.mem_of_head? hb), hblock,
      nodes?_append ht hrule, rule?, hprelude]
    refine ⟨?_, rfl⟩
    simp only [Option.bind_some, closed?, Option.isSome_some, ↓reduceIte, hinner, htext]
    cases ds <;> cases nodes? (grouped pending rest).1 <;> rfl

/-- The name of an at-rule is a single token, and what is behind it a prelude. -/
theorem grouped_atHead {h : AtHead} {gap : List Char} {x : Char} (hx : isBreak x)
    (hh : h.isReadable gap x) (hgap : gap = [] ∨ gap = [' ']) :
    ∃ (l : Lexeme) (ps : Components), l.token = .atKeyword h.name ∧
      (∀ t ∈ ps.tops, isPreludeToken t) ∧
      ps.text = h.tail ++ gap ∧ paramsText (ps.text ++ [x]) = h.params ∧
      ∀ (w : List Char) (pending : List Bracket), (∀ b ∈ pending, b = .curly) →
        grouped pending ('@' :: (h.name.toList ++ (h.tail ++ gap ++ x :: w))) =
          (leaf l (ps.append (grouped pending (x :: w)).1),
            (grouped pending (x :: w)).2) := by
  simp only [AtHead.isReadable, Bool.and_eq_true, beq_iff_eq] at hh
  obtain ⟨⟨hname, hrun⟩, hparams⟩ := hh
  obtain ⟨ps, htops, htext, -, hgrouped⟩ := grouped_of_isRun hx hrun rfl
  refine ⟨⟨.atKeyword h.name, '@' :: h.name.toList, .first⟩, ps, rfl, htops, htext,
    by rw [htext]; exact hparams, fun w pending hp => ?_⟩
  have htoken : Token.read '@' (h.name.toList ++ (h.tail ++ gap ++ x :: w)) =
      (.atKeyword h.name, h.tail ++ gap ++ x :: w) := by
    obtain ⟨y, u, hu⟩ : ∃ y u, h.tail ++ gap ++ x :: w = y :: u ∧
        isNameChar y = false ∧ y ≠ '\\' := by
      by_cases hnone : h.params.isEmpty = true
      · have htail : h.tail = [] := if_pos hnone
        rcases hgap with rfl | rfl
        · exact ⟨x, w, by rw [htail]; rfl, not_nameChar_of_isBreak hx, ne_of_isBreak hx rfl⟩
        · exact ⟨' ', x :: w, by rw [htail]; rfl, rfl, by decide⟩
      · have htail : h.tail = ' ' :: h.params.toList := if_neg hnone
        exact ⟨' ', h.params.toList ++ gap ++ x :: w, by rw [htail]; rfl, rfl, by decide⟩
    rw [hu.1, read_atName hname hu.2.1 hu.2.2, String.ofList_toList]
  rw [grouped_token pending htoken rfl rfl,
    hgrouped w pending fun b hb => hp b (List.mem_of_head? hb)]

theorem readsAs_statement {h : AtHead} (hh : h.isReadable [] ';') :
    ReadsAs nodes? (h.text ++ [';']) (some [.statement h.unplaced]) := by
  obtain ⟨l, ps, hl, htops, htext, hparams, hgrouped⟩ := grouped_atHead rfl hh (.inl rfl)
  intro rest pending hp
  have happend : h.text ++ [';'] ++ rest =
      '@' :: (h.name.toList ++ (h.tail ++ [] ++ ';' :: rest)) := by
    simp [AtHead.text, AtHead.tail]
  rw [happend, hgrouped rest pending hp, grouped_semicolon]
  refine ⟨?_, rfl⟩
  rw [nodes?_leaf, hl]
  simp only
  rw [atRule?, prelude?_append htops, prelude?_leaf, if_pos rfl]
  simp only [Option.map_some, Option.bind_some, hparams]
  cases nodes? (grouped pending rest).1 <;> rfl

/-- An at-rule with a block is read as its name says. -/
theorem readsAs_atBlock {h : AtHead} (hh : h.isReadable [' '] '\x7b') {α : Type}
    {read : Components → Option (List α)} (hread : ∀ p, read (nil p) = some []) {body : List Char}
    {inside : Option (List α)} (hbody : ReadsAs read body inside) {node : List α → Node}
    (hnode : ∀ (ps inner next : Components) (opener : Lexeme) (closer : Option Lexeme),
      prelude? ps = some (h.tail ++ [' ', '\x7b'], .block opener inner closer next) →
      atRule? h.name ps = (closed? closer (read inner)).bind fun xs =>
        (nodes? next).map (node xs :: ·)) :
    ReadsAs nodes? (h.text ++ [' ', '\x7b'] ++ body ++ ['\x7d'])
      (inside.map fun xs => [node xs]) := by
  obtain ⟨l, ps, hl, htops, htext, hparams, hgrouped⟩ := grouped_atHead rfl hh (.inr rfl)
  intro rest pending hp
  have happend : h.text ++ [' ', '\x7b'] ++ body ++ ['\x7d'] ++ rest =
      '@' :: (h.name.toList ++ (h.tail ++ [' '] ++ '\x7b' :: (body ++ '\x7d' :: rest))) := by
    simp [AtHead.text, AtHead.tail]
  obtain ⟨opener, inner, closer, hopener, hopenerText, hinner, hblock⟩ :=
    grouped_braces hread hbody hp rest
  rw [happend, hgrouped _ pending hp, hblock]
  refine ⟨?_, rfl⟩
  rw [nodes?_leaf, hl]
  simp only
  rw [hnode (ps.append (block opener inner (some closer) (grouped pending rest).1)) inner
    (grouped pending rest).1 opener (some closer)]
  · rw [hinner]
    simp only [closed?, Option.isSome_some, ↓reduceIte]
    cases inside <;> cases nodes? (grouped pending rest).1 <;> rfl
  · rw [prelude?_append htops, prelude?_block, if_pos hopener, hopenerText, htext]
    simp

theorem paramsText_tail {h : AtHead} {gap : List Char} {x : Char} (hh : h.isReadable gap x) :
    paramsText (h.tail ++ gap ++ [x]) = h.params := by
  simp only [AtHead.isReadable, Bool.and_eq_true, beq_iff_eq] at hh
  exact hh.2

theorem readsAs_descriptors {h : AtHead} (hh : h.isReadable [' '] '\x7b')
    (hname : isGrouping h.name = false) {body : List Char} {ds : Option (List Declaration)}
    (hbody : ReadsAs declarations? body ds) :
    ReadsAs nodes? (h.text ++ [' ', '\x7b'] ++ body ++ ['\x7d'])
      (ds.map fun ds => [.descriptors h.unplaced ds]) := by
  have hparams := paramsText_tail hh
  rw [List.append_assoc] at hparams
  refine readsAs_atBlock hh declarations?_nil hbody fun ps inner next opener closer hps => ?_
  rw [atRule?, hps]
  simp only [Option.bind_some, hname, Bool.false_eq_true, ↓reduceIte, List.cons_append,
    List.nil_append] at hparams ⊢
  rw [hparams]
  rfl

theorem readsAs_group {h : AtHead} (hh : h.isReadable [' '] '\x7b')
    (hname : isGrouping h.name = true) {body : List Char} {ns : Option (List Node)}
    (hbody : ReadsAs nodes? body ns) :
    ReadsAs nodes? (h.text ++ [' ', '\x7b'] ++ body ++ ['\x7d'])
      (ns.map fun ns => [.group h.unplaced ns]) := by
  have hparams := paramsText_tail hh
  rw [List.append_assoc] at hparams
  refine readsAs_atBlock hh nodes?_nil hbody fun ps inner next opener closer hps => ?_
  rw [atRule?, hps]
  simp only [Option.bind_some, hname, ↓reduceIte, List.cons_append, List.nil_append] at hparams ⊢
  rw [hparams]
  rfl

end RasterFallback
