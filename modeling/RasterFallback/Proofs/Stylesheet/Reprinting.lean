import RasterFallback.Proofs.Css.Ended
import RasterFallback.Proofs.Fallback.Positions
import RasterFallback.Proofs.Stylesheet.Rereading
import RasterFallback.Proofs.Stylesheet.Trimmed

/-!
Stylesheets that were parsed from texts without escapes. Every part of them stood between
separators and is readable by itself, so their written form is parsed as the same tree.
-/
namespace RasterFallback
open RasterFallback.Text RasterFallback.Css RasterFallback.Css.Components

section Names

variable {b : Option Bracket} {l : Lexeme} {rest : Components} {k r z : List Char}

theorem isPlainName_of_read (hplain : ∀ x ∈ k, isPlain x) (hr : r.head? ≠ some '\\')
    (hs : startsName (k ++ r)) (h : (name (k ++ r)).2 = r) :
    (name (k ++ r)).1 = k ∧ isPlainName k := by
  have hchars : ∀ x ∈ k, x ≠ '\\' ∧ x ≠ '\x00' := fun x hx =>
    ⟨(isPlain_facts (hplain x hx)).1, (isPlain_facts (hplain x hx)).2.1⟩
  obtain ⟨hname, hall⟩ := name_of_plain hchars h
  refine ⟨hname, ?_⟩
  have hne : k ≠ [] := by
    rintro rfl
    cases r with
    | nil => cases hs
    | cons c r =>
      have hlen := (startsName_name_suffix hs).length_le
      rw [List.nil_append] at h
      rw [h, List.length_cons] at hlen
      omega
  simp only [isPlainName, Bool.and_eq_true, List.all_eq_true, bne_iff_ne]
  exact ⟨startsName_of_plain hchars hr hne h hs, fun x hx => ⟨hall x hx, (hchars x hx).2⟩⟩

theorem nameToken_ident {s : List Char} {n : String} (h : nameToken s = (.ident n, r)) :
    n = String.ofList (name s).1 ∧ (name s).2 = r := by
  unfold nameToken at h
  dsimp only at h
  split at h
  · split at h
    · rcases urlToken_kind (.function (String.ofList (name s).1)) _ with hf | ⟨u, hu | hu⟩
      · rw [hf] at h
        cases h
      · rw [h] at hu
        cases hu
      · rw [h] at hu
        cases hu
    · cases h
  · obtain ⟨hn, hrest⟩ := Prod.mk.inj h
    exact ⟨(Token.ident.inj hn).symm, hrest⟩

/-- Behind a lexeme of a text without escapes there is no backslash. -/
theorem not_slash_behind (h : (leaf l rest).Sits b z) : (rest.text ++ z).head? ≠ some '\\' := by
  refine h.separates.head?_append rfl fun hslash => ?_
  exact (isPlain_facts (h.leaf.plain _ (List.mem_of_head? hslash))).1 rfl

theorem Sits.plain_lexeme (h : (leaf l rest).Sits b z) : ∀ x ∈ l.text, isPlain x :=
  fun x hx => h.plain x (by
    rw [text_leaf]
    exact List.mem_append_left _ hx)

theorem isPlainName_ident (h : (leaf l rest).Sits b z) {n : String} (hl : l.token = .ident n) :
    isPlainName n.toList := by
  have hplain := Sits.plain_lexeme h
  obtain ⟨c, k, hlk, hread⟩ := h.stands.leaf.1
  have horigin := Token.read_origin c (k ++ (rest.text ++ z))
  rw [hread, hl] at horigin
  obtain ⟨hs, hname⟩ := horigin
  obtain ⟨rfl, hbehind⟩ := nameToken_ident hname.symm
  rw [hlk] at hplain
  rw [← List.cons_append] at hs hbehind ⊢
  obtain ⟨hk, hisname⟩ := isPlainName_of_read hplain (not_slash_behind h) hs hbehind
  rwa [hk, String.toList_ofList]

theorem isPlainName_atKeyword (h : (leaf l rest).Sits b z) {n : String}
    (hl : l.token = .atKeyword n) : isPlainName n.toList := by
  have hplain := Sits.plain_lexeme h
  obtain ⟨c, k, hlk, hread⟩ := h.stands.leaf.1
  have horigin := Token.read_origin c (k ++ (rest.text ++ z))
  rw [hread, hl] at horigin
  obtain ⟨rfl, hs, hname⟩ := horigin
  obtain ⟨hn, hbehind⟩ := Prod.mk.inj hname
  rw [hlk] at hplain
  obtain ⟨hk, hisname⟩ := isPlainName_of_read (fun x hx => hplain x (List.mem_cons_of_mem _ hx))
    (not_slash_behind h) hs hbehind.symm
  rw [Token.atKeyword.inj hn, hk, String.toList_ofList]
  exact hisname

end Names

/-- A comment ends at the first end mark. -/
theorem commentContent_whole {s : List Char} (h : ['*', '/'] <:+: s) :
    commentContent ((commentContent s).1 ++ ['*', '/']) = ((commentContent s).1, []) := by
  fun_induction commentContent s with
  | case1 => simp at h
  | case2 s => simp [commentContent]
  | case3 c s hend ih =>
    have hmarks : ['*', '/'] <:+: s := by
      rcases List.infix_cons_iff.1 h with ⟨t, ht⟩ | h
      · obtain ⟨rfl, rfl⟩ := List.cons.inj ht
        exact (hend t rfl rfl).elim
      · exact h
    rw [List.cons_append, commentContent]
    · rw [ih hmarks]
    · rintro t rfl ht
      -- A slash at the front of the rest would have ended the comment.
      fun_cases commentContent s with
      | case1 => simp at hmarks
      | case2 s => simp [commentContent] at ht
      | case3 d s hend' =>
        rw [commentContent] at ht
        · obtain ⟨rfl, -⟩ := List.cons.inj ht
          exact hend s rfl rfl
        · exact hend'

theorem isReadableComment_of_sits {b : Option Bracket} {l : Lexeme} {rest : Components}
    {z : List Char} (h : (leaf l rest).Sits b z) {content : String} (hl : l.token = .comment content)
    (hwhole : isWholeComment l.text) : isReadableComment content := by
  obtain ⟨c, k, hlk, hread⟩ := h.stands.leaf.1
  have horigin := Token.read_origin c (k ++ (rest.text ++ z))
  rw [hread, hl] at horigin
  obtain ⟨rfl, m, hm⟩ := horigin
  rw [hlk] at hwhole
  cases k with
  | nil => cases hwhole
  | cons d k =>
    obtain ⟨rfl, rfl⟩ : '*' = d ∧ m = k ++ (rest.text ++ z) := List.cons.inj hm
    rw [List.cons_append, Token.read_comment, hl] at hread
    obtain ⟨hcontent, -⟩ := Prod.mk.inj hread
    have hmarks : ['*', '/'] <:+: k := (suffix_of_isWholeComment hwhole).isInfix
    have hcontents :=
      commentContent_whole (hmarks.trans (List.prefix_append k (rest.text ++ z)).isInfix)
    rw [← Token.comment.inj hcontent, isReadableComment, String.toList_ofList]
    exact beq_iff_eq.2 hcontents

section Parts

variable {b : Option Bracket} {cs : Components} {z : List Char}

theorem exists_skipSpace (cs : Components) : ∃ front : Components, cs = front.append cs.skipSpace := by
  induction cs with
  | nil p => exact ⟨.nil p, rfl⟩
  | leaf l rest ih =>
    rw [skipSpace]
    split
    · obtain ⟨front, hfront⟩ := ih
      exact ⟨.leaf l front, congrArg (Components.leaf l) hfront⟩
    · exact ⟨.nil .first, rfl⟩
  | block opener inner closer rest => exact ⟨.nil .first, rfl⟩

theorem colon?_split {behind : Components} (h : colon? cs = some behind) :
    ∃ (front : Components) (l : Lexeme), cs = front.append (.leaf l behind) := by
  obtain ⟨front, hfront⟩ := exists_skipSpace cs
  unfold colon? expectColon at h
  split at h
  · cases h
  · rename_i l rest hskip
    split at h
    · obtain rfl : rest = behind := Option.some.inj h
      exact ⟨front, l, hskip ▸ hfront⟩
    · split at h <;> cases h
  · cases h

theorem isValueToken_of_opens {t : Token} {c : Bracket} (h : t.opens? = some c) : isValueToken t := by
  cases t <;> first | rfl | cases h

/-- The value of a declaration goes up to a semicolon, or to the end of the block. -/
theorem value?_split (hclosed : cs.Closed (some .curly)) {raw : List Char} {next : Components}
    (h : value? cs = some (raw, next)) :
    ∃ ps es : Components, cs = ps.append es ∧ ps.text = raw ∧ (∀ t ∈ ps.tops, isValueToken t) ∧
      ((∃ p, es = .nil p ∧ next = .nil p) ∨ ∃ l, l.token = .semicolon ∧ es = .leaf l next) := by
  induction cs generalizing raw with
  | nil p =>
    obtain ⟨rfl, rfl⟩ := Prod.mk.inj (Option.some.inj h)
    exact ⟨.nil p, .nil p, rfl, rfl, nofun, .inl ⟨p, rfl, rfl⟩⟩
  | leaf l rest ih =>
    rw [value?_leaf] at h
    split at h
    · rename_i hl
      obtain ⟨rfl, rfl⟩ := Prod.mk.inj (Option.some.inj h)
      exact ⟨.nil .first, .leaf l rest, rfl, rfl, nofun, .inr ⟨l, hl, rfl⟩⟩
    · rename_i hl
      split at h
      · cases h
      · rename_i hbad
        obtain ⟨v, hv, heq⟩ := Option.map_eq_some_iff.1 h
        obtain ⟨rfl, rfl⟩ := Prod.mk.inj heq
        obtain ⟨ps, es, rfl, htext, htops, hend⟩ := ih hclosed.2.2 hv
        refine ⟨.leaf l ps, es, rfl, by rw [text_leaf, htext], List.forall_mem_cons.2 ⟨?_, htops⟩, hend⟩
        have hcurly : l.token ≠ .closing .curly := by
          intro hcurly
          exact hclosed.2.1 .curly rfl (by rw [hcurly]; rfl)
        simp [isValueToken, hl, hcurly, hbad]
  | block opener inner closer rest _ ih =>
    rw [value?_block] at h
    obtain ⟨v, hv, heq⟩ := Option.map_eq_some_iff.1 h
    obtain ⟨rfl, rfl⟩ := Prod.mk.inj heq
    obtain ⟨c, k, ho, -, -, -, hrest⟩ := hclosed
    obtain ⟨ps, es, rfl, htext, htops, hend⟩ := ih hrest hv
    exact ⟨.block opener inner closer ps, es, rfl, by rw [text_block, htext],
      List.forall_mem_cons.2 ⟨isValueToken_of_opens ho, htops⟩, hend⟩

/-- What ends a prelude: the components `es`, the first of them with the text `tail`. -/
def PreludeEnd.Begins (tail : List Char) (es : Components) : PreludeEnd → Prop
  | .finished => tail = [] ∧ ∃ p, es = .nil p
  | .semicolon next => ∃ l, l.token = .semicolon ∧ tail = l.text ∧ es = .leaf l next
  | .brace => ∃ l next, l.token = .closing .curly ∧ es = .leaf l next
  | .block opener inner closer next =>
    opener.token = .opening .curly ∧ tail = opener.text ∧ es = .block opener inner closer next

theorem prelude?_split (hclosed : cs.Closed b) {raw : List Char} {e : PreludeEnd}
    (h : prelude? cs = some (raw, e)) :
    ∃ (ps es : Components) (tail : List Char), cs = ps.append es ∧ raw = ps.text ++ tail ∧
      (∀ t ∈ ps.tops, isPreludeToken t) ∧ e.Begins tail es := by
  induction cs generalizing raw with
  | nil p =>
    obtain ⟨rfl, rfl⟩ := Prod.mk.inj (Option.some.inj h)
    exact ⟨.nil p, .nil p, [], rfl, rfl, nofun, rfl, p, rfl⟩
  | leaf l rest ih =>
    rw [prelude?_leaf] at h
    split at h
    · rename_i hl
      obtain ⟨rfl, rfl⟩ := Prod.mk.inj (Option.some.inj h)
      exact ⟨.nil .first, .leaf l rest, l.text, rfl, rfl, nofun, l, hl, rfl, rfl⟩
    · rename_i hsemicolon
      split at h
      · rename_i hl
        obtain ⟨rfl, rfl⟩ := Prod.mk.inj (Option.some.inj h)
        exact ⟨.nil .first, .leaf l rest, l.text, rfl, rfl, nofun, l, rest, hl, rfl⟩
      · rename_i hbrace
        split at h
        · cases h
        · rename_i hbad
          obtain ⟨p, hp, heq⟩ := Option.map_eq_some_iff.1 h
          obtain ⟨rfl, rfl⟩ := Prod.mk.inj heq
          obtain ⟨ps, es, tail, rfl, htext, htops, hend⟩ := ih hclosed.2.2 hp
          refine ⟨.leaf l ps, es, tail, rfl, by rw [text_leaf, htext, List.append_assoc],
            List.forall_mem_cons.2 ⟨?_, htops⟩, hend⟩
          have hopen : l.token ≠ .opening .curly := by
            intro hopen
            have ho := hclosed.1
            rw [hopen] at ho
            cases ho
          simp [isPreludeToken, isValueToken, hsemicolon, hbrace, hbad, hopen]
  | block opener inner closer rest _ ih =>
    rw [prelude?_block] at h
    split at h
    · rename_i ho
      obtain ⟨rfl, rfl⟩ := Prod.mk.inj (Option.some.inj h)
      exact ⟨.nil .first, .block opener inner closer rest, opener.text, rfl, rfl, nofun, ho, rfl, rfl⟩
    · rename_i ho
      obtain ⟨p, hp, heq⟩ := Option.map_eq_some_iff.1 h
      obtain ⟨rfl, rfl⟩ := Prod.mk.inj heq
      obtain ⟨c, k, hopens, -, -, -, hrest⟩ := hclosed
      obtain ⟨ps, es, tail, rfl, htext, htops, hend⟩ := ih hrest hp
      refine ⟨.block opener inner closer ps, es, tail, rfl,
        by rw [text_block, htext, List.append_assoc], List.forall_mem_cons.2 ⟨?_, htops⟩, hend⟩
      simp [isPreludeToken, isValueToken_of_opens hopens, ho]

/-- A semicolon separates what stands before it. -/
theorem separates_semicolon {l : Lexeme} {rest : Components} (h : (leaf l rest).Sits b z)
    (hl : l.token = .semicolon) : l.text = [';'] ∧ Separates ((leaf l rest).text ++ z) := by
  have htext : l.text = [';'] := h.stands.leaf.1.of_sign (by rw [hl]; rfl)
  refine ⟨htext, ?_⟩
  rw [text_leaf, htext]
  exact separates_of_isBreak rfl _

theorem separates_block {opener : Lexeme} {inner rest : Components} {closer : Option Lexeme}
    (h : (block opener inner closer rest).Sits b z) (ho : opener.token = .opening .curly) :
    Separates ((block opener inner closer rest).text ++ z) := by
  rw [text_block, blockText, (h.block_inner ho).1]
  exact separates_of_isBreak rfl _

end Parts

/-- The declarations of a block that sits in a text without escapes are readable. -/
theorem isReadable_declarations {cs : Components} {z : List Char} {ds : List Declaration}
    (h : cs.Sits (some .curly) z) (hds : declarations? cs = some ds) : ∀ d ∈ ds, d.isReadable := by
  induction hn : cs.size using Nat.strongRecOn generalizing cs ds with
  | ind n ih =>
    cases cs with
    | nil p =>
      rw [declarations?_nil] at hds
      obtain rfl := Option.some.inj hds
      nofun
    | block opener inner closer rest =>
      rw [declarations?_block] at hds
      cases hds
    | leaf l rest =>
      rcases declarations?_leaf_cases hds with
        ⟨-, hrest⟩ | ⟨name, behind, ⟨raw, next⟩, more, hl, hcolon, hvalue, hmore, rfl⟩
      · exact ih rest.size (hn ▸ Nat.lt_succ_self _) h.leaf hrest rfl
      · have hsize := Nat.le_trans (value?_size hvalue) (colon?_size hcolon)
        obtain ⟨front, m, rfl⟩ := colon?_split hcolon
        have hbehind := h.leaf.append_right.leaf
        obtain ⟨ps, es, rfl, rfl, htops, hend⟩ := value?_split hbehind.closed hvalue
        obtain ⟨hseparates, hnext⟩ : Separates (es.text ++ z) ∧ next.Sits (some .curly) z := by
          have hes := hbehind.append_right
          rcases hend with ⟨p, rfl, rfl⟩ | ⟨k, hk, rfl⟩
          · exact ⟨hes.separates, hes⟩
          · exact ⟨(separates_semicolon hes hk).2, hes.leaf⟩
        refine List.forall_mem_cons.2 ⟨?_, ih next.size ?_ hnext hmore rfl⟩
        · exact isReadable_declaration (isPlainName_ident h hl) (hbehind.append_left hseparates) htops
        · rw [← hn]
          exact Nat.lt_succ_of_le hsize

/-- Every part of the nodes is readable. -/
def AreReadable (ns : List Node) : Prop :=
  headsReadableIn ns ∧ ∀ d ∈ declarationsIn ns, d.isReadable

theorem areReadable_nil : AreReadable [] := ⟨rfl, nofun⟩

theorem areReadable_cons {n : Node} {ns : List Node} (hhead : n.headsReadable)
    (hds : ∀ d ∈ n.declarations, d.isReadable) (hns : AreReadable ns) : AreReadable (n :: ns) := by
  refine ⟨?_, fun d hd => ?_⟩
  · rw [headsReadableIn, hhead, hns.1]
    rfl
  · rw [declarationsIn] at hd
    exact (List.mem_append.1 hd).elim (hds d) (hns.2 d)

section Nodes

variable {b : Option Bracket} {cs : Components} {z : List Char} {ns : List Node}

theorem areReadable_rule (h : cs.Sits b z) (hhead : ∀ t ∈ cs.tops.head?, startsRule t)
    (ih : ∀ (ds : Components) (ms : List Node), ds.size < cs.size → ds.Sits b z →
      nodes? ds = some ms → AreReadable ms)
    (hrule : rule? cs = some ns) : AreReadable ns := by
  obtain ⟨raw, opener, inner, k, next, ds, more, hprelude, hds, hmore, rfl⟩ := exists_of_rule? hrule
  have hwithin := prelude?_within hprelude
  obtain ⟨ps, es, tail, rfl, rfl, htops, ho, rfl, rfl⟩ := prelude?_split h.closed hprelude
  have hblock := h.append_right
  obtain ⟨hopener, k, -, hinner⟩ := hblock.block_inner ho
  refine areReadable_cons ?_ (isReadable_declarations hinner hds)
    (ih next more hwithin.2 hblock.block_rest hmore)
  rw [hopener]
  refine isReadableSelector_of_sits (h.append_left (separates_block hblock ho)) htops fun t ht => ?_
  refine hhead t ?_
  obtain ⟨ks, hks⟩ := List.head?_eq_some_iff.1 ht
  rw [tops_append, hks]
  rfl

theorem areReadable_atRule {name : String} (hname : isPlainName name.toList) (h : cs.Sits b z)
    (ih : ∀ (ds : Components) (c : Option Bracket) (w : List Char) (ms : List Node),
      ds.size < cs.size → ds.Sits c w → nodes? ds = some ms → AreReadable ms)
    (hrule : atRule? name cs = some ns) : AreReadable ns := by
  rcases atRule?_cases hrule with ⟨raw, hprelude, rfl⟩ | ⟨raw, next, more, hprelude, hmore, rfl⟩ |
    ⟨raw, opener, inner, k, next, more, hprelude, hmore, hblock⟩
  · obtain ⟨ps, es, tail, rfl, rfl, htops, rfl, p, rfl⟩ := prelude?_split h.closed hprelude
    have hes := h.append_right
    have hhead : (⟨name, paramsText (ps.text ++ []), none⟩ : AtHead).isReadable [] ';' :=
      isReadable_atHead hname (h.append_left hes.separates) htops (.inl rfl) (.inl rfl) (.inl rfl)
    refine areReadable_cons ?_ nofun areReadable_nil
    rwa [Node.headsReadable]
  · have hwithin := prelude?_within hprelude
    obtain ⟨ps, es, tail, rfl, rfl, htops, l, hl, rfl, rfl⟩ := prelude?_split h.closed hprelude
    have hes := h.append_right
    obtain ⟨htext, hseparates⟩ := separates_semicolon hes hl
    have hhead : (⟨name, paramsText (ps.text ++ l.text), none⟩ : AtHead).isReadable [] ';' := by
      rw [htext]
      exact isReadable_atHead hname (h.append_left hseparates) htops (.inr (.inl rfl)) (.inl rfl)
        (.inl rfl)
    refine areReadable_cons ?_ nofun (ih next b z more hwithin hes.leaf hmore)
    rwa [Node.headsReadable]
  · have hwithin := prelude?_within hprelude
    obtain ⟨ps, es, tail, rfl, rfl, htops, ho, rfl, rfl⟩ := prelude?_split h.closed hprelude
    have hes := h.append_right
    obtain ⟨hopener, k, -, hinner⟩ := hes.block_inner ho
    have hhead :
        (⟨name, paramsText (ps.text ++ opener.text), none⟩ : AtHead).isReadable [' '] '\x7b' := by
      rw [hopener]
      exact isReadable_atHead hname (h.append_left (separates_block hes ho)) htops (.inr (.inr rfl))
        (.inr rfl) (.inr rfl)
    have hmore := ih next b z more hwithin.2 hes.block_rest hmore
    rcases hblock with ⟨hgroup, content, hcontent, rfl⟩ | ⟨hgroup, ds, hds, rfl⟩
    · have hbody := ih inner _ _ content hwithin.1 hinner hcontent
      refine areReadable_cons ?_ hbody.2 hmore
      simp only [Node.headsReadable, Bool.and_eq_true]
      exact ⟨⟨hgroup, hhead⟩, hbody.1⟩
    · refine areReadable_cons ?_ (isReadable_declarations hinner hds) hmore
      simp only [Node.headsReadable, Bool.and_eq_true, Bool.not_eq_true']
      exact ⟨hgroup, hhead⟩

/-- The nodes of components that sit in a text without escapes are readable. -/
theorem areReadable_nodes (h : cs.Sits b z) (hns : nodes? cs = some ns) : AreReadable ns := by
  induction hn : cs.size using Nat.strongRecOn generalizing cs ns b z with
  | ind n ih =>
    have hsmaller (ds : Components) (c : Option Bracket) (w : List Char) (ms : List Node)
        (hsize : ds.size < cs.size) (hds : ds.Sits c w) (hms : nodes? ds = some ms) : AreReadable ms :=
      ih ds.size (hn ▸ hsize) hds hms rfl
    cases cs with
    | nil p =>
      rw [nodes?_nil] at hns
      obtain rfl := Option.some.inj hns
      exact areReadable_nil
    | block opener inner closer rest =>
      rw [nodes?_block] at hns
      refine areReadable_rule h (fun t ht => ?_) (fun ds ms hsize => hsmaller ds b z ms hsize) hns
      obtain rfl : opener.token = t := Option.some.inj ht
      obtain ⟨c, k, ho, -⟩ := h.closed
      cases hopener : opener.token with
      | function => rfl
      | opening => rfl
      | _ =>
        rw [hopener] at ho
        cases ho
    | leaf l rest =>
      have hrest (ms : List Node) : nodes? rest = some ms → AreReadable ms :=
        hsmaller rest b z ms (Nat.lt_succ_self _) h.leaf
      rcases nodes?_leaf_cases hns with ⟨-, hns⟩ | ⟨content, more, hl, hwhole, hmore, rfl⟩ |
        ⟨name, hl, hns⟩ | ⟨hstart, hns⟩
      · exact hrest ns hns
      · exact areReadable_cons (isReadableComment_of_sits h hl hwhole) nofun (hrest more hmore)
      · exact areReadable_atRule (isPlainName_atKeyword h hl) h.leaf
          (fun ds c w ms hsize => hsmaller ds c w ms (Nat.lt_succ_of_lt hsize)) hns
      · refine areReadable_rule h (fun t ht => ?_) (fun ds ms hsize => hsmaller ds b z ms hsize) hns
        obtain rfl : l.token = t := Option.some.inj ht
        exact hstart

end Nodes

theorem isComplete_unplaced (cs : Components) : cs.unplaced.isComplete = cs.isComplete := by
  induction cs with
  | nil => rfl
  | leaf l rest ih => exact congrArg (!l.isOpen && ·) ih
  | block opener inner closer rest ihi ihr =>
    rw [unplaced, isComplete, isComplete, ihi, ihr, Option.isSome_map]

theorem isShut_of_isComplete {cs : Components} (h : cs.isComplete) : cs.isShut := by
  induction cs with
  | nil => rfl
  | leaf l rest ih =>
    rw [isComplete, Bool.and_eq_true] at h
    exact ih h.2
  | block opener inner closer rest ihi ihr =>
    rw [isComplete, Bool.and_eq_true, Bool.and_eq_true] at h
    rw [isShut, h.1.1, ihi h.1.2, ihr h.2]
    rfl

/-- The components of a whole text sit with nothing behind them. -/
theorem sits_grouped {css : List Char} (hplain : ∀ c ∈ css, isPlain c)
    (hcomplete : (ofText css).isComplete) : (grouped [] css).1.Sits none [] := by
  have hlexemes : (grouped [] css).1.lexemes = spelled css := by
    have hspread := spread_group .first (spelled css) []
    rwa [spread, group_snd, List.flatMap_nil, List.append_nil] at hspread
  have htext : (grouped [] css).1.text = css := by rw [text_eq, hlexemes, spelled_text]
  have hcomplete' : (grouped [] css).1.isComplete := by
    have hgroup : (grouped [] css).1 = (ofText css).unplaced :=
      congrArg Prod.fst (group_unplaced _ _ [])
    rwa [hgroup, isComplete_unplaced]
  constructor
  · rw [Stands, htext, hlexemes, List.append_nil, spelled_nil, List.append_nil]
  · exact (formed_group ..).closed_of_isShut (isShut_of_isComplete hcomplete')
  · exact hcomplete'
  · rwa [htext]
  · exact separates_nil

/-- A stylesheet that was parsed from a text without escapes, with nothing left open at the end,
is parsed again from its written form as the same tree, positions aside, and is written alike
again. -/
theorem parse_text_of_plain {css : String} {s : Stylesheet} (hplain : ∀ c ∈ css.toList, isPlain c)
    (hcomplete : (ofText css.toList).isComplete) (hparse : Stylesheet.parse css = .ok s) :
    ∃ t, Stylesheet.parse s.text = .ok t ∧ unplacedNodes t.nodes = unplacedNodes s.nodes ∧
      t.text = s.text := by
  have hnodes : nodes? (grouped [] css.toList).1 = some (unplacedNodes s.nodes) := by
    rw [← toOption_parse, hparse]
    rfl
  obtain ⟨hheads, hds⟩ := areReadable_nodes (sits_grouped hplain hcomplete) hnodes
  have hagain := @parse_text (fun _ => true) ⟨unplacedNodes s.nodes⟩ hheads
    fun d hd => readsAs_declaration (hds d hd)
  have htext : (⟨unplacedNodes s.nodes⟩ : Stylesheet).text = s.text :=
    text_eq_of_unplaced (unplacedNodes_unplacedNodes s.nodes)
  have hall : (declarationsIn (unplacedNodes s.nodes)).all (fun _ => true) = true := by simp
  rw [htext, hall, unplacedNodes_unplacedNodes] at hagain
  obtain ⟨t, ht, hsame⟩ := Option.map_eq_some_iff.1 hagain
  exact ⟨t, toOption_eq_some.1 ht, hsame, text_eq_of_unplaced hsame⟩

def mediaText : String :=
  "@import url( a.css )\t;@media print\x7b.a , #b\x7bcolor:red ! important;;c:f(\x7bd\x7d)\x7d/* e */\x7d"

theorem parse_text_of_plain_media : (∀ c ∈ mediaText.toList, isPlain c) ∧
    (ofText mediaText.toList).isComplete ∧
    ∃ s t, Stylesheet.parse mediaText = .ok s ∧ Stylesheet.parse s.text = .ok t ∧
      unplacedNodes t.nodes = unplacedNodes s.nodes ∧ t.text = s.text := by
  have hchecks : (mediaText.toList.all isPlain && (ofText mediaText.toList).isComplete &&
      (Stylesheet.parse mediaText).toOption.isSome) = true := by decide +kernel
  simp only [Bool.and_eq_true, List.all_eq_true] at hchecks
  obtain ⟨⟨hplain, hcomplete⟩, hparse⟩ := hchecks
  obtain ⟨s, hs⟩ := Option.isSome_iff_exists.1 hparse
  obtain ⟨t, ht⟩ := parse_text_of_plain hplain hcomplete (toOption_eq_some.1 hs)
  exact ⟨hplain, hcomplete, s, t, toOption_eq_some.1 hs, ht⟩

end RasterFallback
