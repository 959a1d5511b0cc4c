import RasterFallback.Proofs.Css.Plain
import RasterFallback.Proofs.Css.Run
import RasterFallback.Proofs.Text.Trim

/-!
Components that stand in a text without escapes. What stands between separators is read
alike between any others, so it may be trimmed and written elsewhere.
-/
namespace RasterFallback.Css
open RasterFallback.Text

theorem getLast?_of_suffix {α : Type} {c : α} {a b : List α} (h : c :: b <:+ a) :
    a.getLast? = (c :: b).getLast? := by
  obtain ⟨k, rfl⟩ := h
  rw [List.getLast?_append]
  cases hlast : (c :: b).getLast? with
  | none => simp at hlast
  | some x => rfl

/-- A text that ends neither in a blank nor in an opening bracket, with a last token that is
whole, is read alike in front of all separators. -/
theorem spelled_append_of_plain {a z w : List Char} {ls : List Lexeme} (hplain : '\\' ∉ a)
    (hz : Separates z) (hw : Separates w) (h : spelled (a ++ z) = ls ++ spelled z)
    (hlast : ∀ x ∈ a.getLast?, isAsciiBlank x = false)
    (hfirm : ∀ l ∈ ls.getLast?, ¬l.IsLoose ∧ l.token.opens? = none) :
    spelled (a ++ w) = ls ++ spelled w := by
  refine spelled_append_congr h fun c b m t hsuffix hread hend => ?_
  have hstop (hstops : Stops (Token.read c) b) : Token.read c (b ++ w) = (t, m ++ w) := by
    obtain ⟨ht, hm⟩ := Prod.mk.inj ((hstops z hz).symm.trans hread)
    rw [hstops w hw, ht, List.append_cancel_right hm]
  have hplain' : '\\' ∉ c :: b := fun hmem => hplain (hsuffix.subset hmem)
  rw [getLast?_of_suffix hsuffix] at hlast
  by_cases hb : isAsciiBlank c = true
  · refine hstop (stops_blank hb fun hblank => ?_)
    -- A text of blanks would end in one.
    obtain ⟨x, hx⟩ : ∃ x, (c :: b).getLast? = some x := ⟨_, List.getLast?_eq_some_getLast (by simp)⟩
    have hall : ∀ y ∈ c :: b, isAsciiBlank y = true := by
      intro y hy
      rcases List.mem_cons.1 hy with rfl | hy
      · exact hb
      · exact of_mem_of_dropWhile hblank y hy
    have hxb := hlast x hx
    rw [hall x (List.mem_of_getLast? hx)] at hxb
    cases hxb
  · rcases Token.read_plain (Bool.eq_false_iff.2 hb) hplain' with hstops | hopen | ⟨k, v, hk, hv, hcall⟩
    · exact hstop hstops
    · obtain ⟨-, hover, hloose⟩ := hopen z hz
      rw [hread] at hover hloose
      have hm : m = [] := by
        have hlen := hover.length_le
        rw [List.length_append] at hlen
        exact List.eq_nil_of_length_eq_zero (by omega)
      exact absurd (hloose (by rw [hm]; rfl)) (hfirm _ (hend hm)).1
    · -- The text ends in the parenthesis of a function or of a url that is open.
      rw [hk, List.getLast?_append] at hlast
      obtain rfl : v = [] := by
        rcases List.eq_nil_or_concat v with hnil | ⟨u, x, hu⟩
        · exact hnil
        · rw [List.concat_eq_append] at hu
          have hx := hlast x (by rw [hu, ← List.cons_append, List.getLast?_concat]; rfl)
          rw [of_mem_of_dropWhile hv x (by simp [hu])] at hx
          cases hx
      have hnil (hover : m ++ z <:+ z) : m = [] := by
        have hlen := hover.length_le
        rw [List.length_append] at hlen
        exact List.eq_nil_of_length_eq_zero (by omega)
      have hparen : (c :: b).getLast? ≠ some ')' := by
        rw [hk, List.getLast?_concat]
        decide
      rcases hcall z hz with ⟨n, hn⟩ | ⟨hover, content, hurl⟩
      · rw [hread] at hn
        obtain ⟨rfl, hm⟩ := Prod.mk.inj hn
        exact absurd (hfirm _ (hend (hnil (by rw [hm]; exact List.suffix_rfl)))).2
          (by simp [Token.opens?])
      · rw [hread] at hover hurl
        refine absurd (.inl ?_) (hfirm _ (hend (hnil hover))).1
        rcases hurl with hurl | hurl <;> simp [Lexeme.isOpen, show t = _ from hurl, hparen]

theorem exists_read_of_spelled {s : List Char} {l : Lexeme} {ls : List Lexeme}
    (h : spelled s = l :: ls) : ∃ c k, l = ⟨l.token, c :: k, .first⟩ ∧
      Token.read c (k ++ ls.flatMap Lexeme.text) = (l.token, ls.flatMap Lexeme.text) ∧
      s = c :: (k ++ ls.flatMap Lexeme.text) ∧ spelled (ls.flatMap Lexeme.text) = ls := by
  cases s with
  | nil => simp [spelled_nil] at h
  | cons c s =>
    rw [spelled_cons] at h
    obtain ⟨rfl, rfl⟩ := List.cons.inj h
    have happend := consumed_append (Token.read_suffix c s)
    refine ⟨c, consumed s (Token.read c s).2, rfl, ?_, ?_, ?_⟩
    · rw [spelled_text, happend]
    · rw [spelled_text, happend]
    · rw [spelled_text]

/-- The end marks of brackets, strings, comments and urls. -/
def isEndMark (x : Char) : Bool :=
  x == ')' || x == ']' || x == '\x7d' || x == '\x22' || x == '\x27' || x == '/'

section Ends

variable {c : Char} {k r : List Char} {t : Token}

/-- Separators stand in front of a token and behind it, and within it only if it has an end
mark. -/
theorem separates_suffix {z : List Char} (hplain : '\\' ∉ c :: k) (hb : isAsciiBlank c = false)
    (hz : Separates z) (hkind : (Token.read c (k ++ z)).1.isEnclosed = false)
    (hopens : (Token.read c (k ++ z)).1.opens? = none) : z <:+ (Token.read c (k ++ z)).2 := by
  rcases Token.read_plain hb hplain with hstops | hopen | ⟨p, b, -, -, hcall⟩
  · rw [hstops z hz]
    exact List.suffix_append _ _
  · rw [(hopen z hz).1] at hkind
    cases hkind
  · rcases hcall z hz with ⟨n, hn⟩ | ⟨-, content, hurl⟩
    · rw [hn] at hopens
      cases hopens
    · rcases hurl with hurl | hurl <;> (rw [hurl] at hkind; cases hkind)

/-- A whole string, comment or url ends in its end mark. -/
theorem isEndMark_of_isEnclosed (hread : Token.read c (k ++ r) = (t, r))
    (hwhole : ¬(⟨t, c :: k, .first⟩ : Lexeme).IsLoose) (hkind : t.isEnclosed) {x : Char}
    (hx : (c :: k).getLast? = some x) : isEndMark x := by
  have hshut : (⟨t, c :: k, .first⟩ : Lexeme).isOpen = false :=
    Bool.eq_false_iff.2 fun h => hwhole (.inl h)
  have horigin := Token.read_origin c (k ++ r)
  rw [hread] at horigin
  cases t
  case badString content => exact absurd (.inr ⟨content, rfl⟩) hwhole
  case quotedString content =>
    simp only [Lexeme.isOpen, hx, Bool.or_eq_false_iff, List.head?_cons] at hshut
    obtain rfl : x = c := by simpa using hshut.2
    rcases horigin.1 with rfl | rfl <;> rfl
  case comment content =>
    simp only [Lexeme.isOpen, Bool.or_eq_false_iff, Bool.not_eq_false'] at hshut
    obtain ⟨u, hu⟩ := List.isSuffixOf_iff_suffix.1 hshut.2
    rw [← hu, List.getLast?_append] at hx
    obtain rfl : '/' = x := Option.some.inj hx
    rfl
  case unquotedUrl content =>
    simp only [Lexeme.isOpen, hx] at hshut
    obtain rfl : x = ')' := by simpa using hshut
    rfl
  case badUrl content =>
    simp only [Lexeme.isOpen, hx] at hshut
    obtain rfl : x = ')' := by simpa using hshut
    rfl
  all_goals cases hkind

/-- The last character of a whole token is no blank, and a brace or a semicolon only where it is
all of the token. -/
theorem getLast?_of_read (hread : Token.read c (k ++ r) = (t, r)) (hplain : '\\' ∉ c :: k)
    (hwhole : ¬(⟨t, c :: k, .first⟩ : Lexeme).IsLoose) (hopens : t.opens? = none)
    (hb : isAsciiBlank c = false) {x : Char} (hx : (c :: k).getLast? = some x) :
    isAsciiBlank x = false ∧ (x = ';' → t = .semicolon) ∧ x ≠ '\x7b' := by
  by_cases hkind : t.isEnclosed = true
  · have hmark := isEndMark_of_isEnclosed hread hwhole hkind hx
    refine ⟨Bool.eq_false_iff.2 fun hy => ?_, ?_, ?_⟩
    · rcases isAsciiBlank_cases hy with rfl | rfl | rfl | rfl | rfl <;> cases hmark
    · rintro rfl
      cases hmark
    · rintro rfl
      cases hmark
  · rcases List.eq_nil_or_concat k with rfl | ⟨b, y, rfl⟩
    · obtain rfl : c = x := Option.some.inj hx
      refine ⟨hb, ?_, ?_⟩
      · rintro rfl
        rw [Token.read_semicolon] at hread
        exact (Prod.mk.inj hread).1.symm
      · rintro rfl
        rw [Token.read_openBrace] at hread
        rw [← (Prod.mk.inj hread).1] at hopens
        cases hopens
    · rw [List.concat_eq_append] at *
      rw [← List.cons_append, List.getLast?_concat] at hx
      obtain rfl := Option.some.inj hx
      have hno (hy : isSeparator y) (hbang : y ≠ '!') : False := by
        have hz := separates_cons hy hbang r
        have hplain' : '\\' ∉ c :: b := fun h => hplain (by
          rw [← List.cons_append]
          exact List.mem_append_left _ h)
        rw [List.append_assoc, List.singleton_append] at hread
        have hsuffix := separates_suffix hplain' hb hz (by rw [hread]; simpa using hkind)
          (by rw [hread]; exact hopens)
        rw [hread] at hsuffix
        have hlen : r.length + 1 ≤ r.length := hsuffix.length_le
        omega
      refine ⟨Bool.eq_false_iff.2 fun hy => ?_, fun hy => ?_, fun hy => ?_⟩
      · refine hno (by simp [isSeparator, hy]) ?_
        rintro rfl
        cases hy
      · subst hy
        exact (hno rfl (by decide)).elim
      · subst hy
        exact (hno rfl (by decide)).elim

end Ends

namespace Components

/-- Every string, comment and url has its end mark, and every bracket its counterpart. -/
def isComplete : Components → Bool
  | nil _ => true
  | leaf l rest => !l.isOpen && rest.isComplete
  | block _ inner closer rest => closer.isSome && inner.isComplete && rest.isComplete

/-- In front of `z` the text of the components is read as them. -/
def Stands (z : List Char) (cs : Components) : Prop :=
  spelled (cs.text ++ z) = cs.lexemes ++ spelled z

/-- Components inside the bracket `b` whose text is without escapes, with nothing open and the
separated text `z` behind them. -/
structure Sits (b : Option Bracket) (z : List Char) (cs : Components) : Prop where
  stands : cs.Stands z
  closed : cs.Closed b
  complete : cs.isComplete
  plain : ∀ x ∈ cs.text, isPlain x
  separates : Separates z

/-- Components that are read alike in front of all separators, with no blanks around them. -/
structure Movable (cs : Components) : Prop where
  stands : ∀ w, Separates w → cs.Stands w
  closed : cs.Closed none
  trimmed : IsTrimmed cs.text

variable {b : Option Bracket} {z : List Char} {cs ds inner rest : Components} {l opener k : Lexeme}

theorem flatMap_text (cs : Components) (z : List Char) :
    (cs.lexemes ++ spelled z).flatMap Lexeme.text = cs.text ++ z := by
  rw [List.flatMap_append, ← text_eq, spelled_text]

theorem Stands.append (h : (cs.append ds).Stands z) :
    cs.Stands (ds.text ++ z) ∧ ds.Stands z := by
  rw [Stands, text_append, lexemes_append, List.append_assoc, List.append_assoc] at h
  have hds := spelled_of_append h
  rw [flatMap_text] at hds
  exact ⟨by rw [Stands, h, hds], hds⟩

/-- A lexeme is read from its text, with what follows it behind. -/
def ReadsOff (l : Lexeme) (r : List Char) : Prop :=
  ∃ c k, l = ⟨l.token, c :: k, .first⟩ ∧ Token.read c (k ++ r) = (l.token, r)

/-- A sign is all of its lexeme. -/
theorem ReadsOff.of_sign {r : List Char} {x : Char} (h : ReadsOff l r)
    (hl : l.token.sign? = some x) : l.text = [x] := by
  obtain ⟨c, k, htext, hread⟩ := h
  have hsign := Token.read_sign (c := c) (s := k ++ r) (x := x) (by rw [hread]; exact hl)
  rw [hread] at hsign
  have hk : k = [] := by
    have hr : r = k ++ r := hsign.2
    have hlen := congrArg List.length hr
    rw [List.length_append] at hlen
    exact List.eq_nil_of_length_eq_zero (by omega)
  rw [htext, hk, hsign.1]

theorem Stands.leaf (h : (leaf l rest).Stands z) :
    ReadsOff l (rest.text ++ z) ∧ rest.Stands z := by
  have hspelled : spelled ((Components.leaf l rest).text ++ z) = l :: (rest.lexemes ++ spelled z) := h
  obtain ⟨c, k, hl, hread, -, hrest⟩ := exists_read_of_spelled hspelled
  rw [flatMap_text] at hread hrest
  exact ⟨⟨c, k, hl, hread⟩, hrest⟩

theorem Stands.block (h : (block opener inner (some k) rest).Stands z) :
    ReadsOff opener (inner.text ++ (k.text ++ (rest.text ++ z))) ∧
      inner.Stands (k.text ++ (rest.text ++ z)) ∧ ReadsOff k (rest.text ++ z) ∧ rest.Stands z := by
  have hlexemes : (Components.block opener inner (some k) rest).lexemes ++ spelled z =
      opener :: (inner.lexemes ++ (k :: (rest.lexemes ++ spelled z))) := by
    simp [lexemes]
  rw [Stands, hlexemes] at h
  obtain ⟨c, u, ho, hread, -, hinner⟩ := exists_read_of_spelled h
  have hclose := spelled_of_append hinner
  obtain ⟨d, v, hk, hread', -, hrest⟩ := exists_read_of_spelled hclose
  have htext : (k :: (rest.lexemes ++ spelled z)).flatMap Lexeme.text =
      k.text ++ (rest.text ++ z) := by
    rw [List.flatMap_cons, flatMap_text]
  rw [List.flatMap_append, ← text_eq, htext] at hread hinner
  rw [htext] at hclose
  rw [flatMap_text] at hread' hrest
  exact ⟨⟨c, u, ho, hread⟩, by rw [Stands, hinner, hclose], ⟨d, v, hk, hread'⟩, hrest⟩

theorem token_of_closes {c : Bracket} (hk : k.token.closes? = some c) : k.token = .closing c := by
  cases ht : k.token <;> simp_all [Token.closes?]

theorem Closed.append_iff : (cs.append ds).Closed b ↔ cs.Closed b ∧ ds.Closed b := by
  induction cs with
  | nil => simp [Closed]
  | leaf l rest ih => simp [Closed, ih, and_assoc]
  | block opener inner closer rest _ ih =>
    rw [block_append, Closed, Closed, ih]
    constructor
    · rintro ⟨c, k, ho, hc, hk, hinner, hrest, hds⟩
      exact ⟨⟨c, k, ho, hc, hk, hinner, hrest⟩, hds⟩
    · rintro ⟨⟨c, k, ho, hc, hk, hinner, hrest⟩, hds⟩
      exact ⟨c, k, ho, hc, hk, hinner, hrest, hds⟩

theorem Closed.outside (h : cs.Closed b) : cs.Closed none := by
  induction cs with
  | nil => trivial
  | leaf l rest ih => exact ⟨h.1, nofun, ih h.2.2⟩
  | block opener inner closer rest _ ih =>
    obtain ⟨c, k, ho, hc, hk, hinner, hrest⟩ := h
    exact ⟨c, k, ho, hc, hk, hinner, ih hrest⟩

theorem isComplete_append : (cs.append ds).isComplete = (cs.isComplete && ds.isComplete) := by
  induction cs with
  | nil => rfl
  | leaf l rest ih => simp [isComplete, ih, Bool.and_assoc]
  | block opener inner closer rest _ ih => simp [isComplete, ih, Bool.and_assoc]

namespace Sits

theorem append_left (h : (cs.append ds).Sits b z) (hds : Separates (ds.text ++ z)) :
    cs.Sits b (ds.text ++ z) where
  stands := h.stands.append.1
  closed := (Closed.append_iff.1 h.closed).1
  complete := by
    have hcomplete := h.complete
    rw [isComplete_append, Bool.and_eq_true] at hcomplete
    exact hcomplete.1
  plain := fun x hx => h.plain x (by rw [text_append]; exact List.mem_append_left _ hx)
  separates := hds

theorem append_right (h : (cs.append ds).Sits b z) : ds.Sits b z where
  stands := h.stands.append.2
  closed := (Closed.append_iff.1 h.closed).2
  complete := by
    have hcomplete := h.complete
    rw [isComplete_append, Bool.and_eq_true] at hcomplete
    exact hcomplete.2
  plain := fun x hx => h.plain x (by rw [text_append]; exact List.mem_append_right _ hx)
  separates := h.separates

theorem leaf (h : (leaf l rest).Sits b z) : rest.Sits b z :=
  @append_right b z (.leaf l (.nil .first)) rest h

theorem block_rest {closer : Option Lexeme} (h : (block opener inner closer rest).Sits b z) :
    rest.Sits b z :=
  @append_right b z (.block opener inner closer (.nil .first)) rest h

theorem block_inner {closer : Option Lexeme} (h : (block opener inner closer rest).Sits b z)
    (ho : opener.token = .opening .curly) : opener.text = ['\x7b'] ∧
      ∃ k, closer = some k ∧ inner.Sits (some .curly) (k.text ++ (rest.text ++ z)) := by
  obtain ⟨c, k, hopens, rfl, hcloses, hinner, -⟩ := h.closed
  obtain rfl : Bracket.curly = c := by simpa [ho, Token.opens?] using hopens
  obtain ⟨hopener, hstands, hcloser, -⟩ := h.stands.block
  have htoken := token_of_closes hcloses
  have hk : k.text = ['\x7d'] := hcloser.of_sign (by rw [htoken]; rfl)
  have hcomplete := h.complete
  simp only [isComplete, Bool.and_eq_true] at hcomplete
  refine ⟨hopener.of_sign (by rw [ho]; rfl), k, rfl, hstands, hinner, hcomplete.1.2, ?_, ?_⟩
  · intro x hx
    refine h.plain x ?_
    rw [text_block, blockText]
    simp [hx]
  · rw [hk]
    exact separates_of_isBreak rfl _

end Sits

/-- A lexeme that what follows separates from it, and that ends in no blank, brace or semicolon. -/
structure Firm (l : Lexeme) : Prop where
  whole : ¬l.IsLoose
  opens : l.token.opens? = none
  last : ∀ x ∈ l.text.getLast?, isBlank x = false ∧ x ≠ ';' ∧ x ≠ '\x7b'

/-- A closing bracket is an end mark. -/
theorem text_of_closes {c : Bracket} {r : List Char} (h : ReadsOff k r)
    (hk : k.token.closes? = some c) : ∃ x, k.text = [x] ∧ isEndMark x := by
  have htoken := token_of_closes hk
  cases c with
  | paren => exact ⟨')', h.of_sign (by rw [htoken]; rfl), rfl⟩
  | square => exact ⟨']', h.of_sign (by rw [htoken]; rfl), rfl⟩
  | curly => exact ⟨'\x7d', h.of_sign (by rw [htoken]; rfl), rfl⟩

theorem isEndMark_facts {x : Char} (hx : isEndMark x) :
    isBlank x = false ∧ x ≠ ';' ∧ x ≠ '\x7b' := by
  simp only [isEndMark, Bool.or_eq_true, beq_iff_eq] at hx
  rcases hx with ((((rfl | rfl) | rfl) | rfl) | rfl) | rfl <;> decide

theorem firm_of_closes {c : Bracket} {r : List Char} (h : ReadsOff k r)
    (hk : k.token.closes? = some c) : Firm k := by
  have htoken := token_of_closes hk
  obtain ⟨y, htext, hy⟩ := text_of_closes h hk
  refine ⟨?_, by rw [htoken]; rfl, fun x hx => ?_⟩
  · rintro (hopen | ⟨content, hbad⟩)
    · simp [Lexeme.isOpen, htoken] at hopen
    · rw [htoken] at hbad
      cases hbad
  · rw [htext] at hx
    obtain rfl : y = x := Option.some.inj hx
    exact isEndMark_facts hy

/-- A single lexeme is blank, or begins and ends with no blank. -/
theorem Sits.leaf_cases (h : (Components.leaf l rest).Sits b z) (hl : l.token.isBad = false)
    (hsemicolon : l.token ≠ .semicolon) :
    ((∃ content, l.token = .whitespace content) ∧ ∀ x ∈ l.text, isBlank x) ∨
      (∀ x ∈ l.text.head?, isBlank x = false) ∧ l.text ≠ [] ∧ Firm l := by
  obtain ⟨⟨c, k, hlk, hread⟩, -⟩ := h.stands.leaf
  have hplain : ∀ x ∈ c :: k, isPlain x := fun x hx => h.plain x (by
    rw [text_leaf, hlk]
    exact List.mem_append_left _ hx)
  have hblank : ∀ x ∈ c :: k, isBlank x = isAsciiBlank x :=
    fun x hx => (isPlain_facts (hplain x hx)).2.2
  have htext : l.text = c :: k := by rw [hlk]
  by_cases hb : isAsciiBlank c = true
  · -- Blanks make a single token.
    have hws := Token.read_blank hb (k ++ (rest.text ++ z))
    obtain ⟨htoken, hdrop⟩ := Prod.mk.inj (hws.symm.trans hread)
    have htake : (k ++ (rest.text ++ z)).takeWhile isAsciiBlank = k := by
      have happend := List.takeWhile_append_dropWhile (p := isAsciiBlank) (l := k ++ (rest.text ++ z))
      rw [hdrop] at happend
      exact List.append_cancel_right happend
    have hall : ((k ++ (rest.text ++ z)).takeWhile isAsciiBlank).all isAsciiBlank = true :=
      List.all_takeWhile
    rw [htake] at hall
    refine .inl ⟨⟨_, htoken.symm⟩, fun x hx => ?_⟩
    rw [htext] at hx
    rw [hblank x hx]
    rcases List.mem_cons.1 hx with rfl | hx
    · exact hb
    · exact List.all_eq_true.1 hall x hx
  · have hcomplete := h.complete
    simp only [isComplete, Bool.and_eq_true, Bool.not_eq_true'] at hcomplete
    have hwhole : ¬l.IsLoose := by
      rintro (hopen | ⟨content, hbad⟩)
      · rw [hcomplete.1] at hopen
        cases hopen
      · rw [hbad] at hl
        cases hl
    refine .inr ⟨fun x hx => ?_, by rw [htext]; exact List.cons_ne_nil c k, hwhole, h.closed.1,
      fun x hx => ?_⟩
    · rw [htext] at hx
      obtain rfl : c = x := Option.some.inj hx
      rw [hblank c (List.mem_cons_self ..)]
      simpa using hb
    · rw [htext] at hx
      have hslash : '\\' ∉ c :: k := fun hmem => (isPlain_facts (hplain _ hmem)).1 rfl
      have hlast := getLast?_of_read hread hslash (hlk ▸ hwhole) h.closed.1
        (Bool.eq_false_iff.2 hb) hx
      rw [hblank x (List.mem_of_getLast? hx)]
      exact ⟨hlast.1, fun hx => hsemicolon (hlast.2.1 hx), hlast.2.2⟩

theorem isBlank_of_isAsciiBlank {x : Char} (h : isAsciiBlank x) : isBlank x := by
  rcases isAsciiBlank_cases h with rfl | rfl | rfl | rfl | rfl <;> decide

theorem not_isAsciiBlank {x : Char} (h : isBlank x = false) : isAsciiBlank x = false := by
  refine Bool.eq_false_iff.2 fun hb => ?_
  rw [isBlank_of_isAsciiBlank hb] at h
  cases h

/-- A token that may stand outside brackets of what is trimmed. -/
def isInner (t : Token) : Bool := !t.isBad && t != .semicolon

/-- Blanks and nothing else. -/
structure AreBlank (cs : Components) : Prop where
  tokens : ∀ t ∈ cs.tops, ∃ content, t = .whitespace content
  text : AllBlank cs.text

theorem areBlank_nil (p : Position) : (nil p).AreBlank := ⟨nofun, nofun⟩

theorem AreBlank.leaf (hl : ∃ content, l.token = .whitespace content) (htext : AllBlank l.text)
    (h : rest.AreBlank) : (Components.leaf l rest).AreBlank := by
  refine ⟨List.forall_mem_cons.2 ⟨hl, h.tokens⟩, fun x hx => ?_⟩
  rw [text_leaf] at hx
  exact (List.mem_append.1 hx).elim (htext x) (h.text x)

theorem exists_nil_of_lexemes (h : cs.lexemes = []) : ∃ p, cs = nil p := by
  cases cs with
  | nil p => exact ⟨p, rfl⟩
  | leaf => cases h
  | block => cases h

/-- What is left when the blanks in front are left out. -/
theorem Sits.exists_lead (h : cs.Sits b z) (hok : ∀ t ∈ cs.tops, isInner t) :
    ∃ lead ts : Components, cs = lead.append ts ∧ lead.AreBlank ∧
      ∀ x ∈ ts.text.head?, isBlank x = false := by
  induction cs with
  | nil p => exact ⟨nil p, nil p, rfl, areBlank_nil p, nofun⟩
  | leaf l rest ih =>
    have hl := hok l.token (List.mem_cons_self ..)
    simp only [isInner, Bool.and_eq_true, Bool.not_eq_true', bne_iff_ne] at hl
    rcases h.leaf_cases hl.1 hl.2 with ⟨hws, hall⟩ | ⟨hfirst, hne, -⟩
    · obtain ⟨lead, ts, rfl, hlead, hts⟩ := ih h.leaf fun t ht => hok t (List.mem_cons_of_mem _ ht)
      exact ⟨.leaf l lead, ts, rfl, .leaf hws hall hlead, hts⟩
    · refine ⟨nil .first, .leaf l rest, rfl, areBlank_nil .first, fun x hx => hfirst x ?_⟩
      obtain ⟨c, k, hk⟩ := List.exists_cons_of_ne_nil hne
      rw [text_leaf, hk] at hx
      rw [hk]
      exact hx
  | block opener inner closer rest _ _ =>
    refine ⟨nil .first, block opener inner closer rest, rfl, areBlank_nil .first, fun x hx => ?_⟩
    obtain ⟨c, k, ho, rfl, -, -, -⟩ := h.closed
    obtain ⟨⟨d, u, hopener, hread⟩, -⟩ := h.stands.block
    have htext : (block opener inner (some k) rest).text =
        d :: (u ++ (inner.text ++ (k.text ++ rest.text))) := by
      rw [text_block, blockText, hopener]
      simp
    have hd : d ∈ (block opener inner (some k) rest).text := by
      rw [htext]
      exact List.mem_cons_self ..
    rw [htext] at hx
    obtain rfl : d = x := Option.some.inj hx
    rw [(isPlain_facts (h.plain d hd)).2.2]
    refine Bool.eq_false_iff.2 fun hb => ?_
    -- No bracket is read from a blank.
    have htoken := congrArg Prod.fst hread
    simp only [Token.read, hb, ↓reduceIte] at htoken
    rw [← htoken] at ho
    cases ho

/-- What is left when the blanks at the end are left out. -/
theorem Sits.exists_trail (h : cs.Sits b z) (hok : ∀ t ∈ cs.tops, isInner t) :
    ∃ ts trail : Components, cs = ts.append trail ∧ trail.AreBlank ∧
      ∀ l ∈ ts.lexemes.getLast?, Firm l ∧ l.text ≠ [] := by
  induction cs with
  | nil p => exact ⟨nil p, nil p, rfl, areBlank_nil p, by simp [lexemes]⟩
  | leaf l rest ih =>
    have hl := hok l.token (List.mem_cons_self ..)
    simp only [isInner, Bool.and_eq_true, Bool.not_eq_true', bne_iff_ne] at hl
    obtain ⟨ts, trail, rfl, htrail, hlast⟩ :=
      ih h.leaf fun t ht => hok t (List.mem_cons_of_mem _ ht)
    cases hts : ts.lexemes.getLast? with
    | some k =>
      refine ⟨.leaf l ts, trail, rfl, htrail, fun m hm => hlast m ?_⟩
      rw [lexemes, List.getLast?_cons, hts] at hm
      rw [hts]
      exact hm
    | none =>
      obtain ⟨p, rfl⟩ := exists_nil_of_lexemes (List.getLast?_eq_none_iff.1 hts)
      rcases h.leaf_cases hl.1 hl.2 with ⟨hws, hall⟩ | ⟨-, hne, hfirm⟩
      · exact ⟨nil .first, .leaf l trail, rfl, .leaf hws hall htrail, by simp [lexemes]⟩
      · refine ⟨.leaf l (nil p), trail, rfl, htrail, fun m hm => ?_⟩
        obtain rfl : l = m := Option.some.inj hm
        exact ⟨hfirm, hne⟩
  | block opener inner closer rest _ ih =>
    obtain ⟨ts, trail, rfl, htrail, hlast⟩ :=
      ih h.block_rest fun t ht => hok t (List.mem_cons_of_mem _ ht)
    obtain ⟨c, k, -, rfl, hcloses, -, -⟩ := h.closed
    obtain ⟨-, -, hcloser, -⟩ := h.stands.block
    obtain ⟨e, hk, -⟩ := text_of_closes hcloser hcloses
    refine ⟨block opener inner (some k) ts, trail, rfl, htrail, fun m hm => ?_⟩
    cases hts : ts.lexemes.getLast? with
    | some e =>
      refine hlast m ?_
      rw [hts]
      simpa [lexemes, List.getLast?_cons, List.getLast?_append, hts] using hm
    | none =>
      have hnone : ts.lexemes = [] := List.getLast?_eq_none_iff.1 hts
      obtain rfl : k = m := by
        simpa [lexemes, hnone, List.getLast?_cons, List.getLast?_append] using hm
      exact ⟨firm_of_closes hcloser hcloses, by simp [hk]⟩

theorem getLast?_flatMap_text {ls : List Lexeme} {x : Char}
    (h : ∀ l ∈ ls.getLast?, l.text ≠ []) (hx : (ls.flatMap Lexeme.text).getLast? = some x) :
    ∃ l, ls.getLast? = some l ∧ l.text.getLast? = some x := by
  rcases List.eq_nil_or_concat ls with rfl | ⟨front, l, rfl⟩
  · cases hx
  · rw [List.concat_eq_append] at *
    have hl := List.getLast?_concat (l := front) (a := l)
    refine ⟨l, hl, ?_⟩
    rw [List.flatMap_append, List.flatMap_singleton, List.getLast?_append] at hx
    cases ht : l.text.getLast? with
    | none => exact absurd (List.getLast?_eq_none_iff.1 ht) (h l hl)
    | some y =>
      rw [ht] at hx
      exact hx

/-- Blanks that sit in front of a separator begin with one, if there are any. -/
theorem Sits.separates_blanks (h : cs.Sits b z) (hcs : cs.AreBlank) :
    Separates (cs.text ++ z) := by
  cases htext : cs.text with
  | nil => exact h.separates
  | cons x t =>
    have hx : x ∈ cs.text := by simp [htext]
    have hb : isAsciiBlank x = true := by rw [← (isPlain_facts (h.plain x hx)).2.2, hcs.text x hx]
    refine separates_cons (by simp [isSeparator, hb]) ?_ (t ++ z)
    rintro rfl
    cases hb

/-- Components that sit between separators may be moved without the blanks around them. -/
theorem Sits.exists_movable (h : cs.Sits b z) (hok : ∀ t ∈ cs.tops, isInner t) :
    ∃ lead ts trail : Components, cs = lead.append (ts.append trail) ∧ ts.Movable ∧
      lead.AreBlank ∧ trail.AreBlank := by
  obtain ⟨lead, us, rfl, hlead, hfirst⟩ := h.exists_lead hok
  rw [tops_append] at hok
  obtain ⟨ts, trail, rfl, htrail, hlast⟩ :=
    h.append_right.exists_trail fun t ht => hok t (List.mem_append_right _ ht)
  have hts := h.append_right.append_left (h.append_right.append_right.separates_blanks htrail)
  have htrimmed : IsTrimmed ts.text := by
    constructor
    · intro x hx
      refine hfirst x ?_
      obtain ⟨t, ht⟩ := List.head?_eq_some_iff.1 hx
      rw [text_append, ht]
      rfl
    · intro x hx
      rw [text_eq] at hx
      obtain ⟨l, hl, hlx⟩ := getLast?_flatMap_text (fun l hl => (hlast l hl).2) hx
      exact (hlast l hl).1.last x hlx
  refine ⟨lead, ts, trail, rfl, ⟨fun w hw => ?_, hts.closed.outside, htrimmed⟩, hlead, htrail⟩
  refine spelled_append_of_plain (fun hmem => ?_) hts.separates hw hts.stands (fun x hx => ?_)
    fun l hl => ⟨(hlast l hl).1.whole, (hlast l hl).1.opens⟩
  · exact (isPlain_facts (hts.plain _ hmem)).1 rfl
  · exact not_isAsciiBlank (htrimmed.last x hx).1

/-- No exclamation mark stands within a lexeme with nothing behind it that could end one. -/
theorem ReadsOff.not_bang {r x u : List Char} (h : ReadsOff l r) (hfirm : ¬l.IsLoose)
    (hopens : l.token.opens? = none) (hplain : '\\' ∉ l.text)
    (hfirst : ∀ y ∈ l.text.head?, isAsciiBlank y = false) (hx : x ≠ [])
    (hz : Separates ('!' :: (u ++ r))) (hu : ∀ y ∈ u, isEndMark y = false) :
    l.text ≠ x ++ '!' :: u := by
  rintro htext
  obtain ⟨c, k, hlk, hread⟩ := h
  obtain ⟨d, x, rfl⟩ := List.exists_cons_of_ne_nil hx
  have hl : l.text = c :: k := by rw [hlk]
  have hcons : c :: k = d :: (x ++ '!' :: u) := hl.symm.trans htext
  obtain ⟨rfl, rfl⟩ := List.cons.inj hcons
  rw [hl] at hplain hfirst
  by_cases hkind : l.token.isEnclosed = true
  · obtain ⟨y, hy⟩ : ∃ y, ('!' :: u).getLast? = some y :=
      ⟨_, List.getLast?_eq_some_getLast (List.cons_ne_nil _ _)⟩
    have hlast : (c :: (x ++ '!' :: u)).getLast? = some y := by
      rw [← List.cons_append, List.getLast?_append, hy]
      rfl
    have hmark := isEndMark_of_isEnclosed hread (hlk ▸ hfirm) hkind hlast
    rcases List.mem_cons.1 (List.mem_of_getLast? hy) with rfl | hmem
    · cases hmark
    · rw [hu y hmem] at hmark
      cases hmark
  · rw [List.append_assoc, List.cons_append] at hread
    have hplain' : '\\' ∉ c :: x := fun hmem => hplain (by
      rw [← List.cons_append]
      exact List.mem_append_left _ hmem)
    have hsuffix := separates_suffix hplain' (hfirst c rfl) hz
      (by rw [hread]; simpa using hkind) (by rw [hread]; exact hopens)
    rw [hread] at hsuffix
    have hlen := hsuffix.length_le
    simp only [List.length_cons, List.length_append] at hlen
    omega

/-- Components may be split at an exclamation mark with no end marks behind it. -/
theorem Sits.exists_split {x y : List Char} (h : cs.Sits b z) (hok : ∀ t ∈ cs.tops, isInner t)
    (htext : cs.text = x ++ '!' :: y) (hz : Separates ('!' :: (y ++ z)))
    (hy : ∀ c ∈ y, isEndMark c = false) :
    ∃ qs es : Components, cs = qs.append es ∧ qs.text = x ∧ es.text = '!' :: y := by
  induction cs generalizing x with
  | nil p =>
    have hlen := congrArg List.length htext
    simp [text_eq, lexemes] at hlen
  | leaf l rest ih =>
    have hl := hok l.token (List.mem_cons_self ..)
    simp only [isInner, Bool.and_eq_true, Bool.not_eq_true', bne_iff_ne] at hl
    rw [text_leaf] at htext
    rcases List.append_eq_append_iff.1 htext with ⟨m, rfl, hrest⟩ | ⟨m, hlm, hrest⟩
    · obtain ⟨qs, es, rfl, hqs, hes⟩ := ih h.leaf (fun t ht => hok t (List.mem_cons_of_mem _ ht)) hrest
      exact ⟨.leaf l qs, es, rfl, by rw [text_leaf, hqs], hes⟩
    · cases m with
      | nil =>
        have hnil : (nil .first : Components).text = [] := rfl
        refine ⟨.leaf l (nil .first), rest, rfl, ?_, hrest.symm⟩
        rw [text_leaf, hnil, hlm, List.append_nil, List.append_nil]
      | cons d u =>
        obtain ⟨rfl, hyu⟩ : '!' = d ∧ y = u ++ rest.text := List.cons.inj hrest
        subst hyu
        by_cases hx : x = []
        · subst hx
          exact ⟨nil .first, .leaf l rest, rfl, rfl, by rw [text_leaf, hlm]; rfl⟩
        · -- The mark would stand within a lexeme.
          exfalso
          have hbang : '!' ∈ l.text := by simp [hlm]
          rcases h.leaf_cases hl.1 hl.2 with ⟨-, hall⟩ | ⟨hfirst, -, hfirm⟩
          · exact absurd (hall '!' hbang) (by decide)
          · rw [List.append_assoc] at hz
            refine h.stands.leaf.1.not_bang hfirm.whole hfirm.opens (fun hmem => ?_) (fun c hc => ?_) hx
              hz (fun c hc => hy c (List.mem_append_left _ hc)) hlm
            · refine (isPlain_facts (h.plain _ ?_)).1 rfl
              rw [text_leaf]
              exact List.mem_append_left _ hmem
            · exact not_isAsciiBlank (hfirst c hc)
  | block opener inner closer rest _ ih =>
    rw [text_block] at htext
    rcases List.append_eq_append_iff.1 htext with ⟨m, rfl, hrest⟩ | ⟨m, hlm, hrest⟩
    · obtain ⟨qs, es, rfl, hqs, hes⟩ :=
        ih h.block_rest (fun t ht => hok t (List.mem_cons_of_mem _ ht)) hrest
      exact ⟨.block opener inner closer qs, es, rfl, by rw [text_block, hqs], hes⟩
    · obtain ⟨c, k, -, rfl, hcloses, -, -⟩ := h.closed
      obtain ⟨-, -, hcloser, -⟩ := h.stands.block
      obtain ⟨e, he, hmark⟩ := text_of_closes hcloser hcloses
      cases m with
      | nil =>
        have hnil : (nil .first : Components).text = [] := rfl
        refine ⟨.block opener inner (some k) (nil .first), rest, rfl, ?_, hrest.symm⟩
        rw [text_block, hnil, hlm, List.append_nil, List.append_nil]
      | cons d u =>
        -- The closing bracket would stand behind the mark.
        exfalso
        obtain ⟨rfl, hyu⟩ : '!' = d ∧ y = u ++ rest.text := List.cons.inj hrest
        subst hyu
        have hlast := congrArg List.getLast? hlm
        simp only [blockText, Option.toList_some, List.flatMap_singleton, he, List.getLast?_append,
          List.getLast?_singleton, Option.some_or] at hlast
        have hmem : e ∈ '!' :: u := by
          cases hu : ('!' :: u).getLast? with
          | none => simp at hu
          | some f =>
            rw [hu] at hlast
            obtain rfl : e = f := Option.some.inj hlast
            exact List.mem_of_getLast? hu
        rcases List.mem_cons.1 hmem with rfl | hmem
        · cases hmark
        · rw [hy e (List.mem_append_left _ hmem)] at hmark
          cases hmark

end Components

end RasterFallback.Css
