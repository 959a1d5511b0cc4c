import RasterFallback.Proofs.Css.Lines
import RasterFallback.Proofs.Css.Origin
import RasterFallback.Proofs.Stylesheet.Readable

/-!
Where the parts of a stylesheet were read. A parsed text consists of the heads of its rules, of
its at-rules and its declarations, in the order of the tree, with blanks, comments and signs
between them; each of these parts bears the place of its first character.
-/
namespace RasterFallback
open RasterFallback.Text RasterFallback.Css RasterFallback.Css.Components

/-- A part of a stylesheet that bears a place. -/
inductive TreeEntry where
  | rule (r : Rule)
  | atRule (head : AtHead)
  | declaration (d : Declaration)

def TreeEntry.source : TreeEntry → Option Position
  | rule r => r.source
  | atRule head => head.source
  | declaration d => d.source

mutual

/-- The parts of a node in document order: heads come before what is in their block. -/
def Node.entries : Node → List TreeEntry
  | .rule r => .rule r :: r.declarations.map .declaration
  | .comment _ => []
  | .statement head => [.atRule head]
  | .descriptors head ds => .atRule head :: ds.map .declaration
  | .group head nodes => .atRule head :: entriesOf nodes

def entriesOf : List Node → List TreeEntry
  | [] => []
  | n :: ns => n.entries ++ entriesOf ns

end

def Stylesheet.entries (s : Stylesheet) : List TreeEntry := entriesOf s.nodes

/-- One part stands before another in the text. -/
def TreeEntry.Precedes (a b : TreeEntry) : Prop :=
  ∃ p q, a.source = some p ∧ b.source = some q ∧ p.Before q

/-- Lexemes that spell a part: a selector list with the brace behind it, the name and the
parameters of an at-rule with the sign that ends them, or a name, a colon and a value. -/
inductive TreeEntry.IsSpelled : TreeEntry → List Lexeme → Prop where
  | rule {r : Rule} {opener : Lexeme} {own : List Lexeme}
      (first : ∀ l ∈ own.head?, startsRule l.token) (last : [opener] <:+ own)
      (brace : opener.token = .opening .curly)
      (selector : r.selector = selectorText (own.flatMap Lexeme.text)) : IsSpelled (.rule r) own
  | atRule {head : AtHead} {keyword : Lexeme} {behind : List Lexeme}
      (name : keyword.token = .atKeyword head.name) (sign : keyword.text.head? = some '@')
      (params : head.params = paramsText (behind.flatMap Lexeme.text)) :
      IsSpelled (.atRule head) (keyword :: behind)
  | declaration {d : Declaration} {name colon : Lexeme} {space value : List Lexeme}
      (prop : name.token = .ident d.prop) (blank : ∀ l ∈ space, l.token.isSpace)
      (sign : colon.token = .colon)
      (content : splitImportant (value.flatMap Lexeme.text) = (d.value.toList, d.important)) :
      IsSpelled (.declaration d) (name :: (space ++ colon :: value))

/-- What may stand between the parts of a stylesheet. -/
def standsBetween : Token → Bool
  | .whitespace _ => true
  | .comment _ => true
  | .cdo => true
  | .cdc => true
  | .semicolon => true
  | .closing .curly => true
  | _ => false

/-- Behind the text `s` stand parts of a stylesheet, each with the place at which it begins, and
nothing but what may stand between them. -/
inductive AreLaid : List Char → List Lexeme → List TreeEntry → Prop where
  | nil (s : List Char) : AreLaid s [] []
  | between {s : List Char} {l : Lexeme} {ls : List Lexeme} {es : List TreeEntry}
      (h : standsBetween l.token) (rest : AreLaid (s ++ l.text) ls es) : AreLaid s (l :: ls) es
  | entry {s : List Char} {own ls : List Lexeme} {e : TreeEntry} {es : List TreeEntry}
      (spelled : e.IsSpelled own) (source : e.source = some (placeBehind s))
      (rest : AreLaid (s ++ own.flatMap Lexeme.text) ls es) : AreLaid s (own ++ ls) (e :: es)

/-- Lexemes that bear the places at which they stand behind the text `s`, keywords with their
at signs. -/
structure ArePlaced (s : List Char) (ls : List Lexeme) : Prop where
  starts : ∀ front l behind, ls = front ++ l :: behind →
    l.start = placeBehind (s ++ front.flatMap Lexeme.text)
  signs : ∀ l ∈ ls, ∀ name, l.token = .atKeyword name → l.text.head? = some '@'

theorem head?_of_atKeyword {ls : List Lexeme} (h : AreRead ls) :
    ∀ l ∈ ls, ∀ name, l.token = .atKeyword name → l.text.head? = some '@' := by
  induction ls with
  | nil => nofun
  | cons l ls ih =>
    refine List.forall_mem_cons.2 ⟨fun name hl => ?_, ih h.2⟩
    obtain ⟨c, k, htext, hread⟩ := h.1
    have horigin := Token.read_origin c (k ++ ls.flatMap Lexeme.text)
    rw [hread, Lexeme.unplaced_token, hl] at horigin
    obtain ⟨rfl, -⟩ := horigin
    have hl : l.text = '@' :: k := congrArg Lexeme.text htext
    rw [hl, List.head?_cons]

theorem arePlaced_lexemes (s : List Char) : ArePlaced [] (lexemes .first s) where
  starts front l behind h := by rw [start_eq_after h, after_first, List.nil_append]
  signs := head?_of_atKeyword (areRead_lexemes ..)

section Laid

variable {s : List Char} {ls ms : List Lexeme} {es fs : List TreeEntry} {l : Lexeme}

theorem ArePlaced.start (h : ArePlaced s (l :: ls)) : l.start = placeBehind s := by
  have hl := h.starts [] l ls rfl
  rwa [List.flatMap_nil, List.append_nil] at hl

theorem ArePlaced.left (h : ArePlaced s (ls ++ ms)) : ArePlaced s ls where
  starts := by
    rintro front l behind rfl
    exact h.starts front l (behind ++ ms) (by simp)
  signs l hl := h.signs l (List.mem_append_left ms hl)

theorem ArePlaced.right (h : ArePlaced s (ls ++ ms)) :
    ArePlaced (s ++ ls.flatMap Lexeme.text) ms where
  starts := by
    rintro front l behind rfl
    have hl := h.starts (ls ++ front) l behind (by simp)
    rwa [List.flatMap_append, ← List.append_assoc] at hl
  signs l hl := h.signs l (List.mem_append_right ls hl)

theorem ArePlaced.tail (h : ArePlaced s (l :: ls)) : ArePlaced (s ++ l.text) ls := by
  have htail : ArePlaced (s ++ [l].flatMap Lexeme.text) ls := h.right
  rwa [List.flatMap_singleton] at htail

theorem AreLaid.append (h : AreLaid s ls es) (hms : AreLaid (s ++ ls.flatMap Lexeme.text) ms fs) :
    AreLaid s (ls ++ ms) (es ++ fs) := by
  induction h with
  | nil s => simpa using hms
  | between hl _ ih =>
    apply AreLaid.between hl
    apply ih
    simpa using hms
  | entry spelled source _ ih =>
    rw [List.append_assoc]
    apply AreLaid.entry spelled source
    apply ih
    simpa using hms

/-- What is in a block, the brace that closes it, and what is behind it. -/
theorem AreLaid.block (hl : l.token = .closing .curly) (h : AreLaid s ls es)
    (hms : AreLaid (s ++ (ls ++ [l]).flatMap Lexeme.text) ms fs) :
    AreLaid s (ls ++ [l] ++ ms) (es ++ fs) := by
  rw [List.append_assoc]
  apply h.append
  apply AreLaid.between
  · rw [hl]
    rfl
  · simpa using hms

theorem TreeEntry.IsSpelled.ne_nil {e : TreeEntry} (h : e.IsSpelled ls) : ls ≠ [] := by
  cases h with
  | rule first last brace selector =>
    rintro rfl
    cases List.suffix_nil.1 last
  | atRule => exact List.cons_ne_nil _ _
  | declaration => exact List.cons_ne_nil _ _

/-- Each part has the place of a lexeme of its own. -/
theorem AreLaid.sublist_sources (h : AreLaid s ls es) (hls : ArePlaced s ls) :
    (es.map TreeEntry.source).Sublist (ls.map fun l => some l.start) := by
  induction h with
  | nil s => exact .slnil
  | between hl _ ih => exact (ih hls.tail).cons _
  | @entry s own ls e es spelled source _ ih =>
    obtain ⟨l, own, rfl⟩ := List.exists_cons_of_ne_nil spelled.ne_nil
    have hstart : l.start = placeBehind s := hls.start
    rw [List.map_append, List.map_cons, List.map_cons, source, ← hstart]
    apply List.Sublist.cons_cons
    exact (ih hls.right).trans (List.sublist_append_right ..)

end Laid

section Declarations

variable {cs : Components} {s : List Char}

theorem exists_space (cs : Components) :
    ∃ space, cs.lexemes = space ++ cs.skipSpace.lexemes ∧ ∀ l ∈ space, l.token.isSpace := by
  induction cs with
  | nil p => exact ⟨[], rfl, nofun⟩
  | leaf l rest ih =>
    rw [skipSpace]
    split
    · rename_i hl
      obtain ⟨space, hrest, hspace⟩ := ih
      exact ⟨l :: space, congrArg (l :: ·) hrest, List.forall_mem_cons.2 ⟨hl, hspace⟩⟩
    · exact ⟨[], rfl, nofun⟩
  | block opener inner closer rest => exact ⟨[], rfl, nofun⟩

theorem lexemes_colon {behind : Components} (h : colon? cs = some behind) :
    ∃ space colon, cs.lexemes = space ++ colon :: behind.lexemes ∧
      (∀ l ∈ space, l.token.isSpace) ∧ colon.token = .colon := by
  obtain ⟨space, hcs, hspace⟩ := exists_space cs
  unfold colon? expectColon at h
  split at h
  · cases h
  · rename_i l rest hskip
    split at h
    · rename_i hl
      obtain rfl : rest = behind := Option.some.inj h
      rw [hskip] at hcs
      exact ⟨space, l, hcs, hspace, hl⟩
    · split at h <;> cases h
  · cases h

theorem text_lexemes (opener : Lexeme) (inner : Components) (closer : Option Lexeme) :
    (opener :: (inner.lexemes ++ closer.toList)).flatMap Lexeme.text =
      blockText opener inner closer := by
  rw [List.flatMap_cons, List.flatMap_append, ← text_eq, blockText, List.append_assoc]

theorem lexemes_value {raw : List Char} {next : Components} (h : value? cs = some (raw, next)) :
    ∃ value sign, cs.lexemes = value ++ (sign ++ next.lexemes) ∧
      value.flatMap Lexeme.text = raw ∧ ∀ l ∈ sign, l.token = .semicolon := by
  induction cs generalizing raw with
  | nil p =>
    obtain ⟨rfl, rfl⟩ := Prod.mk.inj (Option.some.inj h)
    exact ⟨[], [], rfl, rfl, nofun⟩
  | leaf l rest ih =>
    rw [value?_leaf] at h
    split at h
    · rename_i hl
      obtain ⟨rfl, rfl⟩ := Prod.mk.inj (Option.some.inj h)
      exact ⟨[], [l], rfl, rfl, List.forall_mem_singleton.2 hl⟩
    · split at h
      · cases h
      · obtain ⟨v, hv, heq⟩ := Option.map_eq_some_iff.1 h
        obtain ⟨rfl, rfl⟩ := Prod.mk.inj heq
        obtain ⟨value, sign, hrest, htext, hsign⟩ := ih hv
        refine ⟨l :: value, sign, congrArg (l :: ·) hrest, ?_, hsign⟩
        rw [List.flatMap_cons, htext]
  | block opener inner closer rest _ ih =>
    rw [value?_block] at h
    obtain ⟨v, hv, heq⟩ := Option.map_eq_some_iff.1 h
    obtain ⟨rfl, rfl⟩ := Prod.mk.inj heq
    obtain ⟨value, sign, hrest, htext, hsign⟩ := ih hv
    refine ⟨opener :: (inner.lexemes ++ closer.toList) ++ value, sign, ?_, ?_, hsign⟩
    · simp [Components.lexemes, hrest]
    · rw [List.flatMap_append, text_lexemes, htext]

/-- What declarations are read from that begin with a lexeme. -/
theorem declarations_leaf_cases {l : Lexeme} {rest : Components} {ds : List Declaration}
    (h : declarations (.leaf l rest) = .ok ds) :
    (standsBetween l.token ∧ declarations rest = .ok ds) ∨
      ∃ name behind raw next more, l.token = .ident name ∧ colon? rest = some behind ∧
        value? behind = some (raw, next) ∧ declarations next = .ok more ∧
        ds = ⟨name, String.ofList (splitImportant raw).1, (splitImportant raw).2,
          some l.start⟩ :: more := by
  rw [declarations] at h
  cases hl : l.token
  case whitespace => exact .inl ⟨rfl, by rwa [hl] at h⟩
  case comment => exact .inl ⟨rfl, by rwa [hl] at h⟩
  case semicolon => exact .inl ⟨rfl, by rwa [hl] at h⟩
  case closing b =>
    rw [hl] at h
    cases b with
    | curly => exact .inl ⟨rfl, h⟩
    | paren => cases h
    | square => cases h
  case ident name =>
    rw [hl] at h
    dsimp only at h
    split at h
    · cases h
    · rename_i behind hcolon
      split at h
      · cases h
      · rename_i raw next hvalue
        have hcolon? : colon? rest = some behind := by
          rw [← toOption_expectColon l.stop, hcolon, toOption_ok]
        have hvalue? : value? behind = some (raw, next) := by
          rw [← toOption_valueText behind.start, hvalue, toOption_ok]
        cases hmore : declarations next with
        | error e =>
          rw [hmore] at h
          cases h
        | ok more =>
          rw [hmore] at h
          cases h
          exact .inr ⟨name, behind, raw, next, more, rfl, hcolon?, hvalue?, hmore, rfl⟩
  all_goals
    rw [hl] at h
    cases h

/-- Whatever is skipped or separates declarations may stand between the parts. -/
theorem AreLaid.skip {ls ms : List Lexeme} {es : List TreeEntry}
    (hls : ∀ l ∈ ls, standsBetween l.token) (h : AreLaid (s ++ ls.flatMap Lexeme.text) ms es) :
    AreLaid s (ls ++ ms) es := by
  induction ls generalizing s with
  | nil => simpa using h
  | cons l ls ih =>
    obtain ⟨hl, hls⟩ := List.forall_mem_cons.1 hls
    apply AreLaid.between hl
    apply ih hls
    simpa using h

theorem areLaid_declarations {ds : List Declaration} (h : declarations cs = .ok ds)
    (hcs : ArePlaced s cs.lexemes) : AreLaid s cs.lexemes (ds.map .declaration) := by
  induction hn : cs.size using Nat.strongRecOn generalizing cs ds s with
  | ind n ih =>
    cases cs with
    | nil p =>
      rw [declarations] at h
      cases h
      exact .nil s
    | block opener inner closer rest =>
      rw [declarations] at h
      cases h
    | leaf l rest =>
      rw [Components.size] at hn
      rcases declarations_leaf_cases h with
        ⟨hl, hrest⟩ | ⟨name, behind, raw, next, more, hl, hcolon, hvalue, hmore, rfl⟩
      · exact .between hl (ih rest.size (by omega) hrest hcs.tail rfl)
      · obtain ⟨space, colon, hrest, hspace, hsign⟩ := lexemes_colon hcolon
        obtain ⟨value, semicolon, hbehind, rfl, hsemicolon⟩ := lexemes_value hvalue
        have hsize : next.size ≤ rest.size := Nat.le_trans (value?_size hvalue) (colon?_size hcolon)
        have hall : (Components.leaf l rest).lexemes =
            l :: (space ++ colon :: value) ++ (semicolon ++ next.lexemes) := by
          simp [Components.lexemes, hrest, hbehind]
        have hsource : l.start = placeBehind s := hcs.start
        rw [hall] at hcs ⊢
        apply AreLaid.entry
        · apply TreeEntry.IsSpelled.declaration hl hspace hsign
          simp
        · exact congrArg some hsource
        · apply AreLaid.skip
          · intro m hm
            rw [hsemicolon m hm]
            rfl
          · exact ih next.size (by omega) hmore hcs.right.right rfl

end Declarations

section Preludes

variable {cs : Components} {b : Option Bracket}

/-- The lexemes behind a prelude. -/
def PreludeEnd.lexemes : PreludeEnd → List Lexeme
  | .block _ inner closer rest => inner.lexemes ++ closer.toList ++ rest.lexemes
  | .semicolon rest => rest.lexemes
  | .brace => []
  | .finished => []

/-- What is behind a prelude is formed, and a block behind it is in braces, of which the first
is the last of its lexemes. -/
def PreludeEnd.Follows (b : Option Bracket) (own : List Lexeme) : PreludeEnd → Prop
  | .block opener inner closer rest => [opener] <:+ own ∧ opener.token = .opening .curly ∧
    (Components.block opener inner closer rest).Formed b
  | .semicolon rest => rest.Formed b
  | .brace => True
  | .finished => True

theorem PreludeEnd.Follows.mono {own ls : List Lexeme} {e : PreludeEnd} (h : e.Follows b own) :
    e.Follows b (ls ++ own) := by
  cases e with
  | block => exact ⟨h.1.trans (List.suffix_append ..), h.2⟩
  | semicolon => exact h
  | brace => trivial
  | finished => trivial

/-- A prelude that a closing brace does not end is the text in front of what is behind it. -/
theorem lexemes_prelude {raw : List Char} {e : PreludeEnd} (h : prelude? cs = some (raw, e))
    (he : e ≠ .brace) (hcs : cs.Formed b) :
    ∃ own, cs.lexemes = own ++ e.lexemes ∧ own.flatMap Lexeme.text = raw ∧ e.Follows b own := by
  induction cs generalizing raw with
  | nil p =>
    obtain ⟨rfl, rfl⟩ := Prod.mk.inj (Option.some.inj h)
    exact ⟨[], rfl, rfl, trivial⟩
  | leaf l rest ih =>
    rw [prelude?_leaf] at h
    split at h
    · obtain ⟨rfl, rfl⟩ := Prod.mk.inj (Option.some.inj h)
      exact ⟨[l], rfl, List.flatMap_singleton .., hcs.2.2⟩
    · split at h
      · obtain ⟨-, rfl⟩ := Prod.mk.inj (Option.some.inj h)
        exact absurd rfl he
      · split at h
        · cases h
        · obtain ⟨q, hq, heq⟩ := Option.map_eq_some_iff.1 h
          obtain ⟨rfl, rfl⟩ := Prod.mk.inj heq
          obtain ⟨own, hrest, htext, hfollows⟩ := ih hq hcs.2.2
          refine ⟨[l] ++ own, congrArg (l :: ·) hrest, ?_, hfollows.mono⟩
          rw [List.flatMap_append, htext, List.flatMap_singleton]
  | block opener inner closer rest _ ih =>
    rw [prelude?_block] at h
    split at h
    · rename_i ho
      obtain ⟨rfl, rfl⟩ := Prod.mk.inj (Option.some.inj h)
      exact ⟨[opener], rfl, List.flatMap_singleton .., List.suffix_rfl, ho, hcs⟩
    · obtain ⟨q, hq, heq⟩ := Option.map_eq_some_iff.1 h
      obtain ⟨rfl, rfl⟩ := Prod.mk.inj heq
      have hrest : rest.Formed b := by
        obtain ⟨c, -, hcloser⟩ := hcs
        cases closer with
        | some k => exact hcloser.2.2
        | none =>
          obtain ⟨-, p, rfl⟩ := hcloser
          trivial
      obtain ⟨own, hlexemes, htext, hfollows⟩ := ih hq hrest
      refine ⟨opener :: (inner.lexemes ++ closer.toList) ++ own, ?_, ?_, hfollows.mono⟩
      · simp [Components.lexemes, hlexemes]
      · rw [List.flatMap_append, text_lexemes, htext]

/-- A closed block in braces. -/
theorem formed_braces {opener k : Lexeme} {inner rest : Components}
    (h : (Components.block opener inner (some k) rest).Formed b)
    (ho : opener.token = .opening .curly) :
    k.token = .closing .curly ∧ inner.Formed (some .curly) ∧ rest.Formed b := by
  obtain ⟨c, hc, hk, hinner, hrest⟩ := h
  obtain rfl : Bracket.curly = c := by
    rw [ho] at hc
    exact Option.some.inj hc
  exact ⟨token_of_closes hk, hinner.formed, hrest⟩

end Preludes

section Nodes

variable {cs : Components} {b : Option Bracket} {s : List Char}

theorem closedBlock_eq_ok {α : Type} {p : Position} {closer : Option Lexeme}
    {content : Except ParseError α} {a : α} (h : closedBlock p closer content = .ok a) :
    content = .ok a ∧ ∃ k, closer = some k := by
  cases content with
  | error e => cases h
  | ok a =>
    cases closer with
    | none => cases h
    | some k =>
      cases h
      exact ⟨rfl, k, rfl⟩

/-- What a rule is read from. -/
theorem parseRule_cases {r : Rule} {next : Components} (h : parseRule cs = .ok (r, next)) :
    ∃ raw opener inner k ds, prelude? cs = some (raw, .block opener inner (some k) next) ∧
      declarations inner = .ok ds ∧ r = ⟨selectorText raw, ds, some cs.start⟩ := by
  obtain ⟨raw, stop, opener, inner, closer, ds, hp, hblock, rfl⟩ := parseRule_eq_ok h
  obtain ⟨hds, k, rfl⟩ := closedBlock_eq_ok hblock
  refine ⟨raw, opener, inner, k, ds, ?_, hds, rfl⟩
  rw [← toOption_readPrelude cs.start, hp]
  rfl

/-- Nodes that begin with a rule. -/
def BeginsWithRule (cs : Components) (ns : List Node) : Prop :=
  ∃ r next more, parseRule cs = .ok (r, next) ∧ parseNodes next = .ok more ∧ ns = .rule r :: more

theorem beginsWithRule {ns : List Node} (h : ruleNodes cs = .ok ns) : BeginsWithRule cs ns := by
  obtain ⟨⟨r, next⟩, hr, h⟩ := bind_eq_ok.1 h
  obtain ⟨more, hmore, heq⟩ := bind_eq_ok.1 h
  cases heq
  exact ⟨r, next, more, hr, hmore, rfl⟩

/-- Nodes that begin with an at-rule, which `cs` follow. -/
def BeginsWithAtRule (name : String) (p : Position) (cs : Components) (ns : List Node) : Prop :=
  ∃ raw e, prelude? cs = some (raw, e) ∧ match e with
    | .finished => ns = [.statement ⟨name, paramsText raw, some p⟩]
    | .semicolon next =>
      ∃ more, parseNodes next = .ok more ∧ ns = .statement ⟨name, paramsText raw, some p⟩ :: more
    | .brace => False
    | .block _ inner closer next => closer.isSome ∧ ∃ more, parseNodes next = .ok more ∧
      ((∃ content, parseNodes inner = .ok content ∧
          ns = .group ⟨name, paramsText raw, some p⟩ content :: more) ∨
        ∃ ds, declarations inner = .ok ds ∧
          ns = .descriptors ⟨name, paramsText raw, some p⟩ ds :: more)

theorem beginsWithAtRule {name : String} {l : Lexeme} {ns : List Node}
    (h : atRuleNodes name l cs = .ok ns) : BeginsWithAtRule name l.start cs ns := by
  obtain ⟨⟨raw, stop, e⟩, hp, h⟩ := bind_eq_ok.1 h
  have hprelude : prelude? cs = some (raw, e) := by
    rw [← toOption_readPrelude l.stop, hp]
    rfl
  refine ⟨raw, e, hprelude, ?_⟩
  cases e with
  | finished => exact (Except.ok.inj h).symm
  | semicolon next =>
    obtain ⟨more, hmore, heq⟩ := bind_eq_ok.1 h
    exact ⟨more, hmore, (Except.ok.inj heq).symm⟩
  | brace => cases h
  | block opener inner closer next =>
    dsimp only at h
    split at h
    · obtain ⟨content, hblock, hrest⟩ := bind_eq_ok.1 h
      obtain ⟨hcontent, k, rfl⟩ := closedBlock_eq_ok hblock
      obtain ⟨more, hmore, heq⟩ := bind_eq_ok.1 hrest
      cases heq
      exact ⟨rfl, more, hmore, .inl ⟨content, hcontent, rfl⟩⟩
    · obtain ⟨ds, hblock, hrest⟩ := bind_eq_ok.1 h
      obtain ⟨hds, k, rfl⟩ := closedBlock_eq_ok hblock
      obtain ⟨more, hmore, heq⟩ := bind_eq_ok.1 hrest
      cases heq
      exact ⟨rfl, more, hmore, .inr ⟨ds, hds, rfl⟩⟩

/-- What nodes are read from that begin with a lexeme, with their places. -/
theorem parseNodes_leaf_cases {l : Lexeme} {rest : Components} {ns : List Node}
    (h : parseNodes (.leaf l rest) = .ok ns) :
    (standsBetween l.token ∧ ∃ more, parseNodes rest = .ok more ∧ entriesOf ns = entriesOf more) ∨
      (∃ name, l.token = .atKeyword name ∧ BeginsWithAtRule name l.start rest ns) ∨
      startsRule l.token ∧ BeginsWithRule (.leaf l rest) ns := by
  by_cases hfirst : startsRule l.token
  · rw [parseNodes_of_startsRule hfirst] at h
    exact .inr (.inr ⟨hfirst, beginsWithRule h⟩)
  rw [parseNodes_leaf] at h
  cases hl : l.token
  case whitespace => exact .inl ⟨rfl, ns, by rwa [hl] at h, rfl⟩
  case cdo => exact .inl ⟨rfl, ns, by rwa [hl] at h, rfl⟩
  case cdc => exact .inl ⟨rfl, ns, by rwa [hl] at h, rfl⟩
  case comment content =>
    rw [hl] at h
    dsimp only at h
    split at h
    · obtain ⟨more, hmore, heq⟩ := bind_eq_ok.1 h
      cases heq
      exact .inl ⟨rfl, more, hmore, rfl⟩
    · cases h
  case atKeyword name =>
    rw [hl] at h
    exact .inr (.inl ⟨name, rfl, beginsWithAtRule h⟩)
  case closing c =>
    rw [hl] at h hfirst
    cases c with
    | curly => cases h
    | paren => exact absurd rfl hfirst
    | square => exact absurd rfl hfirst
  all_goals
    rw [hl] at hfirst
    exact absurd rfl hfirst

theorem start_eq_placeBehind (h : ArePlaced s cs.lexemes) (hne : cs.lexemes ≠ []) :
    cs.start = placeBehind s := by
  cases cs with
  | nil p => exact absurd rfl hne
  | leaf l rest => exact h.start
  | block opener inner closer rest => exact h.start

theorem startsRule_of_opens {t : Token} {c : Bracket} (h : t.opens? = some c) : startsRule t := by
  cases t <;> first | rfl | cases h

/-- Whatever nodes the components are read as, they are the text of these. -/
def IsLaid (cs : Components) : Prop :=
  ∀ {b : Option Bracket} {s : List Char} {ns : List Node}, parseNodes cs = .ok ns →
    cs.Formed b → ArePlaced s cs.lexemes → AreLaid s cs.lexemes (entriesOf ns)

theorem areLaid_rule {ns : List Node} (h : BeginsWithRule cs ns)
    (hfirst : ∀ l ∈ cs.lexemes.head?, startsRule l.token) (hcs : cs.Formed b)
    (hplaced : ArePlaced s cs.lexemes) (ih : ∀ ds : Components, ds.size < cs.size → IsLaid ds) :
    AreLaid s cs.lexemes (entriesOf ns) := by
  obtain ⟨r, next, more, hrule, hmore, rfl⟩ := h
  obtain ⟨raw, opener, inner, k, ds, hprelude, hds, rfl⟩ := parseRule_cases hrule
  obtain ⟨own, hlexemes, rfl, hlast, hbrace, hformed⟩ := lexemes_prelude hprelude nofun hcs
  obtain ⟨hk, -, hnext⟩ := formed_braces hformed hbrace
  have hspelled : TreeEntry.IsSpelled
      (.rule ⟨selectorText (own.flatMap Lexeme.text), ds, some cs.start⟩) own := by
    apply TreeEntry.IsSpelled.rule _ hlast hbrace rfl
    intro l hl
    apply hfirst
    rw [hlexemes]
    exact List.mem_head?_append_of_mem_head? hl
  have hsource : cs.start = placeBehind s := by
    apply start_eq_placeBehind hplaced
    rw [hlexemes]
    exact List.append_ne_nil_of_left_ne_nil hspelled.ne_nil _
  rw [hlexemes] at hplaced ⊢
  rw [entriesOf, Node.entries, List.cons_append]
  apply AreLaid.entry hspelled (congrArg some hsource)
  apply AreLaid.block hk
  · exact areLaid_declarations hds hplaced.right.left.left
  · exact ih next (parseRule_size hrule) hmore hnext hplaced.right.right

theorem areLaid_atRule {name : String} {l : Lexeme} {ns : List Node}
    (h : BeginsWithAtRule name l.start cs ns) (hl : l.token = .atKeyword name) (hcs : cs.Formed b)
    (hplaced : ArePlaced s (l :: cs.lexemes))
    (ih : ∀ ds : Components, ds.size < cs.size → IsLaid ds) :
    AreLaid s (l :: cs.lexemes) (entriesOf ns) := by
  obtain ⟨raw, e, hprelude, hends⟩ := h
  have he : e ≠ .brace := by
    rintro rfl
    exact hends
  obtain ⟨own, hlexemes, rfl, hfollows⟩ := lexemes_prelude hprelude he hcs
  have hwithin := prelude?_within hprelude
  have hspelled : TreeEntry.IsSpelled
      (.atRule ⟨name, paramsText (own.flatMap Lexeme.text), some l.start⟩) (l :: own) :=
    .atRule hl (hplaced.signs l (List.mem_cons_self ..) name hl) rfl
  have hsource : l.start = placeBehind s := hplaced.start
  rw [hlexemes, ← List.cons_append] at hplaced ⊢
  have hbehind := hplaced.right
  cases e with
  | finished =>
    obtain rfl := hends
    apply AreLaid.entry hspelled (congrArg some hsource)
    exact .nil _
  | semicolon next =>
    obtain ⟨more, hmore, rfl⟩ := hends
    apply AreLaid.entry hspelled (congrArg some hsource)
    exact ih next hwithin hmore hfollows hbehind
  | brace => exact absurd rfl he
  | block opener inner closer next =>
    obtain ⟨hcloser, more, hmore, hcontent⟩ := hends
    obtain ⟨k, rfl⟩ := Option.isSome_iff_exists.1 hcloser
    obtain ⟨-, hbrace, hformed⟩ := hfollows
    obtain ⟨hk, hinner, hnext⟩ := formed_braces hformed hbrace
    have hlaid := ih next hwithin.2 hmore hnext hbehind.right
    rcases hcontent with ⟨content, hcontent, rfl⟩ | ⟨ds, hds, rfl⟩
    · rw [entriesOf, Node.entries, List.cons_append]
      apply AreLaid.entry hspelled (congrArg some hsource)
      exact (ih inner hwithin.1 hcontent hinner hbehind.left.left).block hk hlaid
    · rw [entriesOf, Node.entries, List.cons_append]
      apply AreLaid.entry hspelled (congrArg some hsource)
      exact (areLaid_declarations hds hbehind.left.left).block hk hlaid

theorem areLaid_nodes (cs : Components) : IsLaid cs := by
  -- What a rule or an at-rule leaves over is smaller, but not a part of the constructor.
  induction hn : cs.size using Nat.strongRecOn generalizing cs with
  | ind n ih =>
    have hsmaller (ds : Components) (hsize : ds.size < cs.size) : IsLaid ds :=
      ih ds.size (hn ▸ hsize) ds rfl
    intro b s ns h hcs hplaced
    cases cs with
    | nil p =>
      rw [parseNodes_nil] at h
      cases h
      exact .nil s
    | block opener inner closer rest =>
      rw [parseNodes_block] at h
      apply areLaid_rule (beginsWithRule h) _ hcs hplaced hsmaller
      obtain ⟨c, ho, -⟩ := hcs
      intro l hl
      obtain rfl : opener = l := Option.some.inj hl
      exact startsRule_of_opens ho
    | leaf l rest =>
      rcases parseNodes_leaf_cases h with ⟨hl, more, hmore, heq⟩ | ⟨name, hl, hat⟩ | ⟨hl, hrule⟩
      · rw [heq]
        exact .between hl (hsmaller rest (Nat.lt_succ_self _) hmore hcs.2.2 hplaced.tail)
      · apply areLaid_atRule hat hl hcs.2.2 hplaced
        intro ds hsize
        exact hsmaller ds (Nat.lt_succ_of_lt hsize)
      · apply areLaid_rule hrule _ hcs hplaced hsmaller
        intro m hm
        obtain rfl : l = m := Option.some.inj hm
        exact hl

end Nodes

/-- A text that is parsed consists of the parts of the stylesheet, each of which has the place
of its first character, and these places grow in the order of the tree. -/
theorem parse_sources {css : String} {sheet : Stylesheet} (h : Stylesheet.parse css = .ok sheet) :
    AreLaid [] (lexemes .first css.toList) sheet.entries ∧
      sheet.entries.Pairwise TreeEntry.Precedes := by
  obtain ⟨ns, hns, heq⟩ := bind_eq_ok.1 h
  cases heq
  have hplaced := arePlaced_lexemes css.toList
  have hlaid : AreLaid [] (lexemes .first css.toList) (entriesOf ns) := by
    rw [← lexemes_ofText] at hplaced ⊢
    exact areLaid_nodes _ hns (formed_group ..) hplaced
  refine ⟨hlaid, ?_⟩
  have hstarts : ((lexemes .first css.toList).map fun l => some l.start).Pairwise
      fun x y => ∃ p q, x = some p ∧ y = some q ∧ p.Before q := by
    apply List.pairwise_map.2
    exact (pairwise_lexemes ..).imp fun hbefore => ⟨_, _, rfl, rfl, hbefore⟩
  have hsources : ((entriesOf ns).map TreeEntry.source).Pairwise
      fun x y => ∃ p q, x = some p ∧ y = some q ∧ p.Before q :=
    hstarts.sublist (hlaid.sublist_sources hplaced)
  rw [List.pairwise_map] at hsources
  exact hsources

def brokenLinesText : String :=
  "/* \x0d\n */\x0d@media print \x7b\x0c .x \x7b\n\tb: \x22😀\\\x0d\n\x22; 😀:1;c/**/ :2 \x7d\x7d"

/-- All line breaks count once, also within a comment and within a string, and a character beyond
the first plane takes two columns. -/
theorem parse_sources_broken_lines : ∃ sheet, Stylesheet.parse brokenLinesText = .ok sheet ∧
    sheet.entries.map TreeEntry.source =
      [some ⟨3, 1⟩, some ⟨4, 2⟩, some ⟨5, 2⟩, some ⟨6, 4⟩, some ⟨6, 9⟩] ∧
    AreLaid [] (lexemes .first brokenLinesText.toList) sheet.entries ∧
    sheet.entries.Pairwise TreeEntry.Precedes := by
  have hsources : (Stylesheet.parse brokenLinesText).toOption.map (·.entries.map TreeEntry.source) =
      some [some ⟨3, 1⟩, some ⟨4, 2⟩, some ⟨5, 2⟩, some ⟨6, 4⟩, some ⟨6, 9⟩] := by
    decide +kernel
  obtain ⟨sheet, hsheet, hplaces⟩ := Option.map_eq_some_iff.1 hsources
  have hparse := toOption_eq_some.1 hsheet
  exact ⟨sheet, hparse, hplaces, parse_sources hparse⟩

end RasterFallback
