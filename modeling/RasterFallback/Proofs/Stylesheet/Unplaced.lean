import RasterFallback.Proofs.Css.Grouping
import RasterFallback.Proofs.Stylesheet.Steps

/-!
Stylesheets without source positions. What a text is parsed as, positions and the
kind of a fault aside, depends on its components without their positions alone.
-/
namespace RasterFallback
open RasterFallback.Text RasterFallback.Css

def Declaration.unplaced (d : Declaration) : Declaration := { d with source := none }

def Rule.unplaced (r : Rule) : Rule :=
  ⟨r.selector, r.declarations.map Declaration.unplaced, none⟩

def AtHead.unplaced (h : AtHead) : AtHead := { h with source := none }

mutual

/-- A node without the positions in it. -/
def Node.unplaced : Node → Node
  | .rule r => .rule r.unplaced
  | .comment content => .comment content
  | .statement h => .statement h.unplaced
  | .descriptors h ds => .descriptors h.unplaced (ds.map Declaration.unplaced)
  | .group h nodes => .group h.unplaced (unplacedNodes nodes)

def unplacedNodes : List Node → List Node
  | [] => []
  | n :: ns => n.unplaced :: unplacedNodes ns

end

theorem unplaced_declarations (ds : List Declaration) :
    (ds.map Declaration.unplaced).map Declaration.unplaced = ds.map Declaration.unplaced := by
  rw [List.map_map]
  rfl

mutual

theorem Node.unplaced_unplaced : ∀ n : Node, n.unplaced.unplaced = n.unplaced
  | .rule r => by
    rw [Node.unplaced, Node.unplaced, Rule.unplaced, Rule.unplaced, unplaced_declarations]
  | .comment _ => rfl
  | .statement _ => rfl
  | .descriptors h ds => by
    rw [Node.unplaced, Node.unplaced, unplaced_declarations]
    rfl
  | .group h nodes => by
    rw [Node.unplaced, Node.unplaced, unplacedNodes_unplacedNodes nodes]
    rfl

theorem unplacedNodes_unplacedNodes : ∀ ns : List Node,
    unplacedNodes (unplacedNodes ns) = unplacedNodes ns
  | [] => rfl
  | n :: ns => by
    rw [unplacedNodes, unplacedNodes, Node.unplaced_unplaced n, unplacedNodes_unplacedNodes ns]

end

/-- The declarations of a block without their positions, if there is no fault. -/
def declarations? (cs : Components) : Option (List Declaration) :=
  (declarations cs).toOption.map (·.map Declaration.unplaced)

/-- The nodes that components spell without their positions, if there is no fault. -/
def nodes? (cs : Components) : Option (List Node) := (parseNodes cs).toOption.map unplacedNodes

def value? (cs : Components) : Option (List Char × Components) := (valueText .first cs).toOption

def colon? (cs : Components) : Option Components := (expectColon .first cs).toOption

def prelude? (cs : Components) : Option (List Char × PreludeEnd) :=
  (readPrelude .first cs).toOption.map fun p => (p.text, p.ending)

/-- The content of a block that must be closed. -/
def closed? {α : Type} (closer : Option Lexeme) (content : Option α) : Option α :=
  if closer.isSome then content else none

/-- What ends a prelude, without its positions. -/
def PreludeEnd.unplaced : PreludeEnd → PreludeEnd
  | .block opener inner closer rest =>
    .block opener.unplaced inner.unplaced (closer.map Lexeme.unplaced) rest.unplaced
  | .semicolon rest => .semicolon rest.unplaced
  | .brace => .brace
  | .finished => .finished

theorem toOption_closedBlock {α : Type} (p : Position) (closer : Option Lexeme)
    (content : Except ParseError α) :
    (closedBlock p closer content).toOption = closed? closer content.toOption := by
  cases content <;> cases closer <;> rfl

theorem toOption_valueText (p : Position) (cs : Components) :
    (valueText p cs).toOption = value? cs := by
  unfold value?
  cases cs with
  | nil => rfl
  | leaf l rest =>
    rw [valueText, valueText]
    split
    · rfl
    · split <;> rfl
  | block opener inner closer rest => rfl

theorem toOption_expectColon (p : Position) (cs : Components) :
    (expectColon p cs).toOption = colon? cs := by
  unfold colon? expectColon
  split
  · rfl
  · split
    · rfl
    · split <;> rfl
  · rfl

theorem colon?_colon (text : List Char) (p : Position) (next : Components) :
    colon? (.leaf ⟨.colon, text, p⟩ next) = some next := rfl

theorem value?_leaf (l : Lexeme) (rest : Components) : value? (.leaf l rest) =
    if l.token = .semicolon then some ([], rest)
    else if l.token.isBad then none
    else (value? rest).map fun v => (l.text ++ v.1, v.2) := by
  rw [value?, valueText]
  split
  · rfl
  · cases hl : l.token
    case badUrl => rfl
    case badString => rfl
    all_goals
      simp only [badTokenFault?, Token.isBad, toOption_bind, toOption_valueText]
      cases value? rest <;> rfl

theorem value?_block (opener : Lexeme) (inner : Components) (closer : Option Lexeme)
    (rest : Components) : value? (.block opener inner closer rest) =
      (value? rest).map fun v => (Components.blockText opener inner closer ++ v.1, v.2) := by
  rw [value?, valueText, toOption_bind, toOption_valueText]
  cases value? rest <;> rfl

theorem toOption_readPrelude (p : Position) (cs : Components) :
    ((readPrelude p cs).toOption.map fun q => (q.text, q.ending)) = prelude? cs := by
  unfold prelude?
  cases cs with
  | nil => rfl
  | leaf l rest =>
    rw [readPrelude, readPrelude]
    split
    · rfl
    · rfl
    · split <;> rfl
  | block opener inner closer rest =>
    rw [readPrelude, readPrelude]
    split <;> rfl

theorem prelude?_leaf (l : Lexeme) (rest : Components) : prelude? (.leaf l rest) =
    if l.token = .semicolon then some (l.text, .semicolon rest)
    else if l.token = .closing .curly then some (l.text, .brace)
    else if l.token.isBad then none
    else (prelude? rest).map fun p => (l.text ++ p.1, p.2) := by
  rw [prelude?, readPrelude]
  split
  · rename_i hl
    rw [if_pos hl]
    rfl
  · rename_i hl
    rw [if_neg (by simp [hl]), if_pos hl]
    rfl
  · rename_i hsemi hbrace
    rw [if_neg hsemi, if_neg hbrace, ← toOption_readPrelude l.stop rest]
    cases hl : l.token
    case badUrl => rfl
    case badString => rfl
    all_goals
      simp only [badTokenFault?, Token.isBad, toOption_bind]
      cases readPrelude l.stop rest <;> rfl

theorem prelude?_block (opener : Lexeme) (inner : Components) (closer : Option Lexeme)
    (rest : Components) : prelude? (.block opener inner closer rest) =
      if opener.token = .opening .curly then some (opener.text, .block opener inner closer rest)
      else (prelude? rest).map fun p => (Components.blockText opener inner closer ++ p.1, p.2) := by
  rw [prelude?, readPrelude]
  split
  · rename_i ho
    rw [if_pos ho]
    rfl
  · rename_i ho
    rw [if_neg ho, ← toOption_readPrelude opener.stop rest, toOption_bind]
    cases readPrelude opener.stop rest <;> rfl

theorem declarations?_nil (p : Position) : declarations? (.nil p) = some [] := by
  rw [declarations?, declarations]
  rfl

theorem declarations?_leaf (l : Lexeme) (rest : Components) : declarations? (.leaf l rest) =
    match l.token with
    | .whitespace _ => declarations? rest
    | .comment _ => declarations? rest
    | .semicolon => declarations? rest
    | .closing .curly => declarations? rest
    | .ident name =>
      (colon? rest).bind fun behind => (value? behind).bind fun v => (declarations? v.2).map
        (⟨name, String.ofList (splitImportant v.1).1, (splitImportant v.1).2, none⟩ :: ·)
    | _ => none := by
  rw [declarations?, declarations]
  cases hl : l.token
  case closing b => cases b <;> rfl
  case ident name =>
    simp only
    rw [← toOption_expectColon l.stop rest]
    split
    · rename_i e he
      rw [he]
      rfl
    · rename_i behind hb
      rw [hb]
      simp only [toOption_ok, Option.bind_some]
      rw [← toOption_valueText behind.start behind]
      split
      · rename_i e he
        rw [he]
        rfl
      · rename_i raw next hv
        rw [hv, toOption_bind]
        simp only [toOption_ok, Option.bind_some, declarations?]
        cases declarations next <;> rfl
  all_goals rfl

theorem declarations?_block (opener : Lexeme) (inner : Components) (closer : Option Lexeme)
    (rest : Components) : declarations? (.block opener inner closer rest) = none := by
  rw [declarations?, declarations]
  rfl

/-- A rule and what follows it, as `nodes?` reads them. -/
def rule? (cs : Components) : Option (List Node) :=
  (prelude? cs).bind fun p => match p.2 with
    | .block _ inner closer next => (closed? closer (declarations? inner)).bind fun ds =>
      (nodes? next).map (.rule ⟨selectorText p.1, ds, none⟩ :: ·)
    | _ => none

def atRule? (name : String) (cs : Components) : Option (List Node) :=
  (prelude? cs).bind fun p => match p.2 with
    | .finished => some [.statement ⟨name, paramsText p.1, none⟩]
    | .semicolon next => (nodes? next).map (.statement ⟨name, paramsText p.1, none⟩ :: ·)
    | .brace => none
    | .block _ inner closer next =>
      if isGrouping name then (closed? closer (nodes? inner)).bind fun nodes =>
        (nodes? next).map (.group ⟨name, paramsText p.1, none⟩ nodes :: ·)
      else (closed? closer (declarations? inner)).bind fun ds =>
        (nodes? next).map (.descriptors ⟨name, paramsText p.1, none⟩ ds :: ·)

theorem closed?_map {α β : Type} (closer : Option Lexeme) (content : Option α) (f : α → β) :
    (closed? closer content).map f = closed? closer (content.map f) := by
  unfold closed?
  split <;> rfl

theorem closed?_eq_some {α : Type} {closer : Option Lexeme} {content : Option α} {a : α} :
    closed? closer content = some a ↔ closer.isSome ∧ content = some a := by
  unfold closed?
  split <;> simp_all

theorem toOption_parseRule (cs : Components) :
    ((parseRule cs).toOption.bind fun r => (nodes? r.2).map (.rule r.1.unplaced :: ·)) =
      rule? cs := by
  rw [rule?, ← toOption_readPrelude cs.start, parseRule]
  split
  · rename_i e he
    rw [he]
    rfl
  · rename_i raw stop opener inner closer next hp
    rw [hp, toOption_bind, toOption_closedBlock]
    simp only [toOption_ok, Option.map_some, Option.bind_some, declarations?]
    rw [← closed?_map]
    cases closed? closer (declarations inner).toOption <;> rfl
  · rename_i raw stop ending hnot hp
    rw [hp]
    cases ending with
    | block opener inner closer rest => exact (hnot opener inner closer rest rfl).elim
    | semicolon rest => rfl
    | brace => rfl
    | finished => rfl

theorem toOption_ruleNodes (cs : Components) :
    (ruleNodes cs).toOption.map unplacedNodes = rule? cs := by
  rw [← toOption_parseRule, ruleNodes, toOption_bind]
  cases (parseRule cs).toOption with
  | none => rfl
  | some r =>
    simp only [Option.bind_some, toOption_bind, nodes?]
    cases (parseNodes r.2).toOption <;> rfl

theorem toOption_atRuleNodes (name : String) (l : Lexeme) (cs : Components) :
    (atRuleNodes name l cs).toOption.map unplacedNodes = atRule? name cs := by
  rw [atRule?, ← toOption_readPrelude l.stop, atRuleNodes, toOption_bind]
  cases readPrelude l.stop cs with
  | error e => rfl
  | ok p =>
    obtain ⟨raw, stop, ending⟩ := p
    cases ending with
    | finished => rfl
    | semicolon next =>
      simp only [toOption_ok, toOption_bind, Option.map_some, Option.bind_some, nodes?]
      cases (parseNodes next).toOption <;> rfl
    | brace => rfl
    | block opener inner closer next =>
      simp only [toOption_ok, Option.map_some, Option.bind_some]
      split
      · simp only [toOption_bind, toOption_closedBlock, nodes?]
        rw [← closed?_map]
        cases closed? closer (parseNodes inner).toOption with
        | none => rfl
        | some ns => cases (parseNodes next).toOption <;> rfl
      · simp only [toOption_bind, toOption_closedBlock, nodes?, declarations?]
        rw [← closed?_map]
        cases closed? closer (declarations inner).toOption with
        | none => rfl
        | some ds => cases (parseNodes next).toOption <;> rfl

theorem nodes?_nil (p : Position) : nodes? (.nil p) = some [] := by
  rw [nodes?, parseNodes_nil]
  rfl

theorem nodes?_block (opener : Lexeme) (inner : Components) (closer : Option Lexeme)
    (rest : Components) :
    nodes? (.block opener inner closer rest) = rule? (.block opener inner closer rest) := by
  rw [nodes?, parseNodes_block, toOption_ruleNodes]

theorem nodes?_leaf (l : Lexeme) (rest : Components) : nodes? (.leaf l rest) =
    match l.token with
    | .whitespace _ => nodes? rest
    | .cdo => nodes? rest
    | .cdc => nodes? rest
    | .comment content =>
      if isWholeComment l.text then (nodes? rest).map (.comment content :: ·) else none
    | .closing .curly => none
    | .atKeyword name => atRule? name rest
    | _ => rule? (.leaf l rest) := by
  rw [nodes?, parseNodes_leaf]
  cases hl : l.token
  case whitespace => rfl
  case cdo => rfl
  case cdc => rfl
  case comment content =>
    simp only
    split
    · rw [toOption_bind, nodes?]
      cases parseNodes rest <;> rfl
    · rfl
  case closing b =>
    cases b with
    | curly => rfl
    | paren => exact toOption_ruleNodes _
    | square => exact toOption_ruleNodes _
  case atKeyword name => exact toOption_atRuleNodes name l rest
  all_goals exact toOption_ruleNodes _

section Inversion

variable {l : Lexeme} {cs rest : Components} {name : String} {ns : List Node}
  {ds : List Declaration}

/-- What declarations are read from that begin with a lexeme. -/
theorem declarations?_leaf_cases (h : declarations? (.leaf l rest) = some ds) :
    ((l.token.isSpace ∨ l.token = .semicolon ∨ l.token = .closing .curly) ∧
        declarations? rest = some ds) ∨
      ∃ name behind v more, l.token = .ident name ∧ colon? rest = some behind ∧
        value? behind = some v ∧ declarations? v.2 = some more ∧
        ds = ⟨name, String.ofList (splitImportant v.1).1, (splitImportant v.1).2, none⟩ :: more := by
  rw [declarations?_leaf] at h
  cases hl : l.token
  case ident name =>
    rw [hl] at h
    obtain ⟨behind, hcolon, h⟩ := Option.bind_eq_some_iff.1 h
    obtain ⟨v, hvalue, h⟩ := Option.bind_eq_some_iff.1 h
    obtain ⟨more, hmore, rfl⟩ := Option.map_eq_some_iff.1 h
    exact .inr ⟨name, behind, v, more, rfl, hcolon, hvalue, hmore, rfl⟩
  case closing c =>
    rw [hl] at h
    cases c with
    | curly => exact .inl ⟨.inr (.inr rfl), h⟩
    | paren => cases h
    | square => cases h
  case whitespace => exact .inl ⟨.inl rfl, by rwa [hl] at h⟩
  case comment => exact .inl ⟨.inl rfl, by rwa [hl] at h⟩
  case semicolon => exact .inl ⟨.inr (.inl rfl), by rwa [hl] at h⟩
  all_goals
    rw [hl] at h
    cases h

/-- A rule has a block that is closed. -/
theorem exists_of_rule? (h : rule? cs = some ns) :
    ∃ raw opener inner k next ds more,
      prelude? cs = some (raw, .block opener inner (some k) next) ∧
        declarations? inner = some ds ∧ nodes? next = some more ∧
        ns = .rule ⟨selectorText raw, ds, none⟩ :: more := by
  obtain ⟨⟨raw, ending⟩, hprelude, h⟩ := Option.bind_eq_some_iff.1 h
  cases ending with
  | block opener inner closer next =>
    obtain ⟨ds, hds, h⟩ := Option.bind_eq_some_iff.1 h
    obtain ⟨more, hmore, rfl⟩ := Option.map_eq_some_iff.1 h
    obtain ⟨hcloser, hds⟩ := closed?_eq_some.1 hds
    obtain ⟨k, rfl⟩ := Option.isSome_iff_exists.1 hcloser
    exact ⟨raw, opener, inner, k, next, ds, more, hprelude, hds, hmore, rfl⟩
  | semicolon next => cases h
  | brace => cases h
  | finished => cases h

/-- An at-rule ends with the text, in a semicolon, or in a block that is closed. -/
theorem atRule?_cases (h : atRule? name cs = some ns) :
    (∃ raw, prelude? cs = some (raw, .finished) ∧
        ns = [.statement ⟨name, paramsText raw, none⟩]) ∨
      (∃ raw next more, prelude? cs = some (raw, .semicolon next) ∧ nodes? next = some more ∧
        ns = .statement ⟨name, paramsText raw, none⟩ :: more) ∨
      ∃ raw opener inner k next more,
        prelude? cs = some (raw, .block opener inner (some k) next) ∧ nodes? next = some more ∧
        ((isGrouping name = true ∧ ∃ content, nodes? inner = some content ∧
            ns = .group ⟨name, paramsText raw, none⟩ content :: more) ∨
          isGrouping name = false ∧ ∃ ds, declarations? inner = some ds ∧
            ns = .descriptors ⟨name, paramsText raw, none⟩ ds :: more) := by
  obtain ⟨⟨raw, ending⟩, hprelude, h⟩ := Option.bind_eq_some_iff.1 h
  cases ending with
  | finished => exact .inl ⟨raw, hprelude, (Option.some.inj h).symm⟩
  | brace => cases h
  | semicolon next =>
    obtain ⟨more, hmore, rfl⟩ := Option.map_eq_some_iff.1 h
    exact .inr (.inl ⟨raw, next, more, hprelude, hmore, rfl⟩)
  | block opener inner closer next =>
    dsimp only at h
    split at h
    · rename_i hgroup
      obtain ⟨content, hcontent, h⟩ := Option.bind_eq_some_iff.1 h
      obtain ⟨more, hmore, rfl⟩ := Option.map_eq_some_iff.1 h
      obtain ⟨hcloser, hcontent⟩ := closed?_eq_some.1 hcontent
      obtain ⟨k, rfl⟩ := Option.isSome_iff_exists.1 hcloser
      exact .inr (.inr ⟨raw, opener, inner, k, next, more, hprelude, hmore,
        .inl ⟨hgroup, content, hcontent, rfl⟩⟩)
    · rename_i hgroup
      obtain ⟨ds, hds, h⟩ := Option.bind_eq_some_iff.1 h
      obtain ⟨more, hmore, rfl⟩ := Option.map_eq_some_iff.1 h
      obtain ⟨hcloser, hds⟩ := closed?_eq_some.1 hds
      obtain ⟨k, rfl⟩ := Option.isSome_iff_exists.1 hcloser
      exact .inr (.inr ⟨raw, opener, inner, k, next, more, hprelude, hmore,
        .inr ⟨Bool.eq_false_iff.2 hgroup, ds, hds, rfl⟩⟩)

end Inversion

theorem blockText_unplaced (opener : Lexeme) (inner : Components) (closer : Option Lexeme) :
    Components.blockText opener.unplaced inner.unplaced (closer.map Lexeme.unplaced) =
      Components.blockText opener inner closer := by
  cases closer <;> simp [Components.blockText, Components.text_unplaced]

theorem value?_unplaced (cs : Components) :
    value? cs.unplaced = (value? cs).map fun v => (v.1, v.2.unplaced) := by
  induction cs with
  | nil => rfl
  | leaf l rest ih =>
    rw [Components.unplaced, value?_leaf, value?_leaf, Lexeme.unplaced_token, ih]
    split
    · rfl
    · split
      · rfl
      · cases value? rest <;> rfl
  | block opener inner closer rest _ ih =>
    rw [Components.unplaced, value?_block, value?_block, blockText_unplaced, ih]
    cases value? rest <;> rfl

theorem colon?_unplaced (cs : Components) :
    colon? cs.unplaced = (colon? cs).map Components.unplaced := by
  rw [colon?, colon?, expectColon, expectColon,
    Components.skipSpace_unplaced]
  cases cs.skipSpace with
  | nil => rfl
  | leaf l rest =>
    by_cases hc : l.token = .colon
    · simp [Components.unplaced, hc, toOption_ok]
    · by_cases hs : l.token = .semicolon <;>
        simp [Components.unplaced, hc, hs, toOption_error]
  | block opener inner closer rest => rfl

theorem prelude?_unplaced (cs : Components) :
    prelude? cs.unplaced = (prelude? cs).map fun p => (p.1, p.2.unplaced) := by
  induction cs with
  | nil => rfl
  | leaf l rest ih =>
    rw [Components.unplaced, prelude?_leaf, prelude?_leaf, Lexeme.unplaced_token, ih]
    split
    · rfl
    · split
      · rfl
      · split
        · rfl
        · cases prelude? rest <;> rfl
  | block opener inner closer rest _ ih =>
    rw [Components.unplaced, prelude?_block, prelude?_block, blockText_unplaced, ih,
      Lexeme.unplaced_token]
    split
    · rfl
    · cases prelude? rest <;> rfl

theorem value?_size {cs : Components} {v : List Char × Components} (h : value? cs = some v) :
    v.2.size ≤ cs.size :=
  valueText_size (toOption_eq_some.1 h)

theorem colon?_size {cs behind : Components} (h : colon? cs = some behind) :
    behind.size ≤ cs.size :=
  expectColon_size (toOption_eq_some.1 h)

theorem prelude?_within {cs : Components} {p : List Char × PreludeEnd} (h : prelude? cs = some p) :
    p.2.Within cs.size := by
  obtain ⟨q, hq, rfl⟩ := Option.map_eq_some_iff.1 h
  exact readPrelude_within (toOption_eq_some.1 hq)

theorem declarations?_unplaced (cs : Components) :
    declarations? cs.unplaced = declarations? cs := by
  induction hn : cs.size using Nat.strongRecOn generalizing cs with
  | ind n ih =>
    cases cs with
    | nil => rw [Components.unplaced, declarations?_nil, declarations?_nil]
    | block opener inner closer rest =>
      rw [Components.unplaced, declarations?_block, declarations?_block]
    | leaf l rest =>
      have hrest : rest.size < n := by
        rw [← hn]
        exact Nat.lt_succ_self _
      rw [Components.unplaced, declarations?_leaf, declarations?_leaf, Lexeme.unplaced_token]
      cases hl : l.token
      case whitespace => exact ih _ hrest rest rfl
      case comment => exact ih _ hrest rest rfl
      case semicolon => exact ih _ hrest rest rfl
      case closing b =>
        cases b with
        | curly => exact ih _ hrest rest rfl
        | paren => rfl
        | square => rfl
      case ident name =>
        simp only [colon?_unplaced]
        cases hc : colon? rest with
        | none => rfl
        | some behind =>
          simp only [Option.map_some, Option.bind_some, value?_unplaced]
          cases hv : value? behind with
          | none => rfl
          | some v =>
            have hsize := Nat.le_trans (value?_size hv) (colon?_size hc)
            simp only [Option.map_some, Option.bind_some]
            rw [ih v.2.size (by omega) v.2 rfl]
      all_goals rfl

theorem closed?_unplaced {α : Type} (closer : Option Lexeme) (content : Option α) :
    closed? (closer.map Lexeme.unplaced) content = closed? closer content := by
  cases closer <;> rfl

theorem rule?_unplaced {cs : Components}
    (ih : ∀ ds : Components, ds.size < cs.size → nodes? ds.unplaced = nodes? ds) :
    rule? cs.unplaced = rule? cs := by
  rw [rule?, rule?, prelude?_unplaced]
  cases hp : prelude? cs with
  | none => rfl
  | some p =>
    obtain ⟨raw, ending⟩ := p
    have hwithin := prelude?_within hp
    cases ending with
    | block opener inner closer next =>
      simp only [Option.map_some, Option.bind_some, PreludeEnd.unplaced, closed?_unplaced,
        declarations?_unplaced, ih next hwithin.2]
    | semicolon next => rfl
    | brace => rfl
    | finished => rfl

theorem atRule?_unplaced (name : String) {cs : Components}
    (ih : ∀ ds : Components, ds.size < cs.size → nodes? ds.unplaced = nodes? ds) :
    atRule? name cs.unplaced = atRule? name cs := by
  rw [atRule?, atRule?, prelude?_unplaced]
  cases hp : prelude? cs with
  | none => rfl
  | some p =>
    obtain ⟨raw, ending⟩ := p
    have hwithin := prelude?_within hp
    cases ending with
    | block opener inner closer next =>
      simp only [Option.map_some, Option.bind_some, PreludeEnd.unplaced, closed?_unplaced,
        declarations?_unplaced, ih next hwithin.2, ih inner hwithin.1]
    | semicolon next =>
      simp only [Option.map_some, Option.bind_some, PreludeEnd.unplaced, ih next hwithin]
    | brace => rfl
    | finished => rfl

/-- Nodes do not depend on positions. -/
theorem nodes?_unplaced (cs : Components) : nodes? cs.unplaced = nodes? cs := by
  induction hn : cs.size using Nat.strongRecOn generalizing cs with
  | ind n ih =>
    have hsmaller (ds : Components) (hds : ds.size < cs.size) : nodes? ds.unplaced = nodes? ds :=
      ih ds.size (hn ▸ hds) ds rfl
    cases cs with
    | nil => rw [Components.unplaced, nodes?_nil, nodes?_nil]
    | block opener inner closer rest =>
      rw [Components.unplaced, nodes?_block, nodes?_block]
      exact rule?_unplaced hsmaller
    | leaf l rest =>
      have hrest : nodes? rest.unplaced = nodes? rest := hsmaller rest (Nat.lt_succ_self _)
      have hrule : rule? (.leaf l.unplaced rest.unplaced) = rule? (.leaf l rest) :=
        rule?_unplaced hsmaller
      have hat (name : String) : atRule? name rest.unplaced = atRule? name rest :=
        atRule?_unplaced name fun ds hds => hsmaller ds (Nat.lt_succ_of_lt hds)
      rw [Components.unplaced, nodes?_leaf, nodes?_leaf]
      simp only [Lexeme.unplaced_token, Lexeme.unplaced_text, hrest, hrule, hat]

end RasterFallback
