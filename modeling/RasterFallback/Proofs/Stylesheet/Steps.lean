import RasterFallback.Proofs.Except
import RasterFallback.Stylesheet.Parser

/-!
The parser of nodes, cut where a rule or an at-rule begins. What is proved about its trees,
their places and its first fault takes these two steps apart, one by one, and not the parser.
-/
namespace RasterFallback
open RasterFallback.Css

/-- A rule and the nodes behind it. -/
def ruleNodes (cs : Components) : Except ParseError (List Node) := do
  let (r, next) ← parseRule cs
  .ok (.rule r :: (← parseNodes next))

/-- An at-rule whose keyword `l` stands before `cs`, and the nodes behind it. -/
def atRuleNodes (name : String) (l : Lexeme) (cs : Components) :
    Except ParseError (List Node) := do
  let p ← readPrelude l.stop cs
  match p.ending with
  | .finished => .ok [.statement ⟨name, paramsText p.text, some l.start⟩]
  | .semicolon next =>
    .ok (.statement ⟨name, paramsText p.text, some l.start⟩ :: (← parseNodes next))
  | .brace => .error ⟨p.stop, .strayBrace⟩
  | .block _ inner closer next =>
    if isGrouping name then
      let nodes ← closedBlock p.stop closer (parseNodes inner)
      .ok (.group ⟨name, paramsText p.text, some l.start⟩ nodes :: (← parseNodes next))
    else
      let ds ← closedBlock p.stop closer (declarations inner)
      .ok (.descriptors ⟨name, paramsText p.text, some l.start⟩ ds :: (← parseNodes next))

/-- A rule is a prelude that ends in a block, which is closed. -/
theorem parseRule_eq_ok {cs next : Components} {r : Rule} (h : parseRule cs = .ok (r, next)) :
    ∃ raw stop opener inner closer ds,
      readPrelude cs.start cs = .ok ⟨raw, stop, .block opener inner closer next⟩ ∧
        closedBlock stop closer (declarations inner) = .ok ds ∧
        r = ⟨selectorText raw, ds, some cs.start⟩ := by
  unfold parseRule at h
  split at h
  · cases h
  · rename_i raw stop opener inner closer rest hp
    obtain ⟨ds, hblock, h⟩ := bind_eq_ok.1 h
    cases h
    exact ⟨raw, stop, opener, inner, closer, ds, hp, hblock, rfl⟩
  · cases h

theorem parseNodes_nil (p : Text.Position) : parseNodes (.nil p) = .ok [] := by
  rw [parseNodes]

/-- The branch of the parser that reads a rule. -/
theorem parseRule_ruleNodes (cs : Components) :
    (match _hr : parseRule cs with
      | .error e => .error e
      | .ok (r, next) => do .ok (.rule r :: (← parseNodes next))) = ruleNodes cs := by
  rw [ruleNodes]
  split
  · rename_i e hr
    rw [hr]
    rfl
  · rename_i r next hr
    rw [hr]
    rfl

theorem parseNodes_block (opener : Lexeme) (inner : Components) (closer : Option Lexeme)
    (rest : Components) :
    parseNodes (.block opener inner closer rest) = ruleNodes (.block opener inner closer rest) := by
  rw [parseNodes]
  exact parseRule_ruleNodes _

theorem parseNodes_leaf (l : Lexeme) (rest : Components) : parseNodes (.leaf l rest) =
    match l.token with
    | .whitespace _ => parseNodes rest
    | .cdo => parseNodes rest
    | .cdc => parseNodes rest
    | .comment content =>
      if isWholeComment l.text then do .ok (.comment content :: (← parseNodes rest))
      else .error ⟨l.start, .unterminatedComment⟩
    | .closing .curly => .error ⟨l.start, .strayBrace⟩
    | .atKeyword name => atRuleNodes name l rest
    | _ => ruleNodes (.leaf l rest) := by
  rw [parseNodes]
  cases hl : l.token
  case whitespace => rfl
  case cdo => rfl
  case cdc => rfl
  case comment => rfl
  case closing b =>
    cases b with
    | curly => rfl
    | paren => exact parseRule_ruleNodes _
    | square => exact parseRule_ruleNodes _
  case atKeyword name =>
    simp only [atRuleNodes]
    split <;>
    · rename_i hp
      rw [hp]
      rfl
  all_goals exact parseRule_ruleNodes _

end RasterFallback
