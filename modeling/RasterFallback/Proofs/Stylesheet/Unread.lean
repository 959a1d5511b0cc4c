import RasterFallback.Proofs.Css.Ended
import RasterFallback.Proofs.Stylesheet.Spelling

/-!
What the parser takes without looking at it. It reads the tokens of nodes, preludes and
declarations one by one, but passes over what stands inside brackets there, and takes the end
of the text for the end of an at-rule without a block.
-/
namespace RasterFallback
open RasterFallback.Text RasterFallback.Css RasterFallback.Css.Components

/-- What components are read as. -/
inductive Reading where
  | nodes
  | selectors
  /-- The parameters of an at-rule, whose block holds nodes if it is a group. -/
  | parameters (isGroup : Bool)
  /-- The declarations of a block. -/
  | body
  deriving DecidableEq

namespace Reading

/-- What the components behind a token are read as. -/
def next : Reading → Token → Reading
  | nodes, .whitespace _ => nodes
  | nodes, .comment _ => nodes
  | nodes, .cdo => nodes
  | nodes, .cdc => nodes
  | nodes, .atKeyword name => parameters (isGrouping name)
  | nodes, _ => selectors
  | parameters _, .semicolon => nodes
  | r, _ => r

/-- What the inside of a bracket is read as, if it is read. -/
def enters? : Reading → Token → Option Reading
  | nodes, .opening .curly => some body
  | selectors, .opening .curly => some body
  | parameters isGroup, .opening .curly => some (if isGroup then nodes else body)
  | _, _ => none

/-- What the components behind a block are read as that is passed over. -/
def beside : Reading → Reading
  | nodes => selectors
  | r => r

section Steps

variable {r : Reading} {t : Token}

theorem next_body : body.next t = body := by
  cases t <;> rfl

theorem next_selectors : selectors.next t = selectors := by
  cases t <;> rfl

theorem next_of_ne (hr : r ≠ nodes) (ht : t ≠ .semicolon) : r.next t = r := by
  cases r with
  | nodes => exact absurd rfl hr
  | selectors => exact next_selectors
  | parameters isGroup => cases t <;> first | rfl | exact absurd rfl ht
  | body => exact next_body

theorem next_nodes (h : startsRule t) : nodes.next t = selectors := by
  cases t <;> first | rfl | cases h

theorem enters?_of_ne (ht : t ≠ .opening .curly) : r.enters? t = none := by
  cases t with
  | opening b => cases b <;> first | (cases r <;> rfl) | exact absurd rfl ht
  | _ => cases r <;> rfl

theorem enters?_body : body.enters? t = none := by
  cases t <;> rfl

theorem enters?_nodes : nodes.enters? t = selectors.enters? t := by
  cases t with
  | opening b => cases b <;> rfl
  | _ => rfl

theorem beside_of_ne (hr : r ≠ nodes) : r.beside = r := by
  cases r <;> first | rfl | exact absurd rfl hr

end Steps

/-- The components at which reading finds no fault: one constructor for each step over them. -/
inductive Accepts : Reading → Components → Prop where
  -- Selectors go on to a block, everything else may end with the text.
  | nil {r : Reading} (p : Position) (ends : r ≠ selectors) : Accepts r (.nil p)
  | leaf {r : Reading} {l : Lexeme} {rest : Components} (good : l.token.isBad = false)
      (whole : r = nodes → ∀ content, l.token = .comment content → isWholeComment l.text)
      (behind : Accepts (r.next l.token) rest) : Accepts r (.leaf l rest)
  | entered {r inside : Reading} {opener k : Lexeme} {inner rest : Components}
      (enters : r.enters? opener.token = some inside) (within : Accepts inside inner)
      (behind : Accepts nodes rest) : Accepts r (.block opener inner (some k) rest)
  | passed {r : Reading} {opener : Lexeme} {inner : Components} {closer : Option Lexeme}
      {rest : Components} (enters : r.enters? opener.token = none)
      (behind : Accepts r.beside rest) : Accepts r (.block opener inner closer rest)

end Reading

open Reading

/-- The insides of the brackets that are passed over. -/
def unread : Reading → Components → List Components
  | _, .nil _ => []
  | r, .leaf l rest => unread (r.next l.token) rest
  | r, .block opener inner _ rest =>
    match r.enters? opener.token with
    | some inside => unread inside inner ++ unread nodes rest
    | none => inner :: unread r.beside rest

/-- The components behind the last node that has an end of its own. `begun` starts where the
node does that is being read. -/
def unfinished : Reading → Components → Components → Components
  | _, begun, .nil _ => begun
  | r, begun, .leaf l rest =>
    unfinished (r.next l.token) (if r.next l.token = nodes then rest else begun) rest
  | r, begun, .block opener _ _ rest =>
    if (r.enters? opener.token).isSome then unfinished nodes rest rest
    else unfinished r.beside begun rest

section Accepted

variable {r : Reading} {cs behind rest : Components} {l : Lexeme}

theorem accepts_declaration (hl : l.token.isBad = false) (h : body.Accepts rest) :
    body.Accepts (.leaf l rest) :=
  .leaf hl nofun (by rwa [next_body])

theorem accepts_skipSpace (h : body.Accepts cs.skipSpace) : body.Accepts cs := by
  induction cs with
  | nil => exact h
  | leaf l rest ih =>
    rw [skipSpace] at h
    split at h
    · rename_i hl
      refine accepts_declaration ?_ (ih h)
      cases ht : l.token <;> simp_all [Token.isSpace, Token.isBad]
    · exact h
  | block => exact h

theorem accepts_colon (h : colon? cs = some behind) (hbehind : body.Accepts behind) :
    body.Accepts cs := by
  refine accepts_skipSpace ?_
  unfold colon? expectColon at h
  split at h
  · cases h
  · rename_i l rest hskip
    split at h
    · rename_i hcolon
      obtain rfl : rest = behind := Option.some.inj h
      rw [hskip]
      exact accepts_declaration (by rw [hcolon]; rfl) hbehind
    · split at h <;> cases h
  · cases h

theorem accepts_value {v : List Char × Components} (h : value? cs = some v)
    (hv : body.Accepts v.2) : body.Accepts cs := by
  induction cs generalizing v with
  | nil p => exact .nil p nofun
  | leaf l rest ih =>
    rw [value?_leaf] at h
    split at h
    · rename_i hl
      obtain rfl := Option.some.inj h
      exact accepts_declaration (by rw [hl]; rfl) hv
    · split at h
      · cases h
      · rename_i hbad
        obtain ⟨w, hw, rfl⟩ := Option.map_eq_some_iff.1 h
        exact accepts_declaration (Bool.eq_false_iff.2 hbad) (ih hw hv)
  | block opener inner closer rest _ ih =>
    rw [value?_block] at h
    obtain ⟨w, hw, rfl⟩ := Option.map_eq_some_iff.1 h
    exact .passed enters?_body (ih hw hv)

theorem accepts_declarations {ds : List Declaration} (h : declarations? cs = some ds) :
    body.Accepts cs := by
  induction hn : cs.size using Nat.strongRecOn generalizing cs ds with
  | ind n ih =>
    cases cs with
    | nil p => exact .nil p nofun
    | block opener inner closer rest =>
      rw [declarations?_block] at h
      cases h
    | leaf l rest =>
      rcases declarations?_leaf_cases h with
        ⟨hl, hrest⟩ | ⟨name, behind, v, more, hl, hcolon, hvalue, hmore, -⟩
      · refine accepts_declaration ?_ (ih rest.size (hn ▸ Nat.lt_succ_self _) hrest rfl)
        cases ht : l.token <;> simp_all [Token.isSpace, Token.isBad]
      · have hsize := Nat.le_trans (value?_size hvalue) (colon?_size hcolon)
        have hnext := ih v.2.size (hn ▸ Nat.lt_succ_of_le hsize) hmore rfl
        exact accepts_declaration (by rw [hl]; rfl)
          (accepts_colon hcolon (accepts_value hvalue hnext))

/-- Where a prelude is read as `r`, what its end leaves over is read without a fault. -/
def PreludeEnd.IsAccepted (r : Reading) : PreludeEnd → Prop
  | .block _ inner closer rest => closer.isSome ∧
    (∃ inside, r.enters? (.opening .curly) = some inside ∧ inside.Accepts inner) ∧
    nodes.Accepts rest
  | .semicolon rest => r.next .semicolon = nodes ∧ nodes.Accepts rest
  | .brace => False
  | .finished => r ≠ selectors

theorem accepts_prelude {p : List Char × PreludeEnd} (h : prelude? cs = some p) (hr : r ≠ nodes)
    (hp : p.2.IsAccepted r) : r.Accepts cs := by
  induction cs generalizing p with
  | nil q =>
    obtain rfl := Option.some.inj h
    exact .nil q hp
  | leaf l rest ih =>
    rw [prelude?_leaf] at h
    split at h
    · rename_i hl
      obtain rfl := Option.some.inj h
      exact .leaf (by rw [hl]; rfl) (absurd · hr) (by rw [hl, hp.1]; exact hp.2)
    · split at h
      · obtain rfl := Option.some.inj h
        exact hp.elim
      · split at h
        · cases h
        · rename_i hsemi _ hbad
          obtain ⟨q, hq, rfl⟩ := Option.map_eq_some_iff.1 h
          refine .leaf (Bool.eq_false_iff.2 hbad) (absurd · hr) ?_
          rw [next_of_ne hr hsemi]
          exact ih hq hp
  | block opener inner closer rest _ ih =>
    rw [prelude?_block] at h
    split at h
    · rename_i ho
      obtain rfl := Option.some.inj h
      obtain ⟨hcloser, ⟨inside, henters, hinner⟩, hrest⟩ := hp
      obtain ⟨k, rfl⟩ := Option.isSome_iff_exists.1 hcloser
      exact .entered (by rw [ho, henters]) hinner hrest
    · rename_i ho
      obtain ⟨q, hq, rfl⟩ := Option.map_eq_some_iff.1 h
      exact .passed (enters?_of_ne ho) (by rw [beside_of_ne hr]; exact ih hq hp)

theorem accepts_rule {ns : List Node} (h : rule? cs = some ns)
    (ih : ∀ (ds : Components) (ms : List Node), ds.size < cs.size → nodes? ds = some ms →
      nodes.Accepts ds) : selectors.Accepts cs := by
  obtain ⟨raw, opener, inner, k, next, ds, more, hprelude, hds, hmore, -⟩ := exists_of_rule? h
  have hnext := ih next more (prelude?_within hprelude).2 hmore
  exact accepts_prelude hprelude nofun ⟨rfl, ⟨body, rfl, accepts_declarations hds⟩, hnext⟩

theorem accepts_atRule {name : String} {ns : List Node} (h : atRule? name cs = some ns)
    (ih : ∀ (ds : Components) (ms : List Node), ds.size < cs.size → nodes? ds = some ms →
      nodes.Accepts ds) : (parameters (isGrouping name)).Accepts cs := by
  rcases atRule?_cases h with ⟨raw, hprelude, -⟩ | ⟨raw, next, more, hprelude, hmore, -⟩ |
    ⟨raw, opener, inner, k, next, more, hprelude, hmore, hblock⟩
  · exact accepts_prelude hprelude nofun nofun
  · exact accepts_prelude hprelude nofun ⟨rfl, ih next more (prelude?_within hprelude) hmore⟩
  · have hwithin := prelude?_within hprelude
    refine accepts_prelude hprelude nofun ⟨rfl, ?_, ih next more hwithin.2 hmore⟩
    rcases hblock with ⟨hgroup, content, hcontent, -⟩ | ⟨hgroup, ds, hds, -⟩
    · exact ⟨nodes, by rw [hgroup]; rfl, ih inner content hwithin.1 hcontent⟩
    · exact ⟨body, by rw [hgroup]; rfl, accepts_declarations hds⟩

/-- The front of a selector list is read alike where nodes are read. -/
theorem Reading.Accepts.of_rule (h : selectors.Accepts (.leaf l rest)) (hl : startsRule l.token) :
    nodes.Accepts (.leaf l rest) := by
  cases h with
  | leaf good whole behind =>
    refine .leaf good (fun _ content hcomment => ?_) ?_
    · rw [hcomment] at hl
      cases hl
    · rw [next_nodes hl]
      rwa [next_selectors] at behind

/-- Components that make nodes are accepted. -/
theorem accepts_nodes {ns : List Node} (h : nodes? cs = some ns) : nodes.Accepts cs := by
  induction hn : cs.size using Nat.strongRecOn generalizing cs ns with
  | ind n ih =>
    have hsmaller (ds : Components) (ms : List Node) (hsize : ds.size < cs.size)
        (hms : nodes? ds = some ms) : nodes.Accepts ds := ih ds.size (hn ▸ hsize) hms rfl
    cases cs with
    | nil p => exact .nil p nofun
    | block opener inner closer rest =>
      rw [nodes?_block] at h
      cases accepts_rule h hsmaller with
      | entered enters within behind => exact .entered (by rwa [enters?_nodes]) within behind
      | passed enters behind => exact .passed (by rwa [enters?_nodes]) behind
    | leaf l rest =>
      have hrest (ms : List Node) : nodes? rest = some ms → nodes.Accepts rest :=
        hsmaller rest ms (Nat.lt_succ_self _)
      rcases nodes?_leaf_cases h with ⟨hl, h⟩ | ⟨content, more, hl, hwhole, hmore, -⟩ |
        ⟨name, hl, h⟩ | ⟨hstart, h⟩
      · rcases hl with ⟨content, hl⟩ | hl | hl <;>
          exact .leaf (by rw [hl]; rfl) (by simp [hl]) (by rw [hl]; exact hrest ns h)
      · exact .leaf (by rw [hl]; rfl) (fun _ _ _ => hwhole) (by rw [hl]; exact hrest more hmore)
      · refine .leaf (by rw [hl]; rfl) (by simp [hl]) ?_
        rw [hl]
        exact accepts_atRule h fun ds ms hsize => hsmaller ds ms (Nat.lt_succ_of_lt hsize)
      · exact (accepts_rule h hsmaller).of_rule hstart

end Accepted

section Judged

variable {r : Reading} {b : Option Bracket} {cs begun whole : Components}

/-- Of what is accepted, bad tokens can stand only where it is not read. -/
theorem Reading.Accepts.isBad_iff (h : r.Accepts cs) (hformed : cs.Formed b) :
    (∀ l ∈ cs.lexemes, l.token.isBad = false) ↔
      ∀ u ∈ unread r cs, ∀ l ∈ u.lexemes, l.token.isBad = false := by
  induction h generalizing b with
  | nil p ends => simp [unread, Components.lexemes]
  | leaf good whole behind ih =>
    rw [unread, ← ih hformed.2.2, Components.lexemes, List.forall_mem_cons, and_iff_right good]
  | entered enters within behind ihi ihr =>
    obtain ⟨c, ho, hk, hinner, hrest⟩ := hformed
    simp [unread, enters, Components.lexemes, or_imp, forall_and, isBad_of_opens ho,
      isBad_of_closes hk, ← ihi hinner.formed, ← ihr hrest]
  | @passed r opener inner closer rest enters behind ih =>
    obtain ⟨c, ho, hcloser⟩ := hformed
    have hrest : rest.Formed b := by
      cases closer with
      | some k => exact hcloser.2.2
      | none =>
        obtain ⟨-, p, rfl⟩ := hcloser
        trivial
    have hclosing : ∀ k ∈ closer, k.token.isBad = false := by
      rintro k rfl
      exact isBad_of_closes hcloser.1
    simp only [unread, enters, Components.lexemes, List.forall_mem_cons, List.forall_mem_append,
      isBad_of_opens ho, ← ih hrest, true_and, Option.mem_toList]
    exact and_congr_left' (and_iff_left hclosing)

theorem endsIn_unfinished (hbegun : whole.EndsIn begun) (hcs : whole.EndsIn cs) :
    whole.EndsIn (unfinished r begun cs) := by
  induction cs generalizing r begun with
  | nil p => exact hbegun
  | leaf l rest ih =>
    refine ih ?_ hcs.leaf
    split
    · exact hcs.leaf
    · exact hbegun
  | block opener inner closer rest _ ih =>
    rw [unfinished]
    split
    · exact ih hcs.block hcs.block
    · exact ih hbegun hcs.block

/-- A comment with its end mark is ended. -/
theorem isEnded_of_isWholeComment {l : Lexeme} {z : List Char} {content : String}
    (h : ReadsOff l.unplaced z) (hl : l.token = .comment content) (hwhole : isWholeComment l.text) :
    l.IsEnded := by
  by_cases hz : z = []
  · obtain ⟨c, k, hlk, hread⟩ := h
    have htext : l.text = c :: k := congrArg Lexeme.text hlk
    rw [hz, List.append_nil, Lexeme.unplaced_token, hl] at hread
    have horigin := Token.read_origin c k
    rw [hread] at horigin
    obtain ⟨rfl, m, rfl⟩ := horigin
    rw [htext] at hwhole
    rw [List.singleton_append, Token.read_comment] at hread
    obtain ⟨hcontent, hrest⟩ := Prod.mk.inj hread
    -- The comment ends where its mark stands, whatever follows.
    rcases commentContent_stops_or m with hstops | ⟨hmarks, -⟩
    · have hblank := hstops [' '] (separates_cons rfl (by decide) [])
      refine fun _ => ⟨'/', '*' :: m, [' '], htext, by simp, ?_⟩
      rw [List.cons_append, Token.read_comment, hblank, hrest, hcontent, hl]
      rfl
    · exact absurd (suffix_of_isWholeComment hwhole).isInfix hmarks
  · exact Lexeme.isEnded_of_readsOff h hz

theorem isEnclosed_of_next {t : Token} (h : r.next t = nodes) :
    t.isEnclosed = false ∨ r = nodes ∧ ∃ content, t = .comment content := by
  cases r <;> cases t <;> simp_all [next, Token.isEnclosed]

/-- The node that is being read starts with `begun`, in front of the components `cs`. -/
def Begins (begun cs : Components) : Reading → Prop
  | nodes => begun = cs
  | selectors => begun.lexemes ≠ []
  | parameters _ => ∃ l rest name, begun = .leaf l rest ∧ l.token = .atKeyword name
  | body => False

theorem Begins.eq_nil (h : Begins begun cs r) (hnil : begun.lexemes = []) :
    r = nodes ∧ cs.lexemes = [] := by
  cases r with
  | nodes => exact ⟨rfl, h ▸ hnil⟩
  | selectors => exact absurd hnil h
  | parameters isGroup =>
    obtain ⟨l, rest, name, rfl, -⟩ := h
    cases hnil
  | body => exact h.elim

theorem Begins.leaf {l : Lexeme} {rest : Components} (h : Begins begun (.leaf l rest) r) :
    Begins (if r.next l.token = nodes then rest else begun) rest (r.next l.token) := by
  cases r with
  | nodes =>
    obtain rfl : begun = .leaf l rest := h
    cases hl : l.token
    case atKeyword name => exact ⟨l, rest, name, rfl, hl⟩
    all_goals first | rfl | exact List.cons_ne_nil _ _
  | selectors =>
    rw [next_selectors]
    exact h
  | parameters isGroup => cases l.token <;> first | rfl | exact h
  | body => exact h.elim

theorem Begins.passed {opener : Lexeme} {inner rest : Components} {closer : Option Lexeme}
    (h : Begins begun (.block opener inner closer rest) r) : Begins begun rest r.beside := by
  cases r with
  | nodes =>
    obtain rfl : begun = .block opener inner closer rest := h
    exact List.cons_ne_nil _ _
  | selectors => exact h
  | parameters isGroup => exact h
  | body => exact h

/-- Only at-rules are left unfinished. -/
theorem Reading.Accepts.head_unfinished (h : r.Accepts cs) (hbegun : Begins begun cs r) :
    ∀ l ∈ (unfinished r begun cs).lexemes.head?, ∃ name, l.token = .atKeyword name := by
  induction h generalizing begun with
  | @nil r p ends =>
    rw [unfinished]
    cases r with
    | nodes =>
      obtain rfl : begun = .nil p := hbegun
      nofun
    | selectors => exact absurd rfl ends
    | parameters isGroup =>
      obtain ⟨l, rest, name, rfl, hl⟩ := hbegun
      exact fun k hk => ⟨name, Option.some.inj hk ▸ hl⟩
    | body => exact hbegun.elim
  | leaf good whole behind ih => exact ih hbegun.leaf
  | entered enters within behind _ ih =>
    rw [unfinished, enters]
    exact ih rfl
  | passed enters behind ih =>
    rw [unfinished, enters]
    exact ih hbegun.passed

/-- What is accepted leaves nothing open, unless a node is unfinished. -/
theorem Reading.Accepts.isEnded (h : r.Accepts cs) (hformed : cs.Formed b)
    (hread : AreRead cs.lexemes) (hbegun : Begins begun cs r)
    (hnone : (unfinished r begun cs).lexemes = []) : cs.IsEnded := by
  induction h generalizing begun with
  | nil p ends => exact isEnded_nil p
  | @leaf r l rest good whole behind ih =>
    refine .leaf ?_ (ih hformed.2.2 hread.2 hbegun.leaf hnone)
    by_cases hrest : rest.lexemes = []
    · -- Nothing stands behind the lexeme, so a node ends with it.
      obtain ⟨p, rfl⟩ := exists_nil_of_lexemes hrest
      rcases isEnclosed_of_next (hbegun.leaf.eq_nil hnone).1 with hl | ⟨hr, content, hl⟩
      · exact Lexeme.isEnded_of_token hl
      · exact isEnded_of_isWholeComment hread.1 hl (whole hr content hl)
    · exact hread.isEnded hrest
  | @entered r inside opener k inner rest enters within behind _ ih =>
    obtain ⟨c, -, hk, hinner, hrest⟩ := hformed
    rw [unfinished, enters] at hnone
    exact .block hk hinner hread (ih hrest hread.2.append_right rfl hnone)
  | @passed r opener inner closer rest enters behind ih =>
    obtain ⟨c, -, hcloser⟩ := hformed
    rw [unfinished, enters] at hnone
    cases closer with
    | none =>
      -- The node goes on behind the block.
      obtain ⟨-, p, rfl⟩ := hcloser
      cases (hbegun.eq_nil hnone).2
    | some k =>
      obtain ⟨hk, hinner, hrest⟩ := hcloser
      exact .block hk hinner hread (ih hrest hread.2.append_right hbegun.passed hnone)

end Judged

/-- A stylesheet without a fault holds bad tokens only within the brackets that are passed over,
and leaves nothing open but what its last node does, if that is an at-rule which has neither a
semicolon nor a block. -/
theorem parse_complete_iff {css : String} {s : Stylesheet} (h : Stylesheet.parse css = .ok s) :
    ((∀ l ∈ lexemes .first css.toList, l.token.isBad = false) ↔
      ∀ u ∈ unread nodes (ofText css.toList), ∀ l ∈ u.lexemes, l.token.isBad = false) ∧
    ((ofText css.toList).IsEnded ↔
      (unfinished nodes (ofText css.toList) (ofText css.toList)).IsEnded) ∧
    ∀ l ∈ (unfinished nodes (ofText css.toList) (ofText css.toList)).lexemes.head?,
      ∃ name, l.token = .atKeyword name := by
  have hnodes : nodes? (ofText css.toList) = some (unplacedNodes s.nodes) := by
    rw [Stylesheet.parse] at h
    cases hparse : parseNodes (ofText css.toList) with
    | error e =>
      rw [hparse] at h
      cases h
    | ok ns =>
      rw [hparse] at h
      cases h
      rw [nodes?, hparse]
      rfl
  have haccepts := accepts_nodes hnodes
  have hformed : (ofText css.toList).Formed none := formed_group ..
  have hread := areRead_ofText css.toList
  refine ⟨?_, ?_, haccepts.head_unfinished rfl⟩
  · rw [← lexemes_ofText]
    exact haccepts.isBad_iff hformed
  · by_cases hnone : (unfinished nodes (ofText css.toList) (ofText css.toList)).lexemes = []
    · have hended := haccepts.isEnded hformed hread rfl hnone
      obtain ⟨p, hp⟩ := exists_nil_of_lexemes hnone
      rw [hp]
      exact iff_of_true hended (isEnded_nil p)
    · exact (endsIn_unfinished (.refl _) (.refl _)).isEnded_iff hformed hread hnone

def callText : String :=
  "@import \x22a\x22;@media print\x7b.b\x7bc:url( d )f(\x22e\x22[g])\x7d\x7d/* h */"

theorem parse_complete_iff_call : ∃ s, Stylesheet.parse callText = .ok s ∧
    (∀ l ∈ lexemes .first callText.toList, l.token.isBad = false) ∧
    (ofText callText.toList).IsEnded := by
  have hchecks : ((Stylesheet.parse callText).toOption.isSome &&
      (unread nodes (ofText callText.toList)).all (fun u => u.lexemes.all (!·.token.isBad)) &&
      (unfinished nodes (ofText callText.toList) (ofText callText.toList)).lexemes.isEmpty) =
        true := by
    decide +kernel
  simp only [Bool.and_eq_true, List.all_eq_true, Bool.not_eq_true', List.isEmpty_iff] at hchecks
  obtain ⟨⟨hparse, hunread⟩, hnone⟩ := hchecks
  obtain ⟨s, hs⟩ := Option.isSome_iff_exists.1 hparse
  obtain ⟨p, hp⟩ := exists_nil_of_lexemes hnone
  obtain ⟨hbad, hended, -⟩ := parse_complete_iff (toOption_eq_some.1 hs)
  exact ⟨s, toOption_eq_some.1 hs, hbad.2 hunread, hended.2 (hp ▸ isEnded_nil p)⟩

/-- A function in a value may hold a broken string, and the at-rule at the end one that is open. -/
theorem parse_incomplete :
    (∃ s, Stylesheet.parse ".a\x7bb:f(\x22\n)\x7d" = .ok s ∧
      ∃ l ∈ lexemes .first ".a\x7bb:f(\x22\n)\x7d".toList, l.token.isBad) ∧
    ∃ s, Stylesheet.parse "@import \x22x" = .ok s ∧
      ∃ l ∈ lexemes .first "@import \x22x".toList, ¬l.IsEnded := by
  constructor
  · have hchecks : ((Stylesheet.parse ".a\x7bb:f(\x22\n)\x7d").toOption.isSome &&
        (lexemes .first ".a\x7bb:f(\x22\n)\x7d".toList).any (·.token.isBad)) = true := by
      decide +kernel
    rw [Bool.and_eq_true, List.any_eq_true] at hchecks
    obtain ⟨s, hs⟩ := Option.isSome_iff_exists.1 hchecks.1
    exact ⟨s, toOption_eq_some.1 hs, hchecks.2⟩
  · have hchecks : ((Stylesheet.parse "@import \x22x").toOption.isSome &&
        (lexemes .first "@import \x22x".toList).contains
          ⟨.quotedString "x", ['\x22', 'x'], ⟨1, 9⟩⟩) = true := by
      decide +kernel
    rw [Bool.and_eq_true, List.contains_iff_mem] at hchecks
    obtain ⟨s, hs⟩ := Option.isSome_iff_exists.1 hchecks.1
    refine ⟨s, toOption_eq_some.1 hs, _, hchecks.2, fun hended => ?_⟩
    obtain ⟨c, k, z, htext, hz, hread⟩ := hended rfl
    obtain ⟨rfl, rfl⟩ := List.cons.inj htext
    have hquoted : Token.read '\x22' ('x' :: z) = quotedToken '\x22' ('x' :: z) := rfl
    have hcontent : quotedContent '\x22' ('x' :: z) =
        ('x' :: (quotedContent '\x22' z).1, (quotedContent '\x22' z).2) := by
      rw [quotedContent]
      rfl
    rw [List.singleton_append, hquoted, quotedToken, hcontent] at hread
    rcases hz' : quotedContent '\x22' z with ⟨content, isBad, rest⟩
    rw [hz'] at hread
    cases isBad with
    | true => cases hread
    | false =>
      obtain ⟨-, rfl⟩ := Prod.mk.inj hread
      rcases quotedContent_of_rest_eq (congrArg (·.2.2) hz') with hnil | hbad
      · exact hz hnil
      · rw [hz'] at hbad
        cases hbad

end RasterFallback
