import RasterFallback.Proofs.Css.Places
import RasterFallback.Proofs.Stylesheet.Unread

/-!
Where open blocks and bad tokens are reported. The place of a component is taken before it
is read, which is where it starts, unless brackets that are passed over stand right in front
of it: these are still unread then, and the place is right inside their opening bracket.
-/
namespace RasterFallback
open RasterFallback.Text RasterFallback.Css RasterFallback.Css.Components RasterFallback.Reading

/-- Whether a single lexeme is at fault: a bad token, or a bracket that nothing closes. -/
def ParseFault.hasCulprit : ParseFault → Bool
  | unclosedBlock => true
  | unterminatedString => true
  | malformedUrl => true
  | _ => false

/-- Where a lexeme is reported. `passed` opens the brackets right in front of it, if there are
any that are passed over. -/
def reportedAt (passed : Option Lexeme) (l : Lexeme) : Position :=
  match passed with
  | some opener => opener.stop
  | none => l.start

/-- A lexeme at fault, and what is passed over in front of it. -/
structure Culprit where
  fault : ParseFault
  lexeme : Lexeme
  passed : Option Lexeme

def Culprit.error (c : Culprit) : ParseError := ⟨reportedAt c.passed c.lexeme, c.fault⟩

theorem Culprit.position_of_none {c : Culprit} (h : c.passed = none) :
    c.error.position = c.lexeme.start := by
  simp only [error, reportedAt, h]

theorem Culprit.position_of_some {c : Culprit} {opener : Lexeme} (h : c.passed = some opener) :
    c.error.position = opener.stop := by
  simp only [error, reportedAt, h]

/-- The first lexeme at fault in components that are read as `r`, where `passed` opens the
brackets right in front of them, if these are passed over. -/
def culprit? (r : Reading) (passed : Option Lexeme) : Components → Option Culprit
  | .nil _ => none
  | .leaf l rest =>
    match badTokenFault? l.token with
    | some fault => some ⟨fault, l, passed⟩
    | none => culprit? (r.next l.token) none rest
  | .block opener inner closer rest =>
    match r.enters? opener.token with
    | some inside =>
      -- That a block is open shows only at its end.
      (culprit? inside none inner).or <|
        if closer.isNone then some ⟨.unclosedBlock, opener, passed⟩ else culprit? nodes none rest
    | none => culprit? r.beside (some opener) rest

section Steps

variable {r inside : Reading} {passed : Option Lexeme} {l opener k : Lexeme}
  {cs inner rest : Components} {closer : Option Lexeme} {fault : ParseFault}

theorem badTokenFault?_eq_none {t : Token} (h : t.isBad = false) : badTokenFault? t = none := by
  cases t <;> first | rfl | cases h

theorem culprit?_bad (h : badTokenFault? l.token = some fault) :
    culprit? r passed (.leaf l rest) = some ⟨fault, l, passed⟩ := by
  rw [culprit?, h]

theorem culprit?_leaf (h : badTokenFault? l.token = none) :
    culprit? r passed (.leaf l rest) = culprit? (r.next l.token) none rest := by
  rw [culprit?, h]

theorem culprit?_passed (h : r.enters? opener.token = none) :
    culprit? r passed (.block opener inner closer rest) =
      culprit? r.beside (some opener) rest := by
  rw [culprit?, h]

theorem culprit?_entered (h : r.enters? opener.token = some inside) :
    culprit? r passed (.block opener inner closer rest) =
      (culprit? inside none inner).or
        (if closer.isNone then some ⟨.unclosedBlock, opener, passed⟩
        else culprit? nodes none rest) := by
  rw [culprit?, h]

/-- What is accepted has no lexeme at fault, but where it is not read. -/
theorem Reading.Accepts.culprit?_eq_none (h : r.Accepts cs) (passed : Option Lexeme) :
    culprit? r passed cs = none := by
  induction h generalizing passed with
  | nil => rfl
  | leaf good _ _ ih => rw [culprit?_leaf (badTokenFault?_eq_none good), ih]
  | entered enters _ _ ihi ihr =>
    rw [culprit?_entered enters, ihi]
    exact ihr none
  | passed enters _ ih => rw [culprit?_passed enters, ih]

/-- Selectors are read alike where nodes are read. -/
theorem culprit?_nodes_leaf (h : startsRule l.token) :
    culprit? nodes passed (.leaf l rest) = culprit? selectors passed (.leaf l rest) := by
  rw [culprit?, culprit?, next_nodes h, next_selectors]

theorem culprit?_nodes_block : culprit? nodes passed (.block opener inner closer rest) =
    culprit? selectors passed (.block opener inner closer rest) := by
  rw [culprit?, culprit?, enters?_nodes]
  rfl

end Steps

/-- Whether `p` is where the first lexeme of components is reported, if they have one. -/
def IsPlace (p : Position) (passed : Option Lexeme) (cs : Components) : Prop :=
  ∀ l ∈ cs.lexemes.head?, p = reportedAt passed l

theorem isPlace_start (cs : Components) : IsPlace cs.start none cs := by
  cases cs with
  | nil => nofun
  | leaf l rest => exact fun m hm => congrArg Lexeme.start (Option.some.inj hm)
  | block opener inner closer rest => exact fun m hm => congrArg Lexeme.start (Option.some.inj hm)

theorem isPlace_stop {l : Lexeme} {rest : Components}
    (h : AreAdjoined (Components.leaf l rest).lexemes) : IsPlace l.stop none rest :=
  fun m hm => (h.1 m hm).symm

theorem isPlace_passed (opener : Lexeme) (rest : Components) :
    IsPlace opener.stop (some opener) rest :=
  fun _ _ => rfl

section Readers

variable {p : Position} {passed : Option Lexeme} {cs : Components} {e : ParseError}

theorem valueText_error (h : valueText p cs = .error e) (hcs : AreAdjoined cs.lexemes)
    (hp : IsPlace p passed cs) : (culprit? body passed cs).map Culprit.error = some e := by
  induction cs generalizing p passed with
  | nil => cases h
  | leaf l rest ih =>
    rw [valueText] at h
    split at h
    · cases h
    · split at h
      · rename_i fault hbad
        cases h
        rw [culprit?_bad hbad, hp l rfl]
        rfl
      · rename_i hgood
        rw [culprit?_leaf hgood, next_body]
        rcases bind_eq_error.1 h with hv | ⟨v, -, hv⟩
        · exact ih hv hcs.2 (isPlace_stop hcs)
        · cases hv
  | block opener inner closer rest _ ih =>
    rw [valueText] at h
    rw [culprit?_passed enters?_body]
    rcases bind_eq_error.1 h with hv | ⟨v, -, hv⟩
    · exact ih hv hcs.2.append_right (isPlace_passed opener rest)
    · cases hv

theorem valueText_ok {v : List Char × Components} (h : valueText p cs = .ok v)
    (hcs : AreAdjoined cs.lexemes) : AreAdjoined v.2.lexemes ∧
      ∀ passed, culprit? body passed cs = culprit? body none v.2 := by
  induction cs generalizing p v with
  | nil =>
    cases h
    exact ⟨trivial, fun _ => rfl⟩
  | leaf l rest ih =>
    rw [valueText] at h
    split at h
    · rename_i hl
      cases h
      exact ⟨hcs.2, fun passed => by rw [culprit?_leaf (by rw [hl]; rfl), next_body]⟩
    · split at h
      · cases h
      · rename_i hgood
        cases hv : valueText l.stop rest with
        | error e' =>
          rw [hv] at h
          cases h
        | ok w =>
          rw [hv] at h
          cases h
          obtain ⟨hnext, hrest⟩ := ih hv hcs.2
          exact ⟨hnext, fun passed => by rw [culprit?_leaf hgood, next_body, hrest]⟩
  | block opener inner closer rest _ ih =>
    rw [valueText] at h
    cases hv : valueText opener.stop rest with
    | error e' =>
      rw [hv] at h
      cases h
    | ok w =>
      rw [hv] at h
      cases h
      obtain ⟨hnext, hrest⟩ := ih hv hcs.2.append_right
      exact ⟨hnext, fun passed => by rw [culprit?_passed enters?_body]; exact hrest _⟩

theorem culprit?_skipSpace (hcs : AreAdjoined cs.lexemes) : AreAdjoined cs.skipSpace.lexemes ∧
    culprit? body none cs = culprit? body none cs.skipSpace := by
  induction cs with
  | nil => exact ⟨hcs, rfl⟩
  | leaf l rest ih =>
    rw [skipSpace]
    split
    · rename_i hl
      obtain ⟨hnext, hrest⟩ := ih hcs.2
      have hgood : badTokenFault? l.token = none := by
        cases ht : l.token <;> simp_all [Token.isSpace, badTokenFault?]
      exact ⟨hnext, by rw [culprit?_leaf hgood, next_body, hrest]⟩
    · exact ⟨hcs, rfl⟩
  | block => exact ⟨hcs, rfl⟩

theorem expectColon_ok {behind : Components} (h : expectColon p cs = .ok behind)
    (hcs : AreAdjoined cs.lexemes) : AreAdjoined behind.lexemes ∧
      culprit? body none cs = culprit? body none behind := by
  obtain ⟨hskip, hculprit⟩ := culprit?_skipSpace hcs
  rw [hculprit]
  unfold expectColon at h
  split at h
  · cases h
  · rename_i l rest heq
    rw [heq] at hskip ⊢
    split at h
    · rename_i hl
      cases h
      exact ⟨hskip.2, by rw [culprit?_leaf (by rw [hl]; rfl), next_body]⟩
    · split at h <;> cases h
  · cases h

theorem expectColon_error (h : expectColon p cs = .error e) : e.fault.hasCulprit = false := by
  unfold expectColon at h
  split at h
  · cases h
    rfl
  · split at h
    · cases h
    · split at h <;> (cases h; rfl)
  · cases h
    rfl

theorem declarations_error (h : declarations cs = .error e) (he : e.fault.hasCulprit)
    (hcs : AreAdjoined cs.lexemes) : (culprit? body none cs).map Culprit.error = some e := by
  induction hn : cs.size using Nat.strongRecOn generalizing cs with
  | ind n ih =>
    cases cs with
    | nil p =>
      rw [declarations] at h
      cases h
    | block opener inner closer rest =>
      rw [declarations] at h
      cases h
      cases he
    | leaf l rest =>
      have hrest (h : declarations rest = .error e) (hgood : badTokenFault? l.token = none) :
          (culprit? body none (.leaf l rest)).map Culprit.error = some e := by
        rw [culprit?_leaf hgood, next_body]
        exact ih rest.size (hn ▸ Nat.lt_succ_self _) h hcs.2 rfl
      rw [declarations] at h
      cases hl : l.token
      case whitespace => exact hrest (by rwa [hl] at h) (by rw [hl]; rfl)
      case comment => exact hrest (by rwa [hl] at h) (by rw [hl]; rfl)
      case semicolon => exact hrest (by rwa [hl] at h) (by rw [hl]; rfl)
      case closing b =>
        rw [hl] at h
        cases b with
        | curly => exact hrest h (by rw [hl]; rfl)
        | paren =>
          cases h
          cases he
        | square =>
          cases h
          cases he
      case ident name =>
        rw [hl] at h
        simp only at h
        rw [culprit?_leaf (by rw [hl]; rfl), next_body]
        split at h
        · rename_i e' hcolon
          cases h
          rw [expectColon_error hcolon] at he
          cases he
        · rename_i behind hcolon
          obtain ⟨hbehind, hculprit⟩ := expectColon_ok hcolon hcs.2
          rw [hculprit]
          split at h
          · rename_i e' hvalue
            cases h
            exact valueText_error hvalue hbehind (isPlace_start behind)
          · rename_i raw next hvalue
            obtain ⟨hnext, hculprit'⟩ := valueText_ok hvalue hbehind
            rw [hculprit']
            have hsize := Nat.le_trans (valueText_size hvalue) (expectColon_size hcolon)
            rcases bind_eq_error.1 h with hmore | ⟨more, -, hmore⟩
            · exact ih next.size (hn ▸ Nat.lt_succ_of_le hsize) hmore hnext rfl
            · cases hmore
      all_goals
        rw [hl] at h
        cases h
        cases he

theorem culprit?_declarations {ds : List Declaration} (h : declarations cs = .ok ds) :
    culprit? body none cs = none :=
  (accepts_declarations (by rw [declarations?, h]; rfl)).culprit?_eq_none none

theorem culprit?_parseNodes {ns : List Node} (h : parseNodes cs = .ok ns) :
    culprit? nodes none cs = none :=
  (accepts_nodes (by rw [nodes?, h]; rfl)).culprit?_eq_none none

/-- What the end of a prelude that is read as `r` leaves over, where `total` is the first lexeme
at fault in the prelude and all behind it. -/
def PreludeEnd.Leaves (r : Reading) (stop : Position) (total : Option Culprit) :
    PreludeEnd → Prop
  | .block opener inner closer rest => opener.token = .opening .curly ∧
    AreAdjoined inner.lexemes ∧ AreAdjoined rest.lexemes ∧
    ∃ passed, stop = reportedAt passed opener ∧
      total = culprit? r passed (.block opener inner closer rest)
  | .semicolon rest => AreAdjoined rest.lexemes ∧ total = culprit? (r.next .semicolon) none rest
  | .brace => True
  | .finished => True

theorem readPrelude_error {r : Reading} (h : readPrelude p cs = .error e) (hr : r ≠ nodes)
    (hcs : AreAdjoined cs.lexemes) (hp : IsPlace p passed cs) :
    (culprit? r passed cs).map Culprit.error = some e := by
  induction cs generalizing p passed with
  | nil => cases h
  | leaf l rest ih =>
    rw [readPrelude] at h
    split at h
    · cases h
    · cases h
    · split at h
      · rename_i fault hbad
        cases h
        rw [culprit?_bad hbad, hp l rfl]
        rfl
      · rename_i hsemi _ _ hgood
        rw [culprit?_leaf hgood, next_of_ne hr hsemi]
        rcases bind_eq_error.1 h with hq | ⟨q, -, hq⟩
        · exact ih hq hcs.2 (isPlace_stop hcs)
        · cases hq
  | block opener inner closer rest _ ih =>
    rw [readPrelude] at h
    split at h
    · cases h
    · rename_i ho
      rw [culprit?_passed (enters?_of_ne ho), beside_of_ne hr]
      rcases bind_eq_error.1 h with hq | ⟨q, -, hq⟩
      · exact ih hq hcs.2.append_right (isPlace_passed opener rest)
      · cases hq

theorem readPrelude_ok {r : Reading} {q : Prelude} (h : readPrelude p cs = .ok q) (hr : r ≠ nodes)
    (hcs : AreAdjoined cs.lexemes) (hp : IsPlace p passed cs) :
    q.ending.Leaves r q.stop (culprit? r passed cs) := by
  induction cs generalizing p passed q with
  | nil =>
    cases h
    trivial
  | leaf l rest ih =>
    rw [readPrelude] at h
    split at h
    · rename_i hl
      cases h
      exact ⟨hcs.2, by rw [culprit?_leaf (by rw [hl]; rfl), hl]⟩
    · cases h
      trivial
    · split at h
      · cases h
      · rename_i hsemi _ _ hgood
        rw [culprit?_leaf hgood, next_of_ne hr hsemi]
        cases hq : readPrelude l.stop rest with
        | error e' =>
          rw [hq] at h
          cases h
        | ok q' =>
          rw [hq] at h
          cases h
          exact (ih hq hcs.2 (isPlace_stop hcs) :)
  | block opener inner closer rest _ ih =>
    rw [readPrelude] at h
    split at h
    · rename_i ho
      cases h
      exact ⟨ho, hcs.2.append_left.append_left, hcs.2.append_right, passed, hp opener rfl, rfl⟩
    · rename_i ho
      rw [culprit?_passed (enters?_of_ne ho), beside_of_ne hr]
      cases hq : readPrelude opener.stop rest with
      | error e' =>
        rw [hq] at h
        cases h
      | ok q' =>
        rw [hq] at h
        cases h
        exact (ih hq hcs.2.append_right (isPlace_passed opener rest) :)

end Readers

section Blocks

variable {α : Type} {content : Except ParseError α} {r inside : Reading} {opener : Lexeme}
  {inner rest : Components} {closer passed : Option Lexeme} {e : ParseError}

/-- A block is at fault where its content is, and else where it opens. -/
theorem closedBlock_error (h : closedBlock (reportedAt passed opener) closer content = .error e)
    (henters : r.enters? opener.token = some inside)
    (herror : content = .error e → (culprit? inside none inner).map Culprit.error = some e)
    (hok : ∀ a, content = .ok a → culprit? inside none inner = none) :
    (culprit? r passed (.block opener inner closer rest)).map Culprit.error = some e := by
  rw [culprit?_entered henters]
  rcases bind_eq_error.1 h with hcontent | ⟨a, hcontent, hclosed⟩
  · obtain ⟨c, hc, rfl⟩ := Option.map_eq_some_iff.1 (herror hcontent)
    rw [hc]
    rfl
  · rw [hok a hcontent]
    split at hclosed
    · rename_i hnone
      cases hclosed
      rw [if_pos hnone]
      rfl
    · cases hclosed

theorem closedBlock_ok {p : Position} {a : α} (h : closedBlock p closer content = .ok a)
    (henters : r.enters? opener.token = some inside)
    (hok : ∀ a, content = .ok a → culprit? inside none inner = none) :
    culprit? r passed (.block opener inner closer rest) = culprit? nodes none rest := by
  rw [culprit?_entered henters]
  cases content with
  | error e => cases h
  | ok a' =>
    rw [hok a' rfl]
    simp only [closedBlock] at h
    cases closer with
    | none => cases h
    | some k => rfl

end Blocks

section Parser

variable {cs : Components} {e : ParseError}

theorem parseRule_error (h : parseRule cs = .error e) (he : e.fault.hasCulprit)
    (hcs : AreAdjoined cs.lexemes) : (culprit? selectors none cs).map Culprit.error = some e := by
  unfold parseRule at h
  split at h
  · rename_i e' hprelude
    cases h
    exact readPrelude_error hprelude nofun hcs (isPlace_start cs)
  · rename_i raw stop opener inner closer next hprelude
    obtain ⟨ho, hinner, -, passed, hstop, htotal⟩ :=
      readPrelude_ok (r := selectors) hprelude nofun hcs (isPlace_start cs)
    rw [htotal]
    rcases bind_eq_error.1 h with hblock | ⟨ds, -, hds⟩
    · obtain rfl : stop = reportedAt passed opener := hstop
      exact closedBlock_error hblock (by rw [ho]; rfl)
        (fun hds => declarations_error hds he hinner) fun _ => culprit?_declarations
    · cases hds
  · cases h
    cases he

theorem parseRule_ok {r : Rule} {next : Components} (h : parseRule cs = .ok (r, next))
    (hcs : AreAdjoined cs.lexemes) :
    AreAdjoined next.lexemes ∧ culprit? selectors none cs = culprit? nodes none next := by
  obtain ⟨raw, stop, opener, inner, closer, ds, hprelude, hblock, -⟩ := parseRule_eq_ok h
  obtain ⟨ho, -, hnext, passed, -, htotal⟩ :=
    readPrelude_ok (r := selectors) hprelude nofun hcs (isPlace_start cs)
  rw [htotal]
  exact ⟨hnext, closedBlock_ok hblock (by rw [ho]; rfl) fun _ => culprit?_declarations⟩

theorem ruleNodes_error (h : ruleNodes cs = .error e) (he : e.fault.hasCulprit)
    (hcs : AreAdjoined cs.lexemes)
    (ih : ∀ ds : Components, ds.size < cs.size → parseNodes ds = .error e →
      AreAdjoined ds.lexemes → (culprit? nodes none ds).map Culprit.error = some e) :
    (culprit? selectors none cs).map Culprit.error = some e := by
  rcases bind_eq_error.1 h with hrule | ⟨⟨r, next⟩, hrule, h⟩
  · exact parseRule_error hrule he hcs
  · obtain ⟨hnext, hculprit⟩ := parseRule_ok hrule hcs
    rw [hculprit]
    rcases bind_eq_error.1 h with hmore | ⟨ns, -, hns⟩
    · exact ih next (parseRule_size hrule) hmore hnext
    · cases hns

/-- The block of an at-rule, and the nodes behind it. -/
theorem atBlock_error {α : Type} {content : Except ParseError α} {node : α → Node}
    {r inside : Reading} {opener : Lexeme} {inner next : Components}
    {closer passed : Option Lexeme}
    (h : ((do
      let a ← closedBlock (reportedAt passed opener) closer content
      .ok (node a :: (← parseNodes next))) : Except ParseError (List Node)) = .error e)
    (henters : r.enters? opener.token = some inside)
    (herror : content = .error e → (culprit? inside none inner).map Culprit.error = some e)
    (hok : ∀ a, content = .ok a → culprit? inside none inner = none)
    (hnext : parseNodes next = .error e → (culprit? nodes none next).map Culprit.error = some e) :
    (culprit? r passed (.block opener inner closer next)).map Culprit.error = some e := by
  rcases bind_eq_error.1 h with hblock | ⟨a, hblock, hmore⟩
  · exact closedBlock_error hblock henters herror hok
  · rw [closedBlock_ok hblock henters hok]
    rcases bind_eq_error.1 hmore with hmore | ⟨ns, -, hns⟩
    · exact hnext hmore
    · cases hns

theorem atRuleNodes_error {name : String} {l : Lexeme} {rest : Components}
    (h : atRuleNodes name l rest = .error e) (he : e.fault.hasCulprit)
    (hcs : AreAdjoined (Components.leaf l rest).lexemes)
    (ih : ∀ ds : Components, ds.size < rest.size → parseNodes ds = .error e →
      AreAdjoined ds.lexemes → (culprit? nodes none ds).map Culprit.error = some e) :
    (culprit? (parameters (isGrouping name)) none rest).map Culprit.error = some e := by
  rcases bind_eq_error.1 h with hp | ⟨⟨raw, stop, ending⟩, hp, h⟩
  · exact readPrelude_error hp nofun hcs.2 (isPlace_stop hcs)
  have hwithin := readPrelude_within hp
  have hleaves : ending.Leaves (parameters (isGrouping name)) stop
      (culprit? (parameters (isGrouping name)) none rest) :=
    readPrelude_ok hp nofun hcs.2 (isPlace_stop hcs)
  cases ending with
  | finished => cases h
  | semicolon next =>
    obtain ⟨hnext, htotal⟩ := hleaves
    rw [htotal]
    rcases bind_eq_error.1 h with hmore | ⟨ns, -, hns⟩
    · exact ih next hwithin hmore hnext
    · cases hns
  | brace =>
    cases h
    cases he
  | block opener inner closer next =>
    obtain ⟨ho, hinner, hnext, passed, hstop, htotal⟩ := hleaves
    obtain rfl : stop = reportedAt passed opener := hstop
    rw [htotal]
    have hmore (h : parseNodes next = .error e) := ih next hwithin.2 h hnext
    dsimp only at h
    split at h
    · rename_i hgroup
      have henters : (parameters (isGrouping name)).enters? opener.token = some nodes := by
        rw [ho, hgroup]
        rfl
      exact atBlock_error h henters (fun hns => ih inner hwithin.1 hns hinner)
        (fun _ => culprit?_parseNodes) hmore
    · rename_i hgroup
      have henters : (parameters (isGrouping name)).enters? opener.token = some body := by
        rw [ho, Bool.eq_false_iff.2 hgroup]
        rfl
      exact atBlock_error h henters (fun hds => declarations_error hds he hinner)
        (fun _ => culprit?_declarations) hmore

/-- The first fault that a lexeme is to blame for is that of the first lexeme at fault. -/
theorem parseNodes_error (h : parseNodes cs = .error e) (he : e.fault.hasCulprit)
    (hcs : AreAdjoined cs.lexemes) : (culprit? nodes none cs).map Culprit.error = some e := by
  -- What a rule or an at-rule leaves over is smaller, but not a part of the constructor.
  induction hn : cs.size using Nat.strongRecOn generalizing cs with
  | ind n ih =>
    have hsmaller (ds : Components) (hsize : ds.size < cs.size) (hds : parseNodes ds = .error e)
        (hadjoined : AreAdjoined ds.lexemes) :
        (culprit? nodes none ds).map Culprit.error = some e :=
      ih ds.size (hn ▸ hsize) hds hadjoined rfl
    cases cs with
    | nil p =>
      rw [parseNodes_nil] at h
      cases h
    | block opener inner closer rest =>
      rw [parseNodes_block] at h
      rw [culprit?_nodes_block]
      exact ruleNodes_error h he hcs hsmaller
    | leaf l rest =>
      by_cases hfirst : startsRule l.token
      · rw [parseNodes_of_startsRule hfirst] at h
        rw [culprit?_nodes_leaf hfirst]
        exact ruleNodes_error h he hcs hsmaller
      have hrest (h : parseNodes rest = .error e) (hgood : badTokenFault? l.token = none)
          (hnext : nodes.next l.token = nodes) :
          (culprit? nodes none (.leaf l rest)).map Culprit.error = some e := by
        rw [culprit?_leaf hgood, hnext]
        exact hsmaller rest (Nat.lt_succ_self _) h hcs.2
      rw [parseNodes_leaf] at h
      cases hl : l.token
      case whitespace => exact hrest (by rwa [hl] at h) (by rw [hl]; rfl) (by rw [hl]; rfl)
      case cdo => exact hrest (by rwa [hl] at h) (by rw [hl]; rfl) (by rw [hl]; rfl)
      case cdc => exact hrest (by rwa [hl] at h) (by rw [hl]; rfl) (by rw [hl]; rfl)
      case comment content =>
        rw [hl] at h
        simp only at h
        split at h
        · rcases bind_eq_error.1 h with hmore | ⟨ns, -, hns⟩
          · exact hrest hmore (by rw [hl]; rfl) (by rw [hl]; rfl)
          · cases hns
        · cases h
          cases he
      case atKeyword name =>
        rw [hl] at h
        have hbehind : culprit? nodes none (.leaf l rest) =
            culprit? (parameters (isGrouping name)) none rest := by
          rw [culprit?_leaf (by rw [hl]; rfl), hl]
          rfl
        rw [hbehind]
        exact atRuleNodes_error h he hcs fun ds hsize => hsmaller ds (Nat.lt_succ_of_lt hsize)
      case closing b =>
        rw [hl] at h hfirst
        cases b with
        | curly =>
          cases h
          cases he
        | paren => exact absurd rfl hfirst
        | square => exact absurd rfl hfirst
      all_goals
        rw [hl] at hfirst
        exact absurd rfl hfirst

end Parser

/-- Whether a lexeme has the fault that it is reported for: an opening brace that nothing
closes, or a bad token of its kind. -/
def Culprit.IsAtFault (c : Culprit) (cs : Components) : Prop :=
  badTokenFault? c.lexeme.token = some c.fault ∧ c.lexeme ∈ cs.lexemes ∨
    c.fault = .unclosedBlock ∧ c.lexeme.token = .opening .curly ∧ (c.lexeme, none) ∈ cs.brackets

/-- A closed pair of brackets with a lexeme right behind it. A bracket that comes first within
the pair is closed too. -/
structure IsPassed (cs : Components) (opener behind : Lexeme) : Prop where
  closed : ∃ k, (opener, some k) ∈ cs.brackets ∧ [k, behind] <:+: cs.lexemes
  first : ∃ l, [opener, l] <:+: cs.lexemes ∧
    (l.token.opens?.isSome → ∃ k, (l, some k) ∈ cs.brackets)

section Culprits

variable {r : Reading} {passed : Option Lexeme} {c : Culprit} {cs ds : Components}
  {b : Option Bracket} {opener behind : Lexeme}

theorem Culprit.IsAtFault.mono (h : c.IsAtFault ds) (hds : ds.IsWithin cs) : c.IsAtFault cs :=
  h.imp (.imp_right (hds.1.subset ·)) (.imp_right (.imp_right (hds.2 ·)))

theorem IsPassed.mono (h : IsPassed ds opener behind) (hds : ds.IsWithin cs) :
    IsPassed cs opener behind := by
  obtain ⟨⟨k, hk, hbehind⟩, l, hl, hclosed⟩ := h
  exact ⟨⟨k, hds.2 hk, hbehind.trans hds.1⟩, l, hl.trans hds.1,
    fun ho => (hclosed ho).imp fun _ hm => hds.2 hm⟩

theorem isPassed_block {d : Bracket} {inner rest : Components} {k : Lexeme}
    (hk : k.token.closes? = some d) (hinner : inner.Closed (some d))
    (hrest : rest.lexemes.head? = some behind) :
    IsPassed (.block opener inner (some k) rest) opener behind := by
  obtain ⟨ls, hls⟩ := List.head?_eq_some_iff.1 hrest
  refine ⟨⟨k, List.mem_cons_self .., opener :: inner.lexemes, ls, ?_⟩, ?_⟩
  · simp [Components.lexemes, hls]
  -- What comes first within is the closing bracket, if there is nothing within.
  cases hlexemes : inner.lexemes with
  | nil =>
    refine ⟨k, ⟨[], rest.lexemes, by simp [Components.lexemes, hlexemes]⟩, fun ho => ?_⟩
    rw [opens?_of_closes? hk] at ho
    cases ho
  | cons l ls =>
    refine ⟨l, ⟨[], ls ++ k :: rest.lexemes, by simp [Components.lexemes, hlexemes]⟩, fun ho => ?_⟩
    obtain ⟨m, hm⟩ := hinner.exists_closer (hlexemes ▸ List.mem_cons_self ..) ho
    exact ⟨m, (isWithin_inner ..).2 hm⟩

/-- A lexeme is at fault among components behind `passed`, and what is passed over in front of
it is that, if it comes first, or stands among them. -/
structure Culprit.StandsIn (c : Culprit) (passed : Option Lexeme) (cs : Components) : Prop where
  atFault : c.IsAtFault cs
  behind : ∀ o ∈ c.passed,
    passed = some o ∧ cs.lexemes.head? = some c.lexeme ∨ IsPassed cs o c.lexeme

theorem Culprit.StandsIn.isPassed (h : c.StandsIn none cs) :
    ∀ o ∈ c.passed, IsPassed cs o c.lexeme :=
  fun o ho => (h.behind o ho).resolve_left fun hnone => nomatch hnone.1

theorem Culprit.StandsIn.within (h : c.StandsIn none ds) (hds : ds.IsWithin cs) :
    c.StandsIn passed cs :=
  ⟨h.atFault.mono hds, fun o ho => .inr ((h.isPassed o ho).mono hds)⟩

theorem culprit?_standsIn (h : culprit? r passed cs = some c) (hformed : cs.Formed b) :
    c.StandsIn passed cs := by
  induction cs generalizing r passed b with
  | nil => cases h
  | leaf l rest ih =>
    cases hl : badTokenFault? l.token with
    | some fault =>
      rw [culprit?_bad hl] at h
      cases h
      exact ⟨.inl ⟨hl, List.mem_cons_self ..⟩, fun o ho => .inl ⟨ho, rfl⟩⟩
    | none =>
      rw [culprit?_leaf hl] at h
      exact (ih h hformed.2.2).within (isWithin_leaf l rest)
  | block opener inner closer rest ihi ihr =>
    obtain ⟨d, ho, hcloser⟩ := hformed
    cases henters : r.enters? opener.token with
    | none =>
      rw [culprit?_passed henters] at h
      cases closer with
      | none =>
        obtain ⟨-, p, rfl⟩ := hcloser
        cases h
      | some k =>
        obtain ⟨hk, hinner, hrest⟩ := hcloser
        have hstands := ihr h hrest
        have hwithin := isWithin_rest opener inner (some k) rest
        refine ⟨hstands.atFault.mono hwithin, fun o hmem => .inr ?_⟩
        rcases hstands.behind o hmem with ⟨heq, hfirst⟩ | hpassed
        · exact Option.some.inj heq ▸ isPassed_block hk hinner hfirst
        · exact hpassed.mono hwithin
    | some inside =>
      rw [culprit?_entered henters] at h
      have hinner : inner.Formed (some d) := by
        cases closer with
        | none => exact hcloser.1
        | some k => exact hcloser.2.1.formed
      rcases Option.or_eq_some_iff.1 h with hc | ⟨-, hc⟩
      · exact (ihi hc hinner).within (isWithin_inner ..)
      · cases closer with
        | none =>
          cases hc
          have hcurly : opener.token = .opening .curly := by
            refine Decidable.byContradiction fun hne => ?_
            rw [enters?_of_ne hne] at henters
            cases henters
          exact ⟨.inr ⟨rfl, hcurly, List.mem_cons_self ..⟩, fun o hmem => .inl ⟨hmem, rfl⟩⟩
        | some k => exact (ihr hc hcloser.2.2).within (isWithin_rest ..)

end Culprits

section Position

variable {c : Culprit} {css : String} {o l : Lexeme}

/-- Behind brackets that are passed over, what stands first within them is reported. -/
theorem start_eq_position (ho : c.passed = some o) (hl : [o, l] <:+: lexemes .first css.toList) :
    l.start = c.error.position :=
  ((areAdjoined_lexemes .first css.toList).start_eq hl).trans (Culprit.position_of_some ho).symm

/-- Whatever starts at the reported place is what stands first within those brackets. -/
theorem infix_of_position (hstands : c.StandsIn none (ofText css.toList)) (ho : c.passed = some o)
    (hl : l ∈ lexemes .first css.toList) (hstart : l.start = c.error.position) :
    [o, l] <:+: lexemes .first css.toList ∧
      (l.token.opens?.isSome → ∃ k, (l, some k) ∈ (ofText css.toList).brackets) := by
  obtain ⟨m, hm, hclosed⟩ := (hstands.isPassed o ho).first
  rw [lexemes_ofText] at hm
  have hmem : m ∈ lexemes .first css.toList := hm.subset (by simp)
  obtain rfl : l = m := eq_of_start_eq hl hmem (hstart.trans (start_eq_position ho hm).symm)
  exact ⟨hm, hclosed⟩

end Position

theorem isBad_of_badTokenFault? {t : Token} {fault : ParseFault}
    (h : badTokenFault? t = some fault) : t.isBad ∧ fault ≠ .unclosedBlock := by
  cases t <;> cases h <;> exact ⟨rfl, nofun⟩

/-- A fault that a lexeme is to blame for is that of the first lexeme at fault. Right behind
brackets that are passed over it is reported where these open, right inside them: no open brace
stands there, and a bad token only if one comes first within the brackets. -/
theorem parse_error_place {css : String} {e : ParseError} (h : Stylesheet.parse css = .error e)
    (he : e.fault.hasCulprit) : ∃ c, culprit? nodes none (ofText css.toList) = some c ∧
      c.error = e ∧ c.IsAtFault (ofText css.toList) ∧
      (∀ o ∈ c.passed, ∃ k, (o, some k) ∈ (ofText css.toList).brackets ∧
        [k, c.lexeme] <:+: lexemes .first css.toList) ∧
      (e.fault = .unclosedBlock → ((∃ l, (l, none) ∈ (ofText css.toList).brackets ∧
        l.token = .opening .curly ∧ l.start = e.position) ↔ c.passed = none)) ∧
      (e.fault ≠ .unclosedBlock → ((∃ l ∈ lexemes .first css.toList,
        l.token.isBad ∧ l.start = e.position) ↔
          ∀ o ∈ c.passed, ∃ l, [o, l] <:+: lexemes .first css.toList ∧ l.token.isBad)) := by
  have hadjoined : AreAdjoined (ofText css.toList).lexemes := by
    rw [lexemes_ofText]
    exact areAdjoined_lexemes ..
  have hnodes : parseNodes (ofText css.toList) = .error e := by
    rcases bind_eq_error.1 h with hnodes | ⟨ns, -, hns⟩
    · exact hnodes
    · cases hns
  obtain ⟨c, hc, rfl⟩ := Option.map_eq_some_iff.1 (parseNodes_error hnodes he hadjoined)
  have hstands := culprit?_standsIn hc (formed_group ..)
  refine ⟨c, hc, rfl, hstands.atFault, ?_, fun hopen => ?_, fun hbad => ?_⟩
  · rw [← lexemes_ofText]
    exact fun o ho => (hstands.isPassed o ho).closed
  · have hfault := hstands.atFault.resolve_left fun hbad =>
      (isBad_of_badTokenFault? hbad.1).2 hopen
    constructor
    · rintro ⟨l, hl, hcurly, hstart⟩
      refine Option.eq_none_iff_forall_ne_some.2 fun o ho => ?_
      have hmem := mem_of_mem_brackets hl
      rw [lexemes_ofText] at hmem
      obtain ⟨k, hk⟩ := (infix_of_position hstands ho hmem hstart).2 (by rw [hcurly]; rfl)
      cases closer_unique hl hk
    · intro hnone
      exact ⟨c.lexeme, hfault.2.2, hfault.2.1, (Culprit.position_of_none hnone).symm⟩
  · obtain ⟨hfault, hmem⟩ := hstands.atFault.resolve_right fun hopen => hbad hopen.1
    rw [lexemes_ofText] at hmem
    constructor
    · rintro ⟨l, hl, hlbad, hstart⟩ o ho
      exact ⟨l, (infix_of_position hstands ho hl hstart).1, hlbad⟩
    · intro hfirst
      cases hpassed : c.passed with
      | none =>
        exact ⟨c.lexeme, hmem, (isBad_of_badTokenFault? hfault).1,
          (Culprit.position_of_none hpassed).symm⟩
      | some o =>
        obtain ⟨l, hl, hlbad⟩ := hfirst o hpassed
        exact ⟨l, hl.subset (by simp), hlbad, start_eq_position hpassed hl⟩

/-- The fault of what fails. -/
def error? {α : Type} : Except ParseError α → Option ParseError
  | .error e => some e
  | .ok _ => none

theorem error?_eq_some {α : Type} {x : Except ParseError α} {e : ParseError} :
    error? x = some e ↔ x = .error e := by
  cases x <;> simp [error?]

def spacedUrlText : String := "@media print\x7b.a:is(b) \x7bc:f(d) url(e f)\x7d\x7d"

theorem parse_error_place_spaced : ∃ e, Stylesheet.parse spacedUrlText = .error e ∧
    e.fault.hasCulprit ∧
    ∃ l ∈ lexemes .first spacedUrlText.toList, l.token.isBad ∧ l.start = e.position := by
  have hparse : Stylesheet.parse spacedUrlText = .error ⟨⟨1, 31⟩, .malformedUrl⟩ :=
    error?_eq_some.1 (by decide +kernel)
  obtain ⟨c, hc, -, -, -, -, hplace⟩ := parse_error_place hparse rfl
  have hpassed : (culprit? nodes none (ofText spacedUrlText.toList)).map Culprit.passed =
      some none := by
    decide +kernel
  rw [hc] at hpassed
  have hnone : c.passed = none := Option.some.inj hpassed
  exact ⟨_, hparse, rfl, (hplace nofun).2 fun o ho => by rw [hnone] at ho; cases ho⟩

/-- Right behind brackets that are passed over, neither an open brace nor a bad token is
reported where it starts. -/
theorem parse_error_misplaced :
    (∃ p, Stylesheet.parse ".a:not(.b)\x7b" = .error ⟨p, .unclosedBlock⟩ ∧
      ¬∃ l, (l, none) ∈ (ofText ".a:not(.b)\x7b".toList).brackets ∧
        l.token = .opening .curly ∧ l.start = p) ∧
    ∃ p, Stylesheet.parse "a\x7bb:f(x)url(c d)\x7d" = .error ⟨p, .malformedUrl⟩ ∧
      ¬∃ l ∈ lexemes .first "a\x7bb:f(x)url(c d)\x7d".toList, l.token.isBad ∧ l.start = p := by
  constructor
  · refine ⟨⟨1, 8⟩, error?_eq_some.1 (by decide +kernel), ?_⟩
    have hchecks : (ofText ".a:not(.b)\x7b".toList).brackets.all
        (fun pair => pair.2.isSome || pair.1.start != ⟨1, 8⟩) = true := by
      decide +kernel
    rintro ⟨l, hl, -, hstart⟩
    simpa [hstart] using List.all_eq_true.1 hchecks _ hl
  · refine ⟨⟨1, 7⟩, error?_eq_some.1 (by decide +kernel), ?_⟩
    have hchecks : (lexemes .first "a\x7bb:f(x)url(c d)\x7d".toList).all
        (fun l => !l.token.isBad || l.start != ⟨1, 7⟩) = true := by
      decide +kernel
    rintro ⟨l, hl, hbad, hstart⟩
    simpa [hbad, hstart] using List.all_eq_true.1 hchecks l hl

end RasterFallback
