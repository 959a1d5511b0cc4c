import RasterFallback.Stylesheet.Declarations

/-!
Stylesheets from component values. A node is a comment, an at-rule, or a
selector list with its block; selectors and parameters are kept as written.
-/
namespace RasterFallback
open RasterFallback.Text RasterFallback.Css

inductive PreludeEnd where
  | block (opener : Lexeme) (inner : Components) (closer : Option Lexeme) (rest : Components)
  | semicolon (rest : Components)
  | brace
  | finished

structure Prelude where
  /-- The text up to and with what ends it. -/
  text : List Char
  /-- Where the component before the end leaves off. -/
  stop : Position
  ending : PreludeEnd

/-- Reads up to a block in braces, a semicolon or a closing brace. A bad token is
reported where the component before it leaves off. -/
def readPrelude (place : Position) : Components → Except ParseError Prelude
  | .nil _ => .ok ⟨[], place, .finished⟩
  | .leaf l rest =>
    match l.token with
    | .semicolon => .ok ⟨l.text, place, .semicolon rest⟩
    | .closing .curly => .ok ⟨l.text, place, .brace⟩
    | t =>
      match badTokenFault? t with
      | some fault => .error ⟨place, fault⟩
      | none => do
        let p ← readPrelude l.stop rest
        .ok { p with text := l.text ++ p.text }
  | .block opener inner closer rest =>
    match opener.token with
    | .opening .curly => .ok ⟨opener.text, place, .block opener inner closer rest⟩
    | _ => do
      let p ← readPrelude opener.stop rest
      .ok { p with text := Components.blockText opener inner closer ++ p.text }

/-- Room for the components that an end of a prelude leaves over. -/
def PreludeEnd.Within (n : Nat) : PreludeEnd → Prop
  | .block _ inner _ rest => inner.size < n ∧ rest.size < n
  | .semicolon rest => rest.size < n
  | .brace => True
  | .finished => True

theorem PreludeEnd.Within.mono {n k : Nat} {e : PreludeEnd} (h : e.Within n) (hk : n ≤ k) :
    e.Within k := by
  cases e <;> simp_all only [PreludeEnd.Within] <;> omega

theorem readPrelude_within {place : Position} {cs : Components} {p : Prelude}
    (h : readPrelude place cs = .ok p) : p.ending.Within cs.size := by
  induction cs generalizing place p with
  | nil stop => cases h; trivial
  | leaf l rest ih =>
    rw [readPrelude] at h
    split at h
    · cases h; simp [PreludeEnd.Within, Components.size]
    · cases h; trivial
    · split at h
      · cases h
      · cases hp : readPrelude l.stop rest with
        | error e => rw [hp] at h; cases h
        | ok q =>
          rw [hp] at h
          cases h
          exact (ih hp).mono (Nat.le_succ _)
  | block opener inner closer rest _ ih =>
    rw [readPrelude] at h
    split at h
    · cases h
      simp only [PreludeEnd.Within, Components.size]
      omega
    · cases hp : readPrelude opener.stop rest with
      | error e => rw [hp] at h; cases h
      | ok q =>
        rw [hp] at h
        cases h
        refine (ih hp).mono ?_
        simp only [Components.size]
        omega

/-- At-rules whose blocks hold nodes. -/
def groupingNames : List String :=
  ["media", "supports", "document", "-moz-document", "layer", "container", "scope",
    "starting-style"]

/-- Whether the block of an at-rule holds nodes. Case does not matter. -/
def isGrouping (name : String) : Bool :=
  groupingNames.contains (String.ofList (lowerAscii name.toList))

/-- A trimmed text without the brace that ended it. -/
def selectorText (raw : List Char) : String :=
  String.ofList (trim (dropEndWhile (· == '\x7b') raw))

/-- The text of a selector list that ended without a block. -/
def brokenSelectorText (raw : List Char) : String :=
  String.ofList (trim (dropEndWhile (fun c => c == ';' || c == '\x7d') raw))

/-- A trimmed text without the semicolon or brace that ended it. -/
def paramsText (raw : List Char) : String :=
  String.ofList (trim (dropEndWhile (fun c => c == ';' || c == '\x7b') (trim raw)))

/-- Whether the text of a comment has its end mark. -/
def isWholeComment (text : List Char) : Bool := 4 ≤ text.length && ['*', '/'].isSuffixOf text

/-- The content of a block, which must be closed. -/
def closedBlock {α : Type} (opened : Position) (closer : Option Lexeme)
    (content : Except ParseError α) : Except ParseError α := do
  let a ← content
  if closer.isNone then .error ⟨opened, .unclosedBlock⟩ else .ok a

def parseRule (cs : Components) : Except ParseError (Rule × Components) :=
  match readPrelude cs.start cs with
  | .error e => .error e
  | .ok ⟨raw, stop, .block _ inner closer next⟩ => do
    let ds ← closedBlock stop closer (declarations inner)
    .ok (⟨selectorText raw, ds, some cs.start⟩, next)
  | .ok ⟨raw, _, _⟩ => .error ⟨cs.start, .missingBlock (brokenSelectorText raw)⟩

theorem parseRule_size {cs next : Components} {r : Rule} (h : parseRule cs = .ok (r, next)) :
    next.size < cs.size := by
  unfold parseRule at h
  split at h
  · cases h
  · rename_i raw stop opener inner closer rest hp
    have hw := readPrelude_within hp
    cases hd : closedBlock stop closer (declarations inner) with
    | error e => rw [hd] at h; cases h
    | ok ds =>
      rw [hd] at h
      cases h
      exact hw.2
  · cases h

/-- The nodes that components spell. The first fault decides. -/
def parseNodes (cs : Components) : Except ParseError (List Node) :=
  match cs with
  | .nil _ => .ok []
  | .block opener inner closer rest =>
    match _hr : parseRule (.block opener inner closer rest) with
    | .error e => .error e
    | .ok (r, next) => do .ok (.rule r :: (← parseNodes next))
  | .leaf l rest =>
    match l.token with
    | .whitespace _ => parseNodes rest
    | .cdo => parseNodes rest
    | .cdc => parseNodes rest
    | .comment content =>
      if isWholeComment l.text then do .ok (.comment content :: (← parseNodes rest))
      else .error ⟨l.start, .unterminatedComment⟩
    | .closing .curly => .error ⟨l.start, .strayBrace⟩
    | .atKeyword name =>
      match _hp : readPrelude l.stop rest with
      | .error e => .error e
      | .ok ⟨raw, _, .finished⟩ => .ok [.statement ⟨name, paramsText raw, some l.start⟩]
      | .ok ⟨raw, _, .semicolon next⟩ => do
        .ok (.statement ⟨name, paramsText raw, some l.start⟩ :: (← parseNodes next))
      | .ok ⟨_, stop, .brace⟩ => .error ⟨stop, .strayBrace⟩
      | .ok ⟨raw, stop, .block _ inner closer next⟩ =>
        if isGrouping name then do
          let nodes ← closedBlock stop closer (parseNodes inner)
          .ok (.group ⟨name, paramsText raw, some l.start⟩ nodes :: (← parseNodes next))
        else do
          let ds ← closedBlock stop closer (declarations inner)
          .ok (.descriptors ⟨name, paramsText raw, some l.start⟩ ds :: (← parseNodes next))
    | _ =>
      match _hr : parseRule (.leaf l rest) with
      | .error e => .error e
      | .ok (r, next) => do .ok (.rule r :: (← parseNodes next))
  termination_by cs.size
  decreasing_by
    · exact parseRule_size _hr
    · simp [Components.size]
    · simp [Components.size]
    · simp [Components.size]
    · simp [Components.size]
    · exact Nat.lt_succ_of_lt (readPrelude_within _hp)
    · exact Nat.lt_succ_of_lt (readPrelude_within _hp).1
    · exact Nat.lt_succ_of_lt (readPrelude_within _hp).2
    · exact Nat.lt_succ_of_lt (readPrelude_within _hp).2
    · exact parseRule_size _hr

def Stylesheet.parse (css : String) : Except ParseError Stylesheet := do
  .ok ⟨← parseNodes (Components.ofText css.toList)⟩

end RasterFallback
