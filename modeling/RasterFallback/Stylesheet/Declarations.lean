import RasterFallback.Css.Components
import RasterFallback.Stylesheet.Basic
import RasterFallback.Stylesheet.ParseError
import RasterFallback.Text.Blank

/-!
The declarations of a block: a name, a colon and a value up to the next
semicolon. The value is kept as written, trimmed and without its `!important`.
-/
namespace RasterFallback
open RasterFallback.Text RasterFallback.Css

/-- The fault of a token that no stylesheet may hold. -/
def badTokenFault? : Token → Option ParseFault
  | .badUrl _ => some .malformedUrl
  | .badString _ => some .unterminatedString
  | _ => none

/-- The text before and behind the last exclamation mark. -/
def splitLastBang? (s : List Char) : Option (List Char × List Char) :=
  let behind := s.reverse.takeWhile (· != '!')
  match s.reverse.drop behind.length with
  | _ :: before => some (before.reverse, behind.reverse)
  | [] => none

/-- A trimmed value without a trailing `!important`, and whether it had one. -/
def splitImportant (raw : List Char) : List Char × Bool :=
  let value := trim raw
  match splitLastBang? value with
  | some (before, behind) =>
    if lowerAscii (trim behind) = "important".toList then (trimEnd before, true)
    else (value, false)
  | none => (value, false)

/-- The text up to a semicolon, which is left out, and the components behind it.
A bad token is reported at `place`, where the component before it leaves off;
behind a block that is the inside of its opening bracket. -/
def valueText (place : Position) : Components → Except ParseError (List Char × Components)
  | .nil stop => .ok ([], .nil stop)
  | .leaf l rest =>
    if l.token = .semicolon then .ok ([], rest)
    else match badTokenFault? l.token with
      | some fault => .error ⟨place, fault⟩
      | none => do
        let (text, behind) ← valueText l.stop rest
        .ok (l.text ++ text, behind)
  | .block opener inner closer rest => do
    let (text, behind) ← valueText opener.stop rest
    .ok (Components.blockText opener inner closer ++ text, behind)

/-- The components behind a colon. Space may stand before it; `place` is the end of the name. -/
def expectColon (place : Position) (cs : Components) : Except ParseError Components :=
  match cs.skipSpace with
  | .nil stop => .error ⟨stop, .endOfInput⟩
  | .leaf l rest =>
    if l.token = .colon then .ok rest
    else if l.token = .semicolon then .error ⟨l.start, .endOfInput⟩
    else .error ⟨place, .unexpected l.token⟩
  | .block opener _ _ _ => .error ⟨place, .unexpected opener.token⟩

theorem valueText_size {place : Position} {cs behind : Components} {text : List Char}
    (h : valueText place cs = .ok (text, behind)) : behind.size ≤ cs.size := by
  induction cs generalizing place text with
  | nil stop => cases h; exact Nat.le_refl _
  | leaf l rest ih =>
    rw [valueText] at h
    split at h
    · cases h; simp [Components.size]
    · split at h
      · cases h
      · cases hv : valueText l.stop rest with
        | error e => rw [hv] at h; cases h
        | ok v =>
          rw [hv] at h
          cases h
          exact Nat.le_succ_of_le (ih hv)
  | block opener inner closer rest _ ih =>
    rw [valueText] at h
    cases hv : valueText opener.stop rest with
    | error e => rw [hv] at h; cases h
    | ok v =>
      rw [hv] at h
      cases h
      have := ih hv
      simp only [Components.size]
      omega

theorem expectColon_size {place : Position} {cs behind : Components}
    (h : expectColon place cs = .ok behind) : behind.size ≤ cs.size := by
  have hs := cs.skipSpace_size
  unfold expectColon at h
  split at h
  · cases h
  · rename_i l rest hr
    rw [hr] at hs
    split at h
    · cases h
      simp only [Components.size] at hs
      omega
    · split at h <;> cases h
  · cases h

/-- The declarations of a block. The first fault decides. -/
def declarations (cs : Components) : Except ParseError (List Declaration) :=
  match cs with
  | .nil _ => .ok []
  | .block opener _ _ _ => .error ⟨opener.start, .unexpected opener.token⟩
  | .leaf l rest =>
    match l.token with
    | .whitespace _ => declarations rest
    | .comment _ => declarations rest
    | .semicolon => declarations rest
    | .closing .curly => declarations rest
    | .atKeyword name => .error ⟨l.stop, .misplacedAtRule name⟩
    | .ident name =>
      match _hc : expectColon l.stop rest with
      | .error e => .error e
      | .ok behind =>
        match _hv : valueText behind.start behind with
        | .error e => .error e
        | .ok (raw, next) => do
          let more ← declarations next
          let value := splitImportant raw
          .ok (⟨name, String.ofList value.1, value.2, some l.start⟩ :: more)
    | t => .error ⟨l.start, .unexpected t⟩
  termination_by cs.size
  decreasing_by
    all_goals simp only [Components.size]
    · omega
    · omega
    · omega
    · omega
    · have := expectColon_size _hc
      have := valueText_size _hv
      omega

end RasterFallback
