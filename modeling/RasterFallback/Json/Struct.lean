import RasterFallback.Json.Number
import RasterFallback.Json.Text
import RasterFallback.Text.Quoted

/-!
Values of known types. A record is read from an object, whose unknown members
are passed over, or from an array of its members in order; members that are
missing keep their defaults. The first fault in the text decides.
-/
namespace RasterFallback.Json
open RasterFallback.Text

mutual

/-- Passes over any value. `fuel` bounds how deep and how long it is. -/
def skipValue : Nat → List Char → Except Error (List Char)
  | 0, s => .error (Fault.noValue.here s)
  | fuel + 1, s =>
    match skipBlanks s with
    | [] => .error (Fault.endOfValue.here [])
    | 'n' :: t => expectWord "ull".toList t
    | 't' :: t => expectWord "rue".toList t
    | 'f' :: t => expectWord "alse".toList t
    | '-' :: t => skipNumber t
    | '\x22' :: t => skipString t
    | '[' :: t =>
      match skipBlanks t with
      | [] => .error (Fault.endOfList.here [])
      | ']' :: t => .ok t
      | t => do skipItems fuel (← skipValue fuel t)
    | '\x7b' :: t =>
      match skipBlanks t with
      | [] => .error (Fault.endOfObject.here [])
      | '\x7d' :: t => .ok t
      | t => skipMember fuel t
    | c :: t =>
      if c.isDigit then skipNumber (c :: t) else .error (Fault.noValue.next (c :: t))

/-- Passes over what follows an element of a list. -/
def skipItems : Nat → List Char → Except Error (List Char)
  | 0, s => .error (Fault.endOfList.here s)
  | fuel + 1, s =>
    match skipBlanks s with
    | [] => .error (Fault.endOfList.here [])
    | ',' :: t => do skipItems fuel (← skipValue fuel t)
    | ']' :: t => .ok t
    | t => .error (Fault.missingListComma.next t)

/-- Passes over a member of an object and what follows it. -/
def skipMember : Nat → List Char → Except Error (List Char)
  | 0, s => .error (Fault.endOfObject.here s)
  | fuel + 1, s =>
    match skipBlanks s with
    | [] => .error (Fault.endOfObject.here [])
    | '\x22' :: t => do
      match skipBlanks (← skipString t) with
      | [] => .error (Fault.endOfObject.here [])
      | ':' :: t => do
        match skipBlanks (← skipValue fuel t) with
        | [] => .error (Fault.endOfObject.here [])
        | ',' :: t => skipMember fuel t
        | '\x7d' :: t => .ok t
        | t => .error (Fault.missingObjectComma.next t)
      | t => .error (Fault.missingColon.next t)
    | t => .error (Fault.keyNotString.next t)

end

/-- The fault of a value that is not of the type `expected`. -/
def mismatch (expected : String) (s : List Char) : Error :=
  let wrong (found : String) (rest : List Char) : Error := (Fault.wrongType found expected).here rest
  let word (found : String) : Except Error (List Char) → Error
    | .ok rest => wrong found rest
    | .error e => e
  let number : Except Error (Number × List Char) → Error
    | .ok (n, rest) => wrong n.text rest
    | .error e => e
  match s with
  | 'n' :: t => word "null" (expectWord "ull".toList t)
  | 't' :: t => word "boolean `true`" (expectWord "rue".toList t)
  | 'f' :: t => word "boolean `false`" (expectWord "alse".toList t)
  | '-' :: t => number (readNumber true t)
  | '\x22' :: t =>
    match readString t with
    | .ok (content, rest) => wrong ("string " ++ quotedText (String.ofList content)) rest
    | .error e => e
  | '[' :: _ => wrong "sequence" s
  | '\x7b' :: _ => wrong "map" s
  | c :: t => if c.isDigit then number (readNumber false (c :: t)) else Fault.noValue.next s
  | [] => Fault.noValue.next s

/-- What reads a value at the front of a text. -/
abbrev Reader (α : Type) := List Char → Except Error (α × List Char)

/-- Reads a string. `expected` is how messages call it. -/
def string (expected : String) : Reader String := fun s =>
  match skipBlanks s with
  | [] => .error (Fault.endOfValue.here [])
  | '\x22' :: t => do
    let (content, rest) ← readString t
    .ok (String.ofList content, rest)
  | t => .error (mismatch expected t)

def boolean : Reader Bool := fun s =>
  match skipBlanks s with
  | [] => .error (Fault.endOfValue.here [])
  | 't' :: t => do .ok (true, ← expectWord "rue".toList t)
  | 'f' :: t => do .ok (false, ← expectWord "alse".toList t)
  | t => .error (mismatch "a boolean" t)

/-- The place of the next element of a list, or nothing at its end. -/
def nextItem? (first : Bool) (s : List Char) : Except Error (Option (List Char)) :=
  match skipBlanks s with
  | [] => .error (Fault.endOfList.here [])
  | ']' :: _ => .ok none
  | ',' :: t =>
    if first then .ok (some (',' :: t))
    else
      match skipBlanks t with
      | [] => .error (Fault.endOfValue.here [])
      | ']' :: u => .error (Fault.trailingComma.next (']' :: u))
      | u => .ok (some u)
  | t => if first then .ok (some t) else .error (Fault.missingListComma.next t)

/-- Closes a list of which no more elements are wanted. -/
def endList (s : List Char) : Except Error (List Char) :=
  match skipBlanks s with
  | [] => .error (Fault.endOfList.here [])
  | ']' :: t => .ok t
  | ',' :: t =>
    match skipBlanks t with
    | ']' :: u => .error (Fault.trailingComma.next (']' :: u))
    | u => .error (Fault.trailingCharacters.next u)
  | t => .error (Fault.trailingCharacters.next t)

/-- The elements of a list up to its end. `fuel` bounds their number. -/
def items {α : Type} (read : Reader α) : Nat → Bool → Reader (List α)
  | 0, _, s => .error (Fault.endOfList.here s)
  | fuel + 1, first, s => do
    match ← nextItem? first s with
    | none => .ok ([], s)
    | some t => do
      let (a, t) ← read t
      let (more, t) ← items read fuel false t
      .ok (a :: more, t)

def list {α : Type} (read : Reader α) : Reader (List α) := fun s =>
  match skipBlanks s with
  | [] => .error (Fault.endOfValue.here [])
  | '[' :: t => do
    let (as, rest) ← items read (t.length + 1) true t
    .ok (as, ← endList rest)
  | t => .error (mismatch "a sequence" t)

/-- A member of a record: its name, and how its value changes the record. -/
structure Member (β : Type) where
  name : String
  read : Reader (β → β)

/-- The text behind the colon after a name. -/
def colon (s : List Char) : Except Error (List Char) :=
  match skipBlanks s with
  | [] => .error (Fault.endOfObject.here [])
  | ':' :: t => .ok t
  | t => .error (Fault.missingColon.next t)

/-- The place behind the quote mark of the next name, or nothing at the end of the object. -/
def nextName? (first : Bool) (s : List Char) : Except Error (Option (List Char)) :=
  match skipBlanks s with
  | [] => .error (Fault.endOfObject.here [])
  | '\x7d' :: _ => .ok none
  | '\x22' :: t => if first then .ok (some t) else .error (Fault.missingObjectComma.next ('\x22' :: t))
  | ',' :: t =>
    if first then .error (Fault.keyNotString.next (',' :: t))
    else
      match skipBlanks t with
      | [] => .error (Fault.endOfValue.here [])
      | '\x22' :: u => .ok (some u)
      | '\x7d' :: u => .error (Fault.trailingComma.next ('\x7d' :: u))
      | u => .error (Fault.keyNotString.next u)
  | t =>
    if first then .error (Fault.keyNotString.next t)
    else .error (Fault.missingObjectComma.next t)

/-- The fault of a name that was there before. An end of the object right behind it is taken in. -/
def duplicate (name : String) (s : List Char) : Error :=
  match skipBlanks s with
  | '\x7d' :: t => (Fault.duplicateField name).here t
  | t => (Fault.duplicateField name).here t

/-- The members of an object up to its end. `seen` are the known names so far;
`fuel` bounds the number of members. -/
def members {β : Type} (fields : List (Member β)) :
    Nat → Bool → List String → β → Reader β
  | 0, _, _, _, s => .error (Fault.endOfObject.here s)
  | fuel + 1, first, seen, b, s => do
    match ← nextName? first s with
    | none => .ok (b, s)
    | some t => do
      let (key, t) ← readString t
      let key := String.ofList key
      match fields.find? fun f => f.name == key with
      | none => do
        let t ← skipValue (t.length + 1) (← colon t)
        members fields fuel false seen b t
      | some f =>
        if seen.contains key then .error (duplicate key t)
        else do
          let (change, t) ← f.read (← colon t)
          members fields fuel false (key :: seen) (change b) t

/-- The elements of a list as members in their order; those that are missing change nothing. -/
def elements {β : Type} : List (Member β) → Bool → β → Reader β
  | [], _, b, s => .ok (b, s)
  | f :: fields, first, b, s => do
    match ← nextItem? first s with
    | none => .ok (b, s)
    | some t => do
      let (change, t) ← f.read t
      elements fields false (change b) t

/-- Reads a record with these members, starting from its default. -/
def record {β : Type} (name : String) (fields : List (Member β)) (default : β) : Reader β := fun s =>
  match skipBlanks s with
  | [] => .error (Fault.endOfValue.here [])
  | '[' :: t => do
    let (b, rest) ← elements fields true default t
    .ok (b, ← endList rest)
  | '\x7b' :: t => do
    let (b, rest) ← members fields (t.length + 1) true [] default t
    .ok (b, (skipBlanks rest).drop 1)
  | t => .error (mismatch name t)

/-- Reads a text that holds one value and nothing else. -/
def readAll {α : Type} (read : Reader α) (s : List Char) : Except Error α := do
  let (a, rest) ← read s
  match skipBlanks rest with
  | [] => .ok a
  | t => .error (Fault.trailingCharacters.next t)

end RasterFallback.Json
