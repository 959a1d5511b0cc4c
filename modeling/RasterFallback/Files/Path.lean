/-!
Paths as written: names with slashes between them. They are joined and taken
apart by their spelling alone; what a name leads to is for the file tree to say.
-/
namespace RasterFallback.Files

/-- The pieces between slashes, empty ones included. -/
def splitSlash : List Char → List (List Char)
  | [] => [[]]
  | c :: s =>
    if c = '/' then [] :: splitSlash s
    else
      match splitSlash s with
      | [] => [[c]]
      | p :: ps => (c :: p) :: ps

def joinSlash : List (List Char) → List Char
  | [] => []
  | [p] => p
  | p :: ps => p ++ '/' :: joinSlash ps

@[simp] theorem splitSlash_ne_nil (s : List Char) : splitSlash s ≠ [] := by
  cases s with
  | nil => simp [splitSlash]
  | cons c s =>
    unfold splitSlash
    split
    · simp
    · split <;> simp

/-- Splitting loses nothing. -/
theorem joinSlash_splitSlash (s : List Char) : joinSlash (splitSlash s) = s := by
  induction s with
  | nil => rfl
  | cons c s ih =>
    unfold splitSlash
    split
    · rename_i h
      subst h
      cases hs : splitSlash s with
      | nil => exact absurd hs (splitSlash_ne_nil s)
      | cons p ps => rw [hs] at ih; simp [joinSlash, ih]
    · cases hs : splitSlash s with
      | nil => exact absurd hs (splitSlash_ne_nil s)
      | cons p ps =>
        rw [hs] at ih
        cases ps with
        | nil => simp [joinSlash] at ih ⊢; exact ih
        | cons q qs => simp [joinSlash] at ih ⊢; exact ih

def isAbsolute (path : String) : Bool := path.toList.head? == some '/'

/-- A path followed from a base. An absolute path stands for itself. -/
def join (base path : String) : String :=
  if isAbsolute path then path
  else if base.isEmpty || base.toList.getLast? == some '/' then base ++ path
  else base ++ "/" ++ path

/-- The pieces of the spelling behind the slash of the root. -/
def pieces (path : String) : List (List Char) :=
  splitSlash (if isAbsolute path then path.toList.drop 1 else path.toList)

/-- Leaves out empty pieces and dots at the end of reversed pieces. A dot that
starts a relative path stays. -/
def dropVoid (absolute : Bool) : List (List Char) → List (List Char)
  | [] => []
  | p :: rest =>
    if p.isEmpty || (p == ['.'] && (absolute || !rest.isEmpty)) then dropVoid absolute rest
    else p :: rest

/-- The path without its last name, unless it has none. -/
def parent? (path : String) : Option String :=
  let absolute := isAbsolute path
  match dropVoid absolute (pieces path).reverse with
  | [] => none
  | _ :: rest =>
    let front := joinSlash (dropVoid absolute rest).reverse
    some (String.ofList (if absolute then '/' :: front else front))

/-- The names of a path, dots left out unless one starts a relative path. -/
def names (path : String) : List String :=
  let kept := match pieces path with
    | [] => []
    | p :: ps =>
      (if p.isEmpty || (p == ['.'] && isAbsolute path) then [] else [p]) ++
        ps.filter fun (q : List Char) => !(q.isEmpty || q == ['.'])
  kept.map String.ofList

/-- Whether the last names of `path` are those of `tail`. -/
def endsWith (path tail : String) : Bool :=
  if isAbsolute tail then isAbsolute path && names path == names tail
  else (names tail).isSuffixOf (names path)

/-- A relative path followed from the directory `dir`; an absolute one stands. Then
`reference` is followed from there. -/
def resolve (dir base reference : String) : String :=
  join (if isAbsolute base then base else join dir base) reference

end RasterFallback.Files
