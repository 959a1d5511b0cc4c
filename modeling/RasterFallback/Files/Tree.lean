import RasterFallback.Files.Entry
import RasterFallback.Files.Path
import RasterFallback.Text.Utf8

/-!
A tree of files. Every file and directory is found by the names that lead to
it from the root, and has the time of its last change.
-/
namespace RasterFallback.Files
open RasterFallback.Text

/-- The names from the root to an entry. -/
abbrev Place := List String

/-- The path of a place from the root. -/
def pathOf (p : Place) : String := String.ofList ('/' :: joinSlash (p.map String.toList))

/-- `clock` is the time that changes get, and `home` the working directory, where relative
paths start, unless it was removed. The root is always there. -/
structure Tree where
  entries : List (Place × Entry) := []
  clock : Nat := 0
  home : Option Place := some []
  deriving DecidableEq, Repr

namespace Tree

def get? (t : Tree) (p : Place) : Option Entry :=
  if p = [] then some (.dir t.clock) else t.entries.lookup p

def set (t : Tree) (p : Place) (e : Entry) : Tree :=
  { t with entries := (p, e) :: t.entries.filter fun q => q.1 != p }

/-- Removes the entry at a place and all below it, and with them the working directory if
it is there. A directory that is made in its place is another one. -/
def erase (t : Tree) (p : Place) : Tree :=
  { t with entries := t.entries.filter fun q => !p.isPrefixOf q.1
           home := t.home.filter fun dir => !p.isPrefixOf dir }

/-- The longest name of an entry, in bytes. -/
def nameLimit : Nat := 255

/-- Paths have fewer bytes than this. -/
def pathLimit : Nat := 4096

/-- Follows names from a place. Every place on the way must be a directory; the
last need not exist. -/
def follow (t : Tree) : Place → List String → Except SystemError Place
  | place, [] => .ok place
  | place, name :: rest =>
    match t.get? place with
    | none => .error .notFound
    | some (.dir _) =>
      if name = "." then t.follow place rest
      else if name = ".." then t.follow place.dropLast rest
      else if nameLimit < name.utf8ByteSize then .error .nameTooLong
      else t.follow (place ++ [name]) rest
    | some _ => .error .notDirectory

/-- The names that a path leads through, dots included. -/
def steps (path : String) : List String :=
  ((splitSlash path.toList).filter fun p => !p.isEmpty).map String.ofList

/-- The place of the working directory, which is not found where it was removed. -/
def homePlace (t : Tree) : Except SystemError Place :=
  match t.home with
  | some dir => .ok dir
  | none => .error .notFound

/-- Follows `reference` from the directory `base`. Only where that is relative the working
directory is asked for. -/
def resolvePath (t : Tree) (base reference : String) : Except SystemError String :=
  if isAbsolute base then .ok (join base reference)
  else do
    let dir ← t.homePlace
    .ok (resolve (pathOf dir) base reference)

/-- Where the names of a path start. -/
def origin (t : Tree) (path : String) : Except SystemError Place :=
  if isAbsolute path then .ok [] else t.homePlace

def checkPath (path : String) : Except SystemError Unit :=
  if path.toList.contains '\x00' then .error .nullInPath
  else if path.isEmpty then .error .notFound
  else if pathLimit ≤ path.utf8ByteSize then .error .nameTooLong
  else .ok ()

def endsInSlash (path : String) : Bool := path.toList.getLast? == some '/'

/-- The place that a path leads to. Behind a slash at the end there
must be a directory. -/
def locate (t : Tree) (path : String) : Except SystemError Place := do
  checkPath path
  t.follow (← t.origin path) (steps path ++ if endsInSlash path then ["."] else [])

def stat (t : Tree) (path : String) : Except SystemError Entry := do
  match t.get? (← t.locate path) with
  | some e => .ok e
  | none => .error .notFound

def isDir (t : Tree) (path : String) : Bool :=
  match t.stat path with
  | .ok e => e.isDir
  | .error _ => false

def device? (t : Tree) (path : String) : Option Device :=
  match t.stat path with
  | .ok (.device d _) => some d
  | _ => none

/-- The directory of a path and the last name, which may be new. -/
def slot (t : Tree) (path : String) : Except SystemError (Place × Option String) := do
  checkPath path
  match (steps path).getLast? with
  | none => .ok ([], none)
  | some last =>
    let dir ← t.follow (← t.origin path) (steps path).dropLast
    match t.get? dir with
    | none => .error .notFound
    | some (.dir _) =>
      if last = "." || last = ".." then .ok (dir, none)
      else if nameLimit < last.utf8ByteSize then .error .nameTooLong
      else .ok (dir, some last)
    | some _ => .error .notDirectory

/-- A new entry, which changes its directory too. -/
def add (t : Tree) (dir : Place) (name : String) (e : Entry) : Tree :=
  let t := t.set (dir ++ [name]) e
  match t.get? dir with
  | some (.dir _) => if dir = [] then t else t.set dir (.dir t.clock)
  | _ => t

def mkdir (t : Tree) (path : String) : Except SystemError Tree := do
  match ← t.slot path with
  | (_, none) => .error .alreadyExists
  | (dir, some name) =>
    if (t.get? (dir ++ [name])).isSome then .error .alreadyExists
    else .ok (t.add dir name (.dir t.clock))

/-- Makes a directory in an existing one, unless it is there. -/
def mkdirOrKeep (t : Tree) (path : String) : Except SystemError Unit × Tree :=
  match t.mkdir path with
  | .ok made => (.ok (), made)
  | .error e => if t.isDir path then (.ok (), t) else (.error e, t)

/-- Makes a directory with all that lead to it. `fuel` bounds their number. Also
when it fails, what was made on the way stays. -/
def mkdirs : Nat → Tree → String → Except SystemError Unit × Tree
  | 0, t, _ => (.error .noRoot, t)
  | fuel + 1, t, path =>
    if path.isEmpty then (.ok (), t)
    else
      match t.mkdir path with
      | .ok made => (.ok (), made)
      | .error .notFound =>
        match parent? path with
        | none => (.error .noRoot, t)
        | some up =>
          match mkdirs fuel t up with
          | (.ok (), t) => t.mkdirOrKeep path
          | failed => failed
      | .error _ => t.mkdirOrKeep path

/-- Makes a directory and all that lead to it, unless they are there. -/
def createDirAll (t : Tree) (path : String) : Except SystemError Unit × Tree :=
  mkdirs (path.length + 1) t path

/-- Writes a file in an existing directory. What a device is given is not kept. -/
def write (t : Tree) (path : String) (content : List UInt8) : Except SystemError Tree := do
  match ← t.slot path with
  | (_, none) => .error .isDirectory
  | (dir, some name) =>
    match t.get? (dir ++ [name]) with
    | some (.dir _) => .error .isDirectory
    | some (.file ..) =>
      if endsInSlash path then .error .notDirectory
      else .ok (t.set (dir ++ [name]) (.file content t.clock))
    | some (.device d _) =>
      if endsInSlash path then .error .notDirectory
      else match d.refusal? content with
        | some e => .error e
        | none => .ok t
    | none =>
      if endsInSlash path then .error .isDirectory
      else .ok (t.add dir name (.file content t.clock))

/-- The bytes of a file. A device holds none. -/
def read (t : Tree) (path : String) : Except SystemError (List UInt8) := do
  match ← t.stat path with
  | .dir _ => .error .isDirectory
  | .file content _ => .ok content
  | .device d _ => if d = .terminal then .error .noDevice else .ok []

def readText (t : Tree) (path : String) : Except SystemError String := do
  match ofUtf8? (← t.read path) with
  | some text => .ok text
  | none => .error .invalidText

/-- Sets the time of a file or directory. -/
def touch (t : Tree) (path : String) (time : Nat) : Except SystemError Tree := do
  let p ← t.locate path
  match t.get? p with
  | some e => .ok (t.set p (e.touch time))
  | none => .error .notFound

/-- Sets the time of a file. Where a path leads to anything else, nothing changes. -/
def touchFile (t : Tree) (path : String) (time : Nat) : Tree :=
  match t.locate path with
  | .error _ => t
  | .ok p =>
    match t.get? p with
    | some (.file content _) => t.set p (.file content time)
    | _ => t

/-- Removes a file, or a directory with all in it. -/
def remove (t : Tree) (path : String) : Except SystemError Tree := do
  let p ← t.locate path
  if (t.get? p).isNone then .error .notFound
  else if p = [] then .error .permissionDenied
  else .ok (t.erase p)

/-- Writes a file and makes the directories that lead to it. -/
def writeAll (t : Tree) (path : String) (content : List UInt8) : Except SystemError Tree :=
  match (parent? path).map t.createDirAll with
  | some (.error e, _) => .error e
  | some (.ok (), t) => t.write path content
  | none => t.write path content

/-- The places below a directory with their entries, as seen from there. -/
def below (t : Tree) (dir : Place) : List (Place × Entry) :=
  t.entries.filterMap fun q =>
    match dir.isPrefixOf? q.1 with
    | some (n :: names) => some (n :: names, q.2)
    | _ => none

/-- An entry as a line of a listing: directories end in a slash. -/
def line (q : Place × Entry) : String :=
  "/".intercalate q.1 ++ if q.2.isDir then "/" else ""

/-- The entries below the working directory. -/
def belowHome (t : Tree) : List (Place × Entry) := t.home.toList.flatMap t.below

/-- All paths below the working directory, in the order of their characters. -/
def listing (t : Tree) : List String :=
  (t.belowHome.map line).mergeSort fun a b => decide (a ≤ b)

/-- The files below the working directory, with their content. -/
def filesBelow (t : Tree) : List (String × List UInt8) :=
  t.belowHome.filterMap fun q =>
    match q.2 with
    | .file content _ => some (line q, content)
    | _ => none

@[simp] theorem get?_set_self (t : Tree) {p : Place} (hp : p ≠ []) (e : Entry) :
    (t.set p e).get? p = some e := by
  simp [get?, set, hp]

theorem get?_set_ne (t : Tree) {p q : Place} (h : q ≠ p) (e : Entry) :
    (t.set p e).get? q = t.get? q := by
  have key : ∀ l : List (Place × Entry), (l.filter fun x => x.1 != p).lookup q = l.lookup q := by
    intro l
    induction l with
    | nil => rfl
    | cons x l ih =>
      obtain ⟨k, v⟩ := x
      by_cases hk : k = p
      · subst hk
        have : (q == k) = false := by simpa using h
        simp [List.lookup_cons, this, ih]
      · have hkp : (k != p) = true := by simpa using hk
        rw [List.filter_cons_of_pos (by simpa using hk)]
        simp only [List.lookup_cons]
        split <;> simp_all
  have : (q == p) = false := by simpa using h
  simp [get?, set, List.lookup_cons, this, key]

end Tree

end RasterFallback.Files
