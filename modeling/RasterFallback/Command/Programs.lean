import RasterFallback.Command.Shell.Run
import RasterFallback.Files.Standard

/-!
The programs of a system: `true`, `false`, `echo`, `cat`, `cp`, `touch`, and
the shell. All other files are data.
-/
namespace RasterFallback.Command
open RasterFallback.Text RasterFallback.Files

/-- What a program makes of the files. -/
abbrev Effect := Tree → Output × Tree

/-- A program that prints, and fails if it complains. -/
def answering (stdout stderr : List UInt8) : Effect := fun t =>
  (⟨.exited (if stderr.isEmpty then 0 else 1), stdout, stderr⟩, t)

/-- A character that needs no quotes in the name of a file. -/
def isPlain (c : Char) : Bool := c.isAlphanum || ['/', '.', '-', '_', '+', ',', '%', '@'].contains c

/-- The name of a file in a complaint, quoted if it has to be. -/
def shownName (path : String) : String :=
  if !path.isEmpty && path.all isPlain then path
  else "\x27" ++ path.replace "\x27" "\x27\\\x27\x27" ++ "\x27"

/-- A complaint of a program about a file. -/
def complaint (words name : String) (e : SystemError) : List UInt8 :=
  bytesOf (words ++ name ++ ": " ++ e.wording ++ "\n")

def quotedName (path : String) : String := "\x27" ++ path ++ "\x27"

/-- What a program reads from a path. The standard input has a device. -/
def source (stdin : List UInt8) (t : Tree) (path : String) : Except SystemError (List UInt8) :=
  if t.device? path = some .stdin then .ok stdin else t.read path

/-- Prints the content of files, and what is read for a hyphen or for no file at all. -/
def cat (stdin : List UInt8) (paths : List String) : Effect := fun t =>
  let read (path : String) : List UInt8 × List UInt8 :=
    if path = "-" then (stdin, [])
    else
      match source stdin t path with
      | .ok content => (content, [])
      | .error e => ([], complaint "cat: " (shownName path) e)
  let parts := (if paths.isEmpty then ["-"] else paths).map read
  answering (parts.flatMap Prod.fst) (parts.flatMap Prod.snd) t

/-- Copies a file. What is copied to a channel is printed. -/
def cp (stdin : List UInt8) (paths : List String) : Effect := fun t =>
  match paths with
  | [path, dest] =>
    match source stdin t path with
    | .error .isDirectory =>
      let words := "cp: -r not specified; omitting directory " ++ quotedName path ++ "\n"
      answering [] (bytesOf words) t
    | .error e => answering [] (complaint "cp: cannot stat " (quotedName path) e) t
    | .ok content =>
      match t.device? dest with
      | some .stdout => answering content [] t
      | some .stderr => (⟨.exited 0, [], content⟩, t)
      | _ =>
        match t.write dest content with
        | .ok t => answering [] [] t
        | .error e =>
          answering [] (complaint "cp: cannot create regular file " (quotedName dest) e) t
  | _ => answering [] (bytesOf "cp: missing file operand\n") t

def touchOne (t : Tree) (path : String) : Except SystemError Tree :=
  match t.stat path with
  | .ok _ => t.touch path t.clock
  | .error _ => t.write path []

def touch (paths : List String) : Effect := fun t =>
  paths.foldl (fun (done : Output × Tree) path =>
    match touchOne done.2 path with
    | .ok t => (done.1, t)
    | .error e =>
      answering [] (done.1.stderr ++ complaint "touch: cannot touch " (quotedName path) e) done.2)
    (answering [] [] t)

/-- The shell: a script as an argument, in a file, or on the standard input. -/
def shell (launch : Launcher Unit) (c : Command) : Effect := fun t =>
  let run (script : String) (values : Shell.Values) (stdin : List UInt8) : Output × Tree :=
    (Shell.runText launch script.toList { values := values, files := t, stdin := stdin }).result
  match c.args with
  | [] => run (String.ofList (lenient c.stdin)) ⟨c.program, [], 0⟩ []
  | arg :: args =>
    if arg.startsWith "-" && arg.contains 'c' then
      match args with
      | [] => (⟨.exited 2, [], bytesOf (c.program ++ ": 0: -c requires an argument\n")⟩, t)
      | [script] => run script ⟨c.program, [], 0⟩ c.stdin
      | script :: self :: args => run script ⟨self, args, 0⟩ c.stdin
    else
      match t.readText arg with
      | .ok script => run script ⟨arg, args, 0⟩ c.stdin
      | .error e =>
        (⟨.exited 2, [], bytesOf (c.program ++ ": 0: cannot open " ++ arg ++ ": " ++
          Shell.openFault e false ++ "\n")⟩, t)

/-- What a command does whose program has this name. -/
def effect? (launch : Launcher Unit) (c : Command) (name : String) : Option Effect :=
  match name with
  | "true" => some fun t => (⟨.exited 0, [], []⟩, t)
  | "false" => some fun t => (⟨.exited 1, [], []⟩, t)
  | "echo" => some fun t => (⟨.exited 0, echo c.args, []⟩, t)
  | "cat" => some (cat c.stdin c.args)
  | "cp" => some (cp c.stdin c.args)
  | "touch" => some (touch c.args)
  | "sh" => some (shell launch c)
  | _ => none

def existing (t : Tree) (path : String) : Except SystemError Place := do
  let p ← t.locate path
  if (t.get? p).isSome then .ok p else .error .notFound

/-- Where a program is. One without a slash in its name is looked for in the
directories of programs. -/
def programPlace (t : Tree) (program : String) : Except SystemError Place :=
  if program.toList.contains '/' || program.isEmpty then existing t program
  else if Tree.nameLimit < program.utf8ByteSize then .error .nameTooLong
  else
    match programDirs.filterMap fun dir => (existing t (pathOf (dir ++ [program]))).toOption with
    | [] => .error .notFound
    | p :: _ => .ok p

/-- The name of the program at a place. -/
def programAt? (p : Place) : Option String :=
  if programDirs.contains p.dropLast then p.getLast? else none

/-- Starts programs. What is there and is no program may not be started. Shells may
start further shells to the depth `depth`. -/
def system : Nat → Launcher Unit
  | 0, _, (), t => (.error (.system .permissionDenied), (), t)
  | depth + 1, c, (), t =>
    match programPlace t c.program with
    | .error e => (.error (.system e), (), t)
    | .ok p =>
      match (programAt? p).bind (effect? (system depth) c) with
      | some run =>
        let (output, t) := run t
        (.ok output, (), t)
      | none => (.error (.system .permissionDenied), (), t)

/-- Shells in shells are followed down to here. -/
def shellDepth : Nat := 64

end RasterFallback.Command
