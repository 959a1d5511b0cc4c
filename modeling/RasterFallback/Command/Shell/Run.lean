import RasterFallback.Command.Printing
import RasterFallback.Command.Shell.Expansion
import RasterFallback.Command.Shell.Parser

/-!
Running a script. Every command gets its channels, runs to its end, and what it
printed goes where its channels lead.
-/
namespace RasterFallback.Command.Shell
open RasterFallback.Text RasterFallback.Files

/-- Where printed bytes go. -/
inductive Sink where
  | stdout
  | stderr
  | file (path : String)
  | nowhere
  deriving DecidableEq, Repr

structure Channels where
  input : List UInt8 := []
  output : Sink := .stdout
  complaints : Sink := .stderr
  deriving DecidableEq, Repr

/-- How far a script has come. `ended` holds once it has asked to stop, and `signal`
is what it was stopped by. -/
structure Session where
  values : Values
  files : Tree
  stdin : List UInt8 := []
  stdout : List UInt8 := []
  stderr : List UInt8 := []
  ended : Bool := false
  signal : Option Nat := none

namespace Session

def print (s : Session) (bytes : List UInt8) : Sink → Session
  | .stdout => { s with stdout := s.stdout ++ bytes }
  | .stderr => { s with stderr := s.stderr ++ bytes }
  | .nowhere => s
  | .file path =>
    match s.files.read path with
    | .error _ => s
    | .ok before =>
      match s.files.write path (before ++ bytes) with
      | .ok t => { s with files := t }
      | .error _ => s

def leave (s : Session) (status : Nat) : Session :=
  { s with values := { s.values with status := status } }

/-- Ends a command with a complaint that names script and line. -/
def complain (s : Session) (sink : Sink) (line status : Nat) (text : String) : Session :=
  (s.print (bytesOf (s.values.name ++ ": " ++ toString line ++ ": " ++ text ++ "\n")) sink).leave status

end Session

def isMissing (e : SystemError) : Bool := e == .notFound || e == .notDirectory

/-- How a complaint says why a file was not opened. -/
def openFault (e : SystemError) (writing : Bool) : String :=
  if isMissing e then if writing then "Directory nonexistent" else "No such file" else e.wording

/-- Opens a file to write. Unless `keep`, what it held is gone. -/
def openFile (t : Tree) (path : String) (keep : Bool) : Except SystemError Tree :=
  match keep, t.read path with
  | true, .ok content => t.write path content
  | _, _ => t.write path []

def redirect (s : Session) (line : Nat) (ch : Channels) (r : Redirection) :
    Except Session (Session × Channels) :=
  let target := s.values.text r.target
  let lead (sink : Sink) : Channels :=
    match r.channel with
    | 1 => { ch with output := sink }
    | 2 => { ch with complaints := sink }
    | _ => ch
  match r.direction with
  | .read =>
    match s.files.device? target, s.files.read target with
    | some .stdin, _ => .ok (s, ch)
    | _, .ok content => .ok (s, if r.channel = 0 then { ch with input := content } else ch)
    | _, .error .isDirectory => .ok (s, ch)
    | _, .error e => .error (s.complain ch.complaints line 2
        ("cannot open " ++ target ++ ": " ++ openFault e false))
  | .share =>
    match target with
    | "1" => .ok (s, lead ch.output)
    | "2" => .ok (s, lead ch.complaints)
    | "-" => .ok (s, lead .nowhere)
    | _ => .error (s.complain ch.complaints line 2 (target ++ ": bad fd number"))
  | direction =>
    match s.files.device? target with
    | some .stdout => .ok (s, lead ch.output)
    | some .stderr => .ok (s, lead ch.complaints)
    | _ =>
      match openFile s.files target (direction == .append) with
      | .ok t => .ok ({ s with files := t }, lead (.file target))
      | .error e => .error (s.complain ch.complaints line 2
          ("cannot create " ++ target ++ ": " ++ openFault e true))

def redirectAll (line : Nat) : List Redirection → Session → Channels →
    Except Session (Session × Channels)
  | [], s, ch => .ok (s, ch)
  | r :: rs, s, ch => do
    let (s, ch) ← redirect s line ch r
    redirectAll line rs s ch

/-- The code that `exit` is given, the one of the last command if none. -/
def exitCode? (s : Session) : List String → Option Nat
  | [] => some s.values.status
  | arg :: _ =>
    if !arg.isEmpty && arg.all Char.isDigit then some (natOfDigits arg.toList % 256) else none

/-- Runs a program outside the shell. Complaints about its name have `front` before it. -/
def runProgram (launch : Launcher Unit) (s : Session) (ch : Channels) (line : Nat) (front : String)
    (c : Command) : Session :=
  match c.run launch () s.files with
  | (.ok output, (), t) =>
    let s := ({ s with files := t }.print output.stdout ch.output).print output.stderr ch.complaints
    s.leave (match output.status with
      | .exited code => code
      | .signalled n => 128 + n)
  | (.error (.system e), (), _) =>
    if isMissing e then s.complain ch.complaints line 127 (front ++ c.program ++ ": not found")
    else
      s.complain ch.complaints line (if e = .nameTooLong then 127 else 126)
        (front ++ c.program ++ ": " ++ e.wording)
  | (.error fault, (), _) =>
    s.complain ch.complaints line 126 (front ++ c.program ++ ": " ++ fault.message)

/-- The signal that options of `kill` ask for, and what it goes to. -/
def killRequest : List String → Option String × List String
  | "-s" :: name :: targets => (some name, targets)
  | arg :: targets =>
    if arg.startsWith "-" then (some (String.ofList (arg.toList.drop 1)), targets)
    else (none, arg :: targets)
  | [] => (none, [])

/-- A signal by its name or its number. -/
def signalOf? (text : String) : Option Nat :=
  if !text.isEmpty && text.all Char.isDigit then some (natOfDigits text.toList)
  else Status.signalNumber? text

/-- Sends a signal. The script can only reach itself. -/
def runKill (s : Session) (ch : Channels) (line : Nat) (args : List String) : Session :=
  let (name, targets) := killRequest args
  match name.elim (some 15) signalOf? with
  | none => s.complain ch.complaints line 2 ("kill: invalid signal number or name: " ++ name.getD "")
  | some n =>
    if targets = [toString processNumber] then
      if Status.isHarmless n then s.leave 0 else { s with ended := true, signal := some n }
    else s.complain ch.complaints line 1 "kill: No such process"

/-- Runs a command with its arguments. Some the shell knows itself. -/
def runArguments (launch : Launcher Unit) (s : Session) (ch : Channels) (line : Nat) :
    List String → Session
  | [] => s.leave 0
  | ":" :: _ => s.leave 0
  | "true" :: _ => s.leave 0
  | "false" :: _ => s.leave 1
  | "echo" :: args => (s.print (echoEscaped args) ch.output).leave 0
  | "printf" :: format :: args =>
    match printf? format args with
    | some bytes => (s.print bytes ch.output).leave 0
    | none => s.complain ch.complaints line 2 ("printf: " ++ format ++ ": invalid directive")
  | "printf" :: [] => s.complain ch.complaints line 2 "printf: usage: printf format [arg ...]"
  | "exit" :: args =>
    match exitCode? s args with
    | some code => { s.leave code with ended := true }
    | none =>
      { s.complain ch.complaints line 2 ("exit: Illegal number: " ++ args.headD "") with ended := true }
  | "kill" :: args => runKill s ch line args
  | "exec" :: [] => s.leave 0
  | "exec" :: program :: args =>
    { runProgram launch s ch line "exec: " ⟨program, args, ch.input⟩ with ended := true }
  | program :: args => runProgram launch s ch line "" ⟨program, args, ch.input⟩

def runSimple (launch : Launcher Unit) (s : Session) (c : Simple) : Session :=
  match redirectAll c.line c.redirections s { input := s.stdin } with
  | .error s => s
  | .ok (s, ch) => runArguments launch s ch c.line (c.words.flatMap s.values.expand)

/-- A command is due after one with this status. -/
def Link.due (status : Nat) : Link → Bool
  | .always => true
  | .onSuccess => status == 0
  | .onFailure => status != 0

/-- Runs the commands of a script in their order. -/
def runScript (launch : Launcher Unit) : Script → Session → Session
  | [], s => s
  | (link, c) :: rest, s =>
    if s.ended then s
    else runScript launch rest (if link.due s.values.status then runSimple launch s c else s)

def runText (launch : Launcher Unit) (text : List Char) (s : Session) : Session :=
  match Script.parse text with
  | .ok script => runScript launch script s
  | .error fault => s.complain .stderr fault.line 2 fault.message

def Session.result (s : Session) : Output × Tree :=
  (⟨s.signal.elim (.exited s.values.status) .signalled, s.stdout, s.stderr⟩, s.files)

end RasterFallback.Command.Shell
