import RasterFallback.Command.Programs
import RasterFallback.CommandLine.Run

/-!
The program on the files below the working directory. They are read before the
run, and what the run changed is written when it is over. Renderers are the
programs of `Command.system`.
-/
namespace RasterFallback.CommandLine
open RasterFallback.Text RasterFallback.Files

def depthLimit : Nat := 64

/-- What is in a directory, down to a depth. What cannot be read is left out. -/
def entriesBelow : Nat → String → Place → IO (List (Place × Entry))
  | 0, _, _ => pure []
  | depth + 1, dir, place => do
    let mut found : List (Place × Entry) := []
    for e in ← (← IO.FS.realPath dir).readDir do
      let here := place ++ [e.fileName]
      let path := e.path.toString
      try
        let data ← e.path.metadata
        let time := data.modified.sec.toNat * 1000000000 + data.modified.nsec.toNat
        match data.type with
        | .dir =>
          let inner ← entriesBelow depth path here
          found := (here, .dir time) :: inner ++ found
        | .file =>
          let content ← IO.FS.readBinFile path
          found := (here, .file content.toList time) :: found
        | _ => pure ()
      catch _ => pure ()
    pure found

/-- A system with what is in the working directory. Changes are later than all that is there. -/
def readTree : IO Tree := do
  let dir := (← IO.currentDir).toString
  let home := names dir
  let below ← entriesBelow depthLimit dir home
  let clock := (below.map fun q => q.2.modified).foldl max 0 + 1
  let system := Tree.standard clock home
  pure { system with entries := below ++ system.entries }

def writeChanges (before after : Tree) : IO Unit := do
  for (place, entry) in after.entries do
    if before.get? place != some entry then
      match entry with
      | .dir _ => IO.FS.createDirAll (pathOf place)
      | .file content _ =>
        IO.FS.createDirAll (pathOf place.dropLast)
        IO.FS.writeBinFile (pathOf place) ⟨content.toArray⟩
      | .device .. => pure ()

/-- The rest of the standard input, if the arguments ask for it. -/
def readInput (t : Tree) (args : List String) : IO (List UInt8) := do
  match Request.ofArgs args with
  | .ok (.run o) =>
    if o.readsInput t then
      let bytes ← (← IO.getStdin).readBinToEnd
      pure bytes.toList
    else pure []
  | _ => pure []

end RasterFallback.CommandLine

open RasterFallback RasterFallback.CommandLine

def main (args : List String) : IO UInt32 := do
  let files ← readTree
  let launch := Command.system Command.shellDepth
  let stdin ← readInput files args
  let outcome := CommandLine.run args { stdin := stdin, files := files, launch := launch }
  writeChanges files outcome.files
  IO.print outcome.stdout
  IO.eprint outcome.stderr
  pure (UInt32.ofNat outcome.code)
