import RasterFallback.Files.Tree

/-!
The files that are there before anything is written: the usual directories, the
devices, files that only hold data, and the files of programs.
-/
namespace RasterFallback.Files

def standardDirs : List Place :=
  (["bin", "boot", "dev", "etc", "home", "lib", "lib64", "media", "mnt", "opt", "proc", "root",
    "run", "sbin", "srv", "sys", "tmp", "usr", "var"].map fun name => [name]) ++
  [["dev", "fd"], ["proc", "self"], ["proc", "self", "fd"], ["usr", "bin"], ["usr", "lib"],
    ["usr", "local"], ["usr", "local", "bin"], ["usr", "sbin"], ["usr", "share"], ["var", "tmp"]]

/-- The devices with their places. The channels of a program have several. -/
def standardDevices : List (Place × Device) :=
  ([("null", .null), ("full", .full), ("zero", .endless), ("random", .endless),
    ("urandom", .endless), ("tty", .terminal), ("stdin", .stdin), ("stdout", .stdout),
    ("stderr", .stderr)].map fun q => (["dev", q.1], q.2)) ++
  [["dev", "fd"], ["proc", "self", "fd"]].flatMap fun dir =>
    [(dir ++ ["0"], .stdin), (dir ++ ["1"], .stdout), (dir ++ ["2"], .stderr)]

/-- Where programs are, in the order of the search for a name. -/
def programDirs : List Place := [["usr", "bin"], ["bin"]]

/-- The names of the programs that there are. -/
def programNames : List String := ["cat", "cp", "echo", "false", "sh", "touch", "true"]

/-- The first bytes of a program. They are no text. -/
def programBytes : List UInt8 := [0x7F, 0x45, 0x4C, 0x46, 2, 1, 1, 0, 0x80]

/-- Files below `etc` that hold text, with their first line. -/
def standardTexts : List (String × String) :=
  [("passwd", "root:x:0:0:root:/root:/bin/sh"), ("group", "root:x:0:"),
    ("hosts", "127.0.0.1\tlocalhost"), ("hostname", "localhost")]

/-- The entries of a system, all last changed at `time`. -/
def standardEntries (time : Nat) : List (Place × Entry) :=
  (standardDirs.map fun p => (p, .dir time)) ++
  (standardDevices.map fun q => (q.1, .device q.2 time)) ++
  (programDirs.flatMap fun dir =>
    programNames.map fun name => (dir ++ [name], .file programBytes time)) ++
  (standardTexts.map fun q =>
    (["etc", q.1], .file (Text.utf8Bytes (q.2 ++ "\n").toList) time))

/-- A system with an empty directory to start in. -/
def Tree.standard (clock : Nat) (home : Place) : Tree :=
  let above := (List.range home.length).map fun i => (home.take (i + 1), Entry.dir clock)
  let bare : Tree := { entries := standardEntries clock, clock := clock, home := some home }
  above.foldl (fun t q => t.set q.1 q.2) bare

end RasterFallback.Files
