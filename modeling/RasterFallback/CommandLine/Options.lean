import RasterFallback.Config.Basic

/-!
The options of the command line. An option is given at most once, except the
arguments of the renderer; what stands behind `--` is no option.
-/
namespace RasterFallback.CommandLine

/-- What one run is asked to do. -/
structure Options where
  /-- The stylesheet to read; a single hyphen is the standard input. -/
  input : String
  output : Option String := none
  config : Option String := none
  fallbackSelector : Option String := none
  basePath : Option String := none
  dest : Option String := none
  disableConvert : Bool := false
  renderer : Option String := none
  rendererArgs : List String := []
  deriving DecidableEq, Repr

inductive Request where
  | run (o : Options)
  | version
  | help
  deriving DecidableEq, Repr

inductive UsageFault where
  | unknown (arg : String)
  | missingInput
  | missingValue (option : String)
  | unneededValue (option : String)
  | emptyValue (name : String)
  | repeated (option : String)
  deriving DecidableEq, Repr

def UsageFault.message : UsageFault → String
  | unknown arg => "unexpected argument '" ++ arg ++ "'"
  | missingInput => "the input is missing"
  | missingValue option => "'" ++ option ++ "' needs a value"
  | unneededValue option => "'" ++ option ++ "' takes no value"
  | emptyValue name => "'" ++ name ++ "' must not be empty"
  | repeated option => "'" ++ option ++ "' stands more than once"

inductive Key where
  | output
  | config
  | fallbackSelector
  | basePath
  | dest
  | renderer
  | rendererArg
  deriving DecidableEq, Repr

namespace Key

def name : Key → String
  | output => "output"
  | config => "config"
  | fallbackSelector => "fallback-selector"
  | basePath => "base-path"
  | dest => "dest"
  | renderer => "renderer"
  | rendererArg => "renderer-arg"

def all : List Key := [output, config, fallbackSelector, basePath, dest, renderer, rendererArg]

def ofName? (s : String) : Option Key := all.find? fun k => k.name = s

def ofLetter? : Char → Option Key
  | 'o' => some output
  | 'c' => some config
  | _ => none

def flag (k : Key) : String := "--" ++ k.name

def isPath : Key → Bool
  | fallbackSelector => false
  | rendererArg => false
  | _ => true

end Key

structure Given where
  input : Option String := none
  options : Options := { input := "" }
  deriving DecidableEq, Repr

namespace Given

/-- The value of a key that may stand only once. -/
def value? (g : Given) : Key → Option String
  | .output => g.options.output
  | .config => g.options.config
  | .fallbackSelector => g.options.fallbackSelector
  | .basePath => g.options.basePath
  | .dest => g.options.dest
  | .renderer => g.options.renderer
  | .rendererArg => none

def set (g : Given) (k : Key) (v : String) : Except UsageFault Given :=
  if k.isPath && v.isEmpty then .error (.emptyValue k.flag)
  else if (g.value? k).isSome then .error (.repeated k.flag)
  else
    let o := g.options
    .ok { g with options := match k with
      | .output => { o with output := some v }
      | .config => { o with config := some v }
      | .fallbackSelector => { o with fallbackSelector := some v }
      | .basePath => { o with basePath := some v }
      | .dest => { o with dest := some v }
      | .renderer => { o with renderer := some v }
      | .rendererArg => { o with rendererArgs := o.rendererArgs ++ [v] } }

def disable (g : Given) : Except UsageFault Given :=
  if g.options.disableConvert then .error (.repeated "--disable-convert")
  else .ok { g with options := { g.options with disableConvert := true } }

def take (g : Given) (arg : String) : Except UsageFault Given :=
  match g.input with
  | some _ => .error (.unknown arg)
  | none => if arg.isEmpty then .error (.emptyValue "input") else .ok { g with input := some arg }

def takeAll (g : Given) (args : List String) : Except UsageFault Given :=
  args.foldlM take g

def finish (g : Given) : Except UsageFault Request :=
  match g.input with
  | some input => .ok (.run { g.options with input := input })
  | none => .error .missingInput

end Given

inductive Argument where
  | plain (text : String)
  /-- Two hyphens alone. -/
  | divider
  | long (name : String) (value : Option String)
  /-- The characters behind one hyphen. -/
  | short (letter : Char) (rest : List Char)
  deriving DecidableEq, Repr

/-- Name and value around the first equals sign. -/
def splitValue (s : List Char) : String × Option String :=
  (String.ofList (s.takeWhile (· != '=')),
    match s.dropWhile (· != '=') with
    | _ :: v => some (String.ofList v)
    | [] => none)

def Argument.ofText (arg : String) : Argument :=
  match arg.toList with
  | ['-', '-'] => .divider
  | '-' :: '-' :: s => .long (splitValue s).1 (splitValue s).2
  | '-' :: c :: s => .short c s
  | _ => .plain arg

/-- A value that stands on its own may not look like an option, except for an
argument of the renderer. -/
def Key.accepts (k : Key) (arg : String) : Bool :=
  k == .rendererArg ||
    match Argument.ofText arg with
    | .plain _ => true
    | _ => false

inductive Next where
  | go (g : Given)
  /-- The value of the key comes next. -/
  | await (k : Key)
  /-- No more options. -/
  | stop
  | answer (r : Request)

def Given.step (g : Given) (arg : String) : Except UsageFault Next :=
  match Argument.ofText arg with
  | .plain text => .go <$> g.take text
  | .divider => .ok .stop
  | .long "disable-convert" value =>
    if value.isSome then .error (.unneededValue arg) else .go <$> g.disable
  | .long "version" value => if value.isSome then .error (.unneededValue arg) else .ok (.answer .version)
  | .long "help" value => if value.isSome then .error (.unneededValue arg) else .ok (.answer .help)
  | .long name value =>
    match Key.ofName? name, value with
    | some k, some v => .go <$> g.set k v
    | some k, none => .ok (.await k)
    | none, _ => .error (.unknown arg)
  | .short 'V' _ => .ok (.answer .version)
  | .short 'h' _ => .ok (.answer .help)
  | .short letter rest =>
    match Key.ofLetter? letter, rest with
    | some k, [] => .ok (.await k)
    | some k, '=' :: v => .go <$> g.set k (String.ofList v)
    | some k, v => .go <$> g.set k (String.ofList v)
    | none, _ => .error (.unknown arg)

def Given.read (g : Given) : List String → Except UsageFault Request
  | [] => g.finish
  | arg :: args => do
    match ← g.step arg with
    | .go g => g.read args
    | .stop => (← g.takeAll args).finish
    | .answer r => .ok r
    | .await k =>
      match args with
      | [] => .error (.missingValue k.flag)
      | v :: args => if k.accepts v then (← g.set k v).read args else .error (.missingValue k.flag)

def Request.ofArgs (args : List String) : Except UsageFault Request := Given.read {} args

/-- Settings with the options in place of what they say. -/
def Options.apply (o : Options) (c : Config) : Config :=
  { fallbackSelector := o.fallbackSelector.getD c.fallbackSelector
    basePath := o.basePath.getD c.basePath
    dest := o.dest.getD c.dest
    disableConvert := o.disableConvert || c.disableConvert
    renderer :=
      { program := o.renderer.getD c.renderer.program
        args := if o.rendererArgs.isEmpty then c.renderer.args else o.rendererArgs } }

end RasterFallback.CommandLine
