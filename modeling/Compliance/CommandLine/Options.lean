/-! # Command line options

Options and paths may stand in any order. A long option takes its value behind an equals sign or as
the next argument; short options may be run together, and the value of one may be the rest of its
argument. Behind two hyphens everything is a path. Of an option that is given twice the last value
counts.

* `readArgs`: the arguments in order, as they are understood.
* `readRequest`: what they ask for.
-/

namespace Compliance.CommandLine

/-- The formats of output that can be asked for. -/
inductive Format where
  | text
  | json
  | junit
deriving DecidableEq, Repr

def Format.name : Format → String
  | .text => "text"
  | .json => "json"
  | .junit => "junit"

def Format.ofName? (s : String) : Option Format :=
  [Format.text, Format.json, Format.junit].find? fun f => f.name == s

/-- The options by what they are for. -/
inductive Flag where
  | verbose
  | strict
  | format
  | output
  | config
  | version
  | help
deriving DecidableEq, Repr

def Flag.takesValue : Flag → Bool
  | .format => true
  | .output => true
  | .config => true
  | _ => false

def Flag.ofLong? (s : String) : Option Flag :=
  [("--verbose", Flag.verbose), ("--strict", .strict), ("--output-format", .format),
    ("--output", .output), ("--config", .config), ("--version", .version),
    ("--help", .help)].lookup s

def Flag.ofLetter? : Char → Option Flag
  | 'v' => some .verbose
  | 's' => some .strict
  | 'f' => some .format
  | 'o' => some .output
  | _ => none

/-- An argument as it was understood. -/
inductive Given where
  | flag (f : Flag)
  | value (f : Flag) (text : String)
  | path (text : String)

/-- The arguments do not fit the options. -/
inductive UsageFault where
  | unknownOption
  | missingValue
  | unwantedValue
  | badFormat
  | badConfig
deriving DecidableEq, Repr

def UsageFault.message : UsageFault → String
  | .unknownOption => "No such option."
  | .missingValue => "An option requires an argument."
  | .unwantedValue => "An option does not take a value."
  | .badFormat => "The output format is not one of 'text', 'json', 'junit'."
  | .badConfig => "The configuration file does not exist."

/-- An option that needs a value, with the next argument as one. -/
def takeNext (f : Flag) : List String → Except UsageFault (Given × List String)
  | [] => .error .missingValue
  | value :: rest => .ok (.value f value, rest)

/-- A long option, perhaps with its value behind an equals sign. -/
def readLong (f : Flag) (attached : Option String) (rest : List String) :
    Except UsageFault (Given × List String) :=
  match f.takesValue, attached with
  | true, some value => .ok (.value f value, rest)
  | true, none => takeNext f rest
  | false, some _ => .error .unwantedValue
  | false, none => .ok (.flag f, rest)

/-- A run of letters. The rest of the run is the value of the first letter that needs one. -/
def readLetters (rest : List String) : List Char → Except UsageFault (List Given × List String)
  | [] => .ok ([], rest)
  | c :: cs =>
    match Flag.ofLetter? c with
    | none => .error .unknownOption
    | some f =>
      if f.takesValue then
        if cs.isEmpty then (takeNext f rest).map fun (g, rest) => ([g], rest)
        else .ok ([.value f (String.ofList cs)], rest)
      else (readLetters rest cs).map fun (gs, rest) => (.flag f :: gs, rest)

/-- The name of an option and the value behind an equals sign. -/
def splitEquals (arg : List Char) : String × Option String :=
  match arg.dropWhile (· != '=') with
  | _ :: value => (String.ofList (arg.takeWhile (· != '=')), some (String.ofList value))
  | [] => (String.ofList arg, none)

/-- One argument that begins with a hyphen and is more than that. -/
def readOption (arg : List Char) (rest : List String) :
    Except UsageFault (List Given × List String) :=
  let (name, attached) := splitEquals arg
  match Flag.ofLong? name with
  | some f => (readLong f attached rest).map fun (g, rest) => ([g], rest)
  | none =>
    match arg with
    | '-' :: '-' :: _ => .error .unknownOption
    | _ => readLetters rest (arg.drop 1)

/-- The arguments in order, as they are understood. Every step takes an argument at least. -/
def readArgs : Nat → List String → Except UsageFault (List Given)
  | 0, _ => .ok []
  | _, [] => .ok []
  | fuel + 1, arg :: rest =>
    if arg = "--" then .ok (rest.map .path)
    else
      match arg.toList with
      | '-' :: c :: cs => do
        let (gs, rest) ← readOption ('-' :: c :: cs) rest
        return gs ++ (← readArgs fuel rest)
      | _ => do return .path arg :: (← readArgs fuel rest)

structure Options where
  paths : List String
  verbose : Bool
  strict : Bool
  format : Option Format
  output : Option String
  config : Option String

inductive Request where
  | version
  | help
  | run (o : Options)

namespace Given

/-- The argument is this option, which takes no value. -/
def isFlag (f : Flag) : Given → Bool
  | .flag g => f = g
  | _ => false

/-- The path that the argument is. -/
def path? : Given → Option String
  | .path text => some text
  | _ => none

/-- A text that may name a file. -/
def text? : Given → Option String
  | .flag _ => none
  | .value _ text => some text
  | .path text => some text

/-- The value that the argument gives to this option. -/
def valueOf? (f : Flag) : Given → Option String
  | .value g text => if f = g then some text else none
  | _ => none

end Given

/-- The last value of an option. -/
def lastValue? (f : Flag) (gs : List Given) : Option String :=
  (gs.filterMap (·.valueOf? f)).getLast?

/-- The texts among the arguments that may name files. -/
def namesOf (args : List String) : List String :=
  match readArgs args.length args with
  | .ok gs => gs.filterMap (·.text?)
  | .error _ => []

/-- What the arguments ask for. A question about the program comes before everything else but
arguments that cannot be understood; `exists_` tells which configuration files are there. -/
def readRequest (exists_ : String → Bool) (args : List String) : Except UsageFault Request := do
  let gs ← readArgs args.length args
  match gs.find? fun g => g.isFlag .version || g.isFlag .help with
  | some g => return if g.isFlag .version then .version else .help
  | none =>
    let format ←
      match lastValue? .format gs with
      | none => pure none
      | some s =>
        match Format.ofName? s with
        | some f => pure (some f)
        | none => throw .badFormat
    let config := lastValue? .config gs
    if config.any fun s => !exists_ s then throw .badConfig
    return .run {
      paths := gs.filterMap (·.path?)
      verbose := gs.any (·.isFlag .verbose)
      strict := gs.any (·.isFlag .strict)
      format
      output := lastValue? .output gs
      config }

end Compliance.CommandLine
