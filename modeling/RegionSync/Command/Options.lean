import RegionSync.Binary.Decimal
import RegionSync.Text.Split

/-!
Options of the command line. A long option stands after two dashes, its value behind an equals sign
or in the next argument; short ones can stand together after one dash, the value right behind the
last. Arguments are taken in order, so the first thing that is wrong, or a request for help,
decides.
-/

namespace RegionSync.Command

/-- What the command line asks for. -/
structure Options where
  seed : UInt64 := 42
  peers : Nat := 6
  scenario : String := "all"
  /-- How many seeds in a row. -/
  seeds : Nat := 1
  /-- Seconds of a scenario's main phase. -/
  duration : Double := .ofNat 10
  verbose : Bool := false
  json : Bool := false

inductive Switch
  | seed
  | peers
  | scenario
  | seeds
  | duration
  | verbose
  | json
  | help
  deriving DecidableEq, Repr

namespace Switch

def all : List Switch :=
  [seed, peers, scenario, seeds, duration, verbose, json, help]

def long : Switch → String
  | seed => "seed"
  | peers => "peers"
  | scenario => "scenario"
  | seeds => "seeds"
  | duration => "duration"
  | verbose => "verbose"
  | json => "json"
  | help => "help"

def short? : Switch → Option Char
  | seed => some 's'
  | peers => some 'p'
  | scenario => some 'S'
  | duration => some 'd'
  | verbose => some 'v'
  | help => some 'h'
  | _ => none

/-- The option has a value. -/
def isValued : Switch → Bool
  | verbose => false
  | json => false
  | help => false
  | _ => true

def ofLong? (name : List Char) : Option Switch :=
  all.find? fun s => s.long.toList == name

def ofShort? (c : Char) : Option Switch :=
  all.find? fun s => s.short? == some c

end Switch

inductive Refusal
  /-- The help is wanted. -/
  | help
  | usage (message : String)
  deriving DecidableEq, Repr

/-- An option as it is given, with its value if it has one. -/
structure Setting where
  switch : Switch
  value : String := ""

/-- What one or two arguments say: settings, up to a refusal, and the arguments that follow. -/
structure Reading where
  settings : List Setting
  refusal : Option Refusal
  rest : List String

namespace Reading

def refused (message : String) : Reading := ⟨[], some (.usage message), []⟩

/-- The argument can only be an option. -/
def isDashed (arg : String) : Bool :=
  match arg.toList with
  | '-' :: _ :: _ => true
  | _ => false

/-- An option with its value, which is given or the next argument. -/
def valued (switch : Switch) (value : Option String) (rest : List String) : Reading :=
  match value, rest with
  | some v, _ => ⟨[⟨switch, v⟩], none, rest⟩
  | none, v :: rest =>
    if isDashed v then refused s!"a value is required for --{switch.long}"
    else ⟨[⟨switch, v⟩], none, rest⟩
  | none, [] => refused s!"a value is required for --{switch.long}"

/-- A long option, without its dashes. -/
def long (body : List Char) (rest : List String) : Reading :=
  let (name, value) := match Text.cutFirst? '=' body with
    | some (name, value) => (name, some (String.ofList value))
    | none => (body, none)
  match Switch.ofLong? name with
  | none => refused s!"unexpected argument --{String.ofList name}"
  | some switch =>
    if switch.isValued then valued switch value rest
    else if value.isSome then refused s!"unexpected value for --{switch.long}"
    else ⟨[⟨switch, ""⟩], none, rest⟩

/-- Short options that stand together. -/
def short : List Char → List String → Reading
  | [], rest => ⟨[], none, rest⟩
  | c :: cs, rest =>
    match Switch.ofShort? c with
    | none => refused s!"unexpected argument -{c}"
    | some switch =>
      if switch.isValued then
        let value := match cs with
          | [] => none
          | '=' :: value => some (String.ofList value)
          | value => some (String.ofList value)
        valued switch value rest
      else
        let more := short cs rest
        { more with settings := ⟨switch, ""⟩ :: more.settings }

def first (arg : String) (rest : List String) : Reading :=
  match arg.toList with
  | ['-', '-'] =>
    match rest with
    | [] => ⟨[], none, []⟩
    | other :: _ => refused s!"unexpected argument {other}"
  | '-' :: '-' :: body => long body rest
  | '-' :: c :: cs => short (c :: cs) rest
  | _ => refused s!"unexpected argument {arg}"

/-- What all arguments say, of which there are at most so many. -/
def all : Nat → List String → List Setting × Option Refusal
  | _, [] => ([], none)
  | 0, _ => ([], none)
  | n + 1, arg :: rest =>
    let r := first arg rest
    match r.refusal with
    | some refusal => (r.settings, some refusal)
    | none =>
      let (settings, refusal) := all n r.rest
      (r.settings ++ settings, refusal)

end Reading

namespace Options

/-- The value that a setting writes, or a refusal. -/
def valueOf {α : Type} (s : Setting) (value : Option α) : Except Refusal α :=
  match value with
  | some v => .ok v
  | none => .error (.usage s!"invalid value {s.value} for --{s.switch.long}")

/-- The options with a setting taken over. -/
def set (o : Options) (s : Setting) : Except Refusal Options := do
  let cs := s.value.toList
  match s.switch with
  | .seed => return { o with seed := ← valueOf s (Text.readUInt64? cs) }
  | .peers => return { o with peers := ← valueOf s (Text.readNat? (2 ^ 64) cs) }
  | .scenario => return { o with scenario := s.value }
  | .seeds => return { o with seeds := ← valueOf s (Text.readNat? (2 ^ 64) cs) }
  | .duration => return { o with duration := ← valueOf s (Binary.read? cs) }
  | .verbose => return { o with verbose := true }
  | .json => return { o with json := true }
  | .help => .error .help

/-- The options with settings taken over in order; none may be given twice. -/
def setAll (used : List Switch) (o : Options) : List Setting → Except Refusal Options
  | [] => .ok o
  | s :: rest => do
    if used.contains s.switch then
      .error (.usage s!"--{s.switch.long} cannot be used multiple times")
    else setAll (s.switch :: used) (← o.set s) rest

def parse (args : List String) : Except Refusal Options := do
  let (settings, refusal) := Reading.all args.length args
  let options ← setAll [] {} settings
  match refusal with
  | some refusal => .error refusal
  | none => return options

end Options

def helpText : String :=
  "Run deterministic simulation scenarios of peers that share regions of a world\n\n" ++
  "Options:\n" ++
  "  -s, --seed <SEED>          Master seed (0 = taken from the clock) [default: 42]\n" ++
  "  -p, --peers <PEERS>        Number of peers [default: 6]\n" ++
  "  -S, --scenario <SCENARIO>  Scenario to run, or all [default: all]\n" ++
  "      --seeds <SEEDS>        Number of consecutive seeds [default: 1]\n" ++
  "  -d, --duration <SECONDS>   Length of the main phase [default: 10]\n" ++
  "  -v, --verbose              Verbose output\n" ++
  "      --json                 JSON output\n" ++
  "  -h, --help                 Print help"

end RegionSync.Command
