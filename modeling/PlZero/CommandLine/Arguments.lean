/-!
The arguments of a command line: which command is asked for, and with what options.

An option has a long name after two hyphens and perhaps a letter after one. Letters can be bundled.
The value of an option is joined to it, with or without an equals sign behind a letter and with one
behind a long name, or is the next argument, which then must not look like an option. After `--`
nothing is an option. An option is given at most once; the one that every command has may be given
once before the command and once behind it.
-/

namespace PlZero.CommandLine

inductive Command where
  | compile (input target : String) (output : Option String) (showTree prelude : Bool)
  | parse (input : String)
  | check (input : String) (prelude : Bool)
  | targets
  deriving DecidableEq, Repr

/-- Why no command comes of the arguments. -/
inductive Stop where
  /-- They make no sense. -/
  | refused
  /-- They ask for the version. -/
  | version
  /-- They ask for help. -/
  | help
  deriving DecidableEq, Repr

/-- What an option does. -/
inductive OptionKind where
  | flag
  | value
  /-- The option ends the reading of arguments at once. -/
  | stop (reason : Stop)
  deriving DecidableEq, Repr

structure OptionSpec where
  long : String
  short : Option Char := none
  kind : OptionKind := .flag
  deriving DecidableEq, Repr

/-- The arguments read so far: options by their long names, with their values, and the rest. -/
structure Arguments where
  options : List (String × String) := []
  positionals : List String := []
  deriving DecidableEq, Repr

namespace Arguments

def has (args : Arguments) (long : String) : Bool := (args.options.lookup long).isSome

/-- Adds an option that was not given before. -/
def add (args : Arguments) (long value : String) : Except Stop Arguments :=
  if args.has long then .error .refused
  else .ok { args with options := (long, value) :: args.options }

/-- Adds an argument that is no option; no more than `limit` are taken. -/
def addPositional (limit : Nat) (args : Arguments) (value : String) : Except Stop Arguments :=
  if args.positionals.length < limit then
    .ok { args with positionals := args.positionals ++ [value] }
  else .error .refused

/-- Reads an option by its long name, with the value joined to it if there is one. Where a value is
still to come, the answer holds the name of the option that waits for it. -/
def readLong (specs : List OptionSpec) (args : Arguments) (long : String)
    (joined : Option String) : Except Stop (Arguments × Option String) :=
  match specs.find? (·.long == long) with
  | none => .error .refused
  | some spec =>
    match spec.kind, joined with
    | .flag, none => return (← args.add long "", none)
    | .stop reason, none => .error reason
    | .flag, some _ | .stop _, some _ => .error .refused
    | .value, some value => return (← args.add long value, none)
    | .value, none => .ok (args, some long)

/-- Reads bundled letters. The first that takes a value takes all that follows it. -/
def readLetters (specs : List OptionSpec) (args : Arguments) :
    List Char → Except Stop (Arguments × Option String)
  | [] => .ok (args, none)
  | letter :: rest =>
    match specs.find? (·.short == some letter) with
    | none => .error .refused
    | some spec =>
      match spec.kind with
      | .flag => do readLetters specs (← args.add spec.long "") rest
      | .stop reason => .error reason
      | .value =>
        match rest with
        | [] => .ok (args, some spec.long)
        | '=' :: value => return (← args.add spec.long (String.ofList value), none)
        | value => return (← args.add spec.long (String.ofList value), none)

/-- Reads one argument that looks like an option; `none` if it does not. -/
def readOption? (specs : List OptionSpec) (args : Arguments) (arg : String) :
    Option (Except Stop (Arguments × Option String)) :=
  match arg.toList with
  | '-' :: '-' :: name =>
    let long := String.ofList (name.takeWhile (· != '='))
    let joined := match name.dropWhile (· != '=') with
      | [] => none
      | _ :: value => some (String.ofList value)
    some (args.readLong specs long joined)
  | '-' :: letter :: rest => some (args.readLetters specs (letter :: rest))
  | _ => none

/-- Can `arg` be the value of the option before it? -/
def canBeValue (arg : String) : Bool :=
  match arg.toList with
  | '-' :: _ :: _ => false
  | _ => true

/-- Reads the arguments of a command that takes at most `limit` arguments beside its options. -/
def read (specs : List OptionSpec) (limit : Nat) (args : Arguments) :
    List String → Except Stop Arguments
  | [] => .ok args
  | "--" :: rest => rest.foldlM (addPositional limit) args
  | arg :: rest =>
    match args.readOption? specs arg with
    | none => do (← args.addPositional limit arg).read specs limit rest
    | some (.error stop) => .error stop
    | some (.ok (args, none)) => args.read specs limit rest
    | some (.ok (args, some long)) =>
      match rest with
      | [] => .error .refused
      | value :: rest => do
        if canBeValue value then (← args.add long value).read specs limit rest
        else .error .refused

end Arguments

/-! ### The commands -/

def commonOptions : List OptionSpec :=
  [{ long := "verbose", short := some 'v' },
    { long := "help", short := some 'h', kind := .stop .help }]

/-- The options that can stand before a command. -/
def globalOptions : List OptionSpec :=
  commonOptions ++ [{ long := "version", short := some 'V', kind := .stop .version }]

def compileOptions : List OptionSpec :=
  commonOptions ++
    [{ long := "target", short := some 't', kind := .value },
      { long := "output", short := some 'o', kind := .value },
      { long := "show-ast" }, { long := "no-prelude" }]

def checkOptions : List OptionSpec := commonOptions ++ [{ long := "no-prelude" }]

/-- Reads the arguments of a command that works on one input. -/
def readInput (specs : List OptionSpec) (rest : List String) :
    Except Stop (String × Arguments) := do
  let args ← Arguments.read specs 1 {} rest
  match args.positionals with
  | [input] => return (input, args)
  | _ => .error .refused

def commandNames : List String := ["compile", "parse", "check", "targets", "help"]

/-- Reads what is to be explained: the whole program or one command. No command has commands of its
own, so nothing can follow its name. -/
def readTopic : List String → Stop
  | [] => .help
  | [name] => if name ∈ commandNames then .help else .refused
  | _ => .refused

/-- Reads the command called `name` with the arguments behind it. -/
def Command.read (name : String) (rest : List String) : Except Stop Command :=
  match name with
  | "compile" => do
    let (input, args) ← readInput compileOptions rest
    return .compile input ((args.options.lookup "target").getD "text")
      (args.options.lookup "output") (args.has "show-ast") (!args.has "no-prelude")
  | "parse" => do
    let (input, _) ← readInput commonOptions rest
    return .parse input
  | "check" => do
    let (input, args) ← readInput checkOptions rest
    return .check input (!args.has "no-prelude")
  | "targets" => do
    let _ ← Arguments.read commonOptions 0 {} rest
    return .targets
  | "help" => .error (readTopic rest)
  | _ => .error .refused

/-- Reads a whole command line: options that every command has, then the command. -/
def readCommand (args : Arguments) : List String → Except Stop Command
  | [] => .error .refused
  | "--" :: _ => .error .refused
  | arg :: rest =>
    match args.readOption? globalOptions arg with
    | none => Command.read arg rest
    | some (.error stop) => .error stop
    | some (.ok (args, _)) => readCommand args rest

def Command.ofArgs (args : List String) : Except Stop Command := readCommand {} args

end PlZero.CommandLine
