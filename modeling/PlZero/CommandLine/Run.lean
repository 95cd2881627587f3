import PlZero.CommandLine.Arguments
import PlZero.CommandLine.Path
import PlZero.CommandLine.Storage
import PlZero.Display.Failure
import PlZero.Display.Tree
import PlZero.Pipeline

/-!
What a command line does: the files it reads and writes, what it prints, and how it ends. A command
stops at its first failure, having printed whatever came before.
-/

namespace PlZero.CommandLine

/-- What a command has printed: text on one channel, lines about faults on the other. -/
structure Console where
  stdout : String := ""
  stderr : List String := []
  deriving DecidableEq, Repr

inductive Outcome where
  /-- The arguments make no sense. -/
  | refused
  /-- The command ran; it succeeded if `exit` is zero. -/
  | ran (exit : Nat) (console : Console)
  deriving DecidableEq, Repr

variable {m : Type → Type} [Monad m]

/-- A command at work. It may stop with what is to be shown of a failure. -/
abbrev Session (m : Type → Type) := ExceptT Outline (StateT Console m)

def say (line : String) : Session m Unit :=
  modifyThe Console fun c => { c with stdout := c.stdout ++ line ++ "\n" }

def complain (diagnostics : List Diagnostic) : Session m Unit :=
  modifyThe Console fun c => { c with stderr := c.stderr ++ diagnostics.map (·.render) }

/-- The result, or the end of the command. -/
def orStop {α : Type} : Except Failure α → Session m α
  | .ok a => return a
  | .error failure => throw failure.outline

def readSource (storage : Storage m) (path : String) : Session m String := do
  match ← storage.read path with
  | .error e => throw e.outline
  | .ok bytes =>
    match String.fromUTF8? bytes with
    | some source => return source
    | none => throw FileError.notText.outline

/-- Parses a source text, printing what is wrong with it. -/
def parseSource (source : String) : Session m Block := do
  let (result, parser) := (Parser.ofString source).parse
  complain (parser.scanner.diagnostics ++ parser.diagnostics)
  orStop result

def showTree (program : Block) : Session m Unit :=
  (programOutline program).lines.forM say

/-- Analyzes a program, printing its faults; if it has any, the command ends with the failure that
`failure` makes of their number. -/
def analyzeTree (options : Options) (program : Block) (failure : Nat → Failure) :
    Session m AnalyzedProgram := do
  let report := analyzeProgram options program
  complain report.diagnostics
  if report.diagnostics.isEmpty then
    return { program := report.program, table := report.table, root := report.root }
  else throw (failure report.diagnostics.length).outline

/-- A name in a column of at least eight places. -/
def padded (name : String) : String := name ++ "".pushn ' ' (8 - name.length)

def Command.run (storage : Storage m) : Command → Session m Unit
  | .compile input targetName output showsTree prelude => do
    let target ← orStop (Target.ofName targetName)
    let source ← readSource storage input
    let program ← parseSource source
    if showsTree then
      say "=== AST ==="
      showTree program
    let analyzed ← analyzeTree { prelude } program .semantic
    let code := analyzed.code target
    let path := output.getD (Path.withExtension input target.extension)
    match ← storage.write path code with
    | .error e => throw e.outline
    | .ok () =>
      say ("Compiled to: " ++ path)
      say ("Output size: " ++ toString code.utf8ByteSize ++ " bytes")
  | .parse input => do
    let source ← readSource storage input
    let (tokens, scanner) := (Scanner.ofString source).drain
    say "=== TOKENS ==="
    tokens.forM fun token => say token.dump
    complain scanner.diagnostics
    say "=== AST ==="
    showTree (← parseSource source)
  | .check input prelude => do
    let source ← readSource storage input
    let program ← parseSource source
    let _ ← analyzeTree { prelude } program .rejected
    say (input ++ ": ok")
  | .targets => do
    say "Supported targets:"
    Target.all.forM fun target => say ("  " ++ padded target.name ++ " - " ++ target.description)

def versionText : String := "pl01 0.1.0"

def helpText : List String :=
  ["PL/0.1 compiler front end", "", "Usage: pl01 [OPTIONS] <COMMAND>", "", "Commands:",
    "  compile  Compile a program for the selected backend",
    "  parse    Print tokens and the AST without analysis",
    "  check    Analyze a program without generating code",
    "  targets  List supported backends",
    "  help     Print this message or the help of the given subcommand(s)", "", "Options:",
    "  -v, --verbose  Verbose logging", "  -h, --help     Print help",
    "  -V, --version  Print version"]

def run (storage : Storage m) (args : List String) : m Outcome := do
  match Command.ofArgs args with
  | .error .refused => return .refused
  | .error .version => return .ran 0 { stdout := versionText ++ "\n" }
  | .error .help => return .ran 0 { stdout := String.join (helpText.map (· ++ "\n")) }
  | .ok command =>
    match ← ((command.run storage).run).run {} with
    | (.ok (), console) => return .ran 0 console
    | (.error outline, console) =>
      return .ran 1 { console with stderr := console.stderr ++ ["Error: " ++ outline.inline] }

end PlZero.CommandLine
