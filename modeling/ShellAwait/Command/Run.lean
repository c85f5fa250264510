import ShellAwait.Catalogue.Load
import ShellAwait.Catalogue.Shell
import ShellAwait.Report.Diagnostic
import ShellAwait.Command.Options
import ShellAwait.Command.Log
import ShellAwait.Token.Cursor

/-! # A run of the command

The catalogue comes first, then the script. The output goes to the standard output, and all else to the
standard error.
-/

namespace ShellAwait.Command

structure Inputs where
  registry : Except ReadError String
  source : Except ReadError String

inductive Remark where
  | text (text : String)
  | report (diagnostic : Diagnostic) (color : Bool)

structure Result where
  status : Nat := 0
  output : String := ""
  log : List LogLine := []
  remark : Remark := .text ""

def displayName (file : String) : String := if file = "-" then "<stdin>" else file

/-- A run that fails with a line of JSON, or stops before the line is written. -/
def failedWith (line : Except Text.Overflow String) : Result :=
  match line with
  | .ok text => { status := 1, remark := .text (text ++ "\n") }
  | .error overflow => { status := 101, remark := .text (overflow.message ++ "\n") }

def abandoned (options : Options) (chain : List String) : Result :=
  if options.json then failedWith (Diagnostic.ofChain chain (displayName options.file)).json
  else failedWith (.ok ("error: " ++ String.intercalate ": " chain))

def chosenCatalogue (options : Options) (inputs : Inputs) : Except (List String) Catalogue :=
  match options.registry with
  | none => .ok .shell
  | some path =>
      match Catalogue.load path inputs.registry with
      | .ok catalogue => .ok catalogue
      | .error error => .error (("failed to load registry '" ++ path ++ "'") :: error.chain)

def chosenSource (options : Options) (inputs : Inputs) : Except (List String) String :=
  match inputs.source with
  | .ok source => .ok source
  | .error error =>
      let what := if options.file = "-" then "failed to read stdin"
        else "failed to read '" ++ options.file ++ "'"
      .error [what, error.message]

/-- Compile a script whose positions are words. -/
def compileFor (options : Options) (catalogue : Catalogue) (source : List Char) : Result :=
  let file := displayName options.file
  let compiling := LogLine.compiling file source
  match Token.lex source with
  | .error overflow => { failedWith (.error overflow) with log := [compiling] }
  | .ok _ =>
      let (outcome, events) := compileLogged catalogue source
      let begun := compiling :: events.map LogLine.ofEvent
      match outcome with
      | .ok compiled =>
          { output := compiled.output
            log := begun ++ [LogLine.analysed compiled.findings, LogLine.finished source compiled]
            remark := .text (if options.dumpSymbols then compiled.symbols else "") }
      | .error failure =>
          let diagnostic := Diagnostic.ofFailure failure source file
          if options.json then { failedWith diagnostic.json with log := begun }
          else { status := 1, log := begun, remark := .report diagnostic (!options.noColor) }

def run (options : Options) (inputs : Inputs) : Result :=
  match chosenCatalogue options inputs, chosenSource options inputs with
  | .error chain, _ => abandoned options chain
  | .ok _, .error chain => abandoned options chain
  | .ok catalogue, .ok source =>
      let result := compileFor options catalogue source.toList
      { result with log := LogLine.shown options.verbosity result.log }

def version : String := "asyncifyc 0.1.0\n"

def usage : String :=
  "Usage: asyncifyc [OPTIONS] <FILE>\n\n" ++
  "  <FILE>             script to compile, or - for the standard input\n" ++
  "  --registry <FILE>  catalogue of shapes (.json or .toml)\n" ++
  "  --json             diagnostics as JSON\n" ++
  "  --no-color         no colours\n" ++
  "  --dump-symbols     print the names that the script binds\n" ++
  "  -v, --verbose      log more; may be repeated\n" ++
  "  -h, --help         print this text\n" ++
  "  -V, --version      print the version\n"

end ShellAwait.Command
