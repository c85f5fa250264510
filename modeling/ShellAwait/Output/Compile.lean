import ShellAwait.Output.Weave
import ShellAwait.Bindings.Listing

/-! # Compiling a script

All or nothing: a script that is rejected has no output.
-/

namespace ShellAwait

structure Compiled where
  findings : Findings
  pieces : List Output.Piece

def Compiled.output (compiled : Compiled) : String := String.ofList (Output.render compiled.pieces)

def Compiled.symbols (compiled : Compiled) : String := compiled.findings.bindings.list

def compileLogged (catalogue : Catalogue) (source : List Char) :
    Except Failure Compiled × List Analysis.Event :=
  let parsed := parse source
  match analyse catalogue parsed with
  | (.error failure, log) => (.error failure, log)
  | (.ok findings, log) => (.ok ⟨findings, Output.weave findings.toMarks parsed.tree⟩, log)

def compile (catalogue : Catalogue) (source : List Char) : Except Failure Compiled :=
  (compileLogged catalogue source).1

/-- Compile a script, then its output, and so on for the given number of times, as long as it succeeds. -/
def compileRepeatedly (catalogue : Catalogue) : Nat → List Char → List (Except Failure Compiled)
  | 0, _ => []
  | times + 1, source =>
      match compile catalogue source with
      | .error failure => [.error failure]
      | .ok compiled =>
          .ok compiled :: compileRepeatedly catalogue times (Output.render compiled.pieces)

end ShellAwait
