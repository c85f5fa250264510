import ShellAwait.Output.Compile

/-! # The log of a run

One line for every event, with its level, what happened, and the values that belong to it.
-/

namespace ShellAwait.Command

open Text Analysis

inductive Level where
  | debug
  | trace
deriving DecidableEq, Repr

structure LogLine where
  level : Level
  message : String
  fields : List (String × String) := []

namespace LogLine

def text (line : LogLine) : String :=
  let level := match line.level with | .debug => "DEBUG " | .trace => "TRACE "
  level ++ line.message ++ String.join (line.fields.map fun (name, value) => " " ++ name ++ "=" ++ value)

def range (span : Span) : String × String :=
  ("range", toString span.start ++ ".." ++ toString span.stop)

def count (name : String) (n : Nat) : String × String := (name, toString n)

def ofEvent : Event → LogLine
  | .descriptor kind span d =>
      ⟨.trace, "descriptor", [("kind", kind.name), range span, ("ty", d.render)]⟩
  | .site span => ⟨.trace, "suspension site", [range span]⟩
  | .leftDeferred span => ⟨.trace, "deferred parameter default left as is", [range span]⟩
  | .promoted span => ⟨.debug, "function promoted to async", [range span]⟩
  | .settled rounds => ⟨.debug, "loop entry state settled", [count "rounds" rounds]⟩
  | .hoisted rounds declarations =>
      ⟨.debug, "function declarations hoisted",
        [count "rounds" rounds, count "declarations" declarations]⟩

def compiling (file : String) (source : List Char) : LogLine :=
  ⟨.debug, "compiling", [("file", file), count "bytes" (byteLength source)]⟩

def analysed (findings : Findings) : LogLine :=
  ⟨.debug, "inference finished",
    [count "expressions" findings.types.length, count "suspensions" findings.suspensions.length,
     count "promoted" findings.promoted.length]⟩

def finished (source : List Char) (compiled : Compiled) : LogLine :=
  ⟨.debug, "rewrite finished",
    [count "awaits" compiled.findings.suspensions.length,
     count "promoted" compiled.findings.promoted.length, count "bytes_in" (byteLength source),
     count "bytes_out" (byteLength (Output.render compiled.pieces))]⟩

/-- The lines that are shown: none, those for debugging, or all. -/
def shown (verbosity : Nat) (lines : List LogLine) : List LogLine :=
  match verbosity with
  | 0 => []
  | 1 => lines.filter (·.level = .debug)
  | _ => lines

end LogLine

end ShellAwait.Command
