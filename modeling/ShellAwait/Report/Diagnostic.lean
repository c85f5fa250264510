import ShellAwait.Report.Failure
import ShellAwait.Text.Lines

/-! # Diagnostics

What is said of a failure: for programs as one line of JSON, for people as a short report.
-/

namespace ShellAwait

open Text

structure Label where
  span : Span
  position : Except Overflow Position
  text : String

structure Diagnostic where
  code : String
  message : String
  file : String
  labels : List Label := []
  help : Option String := none

namespace Diagnostic

def ofFailure (failure : Failure) (source : List Char) (file : String) : Diagnostic where
  code := failure.code
  message := failure.message
  file := file
  labels := failure.places.map fun (span, text) => ⟨span, position source span.start, text⟩
  help := some failure.help

def ofChain (chain : List String) (file : String) : Diagnostic where
  code := "C0001"
  message := String.intercalate ": " chain
  file := file

/-! ## As JSON -/

def jsonEscape (c : Char) : List Char :=
  match c with
  | '"' => ['\\', '"']
  | '\\' => ['\\', '\\']
  | '\x08' => ['\\', 'b']
  | '\x0c' => ['\\', 'f']
  | '\n' => ['\\', 'n']
  | '\r' => ['\\', 'r']
  | '\t' => ['\\', 't']
  | c =>
      if c.toNat < 0x20 then
        ['\\', 'u', '0', '0'] ++ Nat.toDigits 16 (c.toNat / 16) ++ Nat.toDigits 16 (c.toNat % 16)
      else [c]

def jsonText (text : String) : String :=
  String.ofList ('"' :: text.toList.flatMap jsonEscape ++ ['"'])

def jsonObject (fields : List (String × String)) : String :=
  let members := fields.map fun (name, value) => jsonText name ++ ":" ++ value
  String.singleton '{' ++ String.intercalate "," members ++ String.singleton '}'

def jsonArray (items : List String) : String := "[" ++ String.intercalate "," items ++ "]"

def jsonLabel (label : Label) : Except Overflow String := do
  let position ← label.position
  return jsonObject
    [("column", toString position.column), ("end", toString label.span.stop),
     ("label", jsonText label.text), ("line", toString position.line),
     ("start", toString label.span.start)]

/-- One line of JSON with the keys in alphabetical order. -/
def json (d : Diagnostic) : Except Overflow String := do
  let help := d.help.toList.map fun text => ("help", jsonText text)
  let spans ← d.labels.mapM jsonLabel
  return jsonObject <|
    [("code", jsonText d.code), ("file", jsonText d.file)] ++ help ++
    [("message", jsonText d.message), ("severity", jsonText "error"), ("spans", jsonArray spans)]

/-! ## As a report -/

def header (d : Diagnostic) : String := "[" ++ d.code ++ "] Error: " ++ d.message

/-- The report in lines of text, with the header in red if colour is asked for. -/
def report (d : Diagnostic) (color : Bool) : String :=
  let header := if color then "\x1b[31m" ++ d.header ++ "\x1b[0m" else d.header
  let place (label : Label) : String :=
    let shown := match label.position with
      | .ok p => ":" ++ toString p.line ++ ":" ++ toString p.column
      | .error _ => ""
    "  " ++ d.file ++ shown ++ ": " ++ label.text ++ "\n"
  header ++ "\n" ++ String.join (d.labels.map place) ++
    String.join (d.help.toList.map fun help => "  Help: " ++ help ++ "\n")

end Diagnostic

end ShellAwait
