import ShellAwait.Files
import ShellAwait.Format.Json
import ShellAwait.Format.Toml
import ShellAwait.Catalogue.Decode
import ShellAwait.Catalogue.Basic

/-! # Loading a catalogue

From a configuration, from a text in one of the two formats, or from a file whose name says the format.
-/

namespace ShellAwait

inductive LoadError where
  | unreadable (path : String) (reason : ReadError)
  | invalidJson
  | invalidToml
  | unsupported (path : String)
  | strayRoute (shape target : String)
deriving DecidableEq, Repr

namespace LoadError

def message : LoadError → String
  | .unreadable path _ => "cannot read registry `" ++ path ++ "`"
  | .invalidJson => "invalid registry JSON: not a catalogue"
  | .invalidToml => "invalid registry TOML: not a catalogue"
  | .unsupported path => "unsupported registry format `" ++ path ++ "` (expected .json or .toml)"
  | .strayRoute shape target =>
      "shape `" ++ shape ++ "` sends unknown members to `" ++ target ++
        "`, which is not a registered shape"

/-- The message and what lies behind it, the outermost first. -/
def chain (error : LoadError) : List String :=
  match error with
  | .unreadable _ reason => [error.message, reason.message]
  | _ => [error.message]

end LoadError

namespace Catalogue

def build (config : Config) : Except LoadError Catalogue :=
  match config.strayRoute? with
  | some (shape, target) => .error (.strayRoute shape target)
  | none => .ok config.resolve

def ofJson (text : String) : Except LoadError Catalogue :=
  let isEmpty : Format.Value → Bool := fun | .null => true | _ => false
  match Format.Json.read text.toList >>= Config.ofValue isEmpty with
  | some config => build config
  | none => .error .invalidJson

def ofToml (text : String) : Except LoadError Catalogue :=
  let isEmpty : Format.Value → Bool := fun | .table [] => true | _ => false
  match Format.Toml.read text.toList >>= Config.ofValue isEmpty with
  | some config => build config
  | none => .error .invalidToml

/-- The last part of a path, unless it leads up. -/
def fileName? (path : List Char) : Option (List Char) :=
  match ((path.splitOn '/').filter fun part => part ≠ [] && part ≠ ['.']).getLast? with
  | some ['.', '.'] => none
  | other => other

/-- What follows the last point of a file name, if something stands before that point. -/
def extension? (path : String) : Option String := do
  let reversed := (← fileName? path.toList).reverse
  let after := reversed.takeWhile (· ≠ '.')
  match reversed.drop after.length with
  | '.' :: _ :: _ => some (String.ofList after.reverse)
  | _ => none

/-- The catalogue of a file with the given contents. The name is looked at before the contents. -/
def load (path : String) (contents : Except ReadError String) : Except LoadError Catalogue :=
  let decode? := match extension? path with
    | some "json" => some ofJson
    | some "toml" => some ofToml
    | _ => none
  match decode?, contents with
  | none, _ => .error (.unsupported path)
  | some _, .error reason => .error (.unreadable path reason)
  | some decode, .ok text => decode text

end Catalogue

end ShellAwait
