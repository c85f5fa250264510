/-! # Descriptors of values

What the analysis knows of a value: nothing, a plain value, a value that has to be awaited, a function
with the descriptor of its result, or a shape of the catalogue.
-/

namespace ShellAwait

inductive Descriptor where
  | unknown
  | plain (name : Option String)
  | deferred (inner : Descriptor)
  | callable (result : Descriptor)
  | shape (name : String)
deriving DecidableEq, Repr, Inhabited

namespace Descriptor

def number : Descriptor := .plain (some "number")

def string : Descriptor := .plain (some "string")

def boolean : Descriptor := .plain (some "boolean")

def null : Descriptor := .plain (some "null")

def regexp : Descriptor := .plain (some "regexp")

def array : Descriptor := .plain (some "array")

def object : Descriptor := .plain (some "object")

def isDeferred : Descriptor → Bool
  | .deferred _ => true
  | _ => false

/-- The shape of a value, also of one that is deferred once. -/
def shapeName? : Descriptor → Option String
  | .shape name => some name
  | .deferred (.shape name) => some name
  | _ => none

def awaited : Descriptor → Descriptor
  | .deferred inner => inner
  | other => other

def result : Descriptor → Descriptor
  | .callable result => result
  | _ => .unknown

def common (a b : Descriptor) : Descriptor := if a = b then a else .unknown

/-- The descriptor on which all agree; nothing is known of no value at all. -/
def commonAll : List Descriptor → Descriptor
  | [] => .unknown
  | d :: rest => if rest.all (· = d) then d else .unknown

def render : Descriptor → String
  | .unknown => "unknown"
  | .plain (some name) => name
  | .plain none => "plain"
  | .deferred inner => "Deferred<" ++ inner.render ++ ">"
  | .callable result => "fn() -> " ++ result.render
  | .shape name => name

end Descriptor

end ShellAwait
