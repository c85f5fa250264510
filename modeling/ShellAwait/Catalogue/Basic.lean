import ShellAwait.Catalogue.Descriptor
import ShellAwait.Catalogue.Config

/-! # The catalogue

The shapes of the shell with their members, and its global names. Every shape that a descriptor of the
catalogue names is one of its own.
-/

namespace ShellAwait

/-- What reading a member yields. The descriptor of a method is that of a callable. -/
structure Member where
  deferred : Bool
  descriptor : Descriptor
deriving DecidableEq, Repr

structure Shape where
  members : Dictionary Member
  /-- The shape of the members that are not listed. -/
  anyMember : Option String
deriving DecidableEq, Repr

structure Catalogue where
  globals : Dictionary Member
  shapes : Dictionary Shape
deriving DecidableEq, Repr

namespace Catalogue

/-- The member of a shape. Nothing is known of an unlisted one, unless the shape sends those elsewhere. -/
def member (catalogue : Catalogue) (shape name : String) : Member :=
  match catalogue.shapes.get? shape with
  | none => ⟨false, .unknown⟩
  | some found =>
      match found.members.get? name, found.anyMember with
      | some listed, _ => listed
      | none, some target => ⟨false, .shape target⟩
      | none, none => ⟨false, .unknown⟩

end Catalogue

/-- The descriptor of a value that is called `returns`: a shape if there is one of that name. -/
def Config.returned (config : Config) (returns : Option String) : Descriptor :=
  match returns with
  | none => .unknown
  | some name =>
      if name = "unknown" || name = "Unknown" then .unknown
      else if config.shapes.contains name then .shape name
      else .plain (some name)

def Config.resolveMember (config : Config) (entry : MemberEntry) : Member :=
  let value := config.returned entry.returns
  let read := if entry.deferred then .deferred value else value
  match entry.kind with
  | .method => ⟨entry.deferred, .callable read⟩
  | .property => ⟨entry.deferred, read⟩

def Config.resolve (config : Config) : Catalogue where
  globals := config.globals.map config.resolveMember
  shapes := config.shapes.map fun shape => ⟨shape.members.map config.resolveMember, shape.anyMember⟩

end ShellAwait
