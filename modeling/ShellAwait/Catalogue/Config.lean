import ShellAwait.Dictionary

/-! # Configurations

What a catalogue is built from: the global names and the shapes with their members, as they are written
down. A configuration is read from a text or put together step by step.
-/

namespace ShellAwait

inductive MemberKind where
  | method
  | property
deriving DecidableEq, Repr

structure MemberEntry where
  kind : MemberKind := .method
  deferred : Bool := false
  returns : Option String := none
deriving DecidableEq, Repr

structure ShapeEntry where
  anyMember : Option String := none
  members : Dictionary MemberEntry := .empty
deriving DecidableEq, Repr

structure Config where
  globals : Dictionary MemberEntry := .empty
  shapes : Dictionary ShapeEntry := .empty
deriving DecidableEq, Repr

namespace Config

inductive Step where
  | shape (name : String)
  | member (kind : MemberKind) (shape name : String) (deferred : Bool) (returns : String)
  | anyMember (shape target : String)
  | global (name returns : String)

/-- A shape that is not there yet is declared by the first step that speaks of it. -/
def apply (config : Config) : Step → Config
  | .shape name => { config with shapes := config.shapes.adjust name {} id }
  | .member kind shape name deferred returns =>
      let entry : MemberEntry := ⟨kind, deferred, some returns⟩
      { config with shapes := config.shapes.adjust shape {} fun s =>
          { s with members := s.members.insert name entry } }
  | .anyMember shape target =>
      { config with shapes := config.shapes.adjust shape {} fun s => { s with anyMember := some target } }
  | .global name returns =>
      { config with globals := config.globals.insert name ⟨.property, false, some returns⟩ }

def ofSteps (steps : List Step) : Config := steps.foldl apply {}

/-- The first shape whose unlisted members go to a name that is no shape, with that name. -/
def strayRoute? (config : Config) : Option (String × String) :=
  config.shapes.entries.findSome? fun (name, shape) =>
    match shape.anyMember with
    | some target => if config.shapes.contains target then none else some (name, target)
    | none => none

end Config

end ShellAwait
