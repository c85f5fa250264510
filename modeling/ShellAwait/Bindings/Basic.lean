import ShellAwait.Catalogue.Basic

/-! # Bindings

The names in scope and what is known of their values: a root level, and the levels of the scopes that have
been entered, the innermost last. A level remembers its names in the order of their declaration.
-/

namespace ShellAwait

abbrev Scope := Dictionary Descriptor

structure Bindings where
  root : Scope := .empty
  inner : List Scope := []
  /-- What the root level was given by the catalogue. -/
  seeded : Dictionary Descriptor := .empty
deriving DecidableEq, Repr

namespace Bindings

/-! ## Levels -/

def levels (b : Bindings) : List Scope := b.root :: b.inner

def depth (b : Bindings) : Nat := b.levels.length

def ofLevels (b : Bindings) : List Scope → Bindings
  | [] => b
  | root :: inner => { b with root, inner }

def push (b : Bindings) : Bindings := { b with inner := b.inner ++ [.empty] }

/-- Leave the innermost scope. The root is never left. -/
def pop? (b : Bindings) : Option Bindings :=
  if b.inner.isEmpty then none else some { b with inner := b.inner.dropLast }

/-! ## Names -/

/-- What the innermost level that binds the name says of it. -/
def find? (name : String) : List Scope → Option Descriptor
  | [] => none
  | scope :: inner =>
      match find? name inner with
      | some d => some d
      | none => scope.get? name

def lookup (b : Bindings) (name : String) : Descriptor := (find? name b.levels).getD .unknown

def isBound (b : Bindings) (name : String) : Bool := (find? name b.levels).isSome

def onCurrent (f : Scope → Scope) : List Scope → List Scope
  | [] => []
  | [scope] => [f scope]
  | scope :: inner => scope :: onCurrent f inner

def add (b : Bindings) (name : String) (d : Descriptor) : Bindings :=
  b.ofLevels (onCurrent (·.insert name d) b.levels)

/-- Change the nearest binding of a name. Another descriptor than the one it has makes it unknown. -/
def update? (name : String) (d : Descriptor) : List Scope → Option (List Scope)
  | [] => none
  | scope :: inner =>
      match update? name d inner with
      | some changed => some (scope :: changed)
      | none =>
          match scope.get? name with
          | some old => some ((scope.insert name (if old = d then old else .unknown)) :: inner)
          | none => none

/-- Assign to the nearest binding of a name, or bind the name at the root. -/
def assign (b : Bindings) (name : String) (d : Descriptor) : Bindings :=
  match update? name d b.levels with
  | some changed => b.ofLevels changed
  | none => { b with root := b.root.insert name d }

def knownIn : List Scope → Nat
  | [] => 0
  | scope :: inner => (scope.values.filter (· ≠ .unknown)).length + knownIn inner

def ofCatalogue (catalogue : Catalogue) : Bindings :=
  let globals := catalogue.globals.map Member.descriptor
  { root := globals, seeded := globals }

/-! ## Comparison -/

/-- Both have the same levels, whatever the order of the names in each. -/
def agrees (a b : Bindings) : Bool :=
  a.depth = b.depth && (a.levels.zip b.levels).all (fun (s, t) => s.agrees t) &&
    a.seeded.agrees b.seeded

theorem length_onCurrent (f : Scope → Scope) (levels : List Scope) :
    (onCurrent f levels).length = levels.length := by
  fun_induction onCurrent f levels <;> simp_all

@[simp] theorem depth_ofLevels {b : Bindings} {levels : List Scope} (h : levels ≠ []) :
    (b.ofLevels levels).depth = levels.length := by
  cases levels with
  | nil => exact absurd rfl h
  | cons root inner => rfl

theorem depth_add (b : Bindings) (name : String) (d : Descriptor) : (b.add name d).depth = b.depth := by
  have hlength := length_onCurrent (·.insert name d) b.levels
  have hne : onCurrent (·.insert name d) b.levels ≠ [] := by
    intro h
    rw [h] at hlength
    simp [levels] at hlength
  rw [add, depth_ofLevels hne, hlength, depth]

end Bindings

end ShellAwait
