import ShellAwait.Bindings.Basic

/-! # Bindings as text

One heading per level, the innermost first, and one line per name.
-/

namespace ShellAwait.Bindings

def listScope (index : Nat) (entries : List (String × Descriptor)) : String :=
  "scope " ++ toString index ++ ":\n" ++
    String.join (entries.map fun (name, d) => "  " ++ name ++ ": " ++ d.render ++ "\n")

def listInner : Nat → List Scope → String
  | _, [] => ""
  | index, scope :: inner => listInner (index + 1) inner ++ listScope index scope.entries

def listAll (b : Bindings) : String := listInner 1 b.inner ++ listScope 0 b.root.entries

/-- The names that the script has bound or changed. -/
def list (b : Bindings) : String :=
  listInner 1 b.inner ++
    listScope 0 (b.root.entries.filter fun (name, d) => b.seeded.get? name ≠ some d)

end ShellAwait.Bindings
