import ShellAwait.Bindings.Basic

/-! # Joining branches

Where several paths meet, a binding keeps its descriptor only if every path agrees on it.
-/

namespace ShellAwait.Bindings

def joinName (branches : List (Option Scope)) (name : String) : Descriptor :=
  match branches.map fun branch => branch.bind (·.get? name) with
  | some d :: others => if others.all (· = some d) then d else .unknown
  | _ => .unknown

/-- One level: its own names first, then those that the branches add. -/
def joinScope (scope : Scope) (branches : List (Option Scope)) : Scope :=
  let added := branches.flatMap fun branch => (branch.map Dictionary.keys).getD []
  (scope.keys ++ added).foldl (fun s name => s.insert name (joinName branches name)) scope

def joinLevels : List Scope → List (List Scope) → List Scope
  | [], _ => []
  | scope :: inner, branches =>
      joinScope scope (branches.map List.head?) :: joinLevels inner (branches.map List.tail)

/-- The bindings after branches that were entered with `b`. -/
def join (b : Bindings) (branches : List Bindings) : Bindings :=
  match branches with
  | [] => b
  | _ => b.ofLevels (joinLevels b.levels (branches.map levels))

theorem length_joinLevels (levels : List Scope) (branches : List (List Scope)) :
    (joinLevels levels branches).length = levels.length := by
  induction levels generalizing branches with
  | nil => rfl
  | cons scope inner ih => simp [joinLevels, ih]

end ShellAwait.Bindings
