import ShellAwait.Bindings.Join

/-! # Columns of bindings

What the levels say of one name, from the root inwards. An operation that writes another name
leaves the column as it is; entering and leaving a scope add and drop its last entry.
-/

namespace ShellAwait

namespace Dictionary

variable {α : Type}

theorem mem_keys {d : Dictionary α} {key : String} : key ∈ d.keys ↔ (d.get? key).isSome = true := by
  obtain ⟨entries⟩ := d
  change key ∈ entries.map Prod.fst ↔ (lookup key entries).isSome = true
  induction entries with
  | nil => simp [lookup]
  | cons entry rest ih =>
      obtain ⟨k, value⟩ := entry
      rw [List.map_cons, List.mem_cons, ih, lookup]
      by_cases h : k = key
      · simp [h]
      · simp [h, Ne.symm h]

theorem get?_foldl_insert (f : String → α) (keys : List String) (d : Dictionary α) (key : String) :
    (keys.foldl (fun d k => d.insert k (f k)) d).get? key =
      if key ∈ keys then some (f key) else d.get? key := by
  induction keys generalizing d with
  | nil => rfl
  | cons first rest ih =>
      rw [List.foldl_cons, ih]
      by_cases hrest : key ∈ rest
      · rw [if_pos hrest, if_pos (List.mem_cons_of_mem _ hrest)]
      · rw [if_neg hrest]
        by_cases hfirst : key = first
        · subst hfirst
          rw [get?_insert_self, if_pos List.mem_cons_self]
        · rw [get?_insert_of_ne d _ (Ne.symm hfirst), if_neg (by simp [hfirst, hrest])]

end Dictionary

namespace Bindings

variable {b : Bindings} {name : String}

/-- What the levels say of a name, the root first. -/
def column (levels : List Scope) (name : String) : List (Option Descriptor) :=
  levels.map fun scope => scope.get? name

theorem column_push (b : Bindings) (name : String) :
    column b.push.levels name = column b.levels name ++ [none] := by
  simp [column, push, levels, Dictionary.get?, Dictionary.empty, Dictionary.lookup]

theorem levels_pop (h : 1 < b.depth) : (b.pop?.getD b).levels = b.levels.dropLast := by
  obtain ⟨root, inner, seeded⟩ := b
  cases inner with
  | nil => exact absurd h (Nat.lt_irrefl 1)
  | cons first more => rfl

theorem column_pop (h : 1 < b.depth) (name : String) :
    column (b.pop?.getD b).levels name = (column b.levels name).dropLast := by
  rw [levels_pop h, column, column, List.map_dropLast]

/-! ## Writing another name -/

theorem column_insert {name other : String} (hne : other ≠ name) (d : Descriptor) (scope : Scope)
    (inner : List Scope) :
    column (scope.insert other d :: inner) name = column (scope :: inner) name := by
  rw [column, List.map_cons, Dictionary.get?_insert_of_ne scope d hne, column, List.map_cons]

theorem column_onCurrent {name other : String} (hne : other ≠ name) (d : Descriptor)
    (levels : List Scope) :
    column (onCurrent (·.insert other d) levels) name = column levels name := by
  induction levels with
  | nil => rfl
  | cons scope inner ih =>
      cases inner with
      | nil => exact column_insert hne d scope []
      | cons next more => exact congrArg (scope.get? name :: ·) ih

theorem levels_ofLevels (b : Bindings) {levels : List Scope} (h : levels ≠ []) :
    (b.ofLevels levels).levels = levels := by
  cases levels with
  | nil => exact absurd rfl h
  | cons root inner => rfl

theorem levels_add (b : Bindings) (name : String) (d : Descriptor) :
    (b.add name d).levels = onCurrent (·.insert name d) b.levels := by
  refine levels_ofLevels b fun hnil => ?_
  have hlength := length_onCurrent (·.insert name d) b.levels
  rw [hnil] at hlength
  cases hlength

theorem column_add {other : String} (hne : other ≠ name) (d : Descriptor) (b : Bindings) :
    column (b.add other d).levels name = column b.levels name := by
  rw [levels_add, column_onCurrent hne]

/-- A change of the nearest binding keeps the number of levels, and the columns of other names. -/
theorem update?_eq_some {other : String} {d : Descriptor} {levels changed : List Scope}
    (h : update? other d levels = some changed) :
    changed.length = levels.length ∧ ∀ name, other ≠ name →
      column changed name = column levels name := by
  induction levels generalizing changed with
  | nil => cases h
  | cons scope inner ih =>
      rw [update?] at h
      cases hinner : update? other d inner with
      | some further =>
          rw [hinner] at h
          cases h
          obtain ⟨hlength, hcolumn⟩ := ih hinner
          exact ⟨congrArg (· + 1) hlength, fun name hne =>
            congrArg (scope.get? name :: ·) (hcolumn name hne)⟩
      | none =>
          rw [hinner] at h
          simp only at h
          split at h
          · cases h
            exact ⟨rfl, fun name hne => column_insert hne _ scope inner⟩
          · cases h

theorem assign_eq (b : Bindings) (other : String) (d : Descriptor) :
    (b.assign other d).depth = b.depth ∧
      ∀ name, other ≠ name → column (b.assign other d).levels name = column b.levels name := by
  unfold assign
  split
  next changed hchanged =>
    obtain ⟨hlength, hcolumn⟩ := update?_eq_some hchanged
    have hne : changed ≠ [] := by
      rw [← List.length_pos_iff, hlength]
      exact Nat.zero_lt_succ _
    rw [depth, levels_ofLevels b hne]
    exact ⟨hlength, hcolumn⟩
  next => exact ⟨rfl, fun name hne => column_insert hne d b.root b.inner⟩

/-! ## Branches -/

/-- Branches that agree with the entry on a name of one level. -/
theorem get?_joinScope {scope : Scope} {branches : List (Option Scope)} (hne : branches ≠ [])
    (h : ∀ branch ∈ branches, branch.bind (·.get? name) = scope.get? name) :
    (joinScope scope branches).get? name = scope.get? name := by
  rw [joinScope, Dictionary.get?_foldl_insert]
  split
  next hmem =>
    cases hvalue : scope.get? name with
    | none =>
        -- no branch binds the name, so it is not among the names that are joined
        rcases List.mem_append.mp hmem with hown | hadded
        · have hbound := Dictionary.mem_keys.mp hown
          rw [hvalue] at hbound
          cases hbound
        · obtain ⟨branch, hbranch, hkey⟩ := List.mem_flatMap.mp hadded
          have hagrees := h branch hbranch
          cases branch with
          | none => cases hkey
          | some level =>
              have hbound := Dictionary.mem_keys.mp hkey
              rw [show level.get? name = scope.get? name from hagrees, hvalue] at hbound
              cases hbound
    | some d =>
        cases branches with
        | nil => exact absurd rfl hne
        | cons first others =>
            obtain ⟨hfirst, hothers⟩ := List.forall_mem_cons.mp h
            have hsame : others.all (fun branch => branch.bind (·.get? name) = some d) = true := by
              refine List.all_eq_true.mpr fun branch hbranch => ?_
              rw [hothers branch hbranch, hvalue, decide_eq_true rfl]
            have hall : (others.map fun branch => branch.bind (·.get? name)).all (· = some d) =
                true := by
              rw [List.all_map]
              exact hsame
            rw [joinName, List.map_cons, hfirst, hvalue]
            exact congrArg some (if_pos hall)
  next => rfl

theorem column_joinLevels {levels : List Scope} {branches : List (List Scope)} (hne : branches ≠ [])
    (h : ∀ branch ∈ branches, column branch name = column levels name) :
    column (joinLevels levels branches) name = column levels name := by
  induction levels generalizing branches with
  | nil => rfl
  | cons scope inner ih =>
      have hheads : (joinScope scope (branches.map List.head?)).get? name = scope.get? name := by
        refine get?_joinScope (by simpa using hne) fun head hhead => ?_
        obtain ⟨branch, hbranch, rfl⟩ := List.mem_map.mp hhead
        have hcolumn := h branch hbranch
        cases branch with
        | nil => cases hcolumn
        | cons first rest => exact (List.cons.inj hcolumn).1
      have htails : column (joinLevels inner (branches.map List.tail)) name =
          column inner name := by
        refine ih (by simpa using hne) fun tail htail => ?_
        obtain ⟨branch, hbranch, rfl⟩ := List.mem_map.mp htail
        have hcolumn := h branch hbranch
        cases branch with
        | nil => cases hcolumn
        | cons first rest => exact (List.cons.inj hcolumn).2
      rw [joinLevels]
      change (joinScope scope (branches.map List.head?)).get? name :: column _ name = _
      rw [hheads, htails]
      rfl

theorem levels_join (b : Bindings) {branches : List Bindings} (hne : branches ≠ []) :
    (b.join branches).levels = joinLevels b.levels (branches.map levels) := by
  cases branches with
  | nil => exact absurd rfl hne
  | cons first others => exact levels_ofLevels b (by simp [levels, joinLevels])

theorem depth_join (b : Bindings) (branches : List Bindings) :
    (b.join branches).depth = b.depth := by
  cases branches with
  | nil => rfl
  | cons first others =>
      rw [depth, levels_join b (List.cons_ne_nil _ _), length_joinLevels]
      rfl

theorem column_join {branches : List Bindings}
    (h : ∀ branch ∈ branches, column branch.levels name = column b.levels name) :
    column (b.join branches).levels name = column b.levels name := by
  by_cases hne : branches = []
  · rw [hne]
    rfl
  · rw [levels_join b hne]
    refine column_joinLevels (by simpa using hne) fun levels hlevels => ?_
    obtain ⟨branch, hbranch, rfl⟩ := List.mem_map.mp hlevels
    exact h branch hbranch

/-! ## Names that only the root binds -/

/-- The root level says `value` of the name and the `k` levels in it say nothing. -/
def AtRoot (name : String) (value : Option Descriptor) (k : Nat) (b : Bindings) : Prop :=
  column b.levels name = value :: List.replicate k none

theorem AtRoot.depth {value : Option Descriptor} {k : Nat} (h : AtRoot name value k b) :
    b.depth = k + 1 := by
  have hlength := congrArg List.length h
  simpa [column, Bindings.depth] using hlength

theorem find?_of_column {levels : List Scope} {k : Nat}
    (h : column levels name = List.replicate k none) : find? name levels = none := by
  induction levels generalizing k with
  | nil => rfl
  | cons scope inner ih =>
      cases k with
      | zero => cases h
      | succ k =>
          obtain ⟨hscope, hinner⟩ := List.cons.inj h
          rw [find?, ih hinner]
          exact hscope

theorem AtRoot.lookup {value : Option Descriptor} {k : Nat} (h : AtRoot name value k b) :
    b.lookup name = value.getD .unknown := by
  obtain ⟨hroot, hinner⟩ := List.cons.inj h
  rw [Bindings.lookup, levels, find?, find?_of_column hinner]
  exact congrArg (Option.getD · .unknown) hroot

end Bindings

end ShellAwait
