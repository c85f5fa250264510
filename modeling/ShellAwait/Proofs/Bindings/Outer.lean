import ShellAwait.Proofs.Bindings.Widening

/-! # Outer scopes

What may become of the levels around a piece of a script. A binding keeps its descriptor or loses
it to an unknown value, and no name is added but at the root. Declarations reach the innermost level
only, assignments any level, and a join brings together what its branches may do.
-/

namespace ShellAwait.Bindings

variable {i : Nat} {name : String} {d : Descriptor}

/-- What the level with the given number, counted from the root, says of a name. -/
def cell (levels : List Scope) (i : Nat) (name : String) : Option Descriptor :=
  levels[i]?.bind (·.get? name)

theorem cell_zero (levels : List Scope) (name : String) :
    cell levels 0 name = levels.head?.bind (·.get? name) := by
  cases levels <;> rfl

theorem cell_tail (levels : List Scope) (i : Nat) (name : String) :
    cell levels.tail i name = cell levels (i + 1) name := by
  rw [cell, cell, List.getElem?_tail]

/-- What may become of what level `i` says of a name: a binding stays or is forgotten, and only the
root gets new names. -/
def Stays (i : Nat) : Option Descriptor → Option Descriptor → Prop
  | some d, new => new = some d ∨ new = some .unknown
  | none, new => new = none ∨ i = 0

theorem Stays.refl (i : Nat) (old : Option Descriptor) : Stays i old old := by
  cases old <;> exact .inl rfl

theorem Stays.trans {a b c : Option Descriptor} (hab : Stays i a b) (hbc : Stays i b c) :
    Stays i a c := by
  cases a with
  | some d =>
      rcases hab with rfl | rfl
      · exact hbc
      · exact .inr (hbc.elim id id)
  | none =>
      rcases hab with rfl | hroot
      · exact hbc
      · exact .inr hroot

/-- The outermost `k` levels, before and after. -/
structure Preserved (k : Nat) (b after : Bindings) : Prop where
  depth : after.depth = b.depth
  stays : ∀ i < k, ∀ name, Stays i (cell b.levels i name) (cell after.levels i name)

variable {k : Nat} {b after : Bindings}

theorem Preserved.refl (k : Nat) (b : Bindings) : Preserved k b b :=
  ⟨rfl, fun i _ _ => .refl i _⟩

theorem Preserved.trans {c : Bindings} (hbc : Preserved k b after) (hcd : Preserved k after c) :
    Preserved k b c where
  depth := hcd.depth.trans hbc.depth
  stays i hi name := (hbc.stays i hi name).trans (hcd.stays i hi name)

/-! ## Scopes -/

theorem levels_push (b : Bindings) : b.push.levels = b.levels ++ [.empty] := rfl

theorem depth_push (b : Bindings) : b.push.depth = b.depth + 1 := by
  simp [depth, levels_push]

theorem depth_pos (b : Bindings) : 0 < b.depth := Nat.zero_lt_succ _

theorem Preserved.pop (h : Preserved k b.push after) (hk : k ≤ b.depth) :
    Preserved k b (after.pop?.getD after) := by
  have hdepth : after.depth = b.depth + 1 := h.depth.trans (depth_push b)
  have hinner : 1 < after.depth := by
    have hpos := depth_pos b
    omega
  constructor
  · change (after.pop?.getD after).levels.length = b.depth
    rw [levels_pop hinner, List.length_dropLast]
    exact Nat.sub_eq_of_eq_add hdepth
  · intro i hi name
    have hlevel : i < b.levels.length := Nat.lt_of_lt_of_le hi hk
    have hstays := h.stays i hi name
    have hbefore : cell b.push.levels i name = cell b.levels i name := by
      rw [cell, levels_push, List.getElem?_append_left hlevel, cell]
    have hafter : cell (after.pop?.getD after).levels i name = cell after.levels i name := by
      have hlast : i < after.levels.length - 1 := by
        change after.levels.length = b.levels.length + 1 at hdepth
        omega
      rw [cell, levels_pop hinner, List.getElem?_dropLast, if_pos hlast, cell]
    rw [hafter, ← hbefore]
    exact hstays

/-! ## Names -/

theorem getElem?_onCurrent (f : Scope → Scope) {levels : List Scope} (h : i + 1 < levels.length) :
    (onCurrent f levels)[i]? = levels[i]? := by
  induction levels generalizing i with
  | nil => rfl
  | cons scope inner ih =>
      cases inner with
      | nil => simp at h
      | cons next more =>
          rw [onCurrent]
          · cases i with
            | zero => rfl
            | succ i => exact ih (Nat.lt_of_succ_lt_succ h)
          · simp

theorem preserved_add (name : String) (d : Descriptor) (hk : k < b.depth) :
    Preserved k b (b.add name d) := by
  refine ⟨depth_add b name d, fun i hi other => ?_⟩
  have hlevel : i + 1 < b.levels.length := Nat.lt_of_le_of_lt hi hk
  have hcell : cell (b.add name d).levels i other = cell b.levels i other := by
    rw [cell, levels_add, getElem?_onCurrent _ hlevel, cell]
  rw [hcell]
  exact .refl i _

theorem stays_insert {scope : Scope} {old : Descriptor} (hold : scope.get? name = some old)
    (other : String) :
    Stays i (scope.get? other)
      ((scope.insert name (if old = d then old else .unknown)).get? other) := by
  by_cases hname : name = other
  · subst hname
    rw [Dictionary.get?_insert_self, hold]
    by_cases hsame : old = d
    · exact .inl (by rw [if_pos hsame])
    · exact .inr (by rw [if_neg hsame])
  · rw [Dictionary.get?_insert_of_ne _ _ hname]
    exact .refl i _

theorem stays_update? {levels changed : List Scope} (h : update? name d levels = some changed)
    (i j : Nat) (other : String) : Stays j (cell levels i other) (cell changed i other) := by
  induction levels generalizing changed i with
  | nil => cases h
  | cons scope inner ih =>
      rw [update?] at h
      cases hinner : update? name d inner with
      | some further =>
          rw [hinner] at h
          cases h
          cases i with
          | zero => exact .refl j _
          | succ i => exact ih hinner i
      | none =>
          rw [hinner] at h
          cases hold : scope.get? name with
          | none => simp [hold] at h
          | some old =>
              simp only [hold, Option.some.injEq] at h
              subst h
              cases i with
              | zero => exact stays_insert hold other
              | succ i => exact .refl j _

theorem get?_of_update?_eq_none {scope : Scope} {inner : List Scope}
    (h : update? name d (scope :: inner) = none) : scope.get? name = none := by
  rw [update?] at h
  split at h
  · cases h
  · cases hold : scope.get? name with
    | none => rfl
    | some old => simp [hold] at h

/-- An assignment forgets what another value contradicts, and binds a name that has no binding at
the root. -/
theorem preserved_assign (k : Nat) (b : Bindings) (name : String) (d : Descriptor) :
    Preserved k b (b.assign name d) := by
  refine ⟨(assign_eq b name d).1, fun i _ other => ?_⟩
  unfold assign
  cases hupdate : update? name d b.levels with
  | some changed =>
      have hne : changed ≠ [] := by
        rw [← List.length_pos_iff, (update?_eq_some hupdate).1]
        exact depth_pos b
      rw [levels_ofLevels b hne]
      exact stays_update? hupdate i i other
  | none =>
      have hfree : b.root.get? name = none := get?_of_update?_eq_none hupdate
      cases i with
      | succ i => exact .refl _ _
      | zero =>
          change Stays 0 (b.root.get? other) ((b.root.insert name d).get? other)
          by_cases hname : name = other
          · subst hname
            rw [hfree]
            exact .inr rfl
          · rw [Dictionary.get?_insert_of_ne _ _ hname]
            exact .refl 0 _

/-! ## Branches -/

theorem joinName_of_forall {branches : List (Option Scope)}
    (h : ∀ branch ∈ branches, branch.bind (·.get? name) = some d ∨
      branch.bind (·.get? name) = some .unknown) :
    joinName branches name = d ∨ joinName branches name = .unknown := by
  cases branches with
  | nil => exact .inr rfl
  | cons first others =>
      rw [joinName, List.map_cons]
      rcases h first List.mem_cons_self with hfirst | hfirst
      · rw [hfirst]
        simp only
        split
        · exact .inl rfl
        · exact .inr rfl
      · rw [hfirst]
        simp only
        exact .inr (ite_self _)

theorem stays_joinScope {old : Option Descriptor} {scope : Scope} {branches : List (Option Scope)}
    (hscope : Stays i old (scope.get? name))
    (hbranches : ∀ branch ∈ branches, Stays i old (branch.bind (·.get? name))) :
    Stays i old ((joinScope scope branches).get? name) := by
  cases old with
  | some d =>
      have hbound : (scope.get? name).isSome = true := by
        rcases hscope with hscope | hscope <;> rw [hscope] <;> rfl
      have hmem : name ∈ scope.keys ++
          branches.flatMap fun branch => (branch.map Dictionary.keys).getD [] :=
        List.mem_append_left _ (Dictionary.mem_keys.mpr hbound)
      rw [joinScope, Dictionary.get?_foldl_insert, if_pos hmem]
      exact (joinName_of_forall hbranches).imp (congrArg some) (congrArg some)
  | none =>
      by_cases hroot : i = 0
      · exact .inr hroot
      · have hfree : scope.get? name = none := hscope.resolve_right hroot
        cases hjoined : (joinScope scope branches).get? name with
        | none => exact .inl rfl
        | some d =>
            exfalso
            rcases boundAt_joinScope (Option.isSome_of_eq_some hjoined) with hown | ⟨branch, hmem, hin⟩
            · rw [hfree] at hown
              cases hown
            · rw [(hbranches branch hmem).resolve_right hroot] at hin
              cases hin

theorem stays_joinLevels {j : Nat} {old : Option Descriptor} {levels : List Scope}
    {branches : List (List Scope)} (hlevels : Stays j old (cell levels i name))
    (hbranches : ∀ branch ∈ branches, Stays j old (cell branch i name)) :
    Stays j old (cell (joinLevels levels branches) i name) := by
  induction levels generalizing branches i with
  | nil => exact hlevels
  | cons scope inner ih =>
      rw [joinLevels]
      cases i with
      | zero =>
          apply stays_joinScope hlevels
          intro head hhead
          obtain ⟨branch, hbranch, rfl⟩ := List.mem_map.mp hhead
          rw [← cell_zero]
          exact hbranches branch hbranch
      | succ i =>
          apply ih hlevels
          intro tail htail
          obtain ⟨branch, hbranch, rfl⟩ := List.mem_map.mp htail
          rw [cell_tail]
          exact hbranches branch hbranch

theorem Preserved.join {branches : List Bindings} (h : Preserved k b after)
    (hbranches : ∀ branch ∈ branches, Preserved k b branch) :
    Preserved k b (after.join branches) := by
  by_cases hne : branches = []
  · rw [hne]
    exact h
  · refine ⟨(depth_join after branches).trans h.depth, fun i hi name => ?_⟩
    rw [levels_join after hne]
    apply stays_joinLevels (h.stays i hi name)
    intro levels hlevels
    obtain ⟨branch, hbranch, rfl⟩ := List.mem_map.mp hlevels
    exact (hbranches branch hbranch).stays i hi name

theorem Preserved.joinPair {left right : Bindings} (h : Preserved k b after)
    (hleft : Preserved k b left) (hright : Preserved k b right) :
    Preserved k b (after.join [left, right]) := by
  apply h.join
  intro branch hbranch
  rcases List.mem_cons.mp hbranch with rfl | hlast
  · exact hleft
  · rw [List.mem_singleton.mp hlast]
    exact hright

end ShellAwait.Bindings
