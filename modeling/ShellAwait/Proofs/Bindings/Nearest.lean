import ShellAwait.Proofs.Bindings.Outer

/-! # The nearest binding

Of all the levels that bind a name the innermost one counts. A declaration puts a binding in front
of the others; an assignment changes the one that counts, or makes one at the root. A binding of
which nothing is known stays the nearest one, whatever is assigned around it.
-/

namespace ShellAwait.Bindings

variable {levels : List Scope}

variable {b : Bindings} {name : String} {d : Descriptor}

theorem cell_eq_none_of_le {i : Nat} (h : levels.length ≤ i) (name : String) :
    cell levels i name = none := by
  rw [cell, List.getElem?_eq_none h]
  rfl

theorem find?_eq_none_iff : find? name levels = none ↔ ∀ i, cell levels i name = none := by
  induction levels with
  | nil => exact ⟨fun _ i => cell_eq_none_of_le (Nat.zero_le i) name, fun _ => rfl⟩
  | cons scope inner ih =>
      rw [find?]
      constructor
      · intro h
        split at h
        next => cases h
        next hinner =>
          intro i
          cases i with
          | zero => exact h
          | succ i => exact ih.mp hinner i
      · intro h
        rw [ih.mpr fun i => h (i + 1)]
        exact h 0

theorem find?_of_cell {i : Nat} (h : cell levels i name = some d)
    (hinner : ∀ j, i < j → cell levels j name = none) : find? name levels = some d := by
  induction levels generalizing i with
  | nil => cases h
  | cons scope inner ih =>
      cases i with
      | zero =>
          have hnone : find? name inner = none :=
            find?_eq_none_iff.mpr fun j => hinner (j + 1) (Nat.zero_lt_succ j)
          rw [find?, hnone]
          exact h
      | succ i =>
          have hfound : find? name inner = some d :=
            ih h fun j hj => hinner (j + 1) (Nat.succ_lt_succ hj)
          rw [find?, hfound]

theorem exists_cell_of_find? (h : find? name levels = some d) :
    ∃ i, cell levels i name = some d ∧ ∀ j, i < j → cell levels j name = none := by
  induction levels with
  | nil => cases h
  | cons scope inner ih =>
      have hbehind {i j : Nat} (hj : i < j) : ∃ k, j = k + 1 ∧ i ≤ k := ⟨j - 1, by omega, by omega⟩
      rw [find?] at h
      split at h
      next found hfound =>
        cases h
        obtain ⟨i, hi, hnone⟩ := ih hfound
        refine ⟨i + 1, hi, fun j hj => ?_⟩
        obtain ⟨k, rfl, hk⟩ := hbehind hj
        exact hnone k hk
      next hinner =>
        refine ⟨0, h, fun j hj => ?_⟩
        obtain ⟨k, rfl, -⟩ := hbehind hj
        exact find?_eq_none_iff.mp hinner k

theorem Preserved.find?_unknown {after : Bindings} (h : Preserved b.depth b after)
    (hunknown : find? name b.levels = some .unknown) :
    find? name after.levels = some .unknown := by
  obtain ⟨i, hi, hinner⟩ := exists_cell_of_find? hunknown
  have hlevel : i < b.depth := by
    refine Nat.lt_of_not_le fun hle => ?_
    rw [cell_eq_none_of_le hle] at hi
    cases hi
  refine find?_of_cell (i := i) ?_ fun j hj => ?_
  · have hstays := h.stays i hlevel name
    rw [hi] at hstays
    exact hstays.elim id id
  · by_cases hdepth : j < b.depth
    · have hstays := h.stays j hdepth name
      rw [hinner j hj] at hstays
      -- a level inside of another one is not the root
      exact hstays.resolve_right (Nat.ne_of_gt (Nat.zero_lt_of_lt hj))
    · have hle : after.levels.length ≤ j := by
        have hsame : after.levels.length = b.levels.length := h.depth
        have hout : b.levels.length ≤ j := Nat.le_of_not_lt hdepth
        omega
      exact cell_eq_none_of_le hle name

/-! ## The innermost level -/

/-- What the innermost level says of a name. -/
def current (b : Bindings) (name : String) : Option Descriptor := cell b.levels (b.depth - 1) name

theorem find?_of_current (h : b.current name = some d) : find? name b.levels = some d := by
  refine find?_of_cell h fun j hj => cell_eq_none_of_le ?_ name
  change b.levels.length - 1 < j at hj
  omega

theorem cell_onCurrent (name : String) (d : Descriptor) (levels : List Scope) (i : Nat)
    (other : String) :
    cell (onCurrent (·.insert name d) levels) i other =
      if i + 1 = levels.length ∧ name = other then some d else cell levels i other := by
  induction levels generalizing i with
  | nil => rfl
  | cons scope inner ih =>
      cases inner with
      | nil =>
          cases i with
          | zero =>
              change (scope.insert name d).get? other = _
              by_cases hname : name = other
              · subst hname
                rw [Dictionary.get?_insert_self, if_pos ⟨rfl, rfl⟩]
              · rw [Dictionary.get?_insert_of_ne _ _ hname, if_neg fun h => hname h.2]
                rfl
          | succ i => rw [if_neg (by simp)]; rfl
      | cons next more =>
          cases i with
          | zero => rw [if_neg (by simp)]; rfl
          | succ i =>
              change cell (onCurrent (·.insert name d) (next :: more)) i other = _
              rw [ih i]
              simp only [List.length_cons, Nat.add_right_cancel_iff]
              rfl

theorem cell_add (b : Bindings) (name : String) (d : Descriptor) (i : Nat) (other : String) :
    cell (b.add name d).levels i other =
      if i + 1 = b.depth ∧ name = other then some d else cell b.levels i other := by
  rw [levels_add]
  exact cell_onCurrent name d b.levels i other

theorem current_add (b : Bindings) (name : String) (d : Descriptor) (other : String) :
    (b.add name d).current other = if name = other then some d else b.current other := by
  have hlast : b.depth - 1 + 1 = b.depth := Nat.sub_add_cancel (depth_pos b)
  rw [current, depth_add, cell_add]
  by_cases hname : name = other
  · rw [if_pos ⟨hlast, hname⟩, if_pos hname]
  · rw [if_neg fun h => hname h.2, if_neg hname]
    rfl

theorem find?_add_self (b : Bindings) (name : String) (d : Descriptor) :
    find? name (b.add name d).levels = some d := by
  apply find?_of_current
  rw [current_add, if_pos rfl]

theorem find?_congr {others : List Scope} (h : ∀ i, cell levels i name = cell others i name) :
    find? name levels = find? name others := by
  cases hfind : find? name others with
  | none => exact find?_eq_none_iff.mpr fun i => (h i).trans (find?_eq_none_iff.mp hfind i)
  | some d =>
      obtain ⟨i, hi, hinner⟩ := exists_cell_of_find? hfind
      exact find?_of_cell ((h i).trans hi) fun j hj => (h j).trans (hinner j hj)

theorem find?_add_of_ne {other : String} (hne : name ≠ other) :
    find? other (b.add name d).levels = find? other b.levels := by
  apply find?_congr
  intro i
  rw [cell_add, if_neg fun h => hne h.2]

theorem onCurrent_insert_of_cell (h : cell levels (levels.length - 1) name = some d) :
    onCurrent (·.insert name d) levels = levels := by
  induction levels with
  | nil => rfl
  | cons scope inner ih =>
      cases inner with
      | nil => exact congrArg (· :: []) (Dictionary.insert_of_get? h)
      | cons next more => exact congrArg (scope :: ·) (ih h)

theorem add_of_current (h : b.current name = some d) : b.add name d = b := by
  rw [add, onCurrent_insert_of_cell h]
  rfl

/-! ## Assignments -/

theorem update?_eq_none (h : find? name levels = none) (d : Descriptor) :
    update? name d levels = none := by
  induction levels with
  | nil => rfl
  | cons scope inner ih =>
      rw [find?] at h
      split at h
      next => cases h
      next hinner => rw [update?, ih hinner, h]

theorem update?_of_find? {old : Descriptor} (h : find? name levels = some old) (d : Descriptor) :
    ∃ changed, update? name d levels = some changed ∧
      find? name changed = some (if old = d then old else .unknown) ∧
      (old = d ∨ old = .unknown → changed = levels) := by
  induction levels with
  | nil => cases h
  | cons scope inner ih =>
      rw [find?] at h
      split at h
      next found hfound =>
        cases h
        obtain ⟨changed, hchanged, hfind, hsame⟩ := ih hfound
        refine ⟨scope :: changed, ?_, ?_, fun hold => by rw [hsame hold]⟩
        · rw [update?, hchanged]
        · rw [find?, hfind]
      next hinner =>
        have hupdate : update? name d inner = none := update?_eq_none hinner d
        refine ⟨_, by rw [update?, hupdate, h], ?_, fun hold => ?_⟩
        · rw [find?, hinner]
          exact Dictionary.get?_insert_self ..
        · have hkept : scope.insert name (if old = d then old else .unknown) = scope := by
            apply Dictionary.insert_of_get?
            rw [h]
            rcases hold with rfl | rfl <;> simp
          rw [hkept]

theorem find?_assign (b : Bindings) (name : String) (d : Descriptor) :
    find? name (b.assign name d).levels =
      match find? name b.levels with
      | some old => some (if old = d then old else .unknown)
      | none => some d := by
  rw [assign]
  cases hfind : find? name b.levels with
  | none =>
      have hinner : find? name b.inner = none :=
        find?_eq_none_iff.mpr fun i => find?_eq_none_iff.mp hfind (i + 1)
      rw [update?_eq_none hfind]
      change find? name (b.root.insert name d :: b.inner) = some d
      rw [find?, hinner]
      exact Dictionary.get?_insert_self ..
  | some old =>
      obtain ⟨changed, hchanged, hnearest, -⟩ := update?_of_find? hfind d
      have hne : changed ≠ [] := by
        rintro rfl
        cases hnearest
      rw [hchanged]
      change find? name (b.ofLevels changed).levels = _
      rw [levels_ofLevels b hne, hnearest]

theorem lookup_assign_of_free (h : find? name b.levels = none) :
    (b.assign name d).lookup name = d := by
  rw [lookup, find?_assign, h]
  rfl

theorem find?_assign_unknown (b : Bindings) (name : String) :
    find? name (b.assign name .unknown).levels = some .unknown := by
  rw [find?_assign]
  split
  · simp
  · rfl

/-- An assignment leaves a table as it is if the name is bound and has the assigned descriptor or
has lost its own already, and only then. -/
theorem assign_eq_self_iff :
    b.assign name d = b ↔
      b.isBound name = true ∧ (b.lookup name = d ∨ b.lookup name = .unknown) := by
  cases hfind : find? name b.levels with
  | none =>
      have hunbound : b.isBound name = false := by rw [isBound, hfind]; rfl
      refine ⟨fun h => ?_, fun h => by rw [hunbound] at h; cases h.1⟩
      have hnearest := find?_assign b name d
      rw [h, hfind] at hnearest
      cases hnearest
  | some old =>
      have hbound : b.isBound name = true := by rw [isBound, hfind]; rfl
      have hlookup : b.lookup name = old := by rw [lookup, hfind]; rfl
      rw [hbound, hlookup]
      refine ⟨fun h => ⟨rfl, ?_⟩, fun h => ?_⟩
      · have hnearest := find?_assign b name d
        rw [h, hfind, Option.some.injEq] at hnearest
        split at hnearest
        next hsame => exact .inl hsame
        next => exact .inr hnearest
      · obtain ⟨changed, hchanged, -, hsame⟩ := update?_of_find? hfind d
        rw [assign, hchanged, hsame h.2]
        rfl

end ShellAwait.Bindings
