import ShellAwait.Proofs.Bindings.Nearest

/-! # What bindings hold

A property of every descriptor that some level binds. It is kept by everything that is done with
bindings, provided that it holds of what is written and of an unknown value: a join and a change of
a binding put nothing else in.
-/

namespace ShellAwait

namespace Dictionary

variable {α β : Type}

theorem get?_map (f : α → β) (d : Dictionary α) (key : String) :
    (d.map f).get? key = (d.get? key).map f := by
  obtain ⟨entries⟩ := d
  change lookup key (entries.map fun entry => (entry.1, f entry.2)) = (lookup key entries).map f
  induction entries with
  | nil => rfl
  | cons entry rest ih =>
      obtain ⟨k, value⟩ := entry
      rw [List.map_cons, lookup, lookup]
      split
      · rfl
      · exact ih

/-- Every value of a dictionary has the property. -/
def Holds (P : α → Prop) (d : Dictionary α) : Prop := ∀ key value, d.get? key = some value → P value

variable {P : α → Prop} {d : Dictionary α}

theorem holds_empty : Holds P (empty : Dictionary α) := by
  intro key value h
  cases h

theorem holds_of_values (h : ∀ value ∈ d.values, P value) : d.Holds P := by
  intro key value hvalue
  refine h value (List.mem_map.mpr ⟨(key, value), ?_, rfl⟩)
  obtain ⟨entries⟩ := d
  change lookup key entries = some value at hvalue
  change (key, value) ∈ entries
  clear h
  induction entries with
  | nil => cases hvalue
  | cons entry rest ih =>
      obtain ⟨k, first⟩ := entry
      rw [lookup] at hvalue
      split at hvalue
      next hkey =>
        rw [hkey, Option.some.inj hvalue]
        exact List.mem_cons_self
      next => exact List.mem_cons_of_mem _ (ih hvalue)

theorem Holds.insert (h : d.Holds P) {value : α} (hvalue : P value) (key : String) :
    (d.insert key value).Holds P := by
  intro other found hfound
  by_cases hkey : key = other
  · rw [hkey, get?_insert_self] at hfound
    cases hfound
    exact hvalue
  · rw [get?_insert_of_ne d value hkey] at hfound
    exact h other found hfound

end Dictionary

namespace Bindings

/-- Every descriptor that some level binds a name to has the property. -/
def Holds (P : Descriptor → Prop) (b : Bindings) : Prop := ∀ scope ∈ b.levels, scope.Holds P

variable {P : Descriptor → Prop} {b : Bindings}

/-! ## Scopes -/

theorem Holds.push (h : b.Holds P) : b.push.Holds P := by
  intro scope hscope
  change scope ∈ b.levels ++ [.empty] at hscope
  rcases List.mem_append.mp hscope with hold | hnew
  · exact h scope hold
  · rw [List.mem_singleton.mp hnew]
    exact Dictionary.holds_empty

theorem Holds.pop (h : b.Holds P) : (b.pop?.getD b).Holds P := by
  unfold pop?
  split
  · exact h
  · intro scope hscope
    apply h scope
    rcases List.mem_cons.mp hscope with hroot | hinner
    · exact List.mem_cons.mpr (.inl hroot)
    · exact List.mem_cons.mpr (.inr (List.dropLast_subset _ hinner))

/-! ## Reading and writing -/

theorem Holds.find? {levels : List Scope} (h : ∀ scope ∈ levels, scope.Holds P) {name : String}
    {d : Descriptor} (hfind : Bindings.find? name levels = some d) : P d := by
  induction levels with
  | nil => cases hfind
  | cons scope inner ih =>
      obtain ⟨hscope, hinner⟩ := List.forall_mem_cons.mp h
      rw [Bindings.find?] at hfind
      split at hfind
      next found heq =>
        cases hfind
        exact ih hinner heq
      next => exact hscope name d hfind

theorem Holds.lookup (h : b.Holds P) (hunknown : P .unknown) (name : String) :
    P (b.lookup name) := by
  unfold Bindings.lookup
  cases hfind : Bindings.find? name b.levels with
  | none => exact hunknown
  | some d => exact Holds.find? h hfind

theorem Holds.onCurrent {levels : List Scope} (h : ∀ scope ∈ levels, scope.Holds P) {d : Descriptor}
    (hd : P d) (name : String) :
    ∀ scope ∈ Bindings.onCurrent (·.insert name d) levels, scope.Holds P := by
  induction levels with
  | nil => exact h
  | cons scope inner ih =>
      obtain ⟨hscope, hinner⟩ := List.forall_mem_cons.mp h
      cases inner with
      | nil => exact List.forall_mem_singleton.mpr (hscope.insert hd name)
      | cons next more => exact List.forall_mem_cons.mpr ⟨hscope, ih hinner⟩

theorem Holds.add (h : b.Holds P) {d : Descriptor} (hd : P d) (name : String) :
    (b.add name d).Holds P := by
  unfold Holds
  rw [levels_add]
  exact Holds.onCurrent h hd name

theorem Holds.update? {levels changed : List Scope} (h : ∀ scope ∈ levels, scope.Holds P)
    (hunknown : P .unknown) {name : String} {d : Descriptor}
    (hupdate : Bindings.update? name d levels = some changed) :
    ∀ scope ∈ changed, scope.Holds P := by
  induction levels generalizing changed with
  | nil => cases hupdate
  | cons scope inner ih =>
      obtain ⟨hscope, hinner⟩ := List.forall_mem_cons.mp h
      rw [Bindings.update?] at hupdate
      split at hupdate
      next further hfurther =>
        cases hupdate
        exact List.forall_mem_cons.mpr ⟨hscope, ih hinner hfurther⟩
      next =>
        split at hupdate
        next old hold =>
          cases hupdate
          -- the binding keeps its descriptor or loses it; the new one is not written
          have hkept : P (if old = d then old else .unknown) := by
            split
            · exact hscope name old hold
            · exact hunknown
          exact List.forall_mem_cons.mpr ⟨hscope.insert hkept name, hinner⟩
        next => cases hupdate

/-- A value is stored as it is only under a name that has no binding. -/
theorem Holds.assign (h : b.Holds P) (hunknown : P .unknown) {d : Descriptor} {name : String}
    (hd : Bindings.find? name b.levels = none → P d) : (b.assign name d).Holds P := by
  unfold Bindings.assign
  split
  next changed hchanged =>
    have hne : changed ≠ [] := by
      rw [← List.length_pos_iff, (update?_eq_some hchanged).1]
      exact Nat.zero_lt_succ _
    unfold Holds
    rw [levels_ofLevels b hne]
    exact Holds.update? h hunknown hchanged
  next hupdate =>
    have hfree : Bindings.find? name b.levels = none := by
      cases hfind : Bindings.find? name b.levels with
      | none => rfl
      | some old =>
          obtain ⟨changed, hchanged, -⟩ := update?_of_find? hfind d
          rw [hchanged] at hupdate
          cases hupdate
    obtain ⟨hroot, hinner⟩ := List.forall_mem_cons.mp h
    exact List.forall_mem_cons.mpr ⟨hroot.insert (hd hfree) name, hinner⟩

/-! ## Branches -/

theorem holds_joinName {branches : List (Option Scope)}
    (h : ∀ branch ∈ branches, ∀ scope, branch = some scope → scope.Holds P) (hunknown : P .unknown)
    (name : String) : P (joinName branches name) := by
  cases branches with
  | nil => exact hunknown
  | cons first others =>
      rw [joinName, List.map_cons]
      cases first with
      | none => exact hunknown
      | some scope =>
          cases hd : scope.get? name with
          | none =>
              rw [Option.bind_some, hd]
              exact hunknown
          | some d =>
              rw [Option.bind_some, hd]
              simp only
              split
              · exact h _ List.mem_cons_self scope rfl name d hd
              · exact hunknown

theorem holds_joinLevels {levels : List Scope} {branches : List (List Scope)}
    (h : ∀ scope ∈ levels, scope.Holds P)
    (hbranches : ∀ branch ∈ branches, ∀ scope ∈ branch, scope.Holds P) (hunknown : P .unknown) :
    ∀ scope ∈ joinLevels levels branches, scope.Holds P := by
  induction levels generalizing branches with
  | nil => exact fun _ hnil => absurd hnil List.not_mem_nil
  | cons scope inner ih =>
      obtain ⟨hscope, hinner⟩ := List.forall_mem_cons.mp h
      rw [joinLevels]
      refine List.forall_mem_cons.mpr ⟨fun name d hd => ?_, ih hinner fun tail htail => ?_⟩
      · rw [joinScope, Dictionary.get?_foldl_insert] at hd
        split at hd
        next =>
          cases hd
          refine holds_joinName (fun head hhead level hlevel => ?_) hunknown name
          obtain ⟨branch, hbranch, rfl⟩ := List.mem_map.mp hhead
          exact hbranches branch hbranch level (List.mem_of_mem_head? hlevel)
        next => exact hscope name d hd
      · obtain ⟨branch, hbranch, rfl⟩ := List.mem_map.mp htail
        exact fun level hlevel => hbranches branch hbranch level (List.mem_of_mem_tail hlevel)

theorem Holds.join (h : b.Holds P) (hunknown : P .unknown) {branches : List Bindings}
    (hbranches : ∀ branch ∈ branches, branch.Holds P) : (b.join branches).Holds P := by
  by_cases hne : branches = []
  · rw [hne]
    exact h
  · unfold Holds
    rw [levels_join b hne]
    refine holds_joinLevels h (fun levels hlevels => ?_) hunknown
    obtain ⟨branch, hbranch, rfl⟩ := List.mem_map.mp hlevels
    exact hbranches branch hbranch

theorem Holds.join_pair (h : b.Holds P) (hunknown : P .unknown) {left right : Bindings}
    (hleft : left.Holds P) (hright : right.Holds P) : (b.join [left, right]).Holds P :=
  h.join hunknown (List.forall_mem_cons.mpr ⟨hleft, List.forall_mem_singleton.mpr hright⟩)

/-! ## The start -/

theorem holds_ofCatalogue {c : Catalogue} (h : c.globals.Holds fun m => P m.descriptor) :
    (ofCatalogue c).Holds P := by
  refine List.forall_mem_singleton.mpr fun name d hd => ?_
  change (c.globals.map Member.descriptor).get? name = some d at hd
  rw [Dictionary.get?_map] at hd
  obtain ⟨m, hm, rfl⟩ := Option.map_eq_some_iff.mp hd
  exact h name m hm

end Bindings

end ShellAwait
