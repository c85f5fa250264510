import ShellAwait.Proofs.Bindings.Nearest

/-! # Agreement of branches

A join reads its branches as maps, level by level. A name is bound if the entry or some branch binds
it, and it has a descriptor exactly if all branches give it that one. So neither the order of the
branches nor what the entry knew of its names shows in the result, but the names of the entry keep
their places.
-/

namespace ShellAwait

namespace Dictionary

variable {α : Type}

theorem keys_insert (d : Dictionary α) (key : String) (value : α) :
    (d.insert key value).keys = if key ∈ d.keys then d.keys else d.keys ++ [key] := by
  obtain ⟨entries⟩ := d
  change (replace key value entries).map Prod.fst =
    if key ∈ entries.map Prod.fst then entries.map Prod.fst else entries.map Prod.fst ++ [key]
  induction entries with
  | nil => rfl
  | cons entry rest ih =>
      obtain ⟨k, old⟩ := entry
      rw [replace]
      by_cases hk : k = key
      · simp [hk]
      · rw [if_neg hk, List.map_cons, ih]
        by_cases hrest : key ∈ rest.map Prod.fst
        · simp only [hrest, List.map_cons, List.mem_cons, or_true, if_true]
        · simp only [hrest, List.map_cons, List.mem_cons, Ne.symm hk, or_self, if_false,
            List.cons_append]

theorem keys_foldl_insert (f : String → α) (keys : List String) (d : Dictionary α) :
    d.keys <+: (keys.foldl (fun d key => d.insert key (f key)) d).keys := by
  induction keys generalizing d with
  | nil => exact List.prefix_rfl
  | cons first rest ih =>
      refine List.IsPrefix.trans ?_ (ih (d.insert first (f first)))
      rw [keys_insert]
      split
      · exact List.prefix_rfl
      · exact List.prefix_append _ _

end Dictionary

namespace Bindings

/-! ## One level -/

/-- What a join makes of a name is what all branches say of it, if they agree. -/
theorem joinName_of_agreed {branches : List (Option Scope)} {name : String} {d : Descriptor}
    (hne : branches ≠ []) (h : ∀ branch ∈ branches, branch.bind (·.get? name) = some d) :
    joinName branches name = d := by
  cases branches with
  | nil => exact absurd rfl hne
  | cons first others =>
      obtain ⟨hfirst, hothers⟩ := List.forall_mem_cons.mp h
      have hsame :
          (others.map fun branch => branch.bind (·.get? name)).all (· = some d) = true := by
        refine List.all_eq_true.mpr fun said hsaid => ?_
        obtain ⟨branch, hbranch, rfl⟩ := List.mem_map.mp hsaid
        exact decide_eq_true (hothers branch hbranch)
      rw [joinName, List.map_cons, hfirst]
      exact if_pos hsame

theorem joinName_of_disputed {branches : List (Option Scope)} {name : String}
    (h : ¬∃ d, ∀ branch ∈ branches, branch.bind (·.get? name) = some d) :
    joinName branches name = .unknown := by
  cases branches with
  | nil => rfl
  | cons first others =>
      rw [joinName, List.map_cons]
      cases hfirst : first.bind (·.get? name) with
      | none => rfl
      | some d =>
          refine if_neg fun hall => h ⟨d, List.forall_mem_cons.mpr ⟨hfirst, ?_⟩⟩
          intro branch hbranch
          have hsaid := List.all_eq_true.mp hall _ (List.mem_map_of_mem hbranch)
          exact of_decide_eq_true hsaid

theorem mem_joined_names {scope : Scope} {branches : List (Option Scope)} {name : String} :
    name ∈ scope.keys ++ branches.flatMap (fun branch => (branch.map Dictionary.keys).getD []) ↔
      (scope.get? name).isSome = true ∨
        ∃ branch ∈ branches, (branch.bind (·.get? name)).isSome = true := by
  rw [List.mem_append, Dictionary.mem_keys, List.mem_flatMap]
  refine or_congr_right (exists_congr fun branch => and_congr_right fun _ => ?_)
  cases branch with
  | none => simp
  | some level => exact Dictionary.mem_keys

theorem get?_joinScope_of_bound {scope : Scope} {branches : List (Option Scope)} {name : String}
    (h : (scope.get? name).isSome = true ∨
      ∃ branch ∈ branches, (branch.bind (·.get? name)).isSome = true) :
    (joinScope scope branches).get? name = some (joinName branches name) := by
  rw [joinScope, Dictionary.get?_foldl_insert, if_pos (mem_joined_names.mpr h)]

theorem isSome_joinScope {scope : Scope} {branches : List (Option Scope)} {name : String} :
    ((joinScope scope branches).get? name).isSome = true ↔ (scope.get? name).isSome = true ∨
      ∃ branch ∈ branches, (branch.bind (·.get? name)).isSome = true := by
  refine ⟨boundAt_joinScope, fun h => ?_⟩
  rw [get?_joinScope_of_bound h]
  rfl

/-! ## All levels -/

theorem getElem?_joinLevels (levels : List Scope) (branches : List (List Scope)) (i : Nat) :
    (joinLevels levels branches)[i]? =
      levels[i]?.map fun scope => joinScope scope (branches.map (·[i]?)) := by
  induction levels generalizing branches i with
  | nil => rfl
  | cons scope inner ih =>
      rw [joinLevels]
      cases i with
      | zero =>
          have hheads : branches.map List.head? = branches.map (·[0]?) :=
            List.map_congr_left fun branch _ => List.head?_eq_getElem?
          rw [List.getElem?_cons_zero, List.getElem?_cons_zero, Option.map_some, hheads]
      | succ i =>
          have htails : (branches.map List.tail).map (·[i]?) = branches.map (·[i + 1]?) := by
            rw [List.map_map]
            exact List.map_congr_left fun branch _ => List.getElem?_tail
          rw [List.getElem?_cons_succ, List.getElem?_cons_succ, ih, htails]

variable {b joined : Bindings} {branches : List Bindings}

/-- The table that branches of the same depth, entered with `b`, are joined to. -/
structure Joins (b : Bindings) (branches : List Bindings) (joined : Bindings) : Prop where
  depth : joined.depth = b.depth
  /-- A level binds what the entry or some branch binds there. -/
  bound : ∀ i name, (cell joined.levels i name).isSome = true ↔
    (cell b.levels i name).isSome = true ∨
      ∃ branch ∈ branches, (cell branch.levels i name).isSome = true
  agreed : ∀ i name d, (∀ branch ∈ branches, cell branch.levels i name = some d) →
    cell joined.levels i name = some d
  disputed : ∀ i name, (cell joined.levels i name).isSome = true →
    (¬∃ d, ∀ branch ∈ branches, cell branch.levels i name = some d) →
    cell joined.levels i name = some .unknown
  /-- The names of the entry come first, in their order. -/
  order : ∀ i < b.depth, ∃ scope others, b.levels[i]? = some scope ∧
    joined.levels[i]? = some others ∧ scope.keys <+: others.keys

section

variable {i : Nat} {scope : Scope} (hne : branches ≠ []) (hscope : b.levels[i]? = some scope)
  (name : String)

include hne hscope

theorem getElem?_join : (b.join branches).levels[i]? =
    some (joinScope scope (branches.map (·.levels[i]?))) := by
  rw [levels_join b hne, getElem?_joinLevels, hscope, List.map_map]
  rfl

theorem cell_join : cell (b.join branches).levels i name =
    (joinScope scope (branches.map (·.levels[i]?))).get? name := by
  rw [cell, getElem?_join hne hscope]
  rfl

theorem isSome_cell_join : (cell (b.join branches).levels i name).isSome = true ↔
    (cell b.levels i name).isSome = true ∨
      ∃ branch ∈ branches, (cell branch.levels i name).isSome = true := by
  have hown : cell b.levels i name = scope.get? name := by
    rw [cell, hscope]
    rfl
  rw [cell_join hne hscope, isSome_joinScope, hown]
  refine or_congr_right ⟨?_, ?_⟩
  · rintro ⟨said, hsaid, hbound⟩
    obtain ⟨branch, hbranch, rfl⟩ := List.mem_map.mp hsaid
    exact ⟨branch, hbranch, hbound⟩
  · rintro ⟨branch, hbranch, hbound⟩
    exact ⟨branch.levels[i]?, List.mem_map_of_mem hbranch, hbound⟩

theorem cell_join_of_bound (hbound : (cell (b.join branches).levels i name).isSome = true) :
    cell (b.join branches).levels i name =
      some (joinName (branches.map (·.levels[i]?)) name) := by
  rw [cell_join hne hscope] at hbound ⊢
  exact get?_joinScope_of_bound (isSome_joinScope.mp hbound)

end

theorem joins_join (hne : branches ≠ []) (hdepth : ∀ branch ∈ branches, branch.depth = b.depth) :
    Joins b branches (b.join branches) := by
  have hsaid (i : Nat) (name : String) (d : Descriptor) :
      (∀ said ∈ branches.map (·.levels[i]?), said.bind (·.get? name) = some d) ↔
        ∀ branch ∈ branches, cell branch.levels i name = some d := List.forall_mem_map
  have hlevel {i : Nat} (hi : i < b.depth) : ∃ scope, b.levels[i]? = some scope :=
    ⟨_, List.getElem?_eq_getElem hi⟩
  -- Below the innermost level there is nothing, in the entry and in the branches.
  have hbelow {i : Nat} (hi : ¬i < b.depth) (name : String) :
      ∀ branch ∈ branches, cell branch.levels i name = none := fun branch hbranch =>
    cell_eq_none_of_le (Nat.le_trans (Nat.le_of_eq (hdepth branch hbranch)) (Nat.le_of_not_lt hi))
      name
  have hnone {i : Nat} (hi : ¬i < b.depth) (name : String) :
      cell (b.join branches).levels i name = none :=
    cell_eq_none_of_le (Nat.le_trans (Nat.le_of_eq (depth_join b branches)) (Nat.le_of_not_lt hi))
      name
  refine ⟨depth_join b branches, fun i name => ?_, fun i name d h => ?_, fun i name hbound h => ?_,
    fun i hi => ?_⟩
  · by_cases hi : i < b.depth
    · obtain ⟨scope, hscope⟩ := hlevel hi
      exact isSome_cell_join hne hscope name
    · rw [hnone hi, cell_eq_none_of_le (Nat.le_of_not_lt hi)]
      refine ⟨.inl, fun h => h.elim id ?_⟩
      rintro ⟨branch, hbranch, hbound⟩
      rw [hbelow hi name branch hbranch] at hbound
      exact hbound
  · obtain ⟨first, hfirst⟩ := List.exists_mem_of_ne_nil branches hne
    have hi : i < b.depth := by
      refine Decidable.byContradiction fun hi => ?_
      have hd := h first hfirst
      rw [hbelow hi name first hfirst] at hd
      cases hd
    obtain ⟨scope, hscope⟩ := hlevel hi
    have hbound := (isSome_cell_join hne hscope name).mpr
      (.inr ⟨first, hfirst, Option.isSome_of_eq_some (h first hfirst)⟩)
    rw [cell_join_of_bound hne hscope name hbound,
      joinName_of_agreed (by simpa using hne) ((hsaid i name d).mpr h)]
  · have hi : i < b.depth := by
      refine Decidable.byContradiction fun hi => ?_
      rw [hnone hi] at hbound
      cases hbound
    obtain ⟨scope, hscope⟩ := hlevel hi
    rw [cell_join_of_bound hne hscope name hbound, joinName_of_disputed]
    rintro ⟨d, hd⟩
    exact h ⟨d, (hsaid i name d).mp hd⟩
  · obtain ⟨scope, hscope⟩ := hlevel hi
    exact ⟨scope, _, hscope, getElem?_join hne hscope, Dictionary.keys_foldl_insert _ _ scope⟩

/-! ## Maps -/

theorem Joins.cell_eq {entry other : Bindings} {others : List Bindings}
    (h : Joins b branches joined) (hother : Joins entry others other)
    (hnames : ∀ i name, (cell entry.levels i name).isSome = (cell b.levels i name).isSome)
    (hsame : ∀ branch, branch ∈ others ↔ branch ∈ branches) (i : Nat) (name : String) :
    cell other.levels i name = cell joined.levels i name := by
  have hbound : (cell other.levels i name).isSome = true ↔
      (cell joined.levels i name).isSome = true := by
    rw [h.bound, hother.bound, hnames]
    simp only [hsame]
  by_cases hjoined : (cell joined.levels i name).isSome = true
  · by_cases hagreed : ∃ d, ∀ branch ∈ branches, cell branch.levels i name = some d
    · obtain ⟨d, hd⟩ := hagreed
      rw [h.agreed i name d hd,
        hother.agreed i name d fun branch hbranch => hd branch ((hsame branch).mp hbranch)]
    · rw [h.disputed i name hjoined hagreed, hother.disputed i name (hbound.mpr hjoined)]
      simpa only [hsame] using hagreed
  · have hfree : ¬(cell other.levels i name).isSome = true :=
      fun hother => hjoined (hbound.mp hother)
    rw [Option.not_isSome_iff_eq_none] at hjoined hfree
    rw [hjoined, hfree]

theorem join_eq_self (hne : branches ≠ [])
    (h : ∀ branch ∈ branches, ∀ i name, cell branch.levels i name = cell b.levels i name) :
    b.join branches = b := by
  have hlevels : joinLevels b.levels (branches.map levels) = b.levels := by
    refine List.ext_getElem? fun i => ?_
    rw [getElem?_joinLevels]
    cases hscope : b.levels[i]? with
    | none => rfl
    | some scope =>
        refine congrArg some (Dictionary.foldl_insert_of_get? fun name hname => ?_)
        have hsaid : ∀ said ∈ (branches.map levels).map (·[i]?),
            said.bind (·.get? name) = scope.get? name := by
          rw [List.map_map]
          refine List.forall_mem_map.mpr fun branch hbranch => ?_
          refine (h branch hbranch i name).trans ?_
          rw [cell, hscope]
          rfl
        -- No branch binds a name that the entry does not bind.
        have hbound : (scope.get? name).isSome = true := by
          rcases mem_joined_names.mp hname with hown | ⟨said, hmem, hin⟩
          · exact hown
          · rwa [hsaid said hmem] at hin
        obtain ⟨d, hd⟩ := Option.isSome_iff_exists.mp hbound
        rw [hd] at hsaid ⊢
        rw [joinName_of_agreed (by simpa using hne) hsaid]
  cases branches with
  | nil => rfl
  | cons first others =>
      change b.ofLevels (joinLevels b.levels ((first :: others).map levels)) = b
      rw [hlevels]
      rfl

/-- Branches of one depth are joined to what they agree on. As a map the result depends only on
which names the entry binds and which branches there are; and branches that say what the entry says
change nothing in it. -/
theorem join_is_agreement (b : Bindings) (branches : List Bindings) (hne : branches ≠ [])
    (hdepth : ∀ branch ∈ branches, branch.depth = b.depth) :
    Joins b branches (b.join branches) ∧
    (∀ (entry : Bindings) (others : List Bindings), entry.depth = b.depth →
      (∀ i name, (cell entry.levels i name).isSome = (cell b.levels i name).isSome) →
      (∀ branch, branch ∈ others ↔ branch ∈ branches) →
      ∀ i name, cell (entry.join others).levels i name = cell (b.join branches).levels i name) ∧
    ((∀ branch ∈ branches, ∀ i name, cell branch.levels i name = cell b.levels i name) →
      b.join branches = b) := by
  refine ⟨joins_join hne hdepth, fun entry others hentry hnames hsame => ?_, join_eq_self hne⟩
  have hothers : others ≠ [] := by
    obtain ⟨first, hfirst⟩ := List.exists_mem_of_ne_nil branches hne
    exact List.ne_nil_of_mem ((hsame first).mpr hfirst)
  refine (joins_join hne hdepth).cell_eq (joins_join hothers fun branch hbranch => ?_) hnames hsame
  exact (hdepth branch ((hsame branch).mp hbranch)).trans hentry.symm

/-- Two names at the root and one in a scope. -/
def fork : Bindings where
  root := ⟨[("a", .number), ("b", .number)]⟩
  inner := [⟨[("x", .number)]⟩]

/-- One name gets another descriptor and a third one is bound. -/
def forkLeft : Bindings where
  root := ⟨[("a", .number), ("b", .string), ("c", .unknown)]⟩
  inner := [⟨[("x", .number)]⟩]

/-- The same change of a name, in another order, and a change in the scope. -/
def forkRight : Bindings where
  root := ⟨[("b", .string), ("a", .number)]⟩
  inner := [⟨[("x", .string)]⟩]

theorem join_is_agreement_fork :
    (∀ branch ∈ [forkLeft, forkRight], branch.depth = fork.depth) ∧
    (fork.join [forkLeft, forkRight]).levels =
      [⟨[("a", .number), ("b", .string), ("c", .unknown)]⟩, ⟨[("x", .unknown)]⟩] ∧
    Joins fork [forkLeft, forkRight] (fork.join [forkLeft, forkRight]) ∧
    (∀ i name, cell (fork.join [forkRight, forkLeft, forkRight]).levels i name =
      cell (fork.join [forkLeft, forkRight]).levels i name) ∧
    fork.join [fork, fork] = fork := by
  have hdepth : ∀ branch ∈ [forkLeft, forkRight], branch.depth = fork.depth := by decide
  obtain ⟨hjoins, hmaps, -⟩ := join_is_agreement fork [forkLeft, forkRight] (by simp) hdepth
  have hself := (join_is_agreement fork [fork, fork] (by simp) (by simp)).2.2
  refine ⟨hdepth, by decide, hjoins, hmaps fork _ rfl (fun _ _ => rfl) fun branch => ?_, hself ?_⟩
  · simp only [List.mem_cons, List.not_mem_nil, or_false]
    exact ⟨fun h => h.elim .inr id, .inr⟩
  · simp

end Bindings

end ShellAwait
