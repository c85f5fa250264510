import Mathlib.Data.List.Forall2
import ShellAwait.Proofs.Bindings.Columns

/-! # Widening

Joining the bindings at the entry of a loop with those after an iteration forgets what the iteration
has changed and binds what it has added to an unknown value. What a table can still lose that way,
its room, gets smaller with every join that changes it.
-/

namespace ShellAwait

namespace Dictionary

variable {α : Type}

theorem insert_of_get? {d : Dictionary α} {key : String} {value : α} (h : d.get? key = some value) :
    d.insert key value = d := by
  obtain ⟨entries⟩ := d
  change lookup key entries = some value at h
  change Dictionary.mk (replace key value entries) = _
  congr 1
  induction entries with
  | nil => cases h
  | cons entry rest ih =>
      obtain ⟨k, old⟩ := entry
      rw [lookup] at h
      rw [replace]
      split at h
      next hk => rw [if_pos hk, Option.some.inj h]
      next hk => rw [if_neg hk, ih h]

theorem foldl_insert_of_get? {f : String → α} {keys : List String} {d : Dictionary α}
    (h : ∀ key ∈ keys, d.get? key = some (f key)) :
    keys.foldl (fun d key => d.insert key (f key)) d = d := by
  induction keys with
  | nil => rfl
  | cons first rest ih =>
      obtain ⟨hfirst, hrest⟩ := List.forall_mem_cons.mp h
      rw [List.foldl_cons, insert_of_get? hfirst]
      exact ih hrest

theorem agrees_iff [DecidableEq α] {a b : Dictionary α} :
    a.agrees b = true ↔ ∀ key, a.get? key = b.get? key := by
  rw [agrees, Bool.and_eq_true, List.all_eq_true, List.all_eq_true]
  constructor
  · rintro ⟨hleft, hright⟩ key
    by_cases ha : key ∈ a.keys
    · exact (of_decide_eq_true (hleft key ha)).symm
    · by_cases hb : key ∈ b.keys
      · exact of_decide_eq_true (hright key hb)
      · rw [mem_keys, Option.not_isSome_iff_eq_none] at ha hb
        rw [ha, hb]
  · intro h
    exact ⟨fun key _ => decide_eq_true (h key).symm, fun key _ => decide_eq_true (h key)⟩

end Dictionary

namespace Bindings

variable {scope : Scope} {name : String}

/-- What a join makes of a binding: it stays, or nothing is known of it. -/
def Wider (old new : Option Descriptor) : Prop := new = old ∨ new = some .unknown

theorem Wider.trans {a b c : Option Descriptor} (hab : Wider a b) (hbc : Wider b c) :
    Wider a c := by
  rcases hbc with rfl | hc
  · exact hab
  · exact .inr hc

theorem wider_trans {a b c : List (Option Descriptor)} (hab : List.Forall₂ Wider a b)
    (hbc : List.Forall₂ Wider b c) : List.Forall₂ Wider a c := by
  induction hab generalizing c with
  | nil => exact hbc
  | cons hfirst hrest ih =>
      cases hbc with
      | cons hsecond hothers => exact .cons (hfirst.trans hsecond) (ih hothers)

/-- The bindings of a level of which something is known. -/
def known (scope : Scope) : Nat := (scope.values.filter (· ≠ .unknown)).length

/-- The names that a level does not bind. -/
def unbound (names : List String) (scope : Scope) : Nat :=
  names.countP fun name => scope.get? name = none

/-- How much can still be forgotten or added at the levels. -/
def room (names : List String) : List Scope → Nat
  | [] => 0
  | scope :: inner => known scope + unbound names scope + room names inner

theorem room_le (names : List String) (levels : List Scope) :
    room names levels ≤ knownIn levels + levels.length * names.length := by
  induction levels with
  | nil => exact Nat.zero_le _
  | cons scope inner ih =>
      have hunbound : unbound names scope ≤ names.length := List.countP_le_length
      rw [room, knownIn, List.length_cons, Nat.succ_mul]
      change known scope + _ + _ ≤ known scope + _ + _
      omega

/-! ## One level -/

theorem known_insert (scope : Scope) (name : String) (d : Descriptor) :
    known (scope.insert name d) +
        (if ∃ old, scope.get? name = some old ∧ old ≠ .unknown then 1 else 0) =
      known scope + (if d ≠ .unknown then 1 else 0) := by
  obtain ⟨entries⟩ := scope
  change ((Dictionary.replace name d entries).map Prod.snd |>.filter (· ≠ .unknown)).length +
    (if ∃ old, Dictionary.lookup name entries = some old ∧ old ≠ .unknown then 1 else 0) =
    ((entries.map Prod.snd).filter (· ≠ .unknown)).length + _
  induction entries with
  | nil => by_cases hd : d = .unknown <;> simp [Dictionary.replace, Dictionary.lookup, hd]
  | cons entry rest ih =>
      obtain ⟨k, old⟩ := entry
      by_cases hk : k = name
      · by_cases hd : d = .unknown <;> by_cases hold : old = .unknown <;>
          simp [Dictionary.replace, Dictionary.lookup, hk, hd, hold]
      · by_cases hold : old = .unknown
        · simpa [Dictionary.replace, Dictionary.lookup, hk, hold] using ih
        · simp [Dictionary.replace, Dictionary.lookup, hk, hold] at ih ⊢
          omega

/-- What a join writes of a name is no more than what is known of it. -/
def Forgets (f : String → Descriptor) (scope : Scope) : Prop :=
  ∀ name, Wider (scope.get? name) (some (f name))

theorem Forgets.insert {f : String → Descriptor} (h : Forgets f scope) (name : String) :
    Forgets f (scope.insert name (f name)) := by
  intro other
  by_cases hne : name = other
  · subst hne
    rw [Dictionary.get?_insert_self]
    exact .inl rfl
  · rw [Dictionary.get?_insert_of_ne _ _ hne]
    exact h other

theorem known_insert_le {f : String → Descriptor} (h : Forgets f scope) (name : String) :
    known (scope.insert name (f name)) ≤ known scope := by
  have hcount := known_insert scope name (f name)
  rcases h name with hsame | hunknown
  · by_cases hknown : f name = .unknown
    · rw [if_neg (not_not.mpr hknown)] at hcount
      omega
    · rw [if_pos hknown, if_pos ⟨f name, hsame.symm, hknown⟩] at hcount
      omega
  · rw [if_neg (not_not.mpr (Option.some.inj hunknown))] at hcount
    omega

theorem known_insert_lt {d : Descriptor} (hbound : scope.get? name = some d) (hknown : d ≠ .unknown) :
    known (scope.insert name .unknown) < known scope := by
  have hcount := known_insert scope name .unknown
  rw [if_pos ⟨d, hbound, hknown⟩, if_neg (not_not.mpr rfl)] at hcount
  omega

theorem known_foldl {f : String → Descriptor} (names : List String) (h : Forgets f scope) :
    known (names.foldl (fun s name => s.insert name (f name)) scope) ≤ known scope ∧
      ∀ name ∈ names, ∀ d, scope.get? name = some d → d ≠ .unknown → f name = .unknown →
        known (names.foldl (fun s name => s.insert name (f name)) scope) < known scope := by
  induction names generalizing scope with
  | nil => exact ⟨Nat.le_refl _, fun _ hmem => absurd hmem List.not_mem_nil⟩
  | cons first rest ih =>
      rw [List.foldl_cons]
      obtain ⟨hle, hlt⟩ := ih (h.insert first)
      have hfirst := known_insert_le h first
      refine ⟨Nat.le_trans hle hfirst, fun name hmem d hbound hknown hforgotten => ?_⟩
      by_cases hname : name = first
      · subst hname
        rw [hforgotten] at hle
        rw [hforgotten]
        exact Nat.lt_of_le_of_lt hle (known_insert_lt hbound hknown)
      · have hrest : name ∈ rest := (List.mem_cons.mp hmem).resolve_left hname
        have hkept : (scope.insert first (f first)).get? name = some d := by
          rw [Dictionary.get?_insert_of_ne _ _ (Ne.symm hname), hbound]
        exact Nat.lt_of_lt_of_le (hlt name hrest d hkept hknown hforgotten) hfirst

theorem joinName_entry (scope : Scope) (other : Option Scope) (name : String) :
    joinName [some scope, other] name =
      match scope.get? name with
      | some d => if other.bind (·.get? name) = some d then d else .unknown
      | none => .unknown := by
  rw [joinName, List.map_cons, List.map_cons, List.map_nil, Option.bind_some]
  cases scope.get? name with
  | none => rfl
  | some d => simp

theorem forgets_joinName (scope : Scope) (other : Option Scope) :
    Forgets (joinName [some scope, other]) scope := by
  intro name
  rw [joinName_entry]
  cases hvalue : scope.get? name with
  | none => exact .inr rfl
  | some d =>
      simp only
      split
      · exact .inl rfl
      · exact .inr rfl

theorem wider_joinScope (scope : Scope) (other : Option Scope) (name : String) :
    Wider (scope.get? name) ((joinScope scope [some scope, other]).get? name) := by
  rw [joinScope, Dictionary.get?_foldl_insert]
  split
  · exact forgets_joinName scope other name
  · exact .inl rfl

theorem joinScope_eq {other : Option Scope}
    (h : (joinScope scope [some scope, other]).agrees scope = true) :
    joinScope scope [some scope, other] = scope := by
  have hsame := Dictionary.agrees_iff.mp h
  rw [joinScope] at hsame ⊢
  refine Dictionary.foldl_insert_of_get? fun name hmem => ?_
  rw [← hsame name, Dictionary.get?_foldl_insert, if_pos hmem]

theorem Wider.eq_none {old new : Option Descriptor} (h : Wider old new) (hnew : new = none) :
    old = none := by
  rcases h with hsame | hunknown
  · exact hsame.symm.trans hnew
  · rw [hnew] at hunknown
    cases hunknown

theorem unbound_le (names : List String) {wider : Scope}
    (h : ∀ name, Wider (scope.get? name) (wider.get? name)) :
    unbound names wider ≤ unbound names scope :=
  List.countP_mono_left fun name _ hnone =>
    decide_eq_true ((h name).eq_none (of_decide_eq_true hnone))

theorem unbound_lt {names : List String} {wider : Scope}
    (h : ∀ name, Wider (scope.get? name) (wider.get? name)) (hmem : name ∈ names)
    (hscope : scope.get? name = none) (hwider : wider.get? name ≠ none) :
    unbound names wider < unbound names scope := by
  obtain ⟨before, after, rfl⟩ := List.append_of_mem hmem
  have hbefore := unbound_le before h
  have hafter := unbound_le after h
  unfold unbound at *
  simp only [List.countP_append, List.countP_cons, hscope, hwider, decide_true, decide_false]
  simp only [ite_true, Bool.false_eq_true, ite_false]
  omega

theorem room_joinScope {names : List String} {other : Option Scope}
    (honly : ∀ name, (other.bind (·.get? name)).isSome = true →
      name ∈ names ∨ (scope.get? name).isSome = true)
    (hchanged : (joinScope scope [some scope, other]).agrees scope = false) :
    known (joinScope scope [some scope, other]) +
        unbound names (joinScope scope [some scope, other]) <
      known scope + unbound names scope := by
  have hforgets := forgets_joinName scope other
  have hwider := wider_joinScope scope other
  have hunbound := unbound_le names hwider
  have hknown : known (joinScope scope [some scope, other]) ≤ known scope :=
    (known_foldl _ hforgets).1
  obtain ⟨name, hne⟩ : ∃ name,
      (joinScope scope [some scope, other]).get? name ≠ scope.get? name := by
    refine Classical.not_forall.mp fun hall => ?_
    rw [Dictionary.agrees_iff.mpr hall] at hchanged
    cases hchanged
  have hwritten : (joinScope scope [some scope, other]).get? name = some .unknown :=
    (hwider name).resolve_left hne
  have hmem : name ∈ scope.keys ++
      [some scope, other].flatMap fun branch => (branch.map Dictionary.keys).getD [] := by
    refine Classical.byContradiction fun hmem => ?_
    rw [joinScope, Dictionary.get?_foldl_insert, if_neg hmem] at hne
    exact hne rfl
  have hforgotten : joinName [some scope, other] name = .unknown := by
    rw [joinScope, Dictionary.get?_foldl_insert, if_pos hmem] at hwritten
    exact Option.some.inj hwritten
  cases hvalue : scope.get? name with
  | some d =>
      -- the join forgets what was known of the name
      have hd : d ≠ .unknown := by
        rintro rfl
        exact hne (hwritten.trans hvalue.symm)
      have hless : known (joinScope scope [some scope, other]) < known scope :=
        (known_foldl _ hforgets).2 name hmem d hvalue hd hforgotten
      omega
  | none =>
      -- the iteration has added the name
      have hadded : name ∈ names := by
        rcases List.mem_append.mp hmem with hown | hbranch
        · rw [Dictionary.mem_keys, hvalue] at hown
          cases hown
        · obtain ⟨branch, hbranch, hkey⟩ := List.mem_flatMap.mp hbranch
          rw [List.mem_cons, List.mem_singleton] at hbranch
          rcases hbranch with rfl | rfl
          · rw [Option.map_some, Option.getD_some, Dictionary.mem_keys, hvalue] at hkey
            cases hkey
          · cases branch with
            | none => cases hkey
            | some level =>
                rw [Option.map_some, Option.getD_some, Dictionary.mem_keys] at hkey
                refine (honly name hkey).resolve_right fun hbound => ?_
                rw [hvalue] at hbound
                cases hbound
      have hbound : (joinScope scope [some scope, other]).get? name ≠ none := by
        rw [hwritten]
        exact Option.some_ne_none _
      have hless := unbound_lt hwider hadded hvalue hbound
      omega

/-! ## All levels -/

/-- The level with the given number, counted from the root, binds the name. -/
def boundAt (levels : List Scope) (i : Nat) (name : String) : Bool :=
  (levels[i]?.bind (·.get? name)).isSome

theorem boundAt_zero (levels : List Scope) (name : String) :
    boundAt levels 0 name = (levels.head?.bind (·.get? name)).isSome := by
  rw [boundAt, List.head?_eq_getElem?]

theorem boundAt_succ (levels : List Scope) (i : Nat) (name : String) :
    boundAt levels (i + 1) name = boundAt levels.tail i name := by
  rw [boundAt, boundAt, List.getElem?_tail]

/-- Level by level, no other names are bound than at the entry and the given ones. -/
def AddsOnly (names : List String) (entry levels : List Scope) : Prop :=
  ∀ i name, boundAt levels i name = true → name ∈ names ∨ boundAt entry i name = true

/-- The levels of the entry, joined with those of a branch. -/
def widened (levels other : List Scope) : List Scope := joinLevels levels [levels, other]

theorem widened_cons (scope : Scope) (inner other : List Scope) :
    widened (scope :: inner) other =
      joinScope scope [some scope, other.head?] :: widened inner other.tail := rfl

/-- The levels agree one by one. -/
def agreeLevels (a b : List Scope) : Bool := (a.zip b).all fun (s, t) => s.agrees t

theorem agreeLevels_cons (s t : Scope) (a b : List Scope) :
    agreeLevels (s :: a) (t :: b) = (s.agrees t && agreeLevels a b) := rfl

theorem agreeLevels_refl (levels : List Scope) : agreeLevels levels levels = true := by
  induction levels with
  | nil => rfl
  | cons scope inner ih =>
      rw [agreeLevels_cons, ih, Bool.and_true]
      exact Dictionary.agrees_iff.mpr fun _ => rfl

theorem wider_widened (levels other : List Scope) (name : String) :
    List.Forall₂ Wider (column levels name) (column (widened levels other) name) := by
  induction levels generalizing other with
  | nil => exact .nil
  | cons scope inner ih => exact .cons (wider_joinScope scope other.head? name) (ih other.tail)

theorem widened_eq {levels other : List Scope}
    (h : agreeLevels (widened levels other) levels = true) : widened levels other = levels := by
  induction levels generalizing other with
  | nil => rfl
  | cons scope inner ih =>
      rw [widened_cons, agreeLevels_cons, Bool.and_eq_true] at h
      rw [widened_cons, joinScope_eq h.1, ih h.2]

theorem room_widened {names : List String} {levels other : List Scope}
    (honly : AddsOnly names levels other) :
    room names (widened levels other) ≤ room names levels ∧
      (agreeLevels (widened levels other) levels = false →
        room names (widened levels other) < room names levels) := by
  induction levels generalizing other with
  | nil => exact ⟨Nat.le_refl _, fun h => by cases h⟩
  | cons scope inner ih =>
      have hscope : ∀ name, (other.head?.bind (·.get? name)).isSome = true →
          name ∈ names ∨ (scope.get? name).isSome = true := by
        intro name hbound
        rw [← boundAt_zero] at hbound
        exact honly 0 name hbound
      have hinner : AddsOnly names inner other.tail := by
        intro i name hbound
        rw [← boundAt_succ] at hbound
        exact honly (i + 1) name hbound
      obtain ⟨hle, hlt⟩ := ih hinner
      have hfirst := room_joinScope hscope
      rw [widened_cons, room, room]
      by_cases hsame : (joinScope scope [some scope, other.head?]).agrees scope = true
      · rw [joinScope_eq hsame]
        refine ⟨by omega, fun hchanged => ?_⟩
        rw [agreeLevels_cons, Dictionary.agrees_iff.mpr fun _ => rfl, Bool.true_and] at hchanged
        have hless := hlt hchanged
        omega
      · have hless := hfirst (Bool.eq_false_iff.mpr hsame)
        exact ⟨by omega, fun _ => by omega⟩

/-! ## Tables -/

/-- The bindings at the entry of a loop, joined with those that an iteration leaves. -/
def widen (b after : Bindings) : Bindings := b.join [b, after]

theorem levels_widen (b after : Bindings) :
    (b.widen after).levels = widened b.levels after.levels :=
  levels_join b (List.cons_ne_nil _ _)

theorem depth_widen (b after : Bindings) : (b.widen after).depth = b.depth := depth_join b _

theorem wider_widen (b after : Bindings) (name : String) :
    List.Forall₂ Wider (column b.levels name) (column (b.widen after).levels name) := by
  rw [levels_widen]
  exact wider_widened _ _ name

theorem agrees_widen (b after : Bindings) :
    (b.widen after).agrees b = agreeLevels (b.widen after).levels b.levels := by
  have hseeded : (b.widen after).seeded = b.seeded := rfl
  rw [agrees, depth_widen, hseeded, Dictionary.agrees_iff.mpr fun _ => rfl]
  simp [agreeLevels]

theorem agrees_refl (b : Bindings) : b.agrees b = true := by
  have hlevels : agreeLevels b.levels b.levels = true := agreeLevels_refl b.levels
  have hseeded : b.seeded.agrees b.seeded = true := Dictionary.agrees_iff.mpr fun _ => rfl
  rw [agrees, hseeded, Bool.and_true, decide_eq_true rfl, Bool.true_and]
  exact hlevels

/-- A table that a join leaves as it was is not even put in another order. -/
theorem widen_eq {b after : Bindings} (h : (b.widen after).agrees b = true) :
    b.widen after = b := by
  rw [agrees_widen, levels_widen] at h
  change b.ofLevels (widened b.levels after.levels) = b
  rw [widened_eq h]
  rfl

theorem room_widen {names : List String} {b after : Bindings}
    (honly : AddsOnly names b.levels after.levels) (h : (b.widen after).agrees b = false) :
    room names (b.widen after).levels < room names b.levels := by
  rw [agrees_widen] at h
  rw [levels_widen] at h ⊢
  exact (room_widened honly).2 h

/-! ## What a walk adds -/

theorem boundAt_eq (levels : List Scope) (i : Nat) (name : String) :
    boundAt levels i name = ((column levels name)[i]?.bind id).isSome := by
  rw [boundAt, column, List.getElem?_map]
  cases levels[i]? <;> rfl

theorem boundAt_joinScope {branches : List (Option Scope)}
    (h : ((joinScope scope branches).get? name).isSome = true) :
    (scope.get? name).isSome = true ∨
      ∃ branch ∈ branches, (branch.bind (·.get? name)).isSome = true := by
  rw [joinScope, Dictionary.get?_foldl_insert] at h
  split at h
  next hmem =>
    rcases List.mem_append.mp hmem with hown | hadded
    · exact .inl (Dictionary.mem_keys.mp hown)
    · obtain ⟨branch, hbranch, hkey⟩ := List.mem_flatMap.mp hadded
      refine .inr ⟨branch, hbranch, ?_⟩
      cases branch with
      | none => cases hkey
      | some level => exact Dictionary.mem_keys.mp hkey
  next => exact .inl h

theorem boundAt_joinLevels {levels : List Scope} {branches : List (List Scope)} {i : Nat}
    (h : boundAt (joinLevels levels branches) i name = true) :
    boundAt levels i name = true ∨ ∃ branch ∈ branches, boundAt branch i name = true := by
  induction levels generalizing branches i with
  | nil => cases h
  | cons scope inner ih =>
      rw [joinLevels] at h
      cases i with
      | zero =>
          rcases boundAt_joinScope h with hown | ⟨head, hhead, hbound⟩
          · exact .inl hown
          · obtain ⟨branch, hbranch, rfl⟩ := List.mem_map.mp hhead
            exact .inr ⟨branch, hbranch, (boundAt_zero branch name).trans hbound⟩
      | succ i =>
          rcases ih h with hinner | ⟨tail, htail, hbound⟩
          · exact .inl hinner
          · obtain ⟨branch, hbranch, rfl⟩ := List.mem_map.mp htail
            exact .inr ⟨branch, hbranch, (boundAt_succ branch i name).trans hbound⟩

namespace AddsOnly

variable {names : List String} {entry : List Scope} {b : Bindings}

theorem refl (names : List String) (entry : List Scope) : AddsOnly names entry entry :=
  fun _ _ h => .inr h

theorem push (h : AddsOnly names entry b.levels) : AddsOnly names entry b.push.levels := by
  intro i name hbound
  refine h i name ?_
  rw [boundAt_eq, column_push, List.getElem?_append] at hbound
  rw [boundAt_eq]
  split at hbound
  · exact hbound
  · cases hindex : i - (column b.levels name).length with
    | zero => rw [hindex] at hbound; cases hbound
    | succ more => rw [hindex] at hbound; cases hbound

theorem pop (h : AddsOnly names entry b.levels) :
    AddsOnly names entry (b.pop?.getD b).levels := by
  by_cases hdepth : 1 < b.depth
  · intro i name hbound
    refine h i name ?_
    rw [levels_pop hdepth, boundAt, List.getElem?_dropLast] at hbound
    rw [boundAt]
    split at hbound
    · exact hbound
    · cases hbound
  · have hroot : b.inner = [] := by
      rw [← List.length_eq_zero_iff]
      change ¬ 1 < b.inner.length + 1 at hdepth
      omega
    rw [pop?, hroot]
    exact h

theorem of_column {other : List Scope} {written : String} (hwritten : written ∈ names)
    (h : AddsOnly names entry other) {levels : List Scope}
    (hcolumn : ∀ name, written ≠ name → column levels name = column other name) :
    AddsOnly names entry levels := by
  intro i name hbound
  by_cases hname : written = name
  · exact .inl (hname ▸ hwritten)
  · rw [boundAt_eq, hcolumn name hname, ← boundAt_eq] at hbound
    exact h i name hbound

theorem join {branches : List Bindings} (h : AddsOnly names entry b.levels)
    (hbranches : ∀ branch ∈ branches, AddsOnly names entry branch.levels) :
    AddsOnly names entry (b.join branches).levels := by
  by_cases hne : branches = []
  · rw [hne]
    exact h
  · intro i name hbound
    rw [levels_join b hne] at hbound
    rcases boundAt_joinLevels hbound with hown | ⟨levels, hlevels, hbranch⟩
    · exact h i name hown
    · obtain ⟨branch, hmem, rfl⟩ := List.mem_map.mp hlevels
      exact hbranches branch hmem i name hbranch

end AddsOnly

end Bindings

end ShellAwait
