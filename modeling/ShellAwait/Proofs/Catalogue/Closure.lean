import ShellAwait.Proofs.Analysis.Regimes.OfScript
import ShellAwait.Proofs.Analysis.Suspensions
import ShellAwait.Proofs.Catalogue.Members

/-! # Catalogues are closed

A configuration is refused at the first shape that sends its unlisted members to a name that is no
shape. A catalogue that is built from any other refers to nothing outside itself, in whatever order
its shapes were declared, and an analysis finds nothing in a script that would lead out of it.
-/

namespace ShellAwait

/-- The shapes that a descriptor names, at whatever depth. -/
def Descriptor.shapes : Descriptor → List String
  | .unknown | .plain _ => []
  | .deferred inner => inner.shapes
  | .callable result => result.shapes
  | .shape name => [name]

/-! ## Stray routes -/

namespace Config

variable {config : Config}

/-- The unlisted members of the shape go to a name that is no shape. -/
def Strays (config : Config) (shape : ShapeEntry) (target : String) : Prop :=
  shape.anyMember = some target ∧ target ∉ config.shapes.keys

/-- No shape that is declared before this one strays. -/
def StraysFirst (config : Config) (name target : String) : Prop :=
  ∃ before shape after, config.shapes.entries = before ++ (name, shape) :: after ∧
    config.Strays shape target ∧ ∀ entry ∈ before, ∀ other, ¬config.Strays entry.2 other

def stray? (config : Config) (shape : ShapeEntry) : Option String :=
  shape.anyMember.filter fun target => !config.shapes.contains target

theorem stray?_eq_some_iff {shape : ShapeEntry} {target : String} :
    config.stray? shape = some target ↔ config.Strays shape target := by
  rw [stray?, Option.filter_eq_some_iff, Strays, Dictionary.mem_keys, Bool.not_eq_true',
    Bool.not_eq_true]
  rfl

theorem stray?_eq_none_iff {shape : ShapeEntry} :
    config.stray? shape = none ↔ ∀ target, ¬config.Strays shape target := by
  rw [Option.eq_none_iff_forall_ne_some]
  exact forall_congr' fun _ => not_congr stray?_eq_some_iff

theorem strayRoute?_eq_findSome? (config : Config) : config.strayRoute? =
    config.shapes.entries.findSome? fun entry => (config.stray? entry.2).map (entry.1, ·) := by
  unfold strayRoute? stray?
  congr
  funext ⟨name, route, members⟩
  cases route with
  | none => rfl
  | some target => cases hknown : config.shapes.contains target <;> simp [Option.filter, hknown]

theorem strayRoute?_eq_some_iff {name target : String} :
    config.strayRoute? = some (name, target) ↔ config.StraysFirst name target := by
  rw [strayRoute?_eq_findSome?, List.findSome?_eq_some_iff]
  simp only [Option.map_eq_some_iff, Option.map_eq_none_iff, stray?_eq_some_iff, stray?_eq_none_iff]
  constructor
  · rintro ⟨before, ⟨_, shape⟩, after, hentries, ⟨_, hstrays, hroute⟩, hbefore⟩
    cases hroute
    exact ⟨before, shape, after, hentries, hstrays, hbefore⟩
  · rintro ⟨before, shape, after, hentries, hstrays, hbefore⟩
    exact ⟨before, (name, shape), after, hentries, ⟨target, hstrays, rfl⟩, hbefore⟩

theorem strayRoute?_eq_none_iff : config.strayRoute? = none ↔
    ∀ entry ∈ config.shapes.entries, ∀ target, ¬config.Strays entry.2 target := by
  rw [strayRoute?_eq_findSome?, List.findSome?_eq_none_iff]
  simp only [Option.map_eq_none_iff, stray?_eq_none_iff]

end Config

namespace Catalogue

variable {config : Config} {c : Catalogue}

/-- A configuration is refused for its first stray route, and for nothing else. -/
theorem build_eq_error_iff {error : LoadError} : build config = .error error ↔
    ∃ name target, error = .strayRoute name target ∧ config.StraysFirst name target := by
  simp only [← Config.strayRoute?_eq_some_iff]
  unfold build
  cases config.strayRoute? with
  | none => simp
  | some route =>
      obtain ⟨name, target⟩ := route
      simp [eq_comm]

theorem build_eq_ok_iff : build config = .ok c ↔ c = config.resolve ∧
    ∀ entry ∈ config.shapes.entries, ∀ target, ¬config.Strays entry.2 target := by
  rw [← Config.strayRoute?_eq_none_iff]
  unfold build
  cases config.strayRoute? with
  | none => simp [eq_comm]
  | some route => simp

/-! ## References -/

/-- The catalogue has the shapes that the descriptor names. -/
def Covers (c : Catalogue) (d : Descriptor) : Prop := ∀ name ∈ d.shapes, name ∈ c.shapes.keys

def Lists (c : Catalogue) (m : Member) : Prop :=
  m ∈ c.globals.values ∨ ∃ shape ∈ c.shapes.values, m ∈ shape.members.values

/-- Nothing in the catalogue refers to a shape that it does not have. -/
structure Closed (c : Catalogue) : Prop where
  members : ∀ m, c.Lists m → c.Covers m.descriptor
  routes : ∀ shape ∈ c.shapes.values, ∀ target, shape.anyMember = some target →
    target ∈ c.shapes.keys

/-- The flag of a member says whether its value, or that of a call, has to be awaited. -/
def Flagged (m : Member) : Prop := m.deferred = true ↔
  ∃ value, m.descriptor = .deferred value ∨ m.descriptor = .callable (.deferred value)

end Catalogue

theorem Dictionary.values_map {α β : Type} (f : α → β) (d : Dictionary α) :
    (d.map f).values = d.values.map f := by
  simp [Dictionary.map, Dictionary.values]

theorem Dictionary.keys_map {α β : Type} (f : α → β) (d : Dictionary α) :
    (d.map f).keys = d.keys := by
  simp [Dictionary.map, Dictionary.keys]

namespace Config

variable {config : Config}

theorem keys_resolve (config : Config) : config.resolve.shapes.keys = config.shapes.keys :=
  Dictionary.keys_map _ _

theorem covers_returned (config : Config) (returns : Option String) :
    config.resolve.Covers (config.returned returns) := by
  unfold Config.returned
  split
  · nofun
  · split
    · nofun
    · split
      next hshape =>
        rintro name hname
        rw [List.mem_singleton.mp hname, keys_resolve]
        exact Dictionary.mem_keys.mpr hshape
      next => nofun

theorem covers_resolveMember (config : Config) (entry : MemberEntry) :
    config.resolve.Covers (config.resolveMember entry).descriptor := by
  have hvalue := config.covers_returned entry.returns
  unfold Config.resolveMember
  cases entry.kind <;> cases entry.deferred <;> exact hvalue

theorem flagged_resolveMember (config : Config) (entry : MemberEntry) :
    Catalogue.Flagged (config.resolveMember entry) := by
  have hatom := isAtom_returned config entry.returns
  unfold Catalogue.Flagged Config.resolveMember
  generalize config.returned entry.returns = value at hatom
  cases entry.kind <;> cases entry.deferred <;> cases value <;> simp_all [Descriptor.isAtom]

theorem exists_entry_of_lists {m : Member} (h : config.resolve.Lists m) :
    ∃ entry, config.resolveMember entry = m := by
  unfold Catalogue.Lists Config.resolve at h
  simp only [Dictionary.values_map, List.mem_map] at h
  rcases h with ⟨entry, -, hentry⟩ | ⟨_, ⟨shape, -, rfl⟩, hm⟩
  · exact ⟨entry, hentry⟩
  · simp only [Dictionary.values_map, List.mem_map] at hm
    obtain ⟨entry, -, hentry⟩ := hm
    exact ⟨entry, hentry⟩

end Config

namespace Catalogue

variable {config : Config} {c : Catalogue}

theorem closed_of_build (h : build config = .ok c) : c.Closed := by
  obtain ⟨rfl, hroutes⟩ := build_eq_ok_iff.mp h
  constructor
  · intro m hm
    obtain ⟨entry, rfl⟩ := Config.exists_entry_of_lists hm
    exact config.covers_resolveMember entry
  · intro shape hshape target htarget
    unfold Config.resolve at hshape
    simp only [Dictionary.values_map, List.mem_map] at hshape
    obtain ⟨declared, hdeclared, rfl⟩ := hshape
    obtain ⟨entry, hentry, rfl⟩ := List.mem_map.mp hdeclared
    rw [Config.keys_resolve]
    exact Classical.not_not.mp fun hstray => hroutes entry hentry target ⟨htarget, hstray⟩

/-- Reading a member does not lead out of a closed catalogue. -/
theorem Closed.covers_memberOf (h : c.Closed) (base : Descriptor) (name : Option String) :
    c.Covers (c.memberOf base name) := by
  refine MembersHold.memberOf (P := c.Covers) ?_ nofun ?_ base name
  · exact Dictionary.holds_of_values fun found hfound => Dictionary.holds_of_values fun m hm =>
      h.members m (.inr ⟨found, hfound, hm⟩)
  · refine Dictionary.holds_of_values fun found hfound target htarget name hname => ?_
    rw [List.mem_singleton.mp hname]
    exact h.routes found hfound target htarget

end Catalogue

/-! ## Scripts -/

namespace Analysis

/-- Every descriptor names shapes of the catalogue only. -/
def Regime.covered {c : Catalogue} (h : c.Closed) : Regime c where
  Raw := c.Covers
  Settled := c.Covers
  Escapes _ := False
  Waits := True
  raw h := h
  settled h _ := h
  held h _ := h
  unknown := nofun
  plain _ := nofun
  inner h := ⟨h, True.intro⟩
  member := h.covers_memberOf
  result {d} h := by
    cases d with
    | callable result => exact h
    | unknown | plain | deferred | shape => nofun
  callable h := h
  promoted _ h := h

/-- The walk of a script finds and binds nothing that would lead out of a closed catalogue. -/
theorem good_covered {c : Catalogue} (h : c.Closed) (script : List Stmt) :
    (Regime.covered h).Good
      ((Action.ofScript c script).run { bindings := .ofCatalogue c }).2 := by
  have hstart : (Regime.covered h).Good { bindings := .ofCatalogue c } := by
    refine ⟨Bindings.holds_ofCatalogue (Dictionary.holds_of_values fun m hm => ?_),
      fun _ h => absurd h List.not_mem_nil, fun _ h => absurd h List.not_mem_nil⟩
    exact h.members m (.inl hm)
  have hsound : Sound (Regime.covered h) false _ (Action.ofScript c script) :=
    sound_ofScript fun _ _ _ => True.intro
  refine ((hsound.passes hstart rfl).leads fun p _ hharms => ?_).1
  obtain ⟨_, _, _, _, hescapes⟩ := hharms
  exact hescapes

theorem mem_insertTyped {span : Text.Span} {d : Descriptor} {entry : Text.Span × Descriptor}
    {typed : List (Text.Span × Descriptor)} (h : entry ∈ insertTyped span d typed) :
    entry = (span, d) ∨ entry ∈ typed := by
  induction typed with
  | nil => exact .inl (List.mem_singleton.mp h)
  | cons first rest ih =>
      rw [insertTyped] at h
      split at h
      · rcases List.mem_cons.mp h with h | h
        · exact .inl h
        · exact .inr (List.mem_cons_of_mem _ h)
      · split at h
        · exact List.mem_cons.mp h
        · rcases List.mem_cons.mp h with rfl | h
          · exact .inr List.mem_cons_self
          · exact (ih h).imp_right (List.mem_cons_of_mem _)

theorem mem_log_of_mem_types {s : State} {entry : Text.Span × Descriptor}
    (h : entry ∈ (Findings.ofState s).types) :
    ∃ kind, .descriptor kind entry.1 entry.2 ∈ s.log := by
  have hlogged : entry ∈ loggedTypes s.log := by
    change entry ∈ (loggedTypes s.log).foldr (fun entry => insertTyped entry.1 entry.2) [] at h
    generalize loggedTypes s.log = logged at h ⊢
    induction logged with
    | nil => exact absurd h List.not_mem_nil
    | cons first rest ih =>
        rcases mem_insertTyped h with rfl | h
        · exact List.mem_cons_self
        · exact List.mem_cons_of_mem _ (ih h)
  obtain ⟨event, hevent, hentry⟩ := List.mem_filterMap.mp hlogged
  cases event with
  | descriptor kind span d =>
      cases hentry
      exact ⟨kind, hevent⟩
  | site | leftDeferred | promoted | settled | hoisted => cases hentry

end Analysis

/-- Building a catalogue fails exactly at the first shape that sends its unlisted members to a name
that is no shape. Otherwise the catalogue is closed, its members say rightly whether they are
deferred, and what an analysis finds in a script and binds its names to is covered by it. -/
theorem catalogue_closed (config : Config) :
    (∀ name target, Catalogue.build config = .error (.strayRoute name target) ↔
      config.StraysFirst name target) ∧
    ((∀ entry ∈ config.shapes.entries, ∀ target, ¬config.Strays entry.2 target) →
      ∃ c, Catalogue.build config = .ok c) ∧
    ∀ c, Catalogue.build config = .ok c →
      c.shapes.keys = config.shapes.keys ∧ c.Closed ∧
      (∀ m, c.Lists m → Catalogue.Flagged m) ∧
      ∀ source findings, (analyse c (parse source)).1 = .ok findings →
        (∀ entry ∈ findings.types, c.Covers entry.2) ∧
        ∀ scope ∈ findings.bindings.levels, ∀ name d, scope.get? name = some d → c.Covers d := by
  refine ⟨fun name target => ?_, fun h => ⟨_, Catalogue.build_eq_ok_iff.mpr ⟨rfl, h⟩⟩,
    fun c hbuild => ?_⟩
  · rw [Catalogue.build_eq_error_iff]
    constructor
    · rintro ⟨_, _, heq, hfirst⟩
      cases heq
      exact hfirst
    · exact fun hfirst => ⟨name, target, rfl, hfirst⟩
  · have hclosed := Catalogue.closed_of_build hbuild
    obtain rfl := Catalogue.eq_resolve_of_build hbuild
    refine ⟨config.keys_resolve, hclosed, fun m hm => ?_, fun source findings hanalyse => ?_⟩
    · obtain ⟨entry, rfl⟩ := Config.exists_entry_of_lists hm
      exact config.flagged_resolveMember entry
    · obtain ⟨-, d, s, hrun, rfl⟩ := run_of_analyse hanalyse
      have hgood := Analysis.good_covered hclosed (Script.ofTree (parse source).tree)
      rw [hrun] at hgood
      refine ⟨fun entry hentry => ?_, fun scope hscope name d hd => ?_⟩
      · obtain ⟨kind, hevent⟩ := Analysis.mem_log_of_mem_types hentry
        exact hgood.log _ hevent
      · exact hgood.bindings scope hscope name d hd

def forwardSteps : List Config.Step := [.global "db" "Database",
  .anyMember "Database" "Collection", .member .method "Collection" "find" true "Cursor",
  .shape "Cursor"]

def forwardScript : List Char := "let c = db.coll.find(); function f() { return c; }".toList

theorem catalogue_closed_forward : ∃ c findings,
    Catalogue.build (.ofSteps forwardSteps) = .ok c ∧
    (analyse c (parse forwardScript)).1 = .ok findings ∧
    findings.bindings.root.get? "f" = some (.callable (.shape "Cursor")) ∧ c.Closed ∧
    ∀ scope ∈ findings.bindings.levels, ∀ name d, scope.get? name = some d → c.Covers d := by
  obtain ⟨findings, hanalyse, hbound⟩ : ∃ findings,
      (analyse (Config.ofSteps forwardSteps).resolve (parse forwardScript)).1 = .ok findings ∧
        findings.bindings.root.get? "f" = some (.callable (.shape "Cursor")) :=
    exists_of_map_toOption (by decide +kernel)
  have hbuild :
      Catalogue.build (.ofSteps forwardSteps) = .ok (Config.ofSteps forwardSteps).resolve := by
    decide +kernel
  obtain ⟨-, hclosed, -, hscripts⟩ := (catalogue_closed (.ofSteps forwardSteps)).2.2 _ hbuild
  exact ⟨_, findings, hbuild, hanalyse, hbound, hclosed, (hscripts _ findings hanalyse).2⟩

end ShellAwait
