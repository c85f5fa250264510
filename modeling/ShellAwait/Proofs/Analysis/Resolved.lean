import ShellAwait.Analysis.Findings
import ShellAwait.Catalogue.Shell
import ShellAwait.Proofs.Analysis.Regimes.OfScript
import ShellAwait.Proofs.Catalogue.Members

/-! # Bindings hold resolved values

A deferred value is awaited where it is used, so a name is bound to what it resolves to. The one
exception are parameter lists, where nothing can be awaited: an assignment in a default value binds
its name to the value as it is. Until a walk comes to such an assignment, no level of its bindings
holds a deferred value.
-/

namespace ShellAwait

/-- One `await` is enough, for the value and for the results of its calls. -/
def Descriptor.awaitsOnce : Descriptor → Bool
  | .deferred inner => !inner.isDeferred && inner.awaitsOnce
  | .callable result => result.awaitsOnce
  | .unknown | .plain _ | .shape _ => true

namespace Analysis

/-- An assignment in a parameter list leaves its name bound to a deferred value. -/
def Point.leaks (p : Point) : Bool :=
  match p.action with
  | .assign name d =>
      p.state.frame.isParameters && ((p.state.bindings.assign name d).lookup name).isDeferred
  | _ => false

theorem awaitsOnce_of_isAtom {d : Descriptor} (h : d.isAtom = true) :
    d.awaitsOnce = true ∧ d.isDeferred = false := by
  cases d with
  | unknown | plain | shape => exact ⟨rfl, rfl⟩
  | deferred | callable => cases h

theorem awaitsOnce_resolveMember (config : Config) (entry : MemberEntry) :
    (config.resolveMember entry).descriptor.awaitsOnce = true := by
  obtain ⟨value, hatom, hdescriptor⟩ := config.descriptor_resolveMember entry
  obtain ⟨honce, hplain⟩ := awaitsOnce_of_isAtom hatom
  have hread (deferred : Bool) :
      (if deferred then Descriptor.deferred value else value).awaitsOnce = true := by
    cases deferred with
    | false => exact honce
    | true => simp [Descriptor.awaitsOnce, hplain, honce]
  rcases hdescriptor with h | h
  · rw [h]
    exact hread _
  · rw [h]
    exact hread _

/-- Descriptors that need one `await` at most, and for bound values none. -/
def Regime.resolved (config : Config) : Regime config.resolve where
  Raw d := d.awaitsOnce = true
  Settled d := d.awaitsOnce = true ∧ d.isDeferred = false
  Escapes d := d.isDeferred = true
  Waits := True
  raw h := h.1
  settled h hplain := ⟨h, hplain⟩
  held h hescapes := ⟨h, Bool.eq_false_iff.mpr hescapes⟩
  unknown := ⟨rfl, rfl⟩
  plain _ := ⟨rfl, rfl⟩
  inner h := by
    rw [Descriptor.awaitsOnce, Bool.and_eq_true, Bool.not_eq_true'] at h
    exact ⟨⟨h.2, h.1⟩, True.intro⟩
  member base name := by
    refine Catalogue.MembersHold.memberOf (P := fun d => d.awaitsOnce = true) ?_ rfl
      (fun _ _ _ _ _ => rfl) base name
    intro shape found hfound member m hm
    obtain ⟨entry, rfl⟩ := Config.exists_entry_of_member hfound hm
    exact awaitsOnce_resolveMember config entry
  result {d} h := by
    cases d with
    | callable result => exact h
    | unknown | plain | deferred | shape => rfl
  callable h := h.1
  promoted _ h := by
    rw [Descriptor.awaitsOnce, Descriptor.awaitsOnce, h.1, h.2]
    rfl

theorem leaks_of_harms {config : Config} {p : Point} (h : (Regime.resolved config).Harms p) :
    p.leaks = true := by
  obtain ⟨name, d, haction, hparameters, hescapes⟩ := h
  unfold Point.leaks
  rw [haction]
  exact Bool.and_eq_true_iff.mpr ⟨hparameters, hescapes⟩

/-- At every point of the walk of a script before which no assignment in a parameter list has stored
a deferred value, no level binds a name to a deferred value, if no global name is deferred. -/
theorem bindings_hold_resolved_values {config : Config} {c : Catalogue}
    (hbuild : Catalogue.build config = .ok c)
    (hglobals : ∀ name m, c.globals.get? name = some m → m.descriptor.isDeferred = false)
    (script : List Stmt) {before after : List Point} {p : Point}
    (hpoints : (Action.ofScript c script).points { bindings := .ofCatalogue c } =
      before ++ p :: after)
    (hbefore : ∀ q ∈ before, q.leaks = false) :
    ∀ scope ∈ p.state.bindings.levels, ∀ name d, scope.get? name = some d →
      d.isDeferred = false := by
  obtain rfl := Catalogue.eq_resolve_of_build hbuild
  have hstart : (Regime.resolved config).Good { bindings := .ofCatalogue config.resolve } := by
    refine ⟨Bindings.holds_ofCatalogue fun name m hm => ⟨?_, hglobals name m hm⟩,
      fun _ h => absurd h List.not_mem_nil, fun _ h => absurd h List.not_mem_nil⟩
    obtain ⟨entry, rfl⟩ := Config.exists_entry_of_global hm
    exact awaitsOnce_resolveMember config entry
  have hsound : Sound (Regime.resolved config) false _ (Action.ofScript config.resolve script) :=
    sound_ofScript fun _ _ _ => True.intro
  have hgood : (Regime.resolved config).Good p.state := by
    refine (hsound.passes hstart rfl).steady.good_of_eq hpoints fun q hq hharms => ?_
    have hclean := hbefore q hq
    rw [leaks_of_harms hharms] at hclean
    cases hclean
  intro scope hscope name d hd
  exact (hgood.bindings scope hscope name d hd).2

/-- A script that uses a deferred value in its own text and assigns another one in a default value,
to a name that is bound and of which nothing is known afterwards. -/
def usedDefault : List Stmt := Script.ofTree
  (parse "let x = db.coll; (a = (x = db.coll.count())) => a + x; db.coll.count()".toList).tree

theorem globals_shell : ∀ name m, Catalogue.shell.globals.get? name = some m →
    m.descriptor.isDeferred = false :=
  Dictionary.holds_of_values (by decide +kernel)

theorem bindings_hold_resolved_values_usedDefault :
    ∃ p, ((Action.ofScript .shell usedDefault).points
        { bindings := .ofCatalogue .shell }).getLast? = some p ∧
      p.state.bindings.root.get? "x" = some .unknown ∧
      ∀ scope ∈ p.state.bindings.levels, ∀ name d, scope.get? name = some d →
        d.isDeferred = false := by
  obtain ⟨p, hlast, hx⟩ : ∃ p, ((Action.ofScript .shell usedDefault).points
        { bindings := .ofCatalogue .shell }).getLast? = some p ∧
      p.state.bindings.root.get? "x" = some .unknown := by
    apply Option.map_eq_some_iff.mp
    decide +kernel
  have hclean : ∀ q ∈ (Action.ofScript .shell usedDefault).points
      { bindings := .ofCatalogue .shell }, q.leaks = false := by decide +kernel
  obtain ⟨before, hpoints⟩ := List.getLast?_eq_some_iff.mp hlast
  have hbuild : Catalogue.build Catalogue.Shell.config = .ok .shell := rfl
  refine ⟨p, hlast, hx, bindings_hold_resolved_values hbuild globals_shell usedDefault hpoints
    fun q hq => ?_⟩
  exact hclean q (hpoints ▸ List.mem_append_left _ hq)

/-- A default value that is assigned on its way. -/
def assignedDefault : List Stmt :=
  Script.ofTree (parse "(a = (x = db.coll.count())) => a".toList).tree

/-- No global name of the shell is deferred, and yet a walk comes to bind a name to a deferred
value. -/
theorem assignedDefault_binds_deferred :
    Catalogue.build Catalogue.Shell.config = .ok .shell ∧
      (∀ name m, Catalogue.shell.globals.get? name = some m → m.descriptor.isDeferred = false) ∧
      ∃ p ∈ (Action.ofScript .shell assignedDefault).points { bindings := .ofCatalogue .shell },
        ∃ scope ∈ p.state.bindings.levels, scope.get? "x" = some (.deferred .unknown) :=
  ⟨rfl, globals_shell, by decide +kernel⟩

end Analysis

end ShellAwait
