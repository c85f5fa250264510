import ShellAwait.Analysis.Typing
import ShellAwait.Catalogue.Load
import ShellAwait.Proofs.Bindings.Held

/-! # Members of a catalogue

Where the descriptors of a catalogue come from: every global name and every listed member is that of
an entry of the configuration, which tells whether its value is deferred.
-/

namespace ShellAwait

/-- A descriptor that holds no other: of an unknown value, a plain one or a shape. -/
def Descriptor.isAtom : Descriptor → Bool
  | .unknown | .plain _ | .shape _ => true
  | .deferred _ | .callable _ => false

namespace Config

variable {config : Config}

theorem isAtom_returned (config : Config) (returns : Option String) :
    (config.returned returns).isAtom = true := by
  unfold Config.returned
  split
  · rfl
  · split
    · rfl
    · split <;> rfl

theorem descriptor_resolveMember (config : Config) (entry : MemberEntry) :
    ∃ value : Descriptor, value.isAtom = true ∧
      let read := if (config.resolveMember entry).deferred then .deferred value else value
      (config.resolveMember entry).descriptor = read ∨
        (config.resolveMember entry).descriptor = .callable read := by
  refine ⟨config.returned entry.returns, isAtom_returned config entry.returns, ?_⟩
  unfold Config.resolveMember
  cases entry.kind with
  | method => exact .inr rfl
  | property => exact .inl rfl

theorem exists_entry_of_global {name : String} {m : Member}
    (h : config.resolve.globals.get? name = some m) : ∃ entry, config.resolveMember entry = m := by
  rw [Config.resolve, Dictionary.get?_map] at h
  obtain ⟨entry, -, hentry⟩ := Option.map_eq_some_iff.mp h
  exact ⟨entry, hentry⟩

theorem exists_entry_of_member {shape name : String} {found : Shape} {m : Member}
    (hfound : config.resolve.shapes.get? shape = some found)
    (hm : found.members.get? name = some m) : ∃ entry, config.resolveMember entry = m := by
  rw [Config.resolve, Dictionary.get?_map] at hfound
  obtain ⟨declared, -, rfl⟩ := Option.map_eq_some_iff.mp hfound
  rw [Dictionary.get?_map] at hm
  obtain ⟨entry, -, hentry⟩ := Option.map_eq_some_iff.mp hm
  exact ⟨entry, hentry⟩

end Config

namespace Catalogue

variable {config : Config} {c : Catalogue}

theorem eq_resolve_of_build (h : build config = .ok c) : c = config.resolve := by
  unfold build at h
  split at h
  · cases h
  · exact (Except.ok.inj h).symm

/-- Every listed member of every shape has the property. -/
def MembersHold (c : Catalogue) (P : Member → Prop) : Prop :=
  c.shapes.Holds fun found => found.members.Holds P

/-- The shape that unlisted members of a shape have is one with the property. -/
def RoutesHold (c : Catalogue) (P : Descriptor → Prop) : Prop :=
  c.shapes.Holds fun found => ∀ target, found.anyMember = some target → P (.shape target)

theorem MembersHold.memberOf {P : Descriptor → Prop} (h : c.MembersHold fun m => P m.descriptor)
    (hunknown : P .unknown) (hroutes : c.RoutesHold P) (base : Descriptor)
    (name : Option String) : P (c.memberOf base name) := by
  unfold Catalogue.memberOf
  split
  next =>
    unfold Catalogue.member
    split
    · exact hunknown
    next found hfound =>
      split
      next hlisted => exact h _ found hfound _ _ hlisted
      next hroute => exact hroutes _ found hfound _ hroute
      · exact hunknown
  next => exact hunknown

end Catalogue

end ShellAwait
