import ShellAwait.Analysis.OfScript
import ShellAwait.Proofs.Analysis.Points
import ShellAwait.Proofs.Analysis.Traced
import ShellAwait.Proofs.Bindings.Held

/-! # Regimes

A regime says which descriptors a walk deals in: those of expressions before anything is awaited,
among them those of values that are bound and returned, and whether anything is awaited at all. A
state is good if its bindings, frames and log keep to the regime. Every action leads from good
states to good states. Only where nothing can be awaited, in a parameter list, may an assignment
bind what has not been awaited.
-/

namespace ShellAwait.Analysis

open State

variable {d : Descriptor} {action body : Action}

structure Regime (c : Catalogue) where
  /-- Descriptors of expressions. -/
  Raw : Descriptor → Prop
  /-- Descriptors of values that are bound or returned. -/
  Settled : Descriptor → Prop
  /-- Descriptors of values that an assignment in a parameter list lets out as they are. -/
  Escapes : Descriptor → Prop
  /-- Something may be awaited. -/
  Waits : Prop
  raw {d : Descriptor} : Settled d → Raw d
  settled {d : Descriptor} : Raw d → d.isDeferred = false → Settled d
  held {d : Descriptor} : Raw d → ¬Escapes d → Settled d
  unknown : Settled .unknown
  plain (name : Option String) : Settled (.plain name)
  inner {d : Descriptor} : Raw (.deferred d) → Settled d ∧ Waits
  member (base : Descriptor) (name : Option String) : Raw (c.memberOf base name)
  result {d : Descriptor} : Raw d → Raw d.result
  callable {d : Descriptor} : Settled d → Raw (.callable d)
  promoted {d : Descriptor} : Waits → Settled d → Raw (.callable (.deferred d))

variable {c : Catalogue} (R : Regime c)

namespace Regime

/-- The value of an expression that is used, in a parameter list or elsewhere. -/
def Value (inParameters : Bool) (d : Descriptor) : Prop :=
  if inParameters then R.Raw d else R.Settled d

/-- An event that a log may hold. -/
def Allows : Event → Prop
  | .descriptor _ _ d => R.Raw d
  | .site _ | .promoted _ => R.Waits
  | .leftDeferred _ | .settled _ | .hoisted .. => True

/-- A frame whose function returns settled values and only waits where something may be awaited. -/
structure Fits (frame : Frame) : Prop where
  returns : ∀ d ∈ frame.returns, R.Settled d
  suspends : frame.suspends = true → R.Waits

structure Good (s : State) : Prop where
  bindings : s.bindings.Holds R.Settled
  frames : ∀ frame ∈ s.frames, R.Fits frame
  log : ∀ event ∈ s.log, R.Allows event

/-- An assignment in a parameter list binds its name to a value that has not been awaited. -/
def Harms (p : Point) : Prop :=
  ∃ name d, p.action = .assign name d ∧ p.state.frame.isParameters = true ∧
    R.Escapes ((p.state.bindings.assign name d).lookup name)

end Regime

variable {R} {inParameters : Bool} {V W : Descriptor → Prop}

/-! ## Good states -/

namespace Regime

theorem Value.raw (h : R.Value inParameters d) : R.Raw d := by
  cases inParameters with
  | true => exact h
  | false => exact R.raw h

theorem Value.of_settled (h : R.Settled d) : R.Value inParameters d := by
  cases inParameters with
  | true => exact R.raw h
  | false => exact h

theorem value_unknown : R.Value inParameters .unknown := .of_settled R.unknown

theorem Value.common {a b : Descriptor} (h : R.Value inParameters a) :
    R.Value inParameters (a.common b) := by
  unfold Descriptor.common
  split
  · exact h
  · exact value_unknown

theorem fits_new (inParameters : Bool) : R.Fits { isParameters := inParameters } where
  returns _ hd := absurd hd List.not_mem_nil
  suspends h := by cases h

variable {s : State}

theorem Good.withBindings (h : R.Good s) {b : Bindings} (hb : b.Holds R.Settled) :
    R.Good { s with bindings := b } := ⟨hb, h.frames, h.log⟩

theorem Good.withRecording (h : R.Good s) (recording : Bool) : R.Good { s with recording } :=
  ⟨h.bindings, h.frames, h.log⟩

theorem Good.note (h : R.Good s) {event : Event} (hevent : R.Allows event) :
    R.Good (s.note event) :=
  ⟨h.bindings, h.frames, List.forall_mem_cons.mpr ⟨hevent, h.log⟩⟩

theorem Good.record (h : R.Good s) {event : Event} (hevent : R.Allows event) :
    R.Good (s.record event) := by
  unfold State.record
  split
  · exact h.note hevent
  · exact h

theorem Good.onFrame (h : R.Good s) {f : Frame → Frame}
    (hf : ∀ frame, R.Fits frame → R.Fits (f frame)) : R.Good (s.onFrame f) := by
  unfold State.onFrame
  split
  · exact h
  next frame outer hframes =>
    have hall := h.frames
    rw [hframes] at hall
    obtain ⟨hframe, houter⟩ := List.forall_mem_cons.mp hall
    exact ⟨h.bindings, List.forall_mem_cons.mpr ⟨hf frame hframe, houter⟩, h.log⟩

theorem Good.pushFrame (h : R.Good s) (inParameters : Bool) :
    R.Good (s.pushFrame { isParameters := inParameters }) :=
  ⟨h.bindings, List.forall_mem_cons.mpr ⟨fits_new inParameters, h.frames⟩, h.log⟩

theorem Good.popFrame (h : R.Good s) : R.Good s.popFrame :=
  ⟨h.bindings, fun frame hframe => h.frames frame (List.mem_of_mem_tail hframe), h.log⟩

theorem Good.frame (h : R.Good s) : R.Fits s.frame := by
  unfold State.frame
  cases hframes : s.frames with
  | nil => exact fits_new false
  | cons frame outer =>
      apply h.frames
      rw [hframes]
      exact List.mem_cons_self

theorem Fits.waiting {frame : Frame} (h : R.Fits frame) (hwaits : R.Waits) :
    R.Fits { frame with suspends := true } := ⟨h.returns, fun _ => hwaits⟩

/-- Where a deferred value is used it is awaited, or stays as it is in a parameter list. -/
theorem Good.suspend (h : R.Good s) (hmode : s.frame.isParameters = inParameters)
    {inner : Descriptor} (hraw : R.Raw (.deferred inner)) (span : Text.Span) :
    R.Good (s.suspend span inner).2 ∧ R.Value inParameters (s.suspend span inner).1 := by
  obtain ⟨hinner, hwaits⟩ := R.inner hraw
  unfold State.suspend
  rw [hmode]
  cases inParameters with
  | true => exact ⟨h.note True.intro, hraw⟩
  | false => exact ⟨(h.onFrame fun _ hframe => hframe.waiting hwaits).record hwaits, hinner⟩

theorem settled_commonAll {values : List Descriptor} (h : ∀ d ∈ values, R.Settled d) :
    R.Settled (Descriptor.commonAll values) := by
  cases values with
  | nil => exact R.unknown
  | cons d rest =>
      rw [Descriptor.commonAll]
      split
      · exact h d List.mem_cons_self
      · exact R.unknown

theorem settled_functionDescriptor {frame : Frame} (hframe : R.Fits frame) {value : Descriptor}
    (hvalue : R.Settled value) (isAsync : Bool) :
    R.Settled (functionDescriptor isAsync frame value) := by
  unfold functionDescriptor
  split
  · exact R.settled (R.callable R.unknown) rfl
  · split
    next hsuspends => exact R.settled (R.promoted (hframe.suspends hsuspends) hvalue) rfl
    next => exact R.settled (R.callable hvalue) rfl

end Regime

/-! ## Sound actions -/

/-- How a walk ends that keeps to the regime. -/
def Regime.Ends (R : Regime c) (V : Descriptor → Prop) (outcome : Outcome Descriptor) : Prop :=
  R.Good outcome.2 ∧ ∀ d, outcome.1 = .ok d → V d

/-- From a good state, in a parameter list or elsewhere, the action stays among good states and
yields a descriptor with the property, as long as it does no harm. -/
structure Sound (R : Regime c) (inParameters : Bool) (V : Descriptor → Prop) (action : Action) :
    Prop where
  passes {s : State} : R.Good s → s.frame.isParameters = inParameters →
    Passes R.Good R.Harms (action.points s) (R.Ends V (action.run s))

theorem Sound.mono (h : Sound R inParameters V action) (himp : ∀ d, V d → W d) :
    Sound R inParameters W action where
  passes hgood hmode := (h.passes hgood hmode).imp fun hends =>
    ⟨hends.1, fun d hd => himp d (hends.2 d hd)⟩

theorem sound_simple (hpoints : ∀ s, action.points s = action.around s [])
    (h : ∀ {s : State}, R.Good s → s.frame.isParameters = inParameters → ¬R.Harms ⟨action, s⟩ →
      R.Ends V (action.run s)) : Sound R inParameters V action := by
  refine ⟨fun {s} hgood hmode => ?_⟩
  rw [hpoints]
  exact Passes.around hgood fun hharm => .nil (h hgood hmode hharm)

theorem sound_give (hd : V d) : Sound R inParameters V (.give d) := by
  apply sound_simple fun _ => rfl
  intro s hgood _ _
  refine ⟨hgood, fun other hother => ?_⟩
  cases hother
  exact hd

theorem sound_nothing : Sound R inParameters (R.Value inParameters) .nothing :=
  sound_give Regime.value_unknown

theorem sound_look (name : String) :
    Sound R inParameters (R.Value inParameters) (.look name) := by
  apply sound_simple fun _ => rfl
  intro s hgood _ _
  refine ⟨hgood, fun d hd => ?_⟩
  cases hd
  exact .of_settled (hgood.bindings.lookup R.unknown name)

theorem sound_declare (hd : R.Settled d) (name : String) :
    Sound R inParameters (R.Value inParameters) (.declare name d) := by
  apply sound_simple fun _ => rfl
  intro s hgood _ _
  refine ⟨?_, fun other hother => ?_⟩
  · exact hgood.withBindings (hgood.bindings.add hd name)
  · cases hother
    exact Regime.value_unknown

/-- An assignment in a parameter list does harm, or the value that it stores is settled as
elsewhere. -/
theorem sound_assign (hd : R.Value inParameters d) (name : String) :
    Sound R inParameters (R.Value inParameters) (.assign name d) := by
  apply sound_simple fun _ => rfl
  intro s hgood hmode hharm
  refine ⟨?_, fun other hother => ?_⟩
  · have hstored : Bindings.find? name s.bindings.levels = none → R.Settled d := by
      intro hfree
      cases inParameters with
      | false => exact hd
      | true =>
          refine R.held hd fun hescapes => hharm ⟨name, d, rfl, hmode, ?_⟩
          rw [Bindings.lookup_assign_of_free hfree]
          exact hescapes
    exact hgood.withBindings (hgood.bindings.assign R.unknown hstored)
  · cases hother
    exact Regime.value_unknown

theorem sound_record (hd : V d) (hraw : R.Raw d) (kind : NodeKind) (span : Text.Span) :
    Sound R inParameters V (.record kind span d) := by
  apply sound_simple fun _ => rfl
  intro s hgood _ _
  refine ⟨hgood.record hraw, fun other hother => ?_⟩
  cases hother
  exact hd

theorem sound_suspend {inner : Descriptor} (hraw : R.Raw (.deferred inner)) (span : Text.Span) :
    Sound R inParameters (R.Value inParameters) (.suspend span inner) := by
  apply sound_simple fun _ => rfl
  intro s hgood hmode _
  obtain ⟨hafter, hvalue⟩ := hgood.suspend hmode hraw span
  refine ⟨hafter, fun d hd => ?_⟩
  cases hd
  exact hvalue

theorem sound_awaiting (hwaits : R.Waits) :
    Sound R inParameters (R.Value inParameters) .awaiting := by
  apply sound_simple fun _ => rfl
  intro s hgood _ _
  refine ⟨?_, fun d hd => ?_⟩
  · exact hgood.onFrame fun _ hframe => hframe.waiting hwaits
  · cases hd
    exact Regime.value_unknown

theorem sound_returning (hd : R.Settled d) :
    Sound R inParameters (R.Value inParameters) (.returning d) := by
  apply sound_simple fun _ => rfl
  intro s hgood _ _
  refine ⟨?_, fun other hother => ?_⟩
  · exact hgood.onFrame fun _ hframe =>
      ⟨List.forall_mem_cons.mpr ⟨hd, hframe.returns⟩, hframe.suspends⟩
  · cases hother
    exact Regime.value_unknown

theorem sound_returned : Sound R inParameters R.Settled .returned := by
  apply sound_simple fun _ => rfl
  intro s hgood _ _
  refine ⟨hgood, fun d hd => ?_⟩
  cases hd
  exact Regime.settled_commonAll hgood.frame.returns

theorem sound_refuse (shape : String) (span : Text.Span) :
    Sound R inParameters V (.refuse shape span) := by
  apply sound_simple fun _ => rfl
  intro s hgood _ _
  exact ⟨hgood, fun _ hd => by cases hd⟩

/-! ## Sequences and scopes -/

theorem sound_bind {first : Action} {next : Descriptor → Action}
    (hfirst : Sound R inParameters V first)
    (hnext : ∀ d, V d → Sound R inParameters W (next d)) :
    Sound R inParameters W (first.bind next) := by
  refine ⟨fun {s} hgood hmode => ?_⟩
  rw [Action.points]
  refine Passes.around hgood fun _ => (hfirst.passes hgood hmode).append fun ⟨hafter, hvalue⟩ => ?_
  rw [Action.run]
  rcases hrun : first.run s with ⟨refusal | d, after⟩
  · rw [hrun] at hafter
    exact .nil ⟨hafter, fun _ h => by cases h⟩
  · have halike := alike_of_run hrun
    rw [hrun] at hafter hvalue
    exact (hnext d (hvalue d rfl)).passes hafter (halike.parameters.trans hmode)

theorem sound_andThen {a b : Action} (ha : Sound R inParameters V a)
    (hb : Sound R inParameters W b) : Sound R inParameters W (a.andThen b) :=
  sound_bind ha fun _ _ => hb

theorem sound_map {f : Descriptor → Descriptor} (h : Sound R inParameters V action)
    (hf : ∀ d, V d → W (f d)) : Sound R inParameters W (action.map f) :=
  sound_bind h fun d hd => sound_give (hf d hd)

theorem sound_recorded (h : Sound R inParameters V action) (hraw : ∀ d, V d → R.Raw d)
    (kind : NodeKind) (span : Text.Span) : Sound R inParameters V (action.recorded kind span) :=
  sound_bind h fun d hd => sound_record hd (hraw d hd) kind span

theorem sound_scoped (h : Sound R inParameters V body) : Sound R inParameters V (.scoped body) := by
  refine ⟨fun {s} hgood hmode => ?_⟩
  rw [Action.points]
  refine Passes.around hgood fun _ => ?_
  have henter : R.Good s.enter := hgood.withBindings hgood.bindings.push
  refine (h.passes henter hmode).imp fun ⟨hafter, hvalue⟩ => ⟨?_, hvalue⟩
  exact hafter.withBindings hafter.bindings.pop

/-! ## Branches -/

theorem sound_fork {left right : Action} {merge : Descriptor → Descriptor → Descriptor}
    {X : Descriptor → Prop} (hleft : Sound R inParameters V left)
    (hright : Sound R inParameters W right) (hmerge : ∀ a b, V a → W b → X (merge a b)) :
    Sound R inParameters X (.fork left right merge) := by
  refine ⟨fun {s} hgood hmode => ?_⟩
  rw [Action.points]
  refine Passes.around hgood fun _ => (hleft.passes hgood hmode).append fun ⟨hafter, hvalue⟩ => ?_
  rw [Action.run]
  rcases hrun : left.run s with ⟨refusal | a, leftAfter⟩
  · rw [hrun] at hafter
    exact .nil ⟨hafter, fun _ h => by cases h⟩
  · have halike := alike_of_run hrun
    rw [hrun] at hafter hvalue
    have hentry : R.Good { leftAfter with bindings := s.bindings } :=
      hafter.withBindings hgood.bindings
    refine (hright.passes hentry (halike.parameters.trans hmode)).imp fun ⟨hlast, hother⟩ => ?_
    simp only
    generalize right.run { leftAfter with bindings := s.bindings } = outcome at hlast hother
    rcases outcome with ⟨refusal | b, rightAfter⟩
    · exact ⟨hlast, fun _ h => by cases h⟩
    · refine ⟨hlast.withBindings ?_, fun d hd => ?_⟩
      · exact hgood.bindings.join_pair R.unknown hafter.bindings hlast.bindings
      · cases hd
        exact hmerge a b (hvalue a rfl) (hother b rfl)

/-- The arms of a choice. -/
structure SoundArms (R : Regime c) (inParameters : Bool) (arms : Arms) : Prop where
  passes {s : State} {exits : List Bindings} : R.Good s → s.frame.isParameters = inParameters →
    (∀ b ∈ exits, b.Holds R.Settled) → Passes R.Good R.Harms (arms.points s)
      (R.Good (arms.run exits s).2 ∧
        ∀ all, (arms.run exits s).1 = .ok all → ∀ b ∈ all, b.Holds R.Settled)

theorem soundArms_done : SoundArms R inParameters .done := by
  refine ⟨fun {s exits} hgood _ hexits => ?_⟩
  refine .nil ⟨hgood, fun all hall => ?_⟩
  cases hall
  exact hexits

theorem sound_arm {test : Action} {rest : Arms} (htest : Sound R inParameters V test)
    (hbody : Sound R inParameters W body) (hrest : SoundArms R inParameters rest) :
    SoundArms R inParameters (.arm test body rest) := by
  refine ⟨fun {s exits} hgood hmode hexits => ?_⟩
  rw [Arms.points, Arms.run]
  refine (htest.passes hgood hmode).append fun ⟨hentry, _⟩ => ?_
  rcases hone : test.run s with ⟨refusal | d, entry⟩
  · rw [hone] at hentry
    exact .nil ⟨hentry, fun _ h => by cases h⟩
  · have hfirst := (alike_of_run hone).parameters.trans hmode
    rw [hone] at hentry
    refine (hbody.passes hentry hfirst).append fun ⟨hafter, _⟩ => ?_
    simp only
    rcases htwo : body.run entry with ⟨refusal | d, after⟩
    · rw [htwo] at hafter
      exact .nil ⟨hafter, fun _ h => by cases h⟩
    · have hsecond := (alike_of_run htwo).parameters.trans hfirst
      rw [htwo] at hafter
      refine hrest.passes (hafter.withBindings hentry.bindings) hsecond fun b hb => ?_
      rcases List.mem_append.mp hb with hb | hb
      · exact hexits b hb
      · rw [List.mem_singleton.mp hb]
        exact hafter.bindings

theorem sound_choose {arms : Arms} (h : SoundArms R inParameters arms) (hasDefault : Bool) :
    Sound R inParameters (R.Value inParameters) (.choose arms hasDefault) := by
  refine ⟨fun {s} hgood hmode => ?_⟩
  rw [Action.points]
  refine Passes.around hgood fun _ => ?_
  have hnone : ∀ b ∈ ([] : List Bindings), b.Holds R.Settled :=
    fun _ hb => absurd hb List.not_mem_nil
  refine (h.passes hgood hmode hnone).imp fun ⟨hafter, hexits⟩ => ?_
  rw [Action.run]
  generalize arms.run [] s = outcome at hafter hexits
  rcases outcome with ⟨refusal | exits, after⟩
  · exact ⟨hafter, fun _ h => by cases h⟩
  · refine ⟨hafter.withBindings (hafter.bindings.join R.unknown fun b hb => ?_), fun d hd => ?_⟩
    · split at hb
      · exact hexits exits rfl b hb
      · rcases List.mem_append.mp hb with hb | hb
        · exact hexits exits rfl b hb
        · rw [List.mem_singleton.mp hb]
          exact hafter.bindings
    · cases hd
      exact Regime.value_unknown

/-! ## Loops -/

theorem passes_settle {iteration : Action} (h : Sound R false V iteration) (fuel rounds : Nat)
    {s : State} (hgood : R.Good s) (hmode : s.frame.isParameters = false) :
    Passes R.Good R.Harms (settlePoints iteration.run iteration.points fuel s)
      (R.Good (settle iteration.run fuel rounds s).2) := by
  induction fuel generalizing rounds s with
  | zero => exact .nil hgood
  | succ fuel ih =>
      rw [settlePoints, settle]
      refine (h.passes hgood hmode).append ?_
      rintro ⟨hafter, -⟩
      rcases hrun : iteration.run s with ⟨refusal | d, after⟩
      · rw [hrun] at hafter
        exact .nil hafter
      · have halike := alike_of_run hrun
        rw [hrun] at hafter
        have hjoined : R.Good { after with
            bindings := s.bindings.join [s.bindings, after.bindings] } :=
          hafter.withBindings (hgood.bindings.join_pair R.unknown hgood.bindings hafter.bindings)
        simp only
        split
        · exact .nil hjoined
        · exact ih (rounds + 1) hjoined (halike.parameters.trans hmode)

theorem sound_loop {iteration : Action} (h : Sound R false V iteration) (names : List String) :
    Sound R false (R.Value false) (.loop names iteration) := by
  refine ⟨fun {s} hgood hmode => ?_⟩
  have hquiet : R.Good ({ s with recording := false }.pushFrame {}) :=
    (hgood.withRecording false).pushFrame false
  have halike := alike_settle (alike_run iteration) (settleLimit s.bindings names) 0
    ({ s with recording := false }.pushFrame {})
  rw [Action.points]
  refine Passes.around hgood fun _ =>
    (passes_settle h (settleLimit s.bindings names) 0 hquiet rfl).append fun hsettled => ?_
  rw [Action.run]
  rcases hsettle : settle iteration.run (settleLimit s.bindings names) 0
    ({ s with recording := false }.pushFrame {}) with ⟨refusal | rounds, after⟩
  · rw [hsettle] at hsettled
    simp only [hsettle]
    exact .nil ⟨hsettled.popFrame.withRecording _, fun _ h => by cases h⟩
  · rw [hsettle] at hsettled halike
    have hentry : R.Good
        (State.note { after.popFrame with recording := s.recording } (.settled rounds)) :=
      (hsettled.popFrame.withRecording s.recording).note True.intro
    have hbody : after.popFrame.frame.isParameters = false :=
      halike.popFrame.parameters.trans hmode
    simp only [hsettle]
    refine (h.passes hentry hbody).imp ?_
    rintro ⟨hlast, -⟩
    generalize iteration.run
      (State.note { after.popFrame with recording := s.recording } (.settled rounds)) = outcome
      at hlast
    rcases outcome with ⟨refusal | d, last⟩
    · exact ⟨hlast, fun _ h => by cases h⟩
    · refine ⟨hlast.withBindings ?_, fun d hd => ?_⟩
      · exact hentry.bindings.join_pair R.unknown hentry.bindings hlast.bindings
      · cases hd
        exact Regime.value_unknown

/-! ## Functions -/

theorem sound_function (h : Sound R false R.Settled body) (span : Text.Span) (isAsync : Bool) :
    Sound R inParameters R.Settled (.function span isAsync body) := by
  refine ⟨fun {s} hgood _ => ?_⟩
  rw [Action.points]
  refine Passes.around hgood fun _ => ?_
  refine (h.passes (hgood.pushFrame false) rfl).imp fun ⟨hafter, hvalue⟩ => ?_
  rw [Action.run]
  generalize body.run (s.pushFrame {}) = outcome at hafter hvalue
  rcases outcome with ⟨refusal | value, after⟩
  · exact ⟨hafter.popFrame, fun _ h => by cases h⟩
  · refine ⟨?_, fun d hd => ?_⟩
    · simp only
      split
      next hpromoted =>
        have hsuspends : after.frame.suspends = true := (Bool.and_eq_true_iff.mp hpromoted).2
        exact hafter.popFrame.record (hafter.frame.suspends hsuspends)
      next => exact hafter.popFrame
    · cases hd
      exact Regime.settled_functionDescriptor hafter.frame (hvalue value rfl) isAsync

theorem sound_parameters (h : Sound R true V body) : Sound R inParameters V (.parameters body) := by
  refine ⟨fun {s} hgood _ => ?_⟩
  rw [Action.points]
  refine Passes.around hgood fun _ => ?_
  exact (h.passes (hgood.pushFrame true) rfl).imp fun ⟨hafter, hvalue⟩ => ⟨hafter.popFrame, hvalue⟩

/-- Functions that are bound ahead. -/
def SoundDeclarations (R : Regime c) (inParameters : Bool) : Declarations → Prop
  | .done => True
  | .declaration _ walk rest =>
      Sound R inParameters R.Settled walk ∧ SoundDeclarations R inParameters rest

theorem passes_round {declarations : Declarations}
    (h : SoundDeclarations R inParameters declarations) {s : State} (hgood : R.Good s)
    (hmode : s.frame.isParameters = inParameters) :
    Passes R.Good R.Harms (declarations.points s) (R.Good (declarations.round s).2) := by
  match declarations with
  | .done => exact .nil hgood
  | .declaration name walk rest =>
      obtain ⟨hwalk, hrest⟩ := h
      have halike := alike_run walk s
      rw [Declarations.points, Declarations.round]
      refine (hwalk.passes hgood hmode).append fun ⟨hafter, hvalue⟩ => ?_
      rcases hrun : walk.run s with ⟨refusal | d, after⟩
      · rw [hrun] at hafter halike
        exact passes_round hrest (hafter.withBindings hgood.bindings)
          (halike.parameters.trans hmode)
      · rw [hrun] at hafter hvalue halike
        exact passes_round hrest (hafter.withBindings (hgood.bindings.add (hvalue d rfl) name))
          (halike.parameters.trans hmode)

theorem passes_hoistRounds {declarations : Declarations}
    (h : SoundDeclarations R inParameters declarations) (fuel rounds : Nat) {s : State}
    (hgood : R.Good s) (hmode : s.frame.isParameters = inParameters) :
    Passes R.Good R.Harms (hoistPoints declarations.round declarations.points fuel s)
      (R.Good (hoistRounds declarations.round fuel rounds s).2) := by
  induction fuel generalizing rounds s with
  | zero => exact .nil hgood
  | succ fuel ih =>
      have halike := alike_round declarations s
      rw [hoistPoints, hoistRounds]
      refine (passes_round h hgood hmode).append fun hafter => ?_
      generalize declarations.round s = outcome at hafter halike
      rcases outcome with ⟨_ | _, after⟩
      · exact .nil hafter
      · exact ih (rounds + 1) hafter (halike.parameters.trans hmode)

theorem sound_hoist {declarations : Declarations}
    (h : SoundDeclarations R inParameters declarations) :
    Sound R inParameters (R.Value inParameters) (.hoist declarations) := by
  refine ⟨fun {s} hgood hmode => ?_⟩
  rw [Action.points]
  refine Passes.around hgood fun _ => ?_
  rw [Action.run]
  split
  · exact .nil ⟨hgood, fun d hd => by cases hd; exact Regime.value_unknown⟩
  · refine (passes_hoistRounds h (declarations.count + 1) 0 (hgood.withRecording false) hmode).imp
      fun hafter => ⟨?_, fun d hd => by cases hd; exact Regime.value_unknown⟩
    exact (hafter.withRecording s.recording).note True.intro

end ShellAwait.Analysis
