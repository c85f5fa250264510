import ShellAwait.Analysis.Action

/-! # What every walk leaves alone

Whatever an action does and however it ends, it leaves the frames of the functions around it, the
kind of the innermost frame and the recording mode as they were. A walk that does not record adds
remarks to the log and no findings.
-/

namespace ShellAwait.Analysis

/-- An event that tells how a walk went and is no finding. -/
def Event.isRemark : Event → Bool
  | .leftDeferred _ | .settled _ | .hoisted .. => true
  | _ => false

/-- The log has grown by remarks only. -/
def OnlyRemarks (log later : List Event) : Prop :=
  ∃ remarks, later = remarks ++ log ∧ ∀ event ∈ remarks, event.isRemark = true

namespace OnlyRemarks

theorem refl (log : List Event) : OnlyRemarks log log :=
  ⟨[], rfl, fun _ h => absurd h List.not_mem_nil⟩

theorem cons {log later : List Event} {event : Event} (h : OnlyRemarks log later)
    (hevent : event.isRemark = true) : OnlyRemarks log (event :: later) := by
  obtain ⟨remarks, rfl, hremarks⟩ := h
  exact ⟨event :: remarks, rfl, List.forall_mem_cons.mpr ⟨hevent, hremarks⟩⟩

theorem trans {a b c : List Event} (hab : OnlyRemarks a b) (hbc : OnlyRemarks b c) :
    OnlyRemarks a c := by
  obtain ⟨first, rfl, hfirst⟩ := hab
  obtain ⟨second, rfl, hsecond⟩ := hbc
  refine ⟨second ++ first, (List.append_assoc ..).symm, fun event hevent => ?_⟩
  rcases List.mem_append.mp hevent with h | h
  · exact hsecond event h
  · exact hfirst event h

end OnlyRemarks

namespace State

/-- What a walk from one state to another has left alone. -/
structure Alike (s t : State) : Prop where
  recording : t.recording = s.recording
  outer : t.frames.tail = s.frames.tail
  depth : t.frames.length = s.frames.length
  parameters : t.frame.isParameters = s.frame.isParameters
  quiet : s.recording = false → OnlyRemarks s.log t.log

theorem Alike.refl (s : State) : Alike s s := ⟨rfl, rfl, rfl, rfl, fun _ => .refl s.log⟩

theorem Alike.trans {s t u : State} (hst : Alike s t) (htu : Alike t u) : Alike s u where
  recording := htu.recording.trans hst.recording
  outer := htu.outer.trans hst.outer
  depth := htu.depth.trans hst.depth
  parameters := htu.parameters.trans hst.parameters
  quiet h := (hst.quiet h).trans (htu.quiet (hst.recording.trans h))

theorem Alike.withBindings {s t : State} (h : Alike s t) (b : Bindings) :
    Alike s { t with bindings := b } := ⟨h.recording, h.outer, h.depth, h.parameters, h.quiet⟩

theorem Alike.note {s t : State} {event : Event} (h : Alike s t) (hevent : event.isRemark = true) :
    Alike s (t.note event) :=
  ⟨h.recording, h.outer, h.depth, h.parameters, fun hquiet => (h.quiet hquiet).cons hevent⟩

theorem Alike.record {s t : State} (h : Alike s t) (event : Event) : Alike s (t.record event) := by
  unfold State.record
  split
  next hrecording =>
    refine ⟨h.recording, h.outer, h.depth, h.parameters, fun hquiet => ?_⟩
    rw [h.recording, hquiet] at hrecording
    cases hrecording
  next => exact h

theorem alike_onFrame (s : State) {f : Frame → Frame}
    (hf : ∀ frame, (f frame).isParameters = frame.isParameters) : Alike s (s.onFrame f) := by
  unfold State.onFrame
  cases hframes : s.frames with
  | nil => exact .refl s
  | cons frame outer =>
      refine ⟨rfl, by rw [hframes]; rfl, by rw [hframes]; rfl, ?_, fun _ => .refl s.log⟩
      change (f frame).isParameters = (s.frames.headD {}).isParameters
      rw [hframes, hf]
      rfl

theorem alike_suspend (s : State) (span : Text.Span) (inner : Descriptor) :
    Alike s (s.suspend span inner).2 := by
  unfold State.suspend
  split
  · exact (Alike.refl s).note rfl
  · have hframe := alike_onFrame s (f := fun frame => { frame with suspends := true }) fun _ => rfl
    exact hframe.record _

/-- A frame that has been pushed is the only one that has changed. -/
theorem Alike.frames_eq {s t : State} {frame : Frame} (h : Alike (s.pushFrame frame) t) :
    t.frames = t.frame :: s.frames := by
  have houter : t.frames.tail = s.frames := h.outer
  have hdepth : t.frames.length = s.frames.length + 1 := h.depth
  unfold State.frame
  cases hframes : t.frames with
  | nil => simp [hframes] at hdepth
  | cons first outer =>
      rw [hframes] at houter
      exact congrArg (first :: ·) houter

theorem Alike.frames_popFrame {s t : State} {frame : Frame} (h : Alike (s.pushFrame frame) t) :
    t.popFrame.frames = s.frames := by
  change t.frames.tail = s.frames
  rw [h.frames_eq, List.tail_cons]

theorem Alike.popFrame {s t : State} {frame : Frame} (h : Alike (s.pushFrame frame) t) :
    Alike s t.popFrame where
  recording := h.recording
  outer := congrArg List.tail h.frames_popFrame
  depth := congrArg List.length h.frames_popFrame
  parameters := by unfold State.frame; rw [h.frames_popFrame]
  quiet := h.quiet

/-- A walk that is not recorded, and recording as before. -/
theorem Alike.resume {s t : State} (h : Alike { s with recording := false } t) :
    Alike s { t with recording := s.recording } :=
  ⟨rfl, h.outer, h.depth, h.parameters, fun _ => h.quiet rfl⟩

end State

open State

/-! ## Rounds -/

theorem alike_settle {iterate : State → Outcome Descriptor} (h : ∀ s, Alike s (iterate s).2)
    (fuel rounds : Nat) (s : State) : Alike s (settle iterate fuel rounds s).2 := by
  induction fuel generalizing rounds s with
  | zero => exact .refl s
  | succ fuel ih =>
      have hstep := h s
      rw [settle]
      generalize iterate s = outcome at hstep ⊢
      rcases outcome with ⟨refusal | d, after⟩
      · exact hstep
      · simp only
        split
        · exact hstep.withBindings _
        · exact (hstep.withBindings _).trans (ih _ _)

theorem alike_hoistRounds {round : State → Bool × State} (h : ∀ s, Alike s (round s).2)
    (fuel rounds : Nat) (s : State) : Alike s (hoistRounds round fuel rounds s).2 := by
  induction fuel generalizing rounds s with
  | zero => exact .refl s
  | succ fuel ih =>
      have hstep := h s
      rw [hoistRounds]
      generalize round s = outcome at hstep ⊢
      rcases outcome with ⟨_ | _, after⟩
      · exact hstep
      · exact hstep.trans (ih _ _)

/-! ## Actions -/

mutual

theorem alike_run (action : Action) (s : State) : Alike s (action.run s).2 := by
  match action with
  | .give d => exact .refl s
  | .bind first next =>
      have hfirst := alike_run first s
      rw [Action.run]
      generalize first.run s = outcome at hfirst ⊢
      rcases outcome with ⟨refusal | d, after⟩
      · exact hfirst
      · exact hfirst.trans (alike_run (next d) after)
  | .look name => exact .refl s
  | .declare name d => exact (Alike.refl s).withBindings _
  | .assign name d => exact (Alike.refl s).withBindings _
  | .record kind span d => exact (Alike.refl s).record _
  | .suspend span inner => exact alike_suspend s span inner
  | .awaiting => exact alike_onFrame s fun _ => rfl
  | .returning d => exact alike_onFrame s fun _ => rfl
  | .returned => exact .refl s
  | .refuse shape span => exact .refl s
  | .scoped body =>
      have hbody := alike_run body s.enter
      exact ((Alike.refl s).withBindings _ |>.trans hbody).withBindings _
  | .fork left right merge =>
      have hleft := alike_run left s
      rw [Action.run]
      generalize left.run s = outcome at hleft ⊢
      rcases outcome with ⟨refusal | a, leftAfter⟩
      · exact hleft
      · have hright := alike_run right { leftAfter with bindings := s.bindings }
        simp only
        generalize right.run { leftAfter with bindings := s.bindings } = outcome at hright ⊢
        rcases outcome with ⟨refusal | b, rightAfter⟩
        · exact (hleft.withBindings _).trans hright
        · exact ((hleft.withBindings _).trans hright).withBindings _
  | .choose arms hasDefault =>
      have harms := alike_runArms arms [] s
      rw [Action.run]
      generalize arms.run [] s = outcome at harms ⊢
      rcases outcome with ⟨refusal | exits, after⟩
      · exact harms
      · exact harms.withBindings _
  | .loop names iteration =>
      let quiet := { s with recording := false }.pushFrame {}
      have hsettle := alike_settle (alike_run iteration) (settleLimit s.bindings names) 0 quiet
      rw [Action.run]
      rcases hrun : settle iteration.run (settleLimit s.bindings names) 0 quiet with
        ⟨refusal | rounds, after⟩
      · rw [hrun] at hsettle
        exact hsettle.popFrame.resume
      · rw [hrun] at hsettle
        have hentry : Alike s (State.note { after.popFrame with recording := s.recording }
          (.settled rounds)) := hsettle.popFrame.resume.note rfl
        have hlast := alike_run iteration
          (State.note { after.popFrame with recording := s.recording } (.settled rounds))
        simp only
        generalize iteration.run
          (State.note { after.popFrame with recording := s.recording } (.settled rounds)) = outcome
          at hlast ⊢
        rcases outcome with ⟨refusal | d, last⟩
        · exact hentry.trans hlast
        · exact (hentry.trans hlast).withBindings _
  | .hoist declarations =>
      rw [Action.run]
      split
      · exact .refl s
      · have hrounds := alike_hoistRounds (alike_round declarations) (declarations.count + 1) 0
          { s with recording := false }
        exact hrounds.resume.note rfl
  | .function span isAsync body =>
      have hbody := alike_run body (s.pushFrame {})
      rw [Action.run]
      generalize body.run (s.pushFrame {}) = outcome at hbody ⊢
      rcases outcome with ⟨refusal | value, after⟩
      · exact hbody.popFrame
      · simp only
        split
        · exact hbody.popFrame.record _
        · exact hbody.popFrame
  | .parameters body =>
      have hbody := alike_run body (s.pushFrame { isParameters := true })
      exact hbody.popFrame

theorem alike_runArms (arms : Arms) (exits : List Bindings) (s : State) :
    Alike s (arms.run exits s).2 := by
  match arms with
  | .done => exact .refl s
  | .arm test body rest =>
      have htest := alike_run test s
      rw [Arms.run]
      generalize test.run s = outcome at htest ⊢
      rcases outcome with ⟨refusal | d, entry⟩
      · exact htest
      · have hbody := alike_run body entry
        simp only
        generalize body.run entry = outcome at hbody ⊢
        rcases outcome with ⟨refusal | d, after⟩
        · exact htest.trans hbody
        · exact ((htest.trans hbody).withBindings _).trans (alike_runArms rest _ _)

theorem alike_round (declarations : Declarations) (s : State) :
    Alike s (declarations.round s).2 := by
  match declarations with
  | .done => exact .refl s
  | .declaration name walk rest =>
      have hwalk := alike_run walk s
      rw [Declarations.round]
      generalize walk.run s = outcome at hwalk ⊢
      rcases outcome with ⟨refusal | d, after⟩
      · exact (hwalk.withBindings _).trans (alike_round rest _)
      · exact (hwalk.withBindings _).trans (alike_round rest _)

end

end ShellAwait.Analysis
