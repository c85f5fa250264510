import ShellAwait.Analysis.Findings
import ShellAwait.Proofs.Analysis.Twins

/-! # Recording does not interfere

The log is only ever added to, and neither the log nor the recording mode is asked for by a walk. So
walks from the same bindings and frames end alike, whatever has been found and whether or not they
record; a walk that does not record finds nothing. The rounds that settle a loop and those that bind
functions ahead are walked this way: all that is left of them are the bindings they come to.
-/

namespace ShellAwait.Analysis

namespace State

/-- The same bindings and frames. What has been found, and whether the walk records, may differ. -/
structure Peers (s t : State) : Prop where
  bindings : t.bindings = s.bindings
  frames : t.frames = s.frames

structure SameFindings (s t : State) : Prop where
  types : loggedTypes t.log = loggedTypes s.log
  suspensions : loggedSites t.log = loggedSites s.log
  promoted : loggedPromotions t.log = loggedPromotions s.log

/-- States that differ at most in the remarks of their logs. -/
structure Matches (s t : State) : Prop extends Peers s t, SameFindings s t where
  recording : t.recording = s.recording

def onTop (s : State) (earlier : List Event) : State := { s with log := s.log ++ earlier }

theorem record_onTop (s : State) (earlier : List Event) (event : Event) :
    (s.onTop earlier).record event = (s.record event).onTop earlier := by
  unfold State.record
  change (if s.recording then _ else _) = _
  split <;> rfl

theorem onFrame_onTop (s : State) (earlier : List Event) (f : Frame → Frame) :
    (s.onTop earlier).onFrame f = (s.onFrame f).onTop earlier := by
  obtain ⟨bindings, frames, recording, log⟩ := s
  cases frames <;> rfl

theorem suspend_onTop (s : State) (earlier : List Event) (span : Text.Span) (inner : Descriptor) :
    (s.onTop earlier).suspend span inner =
      ((s.suspend span inner).1, (s.suspend span inner).2.onTop earlier) := by
  unfold State.suspend
  rw [onFrame_onTop, record_onTop]
  change (if s.frame.isParameters then _ else _) = _
  split <;> rfl

/-! ## Findings -/

theorem SameFindings.refl (s : State) : s.SameFindings s := ⟨rfl, rfl, rfl⟩

theorem SameFindings.trans {s t u : State} (hst : s.SameFindings t) (htu : t.SameFindings u) :
    s.SameFindings u :=
  ⟨htu.types.trans hst.types, htu.suspensions.trans hst.suspensions,
    htu.promoted.trans hst.promoted⟩

theorem SameFindings.onTop {s t : State} (u : State) (h : s.SameFindings t) :
    (u.onTop s.log).SameFindings (u.onTop t.log) := by
  constructor
  · change loggedTypes (u.log ++ t.log) = loggedTypes (u.log ++ s.log)
    rw [loggedTypes, loggedTypes, List.filterMap_append, List.filterMap_append]
    exact congrArg _ h.types
  · change loggedSites (u.log ++ t.log) = loggedSites (u.log ++ s.log)
    rw [loggedSites, loggedSites, List.filterMap_append, List.filterMap_append]
    exact congrArg _ h.suspensions
  · change loggedPromotions (u.log ++ t.log) = loggedPromotions (u.log ++ s.log)
    rw [loggedPromotions, loggedPromotions, List.filterMap_append, List.filterMap_append]
    exact congrArg _ h.promoted

theorem sameFindings_note (s : State) {event : Event} (h : event.isRemark = true) :
    s.SameFindings (s.note event) := by
  cases event with
  | leftDeferred | settled | hoisted => exact ⟨rfl, rfl, rfl⟩
  | descriptor | site | promoted => cases h

theorem sameFindings_of_onlyRemarks {s t : State} (h : OnlyRemarks s.log t.log) :
    s.SameFindings t := by
  obtain ⟨remarks, hlog, hremarks⟩ := h
  induction remarks generalizing t with
  | nil =>
      rw [List.nil_append] at hlog
      constructor <;> rw [hlog]
  | cons event others ih =>
      obtain ⟨hevent, hothers⟩ := List.forall_mem_cons.mp hremarks
      have hbefore := ih (t := { t with log := others ++ s.log }) rfl hothers
      have hnoted := sameFindings_note { t with log := others ++ s.log } hevent
      have htogether := hbefore.trans hnoted
      constructor <;> rw [hlog]
      · exact htogether.types
      · exact htogether.suspensions
      · exact htogether.promoted

end State

open State

/-! ## The log is only added to -/

theorem settle_onTop {iterate : State → Outcome Descriptor} {earlier : List Event}
    (h : ∀ s, iterate (s.onTop earlier) = ((iterate s).1, (iterate s).2.onTop earlier))
    (fuel rounds : Nat) (s : State) :
    settle iterate fuel rounds (s.onTop earlier) =
      ((settle iterate fuel rounds s).1, (settle iterate fuel rounds s).2.onTop earlier) := by
  induction fuel generalizing rounds s with
  | zero => rfl
  | succ fuel ih =>
      rw [settle, settle, h s]
      rcases iterate s with ⟨refusal | d, after⟩
      · rfl
      · simp only
        change (if (s.bindings.join [s.bindings, after.bindings]).agrees s.bindings then _ else _) = _
        split
        · rfl
        · exact ih (rounds + 1) { after with bindings := s.bindings.join [s.bindings, after.bindings] }

theorem hoistRounds_onTop {round : State → Bool × State} {earlier : List Event}
    (h : ∀ s, round (s.onTop earlier) = ((round s).1, (round s).2.onTop earlier))
    (fuel rounds : Nat) (s : State) :
    hoistRounds round fuel rounds (s.onTop earlier) =
      ((hoistRounds round fuel rounds s).1, (hoistRounds round fuel rounds s).2.onTop earlier) := by
  induction fuel generalizing rounds s with
  | zero => rfl
  | succ fuel ih =>
      rw [hoistRounds, hoistRounds, h s]
      rcases round s with ⟨_ | _, after⟩
      · rfl
      · exact ih (rounds + 1) after

mutual

/-- A walk adds the same events to every log. -/
theorem run_onTop (action : Action) (s : State) (earlier : List Event) :
    action.run (s.onTop earlier) = ((action.run s).1, (action.run s).2.onTop earlier) := by
  match action with
  | .give d => rfl
  | .bind first next =>
      rw [Action.run, Action.run, run_onTop first s earlier]
      rcases first.run s with ⟨refusal | d, after⟩
      · rfl
      · exact run_onTop (next d) after earlier
  | .look name => rfl
  | .declare name d => rfl
  | .assign name d => rfl
  | .record kind span d =>
      rw [Action.run, Action.run, record_onTop]
  | .suspend span inner =>
      rw [Action.run, Action.run, suspend_onTop]
  | .awaiting =>
      rw [Action.run, Action.run, onFrame_onTop]
  | .returning d =>
      rw [Action.run, Action.run, onFrame_onTop]
  | .returned => rfl
  | .refuse shape span => rfl
  | .scoped body =>
      have hbody : body.run (s.onTop earlier).enter = _ := run_onTop body s.enter earlier
      rw [Action.run, Action.run, hbody]
      rfl
  | .fork left right merge =>
      rw [Action.run, Action.run, run_onTop left s earlier]
      rcases left.run s with ⟨refusal | a, leftAfter⟩
      · rfl
      · have hright := run_onTop right { leftAfter with bindings := s.bindings } earlier
        change (match right.run (State.onTop { leftAfter with bindings := s.bindings } earlier) with
          | (.error refusal, after) => _
          | (.ok b, rightAfter) => _) = _
        rw [hright]
        simp only
        rcases right.run { leftAfter with bindings := s.bindings } with ⟨refusal | b, rightAfter⟩
        · rfl
        · rfl
  | .choose arms hasDefault =>
      rw [Action.run, Action.run, runArms_onTop arms [] s earlier]
      rcases arms.run [] s with ⟨refusal | exits, after⟩
      · rfl
      · rfl
  | .loop names iteration =>
      have hsettle := settle_onTop (fun s => run_onTop iteration s earlier)
        (settleLimit s.bindings names) 0 ({ s with recording := false }.pushFrame {})
      rw [Action.run, Action.run]
      change (match settle iteration.run (settleLimit s.bindings names) 0
          (({ s with recording := false }.pushFrame {}).onTop earlier) with
        | (.error refusal, after) => _
        | (.ok rounds, after) => _) = _
      rw [hsettle]
      rcases hrun : settle iteration.run (settleLimit s.bindings names) 0
        ({ s with recording := false }.pushFrame {}) with ⟨refusal | rounds, after⟩
      · simp only [hrun]
        rfl
      · have hlast := run_onTop iteration
          (State.note { after.popFrame with recording := s.recording } (.settled rounds)) earlier
        simp only [hrun]
        change (match iteration.run ((State.note { after.popFrame with recording := s.recording }
            (.settled rounds)).onTop earlier) with
          | (.error refusal, after) => _
          | (.ok _, after) => _) = _
        rw [hlast]
        rcases hreal : iteration.run (State.note { after.popFrame with recording := s.recording }
          (.settled rounds)) with ⟨refusal | d, last⟩
        · rfl
        · rfl
  | .hoist declarations =>
      have hrounds := hoistRounds_onTop (fun s => round_onTop declarations s earlier)
        (declarations.count + 1) 0 { s with recording := false }
      rw [Action.run, Action.run]
      split
      · rfl
      · change (_, State.note { (hoistRounds declarations.round (declarations.count + 1) 0
          (State.onTop { s with recording := false } earlier)).2 with recording := s.recording }
          (.hoisted (hoistRounds declarations.round (declarations.count + 1) 0
            (State.onTop { s with recording := false } earlier)).1 declarations.count)) = _
        rw [hrounds]
        rfl
  | .function span isAsync body =>
      have hbody : body.run ((s.onTop earlier).pushFrame {}) = _ :=
        run_onTop body (s.pushFrame {}) earlier
      rw [Action.run, Action.run, hbody]
      rcases body.run (s.pushFrame {}) with ⟨refusal | value, after⟩
      · rfl
      · change (_, if !isAsync && after.frame.suspends then
          (after.popFrame.onTop earlier).record (.promoted span) else _) = _
        rw [record_onTop]
        simp only
        split <;> rfl
  | .parameters body =>
      have hbody : body.run ((s.onTop earlier).pushFrame { isParameters := true }) = _ :=
        run_onTop body (s.pushFrame { isParameters := true }) earlier
      rw [Action.run, Action.run, hbody]
      rfl

theorem runArms_onTop (arms : Arms) (exits : List Bindings) (s : State) (earlier : List Event) :
    arms.run exits (s.onTop earlier) =
      ((arms.run exits s).1, (arms.run exits s).2.onTop earlier) := by
  match arms with
  | .done => rfl
  | .arm test body rest =>
      rw [Arms.run, Arms.run, run_onTop test s earlier]
      rcases test.run s with ⟨refusal | d, entry⟩
      · rfl
      · simp only
        rw [run_onTop body entry earlier]
        rcases body.run entry with ⟨refusal | d, after⟩
        · rfl
        · exact runArms_onTop rest (exits ++ [after.bindings])
            { after with bindings := entry.bindings } earlier

theorem round_onTop (declarations : Declarations) (s : State) (earlier : List Event) :
    declarations.round (s.onTop earlier) =
      ((declarations.round s).1, (declarations.round s).2.onTop earlier) := by
  match declarations with
  | .done => rfl
  | .declaration name walk rest =>
      rw [Declarations.round, Declarations.round, run_onTop walk s earlier]
      rcases walk.run s with ⟨refusal | d, after⟩
      · exact round_onTop rest { after with bindings := s.bindings } earlier
      · have hrest := round_onTop rest { after with bindings := s.bindings.add name d } earlier
        change (_ || (rest.round (State.onTop { after with bindings := s.bindings.add name d }
          earlier)).1, (rest.round (State.onTop { after with bindings := s.bindings.add name d }
          earlier)).2) = _
        rw [hrest]
        rfl

end

/-! ## Two walks -/

/-- Walks from the same bindings and frames end in the same way and leave the same of both. -/
theorem State.Peers.run {s t : State} (h : s.Peers t) (action : Action) :
    (action.run t).1 = (action.run s).1 ∧ (action.run s).2.Peers (action.run t).2 := by
  have htwin : Twin true s t := ⟨h.bindings, congrArg List.head? h.frames⟩
  obtain ⟨hresult, hafter⟩ := sameEnd_run action (.inl rfl) htwin
  refine ⟨hresult, hafter.bindings, ?_⟩
  -- the twins have the same innermost frame, and the frames around it are left alone
  have hhead : (action.run t).2.frames.head? = (action.run s).2.frames.head? := hafter.frame
  have htail : (action.run t).2.frames.tail = (action.run s).2.frames.tail := by
    rw [(alike_run action t).outer, (alike_run action s).outer, h.frames]
  generalize (action.run t).2.frames = later at hhead htail
  generalize (action.run s).2.frames = frames at hhead htail
  cases later <;> cases frames <;> simp_all

theorem State.Matches.run {s t : State} (h : s.Matches t) (action : Action) :
    (action.run t).1 = (action.run s).1 ∧ (action.run s).2.Matches (action.run t).2 := by
  have hbase : ({ t with log := [] } : State) = { s with log := [] } := by
    rw [h.bindings, h.frames, h.recording]
  have hs : action.run s = _ := run_onTop action { s with log := [] } s.log
  have ht : action.run t = _ := run_onTop action { t with log := [] } t.log
  rw [hbase] at ht
  generalize action.run { s with log := [] } = outcome at hs ht
  have hfindings := h.toSameFindings.onTop outcome.2
  rw [hs, ht]
  exact ⟨rfl, ⟨rfl, rfl⟩, hfindings, rfl⟩

/-- A walk that does not record finds nothing. -/
theorem sameFindings_run {s : State} (h : s.recording = false) (action : Action) :
    s.SameFindings (action.run s).2 :=
  sameFindings_of_onlyRemarks ((alike_run action s).quiet h)

/-! ## Rounds that do not count -/

theorem sameFindings_hoist (declarations : Declarations) (s : State) :
    s.SameFindings ((Action.hoist declarations).run s).2 := by
  have hrounds := alike_hoistRounds (alike_round declarations) (declarations.count + 1) 0
    { s with recording := false }
  rw [Action.run]
  split
  · exact .refl s
  · exact sameFindings_of_onlyRemarks ((hrounds.quiet rfl).cons rfl)

def Action.rounds (iteration : Action) (names : List String) (s : State) : Outcome Nat :=
  settle iteration.run (settleLimit s.bindings names) 0 ({ s with recording := false }.pushFrame {})

/-- One walk of an iteration from the given bindings, which may also not take place. -/
def Action.once (iteration : Action) (b : Bindings) (s : State) : Outcome Descriptor :=
  match iteration.run { s with bindings := b } with
  | (.error refusal, after) => (.error refusal, after)
  | (.ok _, after) => (.ok .unknown, { after with bindings := b.join [b, after.bindings] })

theorem alike_rounds (iteration : Action) (names : List String) (s : State) :
    Alike ({ s with recording := false }.pushFrame {}) (iteration.rounds names s).2 :=
  alike_settle (alike_run iteration) (settleLimit s.bindings names) 0 _

theorem run_loop_of_error {iteration : Action} {names : List String} {s after : State}
    {refusal : Refusal} (h : iteration.rounds names s = (.error refusal, after)) :
    ((Action.loop names iteration).run s).1 = .error refusal ∧
      s.SameFindings ((Action.loop names iteration).run s).2 := by
  have halike := alike_rounds iteration names s
  rw [h] at halike
  unfold Action.rounds at h
  rw [Action.run]
  simp only [h, true_and]
  exact sameFindings_of_onlyRemarks (halike.quiet rfl)

/-- After its rounds a loop is one walk of its iteration from the bindings that they have come to,
in the state that the loop was met in. -/
theorem run_loop_of_ok {iteration : Action} {names : List String} {s settled : State}
    {rounds : Nat} (h : iteration.rounds names s = (.ok rounds, settled)) :
    ((Action.loop names iteration).run s).1 = (iteration.once settled.bindings s).1 ∧
      (iteration.once settled.bindings s).2.Matches ((Action.loop names iteration).run s).2 := by
  have halike := alike_rounds iteration names s
  rw [h] at halike
  have hremarks : OnlyRemarks s.log (.settled rounds :: settled.log) := (halike.quiet rfl).cons rfl
  have hentry : State.Matches { s with bindings := settled.bindings }
      (State.note { settled.popFrame with recording := s.recording } (.settled rounds)) :=
    ⟨⟨rfl, halike.frames_popFrame⟩, sameFindings_of_onlyRemarks hremarks, rfl⟩
  obtain ⟨hresult, hafter⟩ := hentry.run iteration
  unfold Action.rounds at h
  rw [Action.run, Action.once]
  simp only [h]
  generalize iteration.run { s with bindings := settled.bindings } = x at hresult hafter
  generalize iteration.run (State.note { settled.popFrame with recording := s.recording }
    (.settled rounds)) = y at hresult hafter
  rcases x with ⟨refusal | d, u⟩ <;> rcases y with ⟨refusal' | d', v⟩ <;> cases hresult
  · exact ⟨rfl, hafter⟩
  · refine ⟨rfl, ⟨?_, hafter.frames⟩, ⟨hafter.types, hafter.suspensions, hafter.promoted⟩,
      hafter.recording⟩
    change settled.bindings.join [settled.bindings, v.bindings] = _
    rw [show v.bindings = u.bindings from hafter.bindings]

/-- Recording does not interfere with a walk. From states with the same bindings and frames every
action ends in the same way and leaves the same bindings and frames, and without recording it
leaves the findings as they were. So the rounds that bind functions ahead leave no finding; and of
the rounds before a loop nothing is left but an error, or the bindings that its one recorded walk
then starts from. -/
theorem recording_does_not_interfere (action : Action) (s : State) :
    (∀ t, s.Peers t →
      (action.run t).1 = (action.run s).1 ∧ (action.run s).2.Peers (action.run t).2) ∧
    (s.recording = false → s.SameFindings (action.run s).2) ∧
    (∀ declarations, s.SameFindings ((Action.hoist declarations).run s).2) ∧
    (∀ names refusal after, action.rounds names s = (.error refusal, after) →
      ((Action.loop names action).run s).1 = .error refusal ∧
        s.SameFindings ((Action.loop names action).run s).2) ∧
    ∀ names rounds settled, action.rounds names s = (.ok rounds, settled) →
      ((Action.loop names action).run s).1 = (action.once settled.bindings s).1 ∧
        (action.once settled.bindings s).2.Matches ((Action.loop names action).run s).2 :=
  ⟨fun _ hpeers => hpeers.run action, fun hquiet => sameFindings_run hquiet action,
    fun declarations => sameFindings_hoist declarations s, fun _ _ _ h => run_loop_of_error h,
    fun _ _ _ h => run_loop_of_ok h⟩

/-- The use of a deferred call inside a function, walked without and with recording and in a loop,
and a loop whose pattern is refused. -/
theorem recording_does_not_interfere_use :
    let call := ((Action.give (.deferred .unknown)).recorded .callExpr ⟨0, 3⟩).used ⟨0, 3⟩
    let s : State := { bindings := { root := .empty }, frames := [{}], recording := false }
    let t : State := { s with recording := true, log := [.promoted ⟨4, 9⟩] }
    let refused := Action.refuse "Cursor" ⟨4, 9⟩
    ((call.run t).1 = (call.run s).1 ∧ (call.run s).2.Peers (call.run t).2) ∧
      (s.SameFindings (call.run s).2 ∧ ¬t.SameFindings (call.run t).2) ∧
      t.SameFindings ((Action.loop [] refused).run t).2 ∧
      (call.once t.bindings t).2.Matches ((Action.loop [] call).run t).2 := by
  intro call s t refused
  have hpeers : s.Peers t := ⟨rfl, rfl⟩
  obtain ⟨hsame, hquiet, -⟩ := recording_does_not_interfere call s
  obtain ⟨-, -, -, -, hloop⟩ := recording_does_not_interfere call t
  obtain ⟨-, -, -, hfails, -⟩ := recording_does_not_interfere refused t
  have hfound : ¬t.SameFindings (call.run t).2 := fun h => absurd h.suspensions (by decide)
  exact ⟨hsame t hpeers, ⟨hquiet rfl, hfound⟩, (hfails [] _ _ rfl).2, (hloop [] _ _ rfl).2⟩

end ShellAwait.Analysis
