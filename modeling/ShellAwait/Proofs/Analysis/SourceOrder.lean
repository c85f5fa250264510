import ShellAwait.Proofs.Analysis.Points
import ShellAwait.Proofs.Analysis.Suspensions

/-! # Marks in source order

The marks of a script are noted in the order in which its parts are walked, and listed in the order in
which they stand in the text. Main statement: a search in these lists meets exactly the spans that
some point of the walk records.
-/

namespace ShellAwait

open Text

namespace Analysis

/-! ## What the points of a walk record -/

def Event.isMark : Event → Bool
  | .site _ | .promoted _ => true
  | _ => false

/-- What a point records: the use of a deferred value outside of parameter lists, and a function that
is not `async` as it is written and whose body awaits something. -/
inductive Point.Records : Point → Event → Prop
  | site {s : State} {span : Span} {inner : Descriptor} : s.recording = true →
      s.frame.isParameters = false → Records ⟨.suspend span inner, s⟩ (.site span)
  | promoted {s after : State} {span : Span} {body : Action} {value : Descriptor} :
      s.recording = true → body.run (s.pushFrame {}) = (.ok value, after) →
      after.frame.suspends = true → Records ⟨.function span false body, s⟩ (.promoted span)

theorem not_records_ofOutcome (outcome : Outcome Descriptor) (event : Event) :
    ¬(Point.ofOutcome outcome).Records event := by
  obtain ⟨refusal | d, s⟩ := outcome <;> exact fun h => by cases h

/-- The marks of a later log are those of the earlier one and those that the points record. -/
def Logs (points : List Point) (log later : List Event) : Prop :=
  ∀ event, event.isMark = true → (event ∈ later ↔ event ∈ log ∨ ∃ p ∈ points, p.Records event)

namespace Logs

variable {points more : List Point} {a b c : List Event} {action : Action} {s : State}

theorem nil (log : List Event) : Logs [] log log := by
  intro event _
  simp

theorem append (h : Logs points a b) (hmore : Logs more b c) : Logs (points ++ more) a c := by
  intro event hmark
  rw [hmore event hmark, h event hmark, or_assoc]
  simp only [List.mem_append, or_and_right, exists_or]

theorem cons {event : Event} (h : Logs points a b) (hevent : event.isMark = false) :
    Logs points a (event :: b) := by
  intro mark hmark
  have hne : mark ≠ event := fun heq => by rw [heq, hevent] at hmark; cases hmark
  rw [List.mem_cons, or_iff_right hne, h mark hmark]

theorem mem_around (action : Action) (s : State) (points : List Point) (event : Event) :
    (∃ p ∈ action.around s points, p.Records event) ↔
      (⟨action, s⟩ : Point).Records event ∨ ∃ p ∈ points, p.Records event := by
  have hlast : ¬∃ p ∈ [Point.ofOutcome (action.run s)], p.Records event := by
    simpa using not_records_ofOutcome (action.run s) event
  rw [Action.around, List.exists_mem_cons_iff]
  simp only [List.mem_append, or_and_right, exists_or, or_iff_left hlast]

theorem around (hown : ∀ event, ¬(⟨action, s⟩ : Point).Records event) (h : Logs points a b) :
    Logs (action.around s points) a b := by
  intro event hmark
  rw [h event hmark, mem_around, or_iff_right (hown event)]

theorem around_record {mark : Event} {after : State}
    (hown : ∀ event, (⟨action, s⟩ : Point).Records event ↔ event = mark ∧ after.recording = true)
    (h : Logs points a after.log) : Logs (action.around s points) a (after.record mark).log := by
  intro event hevent
  rw [mem_around, hown, or_left_comm, ← h event hevent, State.record]
  split
  next hrecording => rw [and_iff_left hrecording, State.note, List.mem_cons]
  next hquiet => rw [or_iff_right fun hboth => hquiet hboth.2]

theorem simple (hpoints : action.points s = action.around s [])
    (hown : ∀ event, ¬(⟨action, s⟩ : Point).Records event)
    (h : Logs [] s.log (action.run s).2.log) :
    Logs (action.points s) s.log (action.run s).2.log := by
  rw [hpoints]
  exact h.around hown

end Logs

theorem logs_suspend (span : Span) (inner : Descriptor) (s : State) :
    Logs ((Action.suspend span inner).points s) s.log
      ((Action.suspend span inner).run s).2.log := by
  change Logs ((Action.suspend span inner).around s []) s.log (s.suspend span inner).2.log
  unfold State.suspend
  split
  next hparameters =>
    refine Logs.around (fun event h => ?_) ((Logs.nil s.log).cons rfl)
    cases h with
    | site _ hbody => simp [hparameters] at hbody
  next hbody =>
    have hframe := State.alike_onFrame s (f := fun frame => { frame with suspends := true })
      fun _ => rfl
    refine Logs.around_record (fun event => ?_) (log_onFrame s _ ▸ .nil s.log)
    rw [hframe.recording]
    constructor
    · intro hrecords
      cases hrecords with
      | site hrecording _ => exact ⟨rfl, hrecording⟩
    · rintro ⟨rfl, hrecording⟩
      exact .site hrecording (Bool.eq_false_iff.mpr hbody)

theorem logs_settle {iteration : Action}
    (h : ∀ s, Logs (iteration.points s) s.log (iteration.run s).2.log) (fuel rounds : Nat)
    (s : State) :
    Logs (settlePoints iteration.run iteration.points fuel s) s.log
      (settle iteration.run fuel rounds s).2.log := by
  induction fuel generalizing rounds s with
  | zero => exact .nil s.log
  | succ fuel ih =>
      have hround := h s
      rw [settlePoints, settle]
      rcases hrun : iteration.run s with ⟨refusal | d, after⟩
      · rw [hrun] at hround
        exact hround.append (.nil _)
      · rw [hrun] at hround
        simp only
        split
        · exact hround.append (.nil _)
        · exact hround.append
            (ih (rounds + 1) { after with bindings := s.bindings.join [s.bindings, after.bindings] })

theorem logs_hoistRounds {declarations : Declarations}
    (h : ∀ s, Logs (declarations.points s) s.log (declarations.round s).2.log) (fuel rounds : Nat)
    (s : State) :
    Logs (hoistPoints declarations.round declarations.points fuel s) s.log
      (hoistRounds declarations.round fuel rounds s).2.log := by
  induction fuel generalizing rounds s with
  | zero => exact .nil s.log
  | succ fuel ih =>
      have hround := h s
      rw [hoistPoints, hoistRounds]
      rcases hrun : declarations.round s with ⟨_ | _, after⟩
      · rw [hrun] at hround
        exact hround.append (.nil _)
      · rw [hrun] at hround
        exact hround.append (ih (rounds + 1) after)

theorem logs_function {body : Action} (h : ∀ s, Logs (body.points s) s.log (body.run s).2.log)
    (span : Span) (isAsync : Bool) (s : State) :
    Logs ((Action.function span isAsync body).points s) s.log
      ((Action.function span isAsync body).run s).2.log := by
  have hbody : Logs _ s.log _ := h (s.pushFrame {})
  have hrecording : (body.run (s.pushFrame {})).2.recording = s.recording :=
    (alike_run body (s.pushFrame {})).recording
  rw [Action.points, Action.run]
  rcases hrun : body.run (s.pushFrame {}) with ⟨refusal | value, after⟩
  · rw [hrun] at hbody
    refine hbody.around fun event hrecords => ?_
    cases hrecords with
    | promoted _ hother _ =>
        rw [hrun] at hother
        cases hother
  · rw [hrun] at hbody hrecording
    simp only
    split
    next hpromoted =>
      obtain ⟨hplain, hsuspends⟩ := Bool.and_eq_true_iff.mp hpromoted
      obtain rfl : isAsync = false := by simpa using hplain
      refine Logs.around_record (fun event => ?_) hbody
      change _ ↔ event = .promoted span ∧ after.recording = true
      rw [hrecording]
      constructor
      · intro hrecords
        cases hrecords with
        | promoted hrecord _ _ => exact ⟨rfl, hrecord⟩
      · rintro ⟨rfl, hrecord⟩
        exact .promoted hrecord hrun hsuspends
    next hpromoted =>
      refine hbody.around fun event hrecords => ?_
      cases hrecords with
      | promoted _ hother hsuspends =>
          rw [hrun] at hother
          cases hother
          exact hpromoted hsuspends

mutual

/-- The marks that a walk leaves in the log are those that its points record. -/
theorem logs_run (action : Action) (s : State) :
    Logs (action.points s) s.log (action.run s).2.log := by
  match action with
  | .give d => exact .simple rfl (fun _ h => by cases h) (.nil s.log)
  | .bind first next =>
      have hfirst := logs_run first s
      rw [Action.points, Action.run]
      refine Logs.around (fun _ h => by cases h) ?_
      rcases hrun : first.run s with ⟨refusal | d, after⟩
      · rw [hrun] at hfirst
        exact hfirst.append (.nil _)
      · rw [hrun] at hfirst
        exact hfirst.append (logs_run (next d) after)
  | .look name => exact .simple rfl (fun _ h => by cases h) (.nil s.log)
  | .declare name d => exact .simple rfl (fun _ h => by cases h) (.nil s.log)
  | .assign name d => exact .simple rfl (fun _ h => by cases h) (.nil s.log)
  | .record kind span d =>
      refine .simple rfl (fun _ h => by cases h) ?_
      rw [Action.run, State.record]
      split
      · exact (Logs.nil s.log).cons rfl
      · exact .nil s.log
  | .suspend span inner => exact logs_suspend span inner s
  | .awaiting =>
      refine .simple rfl (fun _ h => by cases h) ?_
      rw [Action.run, log_onFrame]
      exact .nil s.log
  | .returning d =>
      refine .simple rfl (fun _ h => by cases h) ?_
      rw [Action.run, log_onFrame]
      exact .nil s.log
  | .returned => exact .simple rfl (fun _ h => by cases h) (.nil s.log)
  | .refuse shape span => exact .simple rfl (fun _ h => by cases h) (.nil s.log)
  | .scoped body =>
      rw [Action.points]
      exact (logs_run body s.enter).around fun _ h => by cases h
  | .fork left right merge =>
      have hleft := logs_run left s
      rw [Action.points, Action.run]
      refine Logs.around (fun _ h => by cases h) ?_
      rcases hrun : left.run s with ⟨refusal | a, leftAfter⟩
      · rw [hrun] at hleft
        exact hleft.append (.nil _)
      · rw [hrun] at hleft
        have hright := logs_run right { leftAfter with bindings := s.bindings }
        refine hleft.append ?_
        simp only
        rcases hother : right.run { leftAfter with bindings := s.bindings } with ⟨refusal | b, last⟩
        · rw [hother] at hright
          exact hright
        · rw [hother] at hright
          exact hright
  | .choose arms hasDefault =>
      have harms := logs_arms arms [] s
      rw [Action.points, Action.run]
      refine Logs.around (fun _ h => by cases h) ?_
      rcases hrun : arms.run [] s with ⟨refusal | exits, after⟩
      · rw [hrun] at harms
        exact harms
      · rw [hrun] at harms
        exact harms
  | .loop names iteration =>
      have hsettle := logs_settle (logs_run iteration) (settleLimit s.bindings names) 0
        ({ s with recording := false }.pushFrame {})
      rw [Action.points, Action.run]
      refine Logs.around (fun _ h => by cases h) ?_
      rcases hrun : settle iteration.run (settleLimit s.bindings names) 0
        ({ s with recording := false }.pushFrame {}) with ⟨refusal | rounds, after⟩
      · rw [hrun] at hsettle
        simp only [hrun]
        exact hsettle.append (.nil _)
      · rw [hrun] at hsettle
        have hlast := logs_run iteration
          (State.note { after.popFrame with recording := s.recording } (.settled rounds))
        have hentry : Logs _ s.log (.settled rounds :: after.log) := hsettle.cons rfl
        simp only [hrun]
        refine hentry.append ?_
        rcases hreal : iteration.run (State.note { after.popFrame with recording := s.recording }
          (.settled rounds)) with ⟨refusal | d, last⟩
        · rw [hreal] at hlast
          exact hlast
        · rw [hreal] at hlast
          exact hlast
  | .hoist declarations =>
      have hrounds := logs_hoistRounds (logs_round declarations) (declarations.count + 1) 0
        { s with recording := false }
      rw [Action.points, Action.run]
      refine Logs.around (fun _ h => by cases h) ?_
      split
      · exact .nil s.log
      · exact hrounds.cons rfl
  | .function span isAsync body => exact logs_function (logs_run body) span isAsync s
  | .parameters body =>
      rw [Action.points]
      exact (logs_run body (s.pushFrame { isParameters := true })).around fun _ h => by cases h

theorem logs_arms (arms : Arms) (exits : List Bindings) (s : State) :
    Logs (arms.points s) s.log (arms.run exits s).2.log := by
  match arms with
  | .done => exact .nil s.log
  | .arm test body rest =>
      have htest := logs_run test s
      rw [Arms.points, Arms.run]
      rcases hone : test.run s with ⟨refusal | d, entry⟩
      · rw [hone] at htest
        exact htest.append (.nil _)
      · rw [hone] at htest
        have hbody := logs_run body entry
        refine htest.append ?_
        simp only
        rcases htwo : body.run entry with ⟨refusal | d, after⟩
        · rw [htwo] at hbody
          exact hbody.append (.nil _)
        · rw [htwo] at hbody
          exact hbody.append (logs_arms rest (exits ++ [after.bindings])
            { after with bindings := entry.bindings })

theorem logs_round (declarations : Declarations) (s : State) :
    Logs (declarations.points s) s.log (declarations.round s).2.log := by
  match declarations with
  | .done => exact .nil s.log
  | .declaration name walk rest =>
      have hwalk := logs_run walk s
      rw [Declarations.points, Declarations.round]
      rcases hrun : walk.run s with ⟨refusal | d, after⟩
      · rw [hrun] at hwalk
        exact hwalk.append (logs_round rest { after with bindings := s.bindings })
      · rw [hrun] at hwalk
        exact hwalk.append (logs_round rest { after with bindings := s.bindings.add name d })

end

/-- The points of the walk through a script. -/
def scriptPoints (catalogue : Catalogue) (source : List Char) : List Point :=
  (Action.ofScript catalogue (Script.ofTree (parse source).tree)).points
    { bindings := Bindings.ofCatalogue catalogue }

theorem mem_log_ofScript {catalogue : Catalogue} {source : List Char} {d : Descriptor} {s : State}
    (hrun : (Action.ofScript catalogue (Script.ofTree (parse source).tree)).run
      { bindings := Bindings.ofCatalogue catalogue } = (.ok d, s))
    {event : Event} (hmark : event.isMark = true) :
    event ∈ s.log ↔ ∃ p ∈ scriptPoints catalogue source, p.Records event := by
  have hlogs := logs_run (.ofScript catalogue (Script.ofTree (parse source).tree))
    { bindings := Bindings.ofCatalogue catalogue } event hmark
  rw [hrun] at hlogs
  exact hlogs.trans (or_iff_right List.not_mem_nil)

end Analysis

open Analysis

variable {catalogue : Catalogue} {source : List Char} {findings : Findings}

theorem isSuspended_iff_mem (h : (analyse catalogue (parse source)).1 = .ok findings) (span : Span) :
    findings.isSuspended span = true ↔ span ∈ findings.suspensions :=
  (inSourceOrder_marks h).1.foundIn_iff span

theorem isPromoted_iff_mem (h : (analyse catalogue (parse source)).1 = .ok findings) (span : Span) :
    findings.isPromoted span = true ↔ span ∈ findings.promoted :=
  (inSourceOrder_marks h).2.foundIn_iff span

theorem existsUnique_of_marked {kinds : NodeKind → Bool} {span : Span} {nodes : List Occurrence}
    (hkinds : ∀ {kind}, kinds kind = true → kind.isKeyed = true) (hdistinct : Distinct nodes)
    {o : Occurrence} (ho : o ∈ nodes) (hkind : kinds o.kind = true) (hspan : o.span = span) :
    ∃! node, node ∈ nodes ∧ kinds node.kind = true ∧ node.span = span := by
  refine ⟨o, ⟨ho, hkind, hspan⟩, ?_⟩
  rintro other ⟨hother, hotherKind, hotherSpan⟩
  exact hdistinct.eq hother ho (hkinds hotherKind) (hkinds hkind) (hotherSpan.trans hspan.symm)

/-- Marks are listed in source order, and the search for a span in them succeeds if and only if the
walk through the script has recorded it. Each is the span of a single node that can be awaited, or of
a single function. -/
theorem marks_found_iff_recorded (h : (analyse catalogue (parse source)).1 = .ok findings) :
    Span.InSourceOrder findings.suspensions ∧ Span.InSourceOrder findings.promoted ∧
    ∀ span,
      ((findings.isSuspended span = true ↔
          ∃ p ∈ scriptPoints catalogue source, p.Records (.site span)) ∧
        (findings.isSuspended span = true → ∃! node, node ∈ (parse source).tree.nodes ∧
          node.kind.isSite = true ∧ node.span = span)) ∧
      ((findings.isPromoted span = true ↔
          ∃ p ∈ scriptPoints catalogue source, p.Records (.promoted span)) ∧
        (findings.isPromoted span = true → ∃! node, node ∈ (parse source).tree.nodes ∧
          node.kind.isFunction = true ∧ node.span = span)) := by
  obtain ⟨hsites, hpromoted⟩ := inSourceOrder_marks h
  obtain ⟨d, s, hrun, rfl⟩ := (run_of_analyse h).2
  obtain ⟨trace, haccounts⟩ := exists_accounts h
  refine ⟨hsites, hpromoted, fun span => ⟨⟨?_, fun hfound => ?_⟩, ?_, fun hfound => ?_⟩⟩
  · rw [isSuspended_iff_mem h, Findings.ofState, mem_foldr_insertSpan, mem_loggedSites]
    exact mem_log_ofScript hrun rfl
  · obtain ⟨p, hp, hsuspended, hspan⟩ :=
      (haccounts.suspended span).mp ((isSuspended_iff_mem h span).mp hfound)
    exact existsUnique_of_marked NodeKind.isKeyed_of_isSite haccounts.distinct
      (haccounts.mem_nodes hp) (suspended_iff.mp hsuspended).1 hspan
  · rw [isPromoted_iff_mem h, Findings.ofState, mem_foldr_insertSpan, mem_loggedPromotions]
    exact mem_log_ofScript hrun rfl
  · obtain ⟨q, hq, -, -, hspan⟩ :=
      (haccounts.promoted span).mp ((isPromoted_iff_mem h span).mp hfound)
    exact existsUnique_of_marked NodeKind.isKeyed_of_isFunction haccounts.distinct
      (haccounts.mem_functions hq) (Trace.isFunction_of_mem haccounts.placed hq) hspan

/-- An argument is walked before the call around it, and a function before the one around it. -/
def loopedLoads : List Char := "for (;;) () => { load(load(() => load())); };".toList

theorem marks_found_iff_recorded_loopedLoads : ∃ findings,
    (analyse loading (parse loopedLoads)).1 = .ok findings ∧
      findings.suspensions = [⟨17, 41⟩, ⟨22, 40⟩, ⟨33, 39⟩] ∧
      findings.promoted = [⟨9, 44⟩, ⟨27, 39⟩] ∧
      (∃ p ∈ scriptPoints loading loopedLoads, p.Records (.site ⟨22, 40⟩)) ∧
      (¬∃ p ∈ scriptPoints loading loopedLoads, p.Records (.site ⟨27, 39⟩)) ∧
      ∃ p ∈ scriptPoints loading loopedLoads, p.Records (.promoted ⟨27, 39⟩) := by
  obtain ⟨findings, h, hmarks⟩ : ∃ findings,
      (analyse loading (parse loopedLoads)).1 = .ok findings ∧
      findings.toMarks = ⟨[⟨17, 41⟩, ⟨22, 40⟩, ⟨33, 39⟩], [⟨9, 44⟩, ⟨27, 39⟩]⟩ :=
    exists_of_map_toOption (by decide +kernel)
  obtain ⟨-, -, hrecorded⟩ := marks_found_iff_recorded h
  refine ⟨findings, h, congrArg Marks.suspensions hmarks, congrArg Marks.promoted hmarks, ?_, ?_, ?_⟩
  · rw [← (hrecorded ⟨22, 40⟩).1.1, hmarks]
    decide +kernel
  · rw [← (hrecorded ⟨27, 39⟩).1.1, hmarks]
    decide +kernel
  · rw [← (hrecorded ⟨27, 39⟩).2.1, hmarks]
    decide +kernel

end ShellAwait
