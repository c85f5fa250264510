import ShellAwait.Analysis.Findings
import ShellAwait.Proofs.Analysis.Confinement

/-! # Scopes and frames stay in balance

Leaving a scope, dropping a frame and joining branches are total here, but only make sense where
there is a scope besides the root, a frame, and branches with as many levels as their entry. The
checked walk gives up wherever one of these is missing. It never does: whatever an action is walked
from, the checked walk ends as the plain one, and leaves as many scopes and frames as there were.
-/

namespace ShellAwait

namespace Bindings

/-- Join branches that have as many levels as the entry. -/
def join? (b : Bindings) (branches : List Bindings) : Option Bindings :=
  if ∀ branch ∈ branches, branch.depth = b.depth then some (b.join branches) else none

theorem join?_eq {b : Bindings} {branches : List Bindings}
    (h : ∀ branch ∈ branches, branch.depth = b.depth) : b.join? branches = some (b.join branches) :=
  if_pos h

theorem join?_pair {b left right : Bindings} (hleft : left.depth = b.depth)
    (hright : right.depth = b.depth) :
    b.join? [left, right] = some (b.join [left, right]) := by
  apply join?_eq
  simp [hleft, hright]

end Bindings

namespace Analysis

namespace State

/-- Leave the innermost scope, unless it is the root. -/
def leave? (s : State) : Option State := s.bindings.pop?.map fun b => { s with bindings := b }

/-- Drop the innermost frame, if there is one. -/
def popFrame? (s : State) : Option State :=
  match s.frames with
  | [] => none
  | _ :: outer => some { s with frames := outer }

theorem leave?_eq {s : State} (h : 1 < s.bindings.depth) : s.leave? = some s.leave := by
  obtain ⟨⟨root, inner, seeded⟩, frames, recording, log⟩ := s
  cases inner with
  | nil => exact absurd h (Nat.lt_irrefl 1)
  | cons first more => rfl

theorem popFrame?_eq {s t : State} {frame : Frame} (h : Alike (s.pushFrame frame) t) :
    t.popFrame? = some t.popFrame := by
  unfold popFrame? popFrame
  rw [h.frames_eq]
  rfl

end State

/-! ## The checked walk -/

def checkedSettle (iterate : State → Option (Outcome Descriptor)) :
    Nat → Nat → State → Option (Outcome Nat)
  | 0, rounds, s => some (.ok rounds, s)
  | fuel + 1, rounds, s => do
      match ← iterate s with
      | (.error refusal, after) => some (.error refusal, after)
      | (.ok _, after) =>
          let joined ← s.bindings.join? [s.bindings, after.bindings]
          let next := { after with bindings := joined }
          if joined.agrees s.bindings then some (.ok (rounds + 1), next)
          else checkedSettle iterate fuel (rounds + 1) next

def checkedHoistRounds (round : State → Option (Bool × State)) :
    Nat → Nat → State → Option (Nat × State)
  | 0, rounds, s => some (rounds, s)
  | fuel + 1, rounds, s => do
      match ← round s with
      | (true, after) => checkedHoistRounds round fuel (rounds + 1) after
      | (false, after) => some (rounds + 1, after)

mutual

/-- The walk of an action that checks every scope and frame it leaves and every branch it joins. -/
def Action.checked : Action → State → Option (Outcome Descriptor)
  | .bind first next, s => do
      match ← first.checked s with
      | (.ok d, after) => (next d).checked after
      | (.error refusal, after) => some (.error refusal, after)
  | .scoped body, s => do
      let (result, after) ← body.checked s.enter
      return (result, ← after.leave?)
  | .fork left right merge, s => do
      match ← left.checked s with
      | (.error refusal, after) => some (.error refusal, after)
      | (.ok a, leftAfter) =>
          match ← right.checked { leftAfter with bindings := s.bindings } with
          | (.error refusal, after) => some (.error refusal, after)
          | (.ok b, rightAfter) =>
              let joined ← s.bindings.join? [leftAfter.bindings, rightAfter.bindings]
              some (.ok (merge a b), { rightAfter with bindings := joined })
  | .choose arms hasDefault, s => do
      match ← arms.checked [] s with
      | (.error refusal, after) => some (.error refusal, after)
      | (.ok exits, after) =>
          let all := if hasDefault then exits else exits ++ [after.bindings]
          let joined ← after.bindings.join? all
          some (.ok .unknown, { after with bindings := joined })
  | .loop names iteration, s => do
      let quiet := { s with recording := false }.pushFrame {}
      match ← checkedSettle iteration.checked (settleLimit s.bindings names) 0 quiet with
      | (.error refusal, after) =>
          let left ← after.popFrame?
          some (.error refusal, { left with recording := s.recording })
      | (.ok rounds, after) =>
          let left ← after.popFrame?
          let entry := { left with recording := s.recording }.note (.settled rounds)
          match ← iteration.checked entry with
          | (.error refusal, after) => some (.error refusal, after)
          | (.ok _, after) =>
              let joined ← entry.bindings.join? [entry.bindings, after.bindings]
              some (.ok .unknown, { after with bindings := joined })
  | .hoist declarations, s =>
      if declarations.count = 0 then some (.ok .unknown, s)
      else do
        let (rounds, after) ← checkedHoistRounds declarations.checked (declarations.count + 1) 0
          { s with recording := false }
        some (.ok .unknown,
          { after with recording := s.recording }.note (.hoisted rounds declarations.count))
  | .function span isAsync body, s => do
      let (result, after) ← body.checked (s.pushFrame {})
      let left ← after.popFrame?
      match result with
      | .error refusal => some (.error refusal, left)
      | .ok value =>
          some (.ok (functionDescriptor isAsync after.frame value),
            if !isAsync && after.frame.suspends then left.record (.promoted span) else left)
  | .parameters body, s => do
      let (result, after) ← body.checked (s.pushFrame { isParameters := true })
      return (result, ← after.popFrame?)
  -- The rest neither leaves anything nor joins anything.
  | action, s => some (action.run s)

def Arms.checked : Arms → List Bindings → State → Option (Outcome (List Bindings))
  | .done, exits, s => some (.ok exits, s)
  | .arm test body rest, exits, s => do
      match ← test.checked s with
      | (.error refusal, after) => some (.error refusal, after)
      | (.ok _, entry) =>
          match ← body.checked entry with
          | (.error refusal, after) => some (.error refusal, after)
          | (.ok _, after) =>
              rest.checked (exits ++ [after.bindings]) { after with bindings := entry.bindings }

def Declarations.checked : Declarations → State → Option (Bool × State)
  | .done, s => some (false, s)
  | .declaration name walk rest, s => do
      match ← walk.checked s with
      | (.error _, after) => rest.checked { after with bindings := s.bindings }
      | (.ok d, after) =>
          let changed := !s.bindings.isBound name || s.bindings.lookup name ≠ d
          let (others, last) ← rest.checked { after with bindings := s.bindings.add name d }
          some (changed || others, last)

end

/-! ## No check fails -/

open State

theorem checkedSettle_eq {iterate : State → Option (Outcome Descriptor)}
    {plain : State → Outcome Descriptor} (h : ∀ s, iterate s = some (plain s))
    (hdepth : ∀ s, (plain s).2.bindings.depth = s.bindings.depth) (fuel rounds : Nat) (s : State) :
    checkedSettle iterate fuel rounds s = some (settle plain fuel rounds s) := by
  induction fuel generalizing rounds s with
  | zero => rfl
  | succ fuel ih =>
      have hafter := hdepth s
      rw [checkedSettle, settle, h s]
      generalize plain s = outcome at hafter ⊢
      rcases outcome with ⟨refusal | d, after⟩
      · rfl
      · change Option.bind (s.bindings.join? [s.bindings, after.bindings]) _ = _
        rw [Bindings.join?_pair rfl hafter]
        simp only [Option.bind_some]
        split
        · rfl
        · exact ih _ _

theorem checkedHoistRounds_eq {round : State → Option (Bool × State)} {plain : State → Bool × State}
    (h : ∀ s, round s = some (plain s)) (fuel rounds : Nat) (s : State) :
    checkedHoistRounds round fuel rounds s = some (hoistRounds plain fuel rounds s) := by
  induction fuel generalizing rounds s with
  | zero => rfl
  | succ fuel ih =>
      rw [checkedHoistRounds, hoistRounds, h s]
      rcases plain s with ⟨_ | _, after⟩
      · rfl
      · exact ih _ _

mutual

theorem checked_run (action : Action) (s : State) : action.checked s = some (action.run s) := by
  match action with
  | .give d | .look name | .declare name d | .assign name d | .record kind span d
  | .suspend span inner | .awaiting | .returning d | .returned | .refuse shape span => rfl
  | .bind first next =>
      rw [Action.checked, Action.run, checked_run first s]
      rcases first.run s with ⟨refusal | d, after⟩
      · rfl
      · exact checked_run (next d) after
  | .scoped body =>
      have hdepth := depth_run body s.enter
      rw [Action.checked, Action.run, checked_run body s.enter]
      generalize body.run s.enter = outcome at hdepth ⊢
      obtain ⟨result, after⟩ := outcome
      have hinner : 1 < after.bindings.depth := by
        have hpos := Bindings.depth_pos s.bindings
        have hpush : after.bindings.depth = s.bindings.depth + 1 :=
          hdepth.trans (Bindings.depth_push s.bindings)
        omega
      change Option.bind after.leave? _ = _
      rw [leave?_eq hinner]
      rfl
  | .fork left right merge =>
      have hleft := depth_run left s
      rw [Action.checked, Action.run, checked_run left s]
      generalize left.run s = outcome at hleft ⊢
      rcases outcome with ⟨refusal | a, leftAfter⟩
      · rfl
      · have hright := depth_run right { leftAfter with bindings := s.bindings }
        change Option.bind (right.checked { leftAfter with bindings := s.bindings }) _ = _
        rw [checked_run right]
        simp only [Option.bind_some]
        generalize right.run { leftAfter with bindings := s.bindings } = outcome at hright ⊢
        rcases outcome with ⟨refusal | b, rightAfter⟩
        · rfl
        · change Option.bind (s.bindings.join? _) _ = _
          rw [Bindings.join?_pair hleft hright]
          rfl
  | .choose arms hasDefault =>
      obtain ⟨hafter, hexits⟩ := preserved_runArms arms [] (k := 0)
        (.inl (Bindings.depth_pos s.bindings))
      rw [Action.checked, Action.run, checked_runArms arms [] s]
      generalize arms.run [] s = outcome at hafter hexits ⊢
      rcases outcome with ⟨refusal | exits, after⟩
      · rfl
      · have hexit : ∀ branch ∈ exits, branch.depth = after.bindings.depth := by
          intro branch hbranch
          have hpreserved := (hexits exits rfl branch hbranch).resolve_left List.not_mem_nil
          exact hpreserved.depth.trans hafter.depth.symm
        have hall : ∀ branch ∈ if hasDefault then exits else exits ++ [after.bindings],
            branch.depth = after.bindings.depth := by
          intro branch hbranch
          split at hbranch
          · exact hexit branch hbranch
          · rcases List.mem_append.mp hbranch with hbranch | hlast
            · exact hexit branch hbranch
            · rw [List.mem_singleton.mp hlast]
        change Option.bind (after.bindings.join? _) _ = _
        rw [Bindings.join?_eq hall]
        rfl
  | .loop names iteration =>
      have halike := alike_settle (alike_run iteration) (settleLimit s.bindings names) 0
        ({ s with recording := false }.pushFrame {})
      rw [Action.checked, Action.run, checkedSettle_eq (checked_run iteration) (depth_run iteration)]
      generalize settle iteration.run (settleLimit s.bindings names) 0
        ({ s with recording := false }.pushFrame {}) = outcome at halike ⊢
      rcases outcome with ⟨refusal | rounds, after⟩
      · change Option.bind after.popFrame? _ = _
        rw [popFrame?_eq halike]
        rfl
      · change Option.bind after.popFrame? _ = _
        rw [popFrame?_eq halike]
        have hlast := depth_run iteration
          (State.note { after.popFrame with recording := s.recording } (.settled rounds))
        change Option.bind (iteration.checked
          (State.note { after.popFrame with recording := s.recording } (.settled rounds))) _ = _
        rw [checked_run iteration]
        simp only [Option.bind_some]
        generalize iteration.run
          (State.note { after.popFrame with recording := s.recording } (.settled rounds)) = outcome
          at hlast ⊢
        rcases outcome with ⟨refusal | d, last⟩
        · rfl
        · change Option.bind (Bindings.join? _ _) _ = _
          rw [Bindings.join?_pair rfl hlast]
          rfl
  | .hoist declarations =>
      rw [Action.checked, Action.run]
      split
      · rfl
      · rw [checkedHoistRounds_eq (checked_round declarations)]
        rfl
  | .function span isAsync body =>
      have halike := alike_run body (s.pushFrame {})
      rw [Action.checked, Action.run, checked_run body (s.pushFrame {})]
      generalize body.run (s.pushFrame {}) = outcome at halike ⊢
      obtain ⟨result, after⟩ := outcome
      change Option.bind after.popFrame? _ = _
      rw [popFrame?_eq halike]
      cases result <;> rfl
  | .parameters body =>
      have halike := alike_run body (s.pushFrame { isParameters := true })
      rw [Action.checked, Action.run, checked_run body (s.pushFrame { isParameters := true })]
      generalize body.run (s.pushFrame { isParameters := true }) = outcome at halike ⊢
      obtain ⟨result, after⟩ := outcome
      change Option.bind after.popFrame? _ = _
      rw [popFrame?_eq halike]
      rfl

theorem checked_runArms (arms : Arms) (exits : List Bindings) (s : State) :
    arms.checked exits s = some (arms.run exits s) := by
  match arms with
  | .done => rfl
  | .arm test body rest =>
      rw [Arms.checked, Arms.run, checked_run test s]
      rcases test.run s with ⟨refusal | d, entry⟩
      · rfl
      · change Option.bind (body.checked entry) _ = _
        rw [checked_run body entry]
        simp only [Option.bind_some]
        rcases body.run entry with ⟨refusal | d, after⟩
        · rfl
        · exact checked_runArms rest _ _

theorem checked_round (declarations : Declarations) (s : State) :
    declarations.checked s = some (declarations.round s) := by
  match declarations with
  | .done => rfl
  | .declaration name walk rest =>
      rw [Declarations.checked, Declarations.round, checked_run walk s]
      rcases walk.run s with ⟨refusal | d, after⟩
      · exact checked_round rest _
      · change Option.bind (rest.checked { after with bindings := s.bindings.add name d }) _ = _
        rw [checked_round rest]
        rfl

end

/-! ## Balance -/

/-- The two states have as many scopes and as many frames, and both record or neither does. -/
structure Balanced (s t : State) : Prop where
  scopes : t.bindings.depth = s.bindings.depth
  frames : t.frames.length = s.frames.length
  recording : t.recording = s.recording

theorem balanced_run (action : Action) (s : State) : Balanced s (action.run s).2 where
  scopes := depth_run action s
  frames := (alike_run action s).depth
  recording := (alike_run action s).recording

theorem balanced_runArms (arms : Arms) (exits : List Bindings) (s : State) :
    Balanced s (arms.run exits s).2 where
  scopes := (preserved_runArms arms exits (k := 0) (.inl (Bindings.depth_pos s.bindings))).1.depth
  frames := (alike_runArms arms exits s).depth
  recording := (alike_runArms arms exits s).recording

theorem balanced_round (declarations : Declarations) (s : State) :
    Balanced s (declarations.round s).2 where
  scopes := (preserved_round declarations (Bindings.depth_pos s.bindings)).depth
  frames := (alike_round declarations s).depth
  recording := (alike_round declarations s).recording

theorem depth_findings (c : Catalogue) (parsed : Parsed) :
    (analyse c parsed).1.toOption.all (fun findings => findings.bindings.depth = 1) = true := by
  unfold analyse
  cases parsed.fault with
  | some fault => rfl
  | none =>
      have hdepth := depth_run (Action.ofScript c (Script.ofTree parsed.tree))
        { bindings := Bindings.ofCatalogue c }
      simp only
      generalize Action.run _ _ = outcome at hdepth ⊢
      rcases outcome with ⟨refusal | d, s⟩
      · rfl
      · exact decide_eq_true hdepth

/-- Every walk, of an action, of the arms of a choice or of a round of hoisting, leaves as many scopes
and frames as there were and records as before, whether it fails or not. On its way it never leaves
the root, never lacks a frame to drop, and joins only branches as deep as their entry: the checked
walk does the same. So the analysis of a script ends at the root, with no frame open. -/
theorem walks_balanced :
    (∀ (action : Action) (s : State),
      Balanced s (action.run s).2 ∧ action.checked s = some (action.run s)) ∧
    (∀ (arms : Arms) (exits : List Bindings) (s : State),
      Balanced s (arms.run exits s).2 ∧ arms.checked exits s = some (arms.run exits s)) ∧
    (∀ (declarations : Declarations) (s : State),
      Balanced s (declarations.round s).2 ∧
        declarations.checked s = some (declarations.round s)) ∧
    ∀ (c : Catalogue) (parsed : Parsed),
      (((Action.ofScript c (Script.ofTree parsed.tree)).run
        { bindings := Bindings.ofCatalogue c }).2.frames = []) ∧
      (analyse c parsed).1.toOption.all (fun findings => findings.bindings.depth = 1) = true := by
  refine ⟨fun action s => ?_, fun arms exits s => ?_, fun declarations s => ?_, fun c parsed => ?_⟩
  · exact ⟨balanced_run action s, checked_run action s⟩
  · exact ⟨balanced_runArms arms exits s, checked_runArms arms exits s⟩
  · exact ⟨balanced_round declarations s, checked_round declarations s⟩
  · have hframes := (balanced_run (Action.ofScript c (Script.ofTree parsed.tree))
      { bindings := Bindings.ofCatalogue c }).frames
    exact ⟨List.length_eq_zero_iff.mp hframes, depth_findings c parsed⟩

end Analysis

end ShellAwait
