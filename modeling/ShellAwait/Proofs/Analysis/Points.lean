import ShellAwait.Proofs.Analysis.Discipline

/-! # The points of a walk

A walk passes a point whenever it begins or ends a part: what is to be done there, and the state.
The rounds before a loop and those that bind functions ahead are parts like any other. What holds at
every point up to the first that does some harm is put together in the order of the points.
-/

namespace ShellAwait.Analysis

/-- What a walk is about to do, and the state it is in. -/
structure Point where
  action : Action
  state : State

/-- The end of a part: there is only its result left to be given, or its refusal. -/
def Point.ofOutcome : Outcome Descriptor → Point
  | (.ok d, s) => ⟨.give d, s⟩
  | (.error refusal, s) => ⟨.refuse refusal.shape refusal.span, s⟩

/-- The points of an action that passes the given ones inside. -/
def Action.around (action : Action) (s : State) (inner : List Point) : List Point :=
  ⟨action, s⟩ :: (inner ++ [.ofOutcome (action.run s)])

def settlePoints (iterate : State → Outcome Descriptor) (points : State → List Point) :
    Nat → State → List Point
  | 0, _ => []
  | fuel + 1, s =>
      points s ++ match iterate s with
        | (.error _, _) => []
        | (.ok _, after) =>
            let joined := s.bindings.join [s.bindings, after.bindings]
            if joined.agrees s.bindings then []
            else settlePoints iterate points fuel { after with bindings := joined }

def hoistPoints (round : State → Bool × State) (points : State → List Point) :
    Nat → State → List Point
  | 0, _ => []
  | fuel + 1, s =>
      points s ++ match round s with
        | (true, after) => hoistPoints round points fuel after
        | (false, _) => []

mutual

/-- The points that the walk of an action passes, in order. -/
def Action.points : Action → State → List Point
  | .bind first next, s =>
      (Action.bind first next).around s <| first.points s ++
        match first.run s with
        | (.ok d, after) => (next d).points after
        | (.error _, _) => []
  | .scoped body, s => (Action.scoped body).around s (body.points s.enter)
  | .fork left right merge, s =>
      (Action.fork left right merge).around s <| left.points s ++
        match left.run s with
        | (.ok _, after) => right.points { after with bindings := s.bindings }
        | (.error _, _) => []
  | .choose arms hasDefault, s => (Action.choose arms hasDefault).around s (arms.points s)
  | .loop names iteration, s =>
      let quiet := { s with recording := false }.pushFrame {}
      (Action.loop names iteration).around s <|
        settlePoints iteration.run iteration.points (settleLimit s.bindings names) quiet ++
        match settle iteration.run (settleLimit s.bindings names) 0 quiet with
        | (.error _, _) => []
        | (.ok rounds, after) =>
            iteration.points ({ after.popFrame with recording := s.recording }.note (.settled rounds))
  | .hoist declarations, s =>
      (Action.hoist declarations).around s <|
        if declarations.count = 0 then []
        else
          hoistPoints declarations.round declarations.points (declarations.count + 1)
            { s with recording := false }
  | .function span isAsync body, s =>
      (Action.function span isAsync body).around s (body.points (s.pushFrame {}))
  | .parameters body, s =>
      (Action.parameters body).around s (body.points (s.pushFrame { isParameters := true }))
  | action, s => action.around s []

def Arms.points : Arms → State → List Point
  | .done, _ => []
  | .arm test body rest, s =>
      test.points s ++ match test.run s with
        | (.error _, _) => []
        | (.ok _, entry) =>
            body.points entry ++ match body.run entry with
              | (.error _, _) => []
              | (.ok _, after) => rest.points { after with bindings := entry.bindings }

def Declarations.points : Declarations → State → List Point
  | .done, _ => []
  | .declaration name walk rest, s =>
      walk.points s ++ match walk.run s with
        | (.error _, after) => rest.points { after with bindings := s.bindings }
        | (.ok d, after) => rest.points { after with bindings := s.bindings.add name d }

end

/-! ## Good points -/

/-- The states are good up to the first point that does harm, and at that point too. -/
def Steady (Good : State → Prop) (Harms : Point → Prop) : List Point → Prop
  | [] => True
  | p :: rest => Good p.state ∧ (¬Harms p → Steady Good Harms rest)

/-- The points are steady and lead to something, unless one of them does harm. -/
structure Passes (Good : State → Prop) (Harms : Point → Prop) (points : List Point) (Q : Prop) :
    Prop where
  steady : Steady Good Harms points
  leads : (∀ p ∈ points, ¬Harms p) → Q

variable {Good : State → Prop} {Harms : Point → Prop} {points more before after : List Point}
  {p : Point} {Q Q' : Prop}

theorem Steady.good_of_eq (h : Steady Good Harms points) (hpoints : points = before ++ p :: after)
    (hbefore : ∀ q ∈ before, ¬Harms q) : Good p.state := by
  induction before generalizing points with
  | nil =>
      rw [hpoints] at h
      exact h.1
  | cons first rest ih =>
      obtain ⟨hfirst, hrest⟩ := List.forall_mem_cons.mp hbefore
      rw [hpoints] at h
      exact ih (h.2 hfirst) rfl hrest

theorem Steady.append (h : Steady Good Harms points)
    (hmore : (∀ q ∈ points, ¬Harms q) → Steady Good Harms more) :
    Steady Good Harms (points ++ more) := by
  induction points with
  | nil => exact hmore fun _ hnil => absurd hnil List.not_mem_nil
  | cons first rest ih =>
      refine ⟨h.1, fun hfirst => ih (h.2 hfirst) fun hrest => hmore ?_⟩
      exact List.forall_mem_cons.mpr ⟨hfirst, hrest⟩

namespace Passes

theorem nil (hQ : Q) : Passes Good Harms [] Q := ⟨True.intro, fun _ => hQ⟩

theorem append (h : Passes Good Harms points Q) (hmore : Q → Passes Good Harms more Q') :
    Passes Good Harms (points ++ more) Q' where
  steady := h.steady.append fun hpoints => (hmore (h.leads hpoints)).steady
  leads hall := by
    obtain ⟨hpoints, hothers⟩ := List.forall_mem_append.mp hall
    exact (hmore (h.leads hpoints)).leads hothers

theorem imp (h : Passes Good Harms points Q) (himp : Q → Q') : Passes Good Harms points Q' :=
  ⟨h.steady, fun hall => himp (h.leads hall)⟩

theorem around {action : Action} {s : State} (hgood : Good s)
    (h : ¬Harms ⟨action, s⟩ → Passes Good Harms points (Good (action.run s).2 ∧ Q)) :
    Passes Good Harms (action.around s points) (Good (action.run s).2 ∧ Q) := by
  have hstate : (Point.ofOutcome (action.run s)).state = (action.run s).2 := by
    rcases action.run s with ⟨refusal | d, t⟩ <;> rfl
  constructor
  · refine ⟨hgood, fun hharm => (h hharm).steady.append fun hpoints => ?_⟩
    have hlast := ((h hharm).leads hpoints).1
    rw [← hstate] at hlast
    exact ⟨hlast, fun _ => True.intro⟩
  · intro hall
    obtain ⟨hfirst, hothers⟩ := List.forall_mem_cons.mp hall
    exact (h hfirst).leads (List.forall_mem_append.mp hothers).1

end Passes

end ShellAwait.Analysis
