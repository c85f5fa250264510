import ShellAwait.Analysis.State

/-! # Actions

What walking a piece of a script does, as a tree of instructions. Every action yields a descriptor. Branches
are walked from the same bindings and joined where they meet; loops are walked until the bindings at their
entry have settled, and then once more to record.
-/

namespace ShellAwait.Analysis

open Text

mutual

inductive Action where
  | give (d : Descriptor)
  | bind (first : Action) (next : Descriptor → Action)
  | look (name : String)
  | declare (name : String) (d : Descriptor)
  | assign (name : String) (d : Descriptor)
  | record (kind : NodeKind) (span : Span) (d : Descriptor)
  | suspend (span : Span) (inner : Descriptor)
  | awaiting
  | returning (d : Descriptor)
  | returned
  /-- Give up: a pattern takes a shape apart. -/
  | refuse (shape : String) (span : Span)
  | scoped (body : Action)
  | fork (left right : Action) (merge : Descriptor → Descriptor → Descriptor)
  /-- The tests run in order, and one of the arms or, without a default, none. -/
  | choose (arms : Arms) (hasDefault : Bool)
  /-- The iteration runs any number of times. It binds no other names than the given ones. -/
  | loop (names : List String) (iteration : Action)
  | hoist (declarations : Declarations)
  | function (span : Span) (isAsync : Bool) (body : Action)
  | parameters (body : Action)

inductive Arms where
  | done
  | arm (test body : Action) (rest : Arms)

inductive Declarations where
  | done
  | declaration (name : String) (walk : Action) (rest : Declarations)

end

namespace Action

def nothing : Action := .give .unknown

def andThen (a b : Action) : Action := a.bind fun _ => b

def map (f : Descriptor → Descriptor) (a : Action) : Action := a.bind fun d => .give (f d)

def recorded (a : Action) (kind : NodeKind) (span : Span) : Action := a.bind (.record kind span)

/-- Use a value: one that is deferred is awaited. -/
def used (a : Action) (span : Span) : Action :=
  a.bind fun
    | .deferred inner => .suspend span inner
    | other => .give other

end Action

def Declarations.count : Declarations → Nat
  | .done => 0
  | .declaration _ _ rest => rest.count + 1

/-! ## Running -/

/-- Walk an iteration until the bindings at its entry no longer change, for at most `fuel` rounds. Yields
the number of rounds. -/
def settle (iterate : State → Outcome Descriptor) : Nat → Nat → State → Outcome Nat
  | 0, rounds, s => (.ok rounds, s)
  | fuel + 1, rounds, s =>
      match iterate s with
      | (.error refusal, after) => (.error refusal, after)
      | (.ok _, after) =>
          let joined := s.bindings.join [s.bindings, after.bindings]
          let next := { after with bindings := joined }
          if joined.agrees s.bindings then (.ok (rounds + 1), next)
          else settle iterate fuel (rounds + 1) next

/-- Enough rounds for every known binding to be lost and every name to be added at every level. -/
def settleLimit (b : Bindings) (names : List String) : Nat :=
  1 + Bindings.knownIn b.levels + b.depth * names.length

/-- Rounds over declarations until no descriptor changes, at most `fuel` of them. -/
def hoistRounds (round : State → Bool × State) : Nat → Nat → State → Nat × State
  | 0, rounds, s => (rounds, s)
  | fuel + 1, rounds, s =>
      match round s with
      | (true, after) => hoistRounds round fuel (rounds + 1) after
      | (false, after) => (rounds + 1, after)

def functionDescriptor (isAsync : Bool) (frame : Frame) (value : Descriptor) : Descriptor :=
  if isAsync then .callable .unknown
  else if frame.suspends then .callable (.deferred value)
  else .callable value

mutual

def Action.run : Action → State → Outcome Descriptor
  | .give d, s => (.ok d, s)
  | .bind first next, s =>
      match first.run s with
      | (.ok d, after) => (next d).run after
      | (.error refusal, after) => (.error refusal, after)
  | .look name, s => (.ok (s.bindings.lookup name), s)
  | .declare name d, s => (.ok .unknown, { s with bindings := s.bindings.add name d })
  | .assign name d, s => (.ok .unknown, { s with bindings := s.bindings.assign name d })
  | .record kind span d, s => (.ok d, s.record (.descriptor kind span d))
  | .suspend span inner, s =>
      let (d, after) := s.suspend span inner
      (.ok d, after)
  | .awaiting, s => (.ok .unknown, s.onFrame fun frame => { frame with suspends := true })
  | .returning d, s =>
      (.ok .unknown, s.onFrame fun frame => { frame with returns := d :: frame.returns })
  | .returned, s => (.ok (Descriptor.commonAll s.frame.returns), s)
  | .refuse shape span, s => (.error ⟨shape, span⟩, s)
  | .scoped body, s =>
      let (result, after) := body.run s.enter
      (result, after.leave)
  | .fork left right merge, s =>
      match left.run s with
      | (.error refusal, after) => (.error refusal, after)
      | (.ok a, leftAfter) =>
          match right.run { leftAfter with bindings := s.bindings } with
          | (.error refusal, after) => (.error refusal, after)
          | (.ok b, rightAfter) =>
              (.ok (merge a b), { rightAfter with
                bindings := s.bindings.join [leftAfter.bindings, rightAfter.bindings] })
  | .choose arms hasDefault, s =>
      match arms.run [] s with
      | (.error refusal, after) => (.error refusal, after)
      | (.ok exits, after) =>
          let all := if hasDefault then exits else exits ++ [after.bindings]
          (.ok .unknown, { after with bindings := after.bindings.join all })
  | .loop names iteration, s =>
      let quiet := { s with recording := false }.pushFrame {}
      match settle iteration.run (settleLimit s.bindings names) 0 quiet with
      | (.error refusal, after) => (.error refusal, { after.popFrame with recording := s.recording })
      | (.ok rounds, after) =>
          let entry := { after.popFrame with recording := s.recording }.note (.settled rounds)
          match iteration.run entry with
          | (.error refusal, after) => (.error refusal, after)
          | (.ok _, after) =>
              (.ok .unknown, { after with
                bindings := entry.bindings.join [entry.bindings, after.bindings] })
  | .hoist declarations, s =>
      if declarations.count = 0 then (.ok .unknown, s)
      else
        let (rounds, after) :=
          hoistRounds declarations.round (declarations.count + 1) 0 { s with recording := false }
        (.ok .unknown,
          { after with recording := s.recording }.note (.hoisted rounds declarations.count))
  | .function span isAsync body, s =>
      let (result, after) := body.run (s.pushFrame {})
      match result with
      | .error refusal => (.error refusal, after.popFrame)
      | .ok value =>
          let left := after.popFrame
          (.ok (functionDescriptor isAsync after.frame value),
            if !isAsync && after.frame.suspends then left.record (.promoted span) else left)
  | .parameters body, s =>
      let (result, after) := body.run (s.pushFrame { isParameters := true })
      (result, after.popFrame)

/-- The bindings that the arms leave, after the given ones. -/
def Arms.run : Arms → List Bindings → State → Outcome (List Bindings)
  | .done, exits, s => (.ok exits, s)
  | .arm test body rest, exits, s =>
      match test.run s with
      | (.error refusal, after) => (.error refusal, after)
      | (.ok _, entry) =>
          match body.run entry with
          | (.error refusal, after) => (.error refusal, after)
          | (.ok _, after) =>
              rest.run (exits ++ [after.bindings]) { after with bindings := entry.bindings }

/-- One round of binding functions; says whether a descriptor has changed. A function that cannot be
walked stays unbound. -/
def Declarations.round : Declarations → State → Bool × State
  | .done, s => (false, s)
  | .declaration name walk rest, s =>
      match walk.run s with
      | (.error _, after) => rest.round { after with bindings := s.bindings }
      | (.ok d, after) =>
          let changed := !s.bindings.isBound name || s.bindings.lookup name ≠ d
          let (others, last) := rest.round { after with bindings := s.bindings.add name d }
          (changed || others, last)

end

end ShellAwait.Analysis
