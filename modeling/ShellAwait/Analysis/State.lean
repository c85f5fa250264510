import ShellAwait.Text.Span
import ShellAwait.Tree.Kind
import ShellAwait.Bindings.Join

/-! # The state of the analysis

What is known at a point of the walk through a script: the bindings, one frame for every function that the
point lies in, and a log of what has been found. Parts of a script are walked more than once before their
state has settled; findings are noted only while the walk is recording.
-/

namespace ShellAwait.Analysis

open Text

inductive Event where
  /-- The descriptor of an expression, before anything is awaited. -/
  | descriptor (kind : NodeKind) (span : Span) (d : Descriptor)
  | site (span : Span)
  /-- A deferred value in a parameter list, where nothing can be awaited. -/
  | leftDeferred (span : Span)
  | promoted (span : Span)
  | settled (rounds : Nat)
  | hoisted (rounds declarations : Nat)
deriving DecidableEq, Repr

structure Frame where
  returns : List Descriptor := []
  suspends : Bool := false
  isParameters : Bool := false
deriving DecidableEq, Repr

structure State where
  bindings : Bindings
  /-- The frames, the innermost first. -/
  frames : List Frame := []
  recording : Bool := true
  /-- The log, the latest event first. -/
  log : List Event := []
deriving DecidableEq, Repr

structure Refusal where
  shape : String
  span : Span
deriving DecidableEq, Repr

/-- How a walk ends, and the state it leaves in either case. -/
abbrev Outcome (α : Type) := Except Refusal α × State

namespace State

def note (s : State) (event : Event) : State := { s with log := event :: s.log }

def record (s : State) (event : Event) : State := if s.recording then s.note event else s

def onFrame (s : State) (f : Frame → Frame) : State :=
  match s.frames with
  | [] => s
  | frame :: outer => { s with frames := f frame :: outer }

def enter (s : State) : State := { s with bindings := s.bindings.push }

def leave (s : State) : State := { s with bindings := s.bindings.pop?.getD s.bindings }

def pushFrame (s : State) (frame : Frame) : State := { s with frames := frame :: s.frames }

def popFrame (s : State) : State := { s with frames := s.frames.tail }

def frame (s : State) : Frame := s.frames.headD {}

/-- A deferred value is used. Where it can be awaited its inner value is what the use sees. -/
def suspend (s : State) (span : Span) (inner : Descriptor) : Descriptor × State :=
  if s.frame.isParameters then (.deferred inner, s.note (.leftDeferred span))
  else (inner, (s.onFrame fun frame => { frame with suspends := true }).record (.site span))

end State

end ShellAwait.Analysis
