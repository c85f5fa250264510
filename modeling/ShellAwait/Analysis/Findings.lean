import ShellAwait.Grammar.Parse
import ShellAwait.Script.OfTree
import ShellAwait.Analysis.OfScript

/-! # Findings

What the analysis of a script yields: the descriptors of its expressions, the sites where something has to
be awaited, the functions that await because of it, and the bindings at the end.
-/

namespace ShellAwait

open Text Analysis

inductive Failure where
  | broken (fault : Fault)
  | refused (refusal : Refusal)
deriving Repr

/-- Where a script has to be changed, in source order. -/
structure Marks where
  suspensions : List Span
  promoted : List Span
deriving DecidableEq, Repr

structure Findings extends Marks where
  /-- The descriptors of expressions in source order, one for a span. -/
  types : List (Span × Descriptor)
  bindings : Bindings
deriving DecidableEq, Repr

namespace Analysis

def insertSpan (span : Span) : List Span → List Span
  | [] => [span]
  | first :: rest =>
      if span = first then first :: rest
      else if span.before first then span :: first :: rest
      else first :: insertSpan span rest

/-- Put a descriptor in the place of its span, or for the one that is there. -/
def insertTyped (span : Span) (d : Descriptor) : List (Span × Descriptor) → List (Span × Descriptor)
  | [] => [(span, d)]
  | first :: rest =>
      if span = first.1 then (span, d) :: rest
      else if span.before first.1 then (span, d) :: first :: rest
      else first :: insertTyped span d rest

def loggedSites (log : List Event) : List Span :=
  log.filterMap fun | .site span => some span | _ => none

def loggedPromotions (log : List Event) : List Span :=
  log.filterMap fun | .promoted span => some span | _ => none

def loggedTypes (log : List Event) : List (Span × Descriptor) :=
  log.filterMap fun | .descriptor _ span d => some (span, d) | _ => none

end Analysis

namespace Findings

/-- The findings of a walk. Of two descriptors with one span the later counts. -/
def ofState (s : State) : Findings where
  suspensions := (loggedSites s.log).foldr insertSpan []
  promoted := (loggedPromotions s.log).foldr insertSpan []
  types := (loggedTypes s.log).foldr (fun entry => insertTyped entry.1 entry.2) []
  bindings := s.bindings

def typeOf? (f : Findings) (span : Span) : Option Descriptor :=
  (f.types.find? (·.1 = span)).map Prod.snd

end Findings

namespace Marks

def isSuspended (m : Marks) (span : Span) : Bool := span.foundIn m.suspensions

def isPromoted (m : Marks) (span : Span) : Bool := span.foundIn m.promoted

end Marks

def analyse (catalogue : Catalogue) (parsed : Parsed) : Except Failure Findings × List Event :=
  match parsed.fault with
  | some fault => (.error (.broken fault), [])
  | none =>
      let start : State := { bindings := Bindings.ofCatalogue catalogue }
      match (Action.ofScript catalogue (Script.ofTree parsed.tree)).run start with
      | (.error refusal, s) => (.error (.refused refusal), s.log.reverse)
      | (.ok _, s) => (.ok (Findings.ofState s), s.log.reverse)

end ShellAwait
