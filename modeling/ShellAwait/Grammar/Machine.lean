import ShellAwait.Grammar.Rule
import ShellAwait.Tree.Basic

/-! # Reading by rules

The state of a reading holds the tokens ahead, the first problem and the node being built. A rule is run
by recursion on the rule; named parts are given by a table, up to a depth of references.
-/

namespace ShellAwait.Grammar

/-- A problem at the token with this number among the significant ones. -/
structure Report where
  problem : Problem
  token : Nat
  opener : Option Nat
deriving DecidableEq, Repr

structure State where
  ahead : List Lookahead
  taken : Nat
  noIn : Bool
  report : Option Report
  kind : NodeKind
  /-- The finished elements of the node being built, the last one first. -/
  done : List Tree

namespace State

def start (tokens : List Lookahead) : State where
  ahead := tokens
  taken := 0
  noIn := false
  report := none
  kind := .script
  done := []

def view (s : State) : View := ⟨s.ahead, s.noIn, s.report.isSome⟩

/-- Only the first problem is kept. -/
def note (problem : Problem) (opener : Option Nat) (s : State) : State :=
  match s.report with
  | some _ => s
  | none => { s with report := some ⟨problem, s.taken, opener⟩ }

def eat (kind : TokenKind) (s : State) : Bool × State :=
  match s.ahead with
  | [] => (false, s)
  | t :: rest =>
      if t.kind == kind then
        (true, { s with ahead := rest, taken := s.taken + 1, done := .leaf t.token :: s.done })
      else (false, s)

def enter (kind : NodeKind) (elements : List Tree) (s : State) : State :=
  { s with kind := kind, done := elements }

def leave (outerKind : NodeKind) (outerDone : List Tree) (s : State) : State :=
  { s with kind := outerKind, done := .node s.kind s.done.reverse :: outerDone }

def close (what : Enclosure) (opener : Nat) (s : State) : Bool × State :=
  match s.eat what.closer with
  | (true, t) => (true, t)
  | (false, t) => (false, t.note (.unclosed what) (if what.pointsBack then some opener else none))

end State

abbrev Step := State → Bool × State

def rounds (goOn : View → Bool) (round : Step) : Nat → State → State
  | 0, s => s
  | limit + 1, s =>
      if goOn s.view then
        match round s with
        | (true, t) => rounds goOn round limit t
        | (false, t) => t
      else s

namespace Rule

/-- Run a rule. A repetition has at most `limit` rounds, and `refer` runs the named parts. -/
def exec (limit : Nat) (refer : Category → Step) : Rule → Step
  | .skip, s => (true, s)
  | .fail, s => (false, s)
  | .eat kind, s => s.eat kind
  | .report problem, s => (false, s.note problem none)
  | .look choose, s => (choose s.view).exec limit refer s
  | .seq first second, s => second.exec limit refer (first.exec limit refer s).2
  | .andThen first second, s =>
      match first.exec limit refer s with
      | (true, t) => second.exec limit refer t
      | (false, t) => (false, t)
  | .many goOn round, s => (true, rounds goOn (round.exec limit refer) limit s)
  | .node kind body, s =>
      (true, (body.exec limit refer (s.enter kind [])).2.leave s.kind s.done)
  | .wrap kind body, s =>
      (true, (body.exec limit refer (s.enter kind (s.done.take 1))).2.leave s.kind (s.done.drop 1))
  | .become kind, s => (true, { s with kind := kind })
  | .bracket what body, s =>
      match s.eat what.opener with
      | (false, t) => (false, t.note (.expected what.opener) none)
      | (true, t) =>
          match body.exec limit refer t with
          | (true, u) => u.close what s.taken
          | (false, u) => (false, u)
  | .withNoIn noIn body, s =>
      let ran := body.exec limit refer { s with noIn := noIn }
      (ran.1, { ran.2 with noIn := s.noIn })
  | .call category, s => refer category s

end Rule

/-- Named parts by a table of rules, with references at most `depth` deep. -/
def refer (table : Category → Rule) (limit : Nat) : Nat → Category → Step
  | 0, _, s => (false, s)
  | depth + 1, category, s => (table category).exec limit (refer table limit depth) s

end ShellAwait.Grammar
