import ShellAwait.Grammar.Expressions
import ShellAwait.Grammar.Machine
import ShellAwait.Grammar.Statements
import ShellAwait.Token.Stream
import ShellAwait.Tree.Layout

/-! # Reading a script

A script is read from its significant tokens; the tree then takes the trivia back in. Every token is in
the tree, also after a problem, where the rest of the tokens stands flat under the root.
-/

namespace ShellAwait.Grammar

open Rule Text

def table : Category → Rule
  | .statement => statement
  | .expression => expression
  | .assignment => assignment
  | .unary => unary
  | .primary => primary
  | .newExpression => newExpression
  | .pattern => pattern
  | .binary floor => binary floor

/-- The elements of a script: statements, and after a problem the tokens that are left. -/
def script : Rule :=
  many (fun v => !v.next .eof && !v.failed) (call .statement) ++
    many (fun v => !v.next .eof) takeAny ++ takeAny

/-- References go at most this deep: between two tokens no named part refers to itself. -/
def depthFor (tokens : List Lookahead) : Nat := 8 * (tokens.length + 1)

def read (tokens : List Lookahead) : State :=
  let limit := tokens.length + 1
  (script.exec limit (refer table limit (depthFor tokens)) (State.start tokens)).2

end Grammar

open Text Grammar

structure Fault where
  problem : Problem
  span : Span
  opener : Option Span
deriving DecidableEq, Repr

structure Parsed where
  tokens : List Token
  tree : Tree
  fault : Option Fault

def Grammar.Report.locate (report : Report) (tokens : List Token) : Fault :=
  let spans := Token.significantSpans tokens
  let spanOf (n : Nat) : Span := spans.getD n default
  ⟨report.problem, spanOf report.token, report.opener.map spanOf⟩

def parseTokens (tokens : List Token) : Parsed :=
  let final := Grammar.read (Token.significant tokens)
  { tokens := tokens
    tree := Tree.ofElements final.done.reverse tokens
    fault := final.report.map (·.locate tokens) }

def parse (source : List Char) : Parsed := parseTokens (Token.tokenize source)

end ShellAwait
