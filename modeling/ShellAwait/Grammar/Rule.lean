import ShellAwait.Grammar.Problem
import ShellAwait.Grammar.View
import ShellAwait.Tree.Kind

/-! # Rules of a grammar

A rule describes how to read a part of a script: which tokens to take, which nodes to build and which
problem to report. It decides by looking ahead, refers to other parts by name, and succeeds or fails.
-/

namespace ShellAwait.Grammar

inductive Category where
  | statement | expression | assignment | unary | primary | newExpression | pattern
  /-- Operands joined by operators that bind at least this tightly. -/
  | binary (floor : Nat)
deriving DecidableEq, Repr

inductive Rule where
  | skip
  | fail
  /-- Take the next token if it is of this kind, and fail otherwise. -/
  | eat (kind : TokenKind)
  /-- Report a problem at the next token, unless there is one already, and fail. -/
  | report (problem : Problem)
  | look (choose : View → Rule)
  /-- One rule after the other, whether or not the first succeeds. -/
  | seq (first second : Rule)
  /-- The second rule only if the first succeeds. -/
  | andThen (first second : Rule)
  /-- Rounds of a rule for as long as a view allows and the rounds succeed. -/
  | many (goOn : View → Bool) (round : Rule)
  /-- A node around all that a rule takes. -/
  | node (kind : NodeKind) (body : Rule)
  /-- A node around the last finished element and all that a rule takes. -/
  | wrap (kind : NodeKind) (body : Rule)
  | become (kind : NodeKind)
  /-- An opening token, a rule, and, if the rule succeeds, the closing token. -/
  | bracket (what : Enclosure) (body : Rule)
  | withNoIn (noIn : Bool) (body : Rule)
  | call (category : Category)

namespace Rule

instance : Append Rule := ⟨seq⟩

def expect (kind : TokenKind) : Rule :=
  look fun v => if v.next kind then eat kind else report (.expected kind)

def takeAny : Rule := look fun v => eat v.kind

def whenNext (kind : TokenKind) (rule : Rule) : Rule :=
  look fun v => if v.next kind then rule else skip

/-- A rule for as long as no problem was reported. -/
def unlessFailed (rule : Rule) : Rule := look fun v => if v.failed then skip else rule

def succeed (rule : Rule) : Rule := rule ++ skip

/-- After an element: the end of the enclosure or a comma. -/
def separator (closer : TokenKind) : Rule :=
  look fun v => if v.next closer then skip else expect .comma

def separated (closer : TokenKind) (element : Rule) : Rule :=
  many (·.within closer) (element ++ separator closer)

/-- Like `separated`, where elements may be missing between commas. -/
def separatedWithHoles (closer : TokenKind) (element : Rule) : Rule :=
  many (·.within closer)
    (look fun v => if v.next .comma then eat .comma else element ++ separator closer)

end Rule

end ShellAwait.Grammar
