import ShellAwait.Token.Basic

/-! # What the grammar sees of a stream

Trivia is left out. Of it remains only whether the line ends before a token.
-/

namespace ShellAwait

/-- A token that is not trivia, with whether a line ends between it and the token before it. -/
structure Lookahead where
  kind : TokenKind
  text : List Char
  breakBefore : Bool
deriving DecidableEq, Repr, Inhabited

namespace Lookahead

def token (ahead : Lookahead) : Token := ⟨ahead.kind, ahead.text⟩

def pastEnd : Lookahead := ⟨.eof, [], false⟩

end Lookahead

namespace Token

/-- The significant tokens of a stream, where `broken` tells whether its line has ended already. -/
def significantFrom (broken : Bool) : List Token → List Lookahead
  | [] => []
  | t :: rest =>
      if t.kind.isTrivia then significantFrom (broken || t.endsLine) rest
      else ⟨t.kind, t.text, broken⟩ :: significantFrom false rest

def significant (tokens : List Token) : List Lookahead := significantFrom false tokens

def significantSpans (tokens : List Token) : List Text.Span :=
  ((placed 0 tokens).filter fun entry => !entry.2.kind.isTrivia).map Prod.fst

end Token

end ShellAwait
