import ShellAwait.Token.Basic

/-! # Pieces of the output

The output of a script is its own tokens with fragments between them.
-/

namespace ShellAwait.Output

inductive Fragment where
  | await
  /-- Begins an awaited value in parentheses. -/
  | openAwait
  | close
  | async
  | semicolon
  /-- Makes the call or the access that follows optional. -/
  | link
  | question
deriving DecidableEq, Repr

def Fragment.text : Fragment → List Char
  | .await => "await ".toList
  | .openAwait => "(await ".toList
  | .close => [')']
  | .async => "async ".toList
  | .semicolon => [';']
  | .link => "?.".toList
  | .question => ['?']

inductive Piece where
  | source (token : Token)
  | inserted (fragment : Fragment)
deriving DecidableEq, Repr

namespace Piece

def text : Piece → List Char
  | .source token => token.text
  | .inserted fragment => fragment.text

def token? : Piece → Option Token
  | .source token => some token
  | .inserted _ => none

end Piece

def render (pieces : List Piece) : List Char := pieces.flatMap Piece.text

def sourceTokens (pieces : List Piece) : List Token := pieces.filterMap Piece.token?

@[simp] theorem sourceTokens_append (a b : List Piece) :
    sourceTokens (a ++ b) = sourceTokens a ++ sourceTokens b := by
  simp [sourceTokens]

end ShellAwait.Output
