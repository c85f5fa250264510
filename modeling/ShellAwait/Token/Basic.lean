import ShellAwait.Text.Span
import ShellAwait.Token.Kind

/-! # Tokens

A token is a kind with its text. Offsets are not stored: the tokens of a stream tile its text, so a
token's span is the length of what stands before it and its own length.
-/

namespace ShellAwait

open Text

structure Token where
  kind : TokenKind
  text : List Char
deriving DecidableEq, Repr, Inhabited

namespace Token

def endOfText : Token := ⟨.eof, []⟩

def textOf (tokens : List Token) : List Char := tokens.flatMap Token.text

/-- The tokens of a stream that starts at `offset`, each with its span. -/
def placed (offset : Nat) : List Token → List (Span × Token)
  | [] => []
  | t :: rest =>
      let stop := offset + byteLength t.text
      (⟨offset, stop⟩, t) :: placed stop rest

/-- Whether a token between two others ends a line: a line break, or a comment with a line feed in it. -/
def endsLine (t : Token) : Bool :=
  match t.kind with
  | .newline => true
  | .comment => t.text.contains '\n'
  | _ => false

end Token

end ShellAwait
