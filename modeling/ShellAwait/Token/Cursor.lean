import ShellAwait.Text.Word
import ShellAwait.Token.Stream

/-! # Tokens by position

The cursor that reads a text counts the bytes behind it in a word. A token is kept as its kind with the
positions of the cursor before and after it, and its text is what the source has between them.
-/

namespace ShellAwait.Token

open Text

/-- Take characters one by one. -/
def advance (pos : Nat) : List Char → Except Overflow Nat
  | [] => .ok pos
  | c :: rest => do
      let next ← addWord pos c.utf8Size
      advance next rest

/-- The tokens from a position on, at most `fuel` of them. -/
def lexFrom : Nat → Context → Nat → List Char → Except Overflow (List (Span × TokenKind))
  | 0, _, _, _ => .ok []
  | fuel + 1, context, pos, text =>
      match context.scan text with
      | none => .ok [(Span.emptyAt pos, .eof)]
      | some lexeme => do
          let stop ← advance pos lexeme.text
          let later ← lexFrom fuel (context.after lexeme.kind) stop lexeme.rest
          return (⟨pos, stop⟩, lexeme.kind) :: later

def lex (source : List Char) : Except Overflow (List (Span × TokenKind)) :=
  lexFrom (source.length + 2) .start 0 source

end ShellAwait.Token
