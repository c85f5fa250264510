import ShellAwait.Tree.Basic

/-! # Putting trivia back

The grammar builds a tree of significant tokens. Trivia goes in front of the next node or token, as far
out as that starts, so that a node begins with the first token that the grammar gave it. The root alone
begins with the first token of the text.
-/

namespace ShellAwait.Tree

def leadingTrivia (tokens : List Token) : List Tree :=
  (tokens.takeWhile (·.kind.isTrivia)).map leaf

def afterTrivia (tokens : List Token) : List Token := tokens.dropWhile (·.kind.isTrivia)

mutual

/-- Lay a tree over a stream: its elements with the trivia in front, and the stream after it. A leaf
stands for the next significant token. -/
def lay : Tree → List Token → List Tree × List Token
  | .leaf _, tokens =>
      match afterTrivia tokens with
      | [] => (leadingTrivia tokens, [])
      | token :: rest => (leadingTrivia tokens ++ [.leaf token], rest)
  | .node kind children, tokens =>
      let laid := layAll children (afterTrivia tokens)
      (leadingTrivia tokens ++ [.node kind laid.1], laid.2)

def layAll : List Tree → List Token → List Tree × List Token
  | [], tokens => ([], tokens)
  | tree :: rest, tokens =>
      let first := tree.lay tokens
      let others := layAll rest first.2
      (first.1 ++ others.1, others.2)

end

def ofElements (elements : List Tree) (tokens : List Token) : Tree :=
  .node .script (layAll elements tokens).1

end ShellAwait.Tree
