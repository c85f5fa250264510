import ShellAwait.Text.Quoted
import ShellAwait.Tree.Basic

/-! # Listings of a tree

The rows of a tree in preorder, each with its depth and span, and the indented outline that leaves out
trivia and the end mark.
-/

namespace ShellAwait.Tree

open Text

inductive Entry where
  | node (kind : NodeKind)
  | leaf (token : Token)
deriving Repr

structure Row where
  depth : Nat
  span : Span
  entry : Entry
deriving Repr

mutual

def rows (depth offset : Nat) : Tree → List Row
  | .leaf token => [⟨depth, ⟨offset, offset + byteLength token.text⟩, .leaf token⟩]
  | .node kind children =>
      ⟨depth, ⟨offset, offset + widthAll children⟩, .node kind⟩ ::
        rowsAll (depth + 1) offset children

def rowsAll (depth offset : Nat) : List Tree → List Row
  | [] => []
  | tree :: rest => tree.rows depth offset ++ rowsAll depth (offset + tree.width) rest

end

def Row.isShown (row : Row) : Bool :=
  match row.entry with
  | .node _ => true
  | .leaf token => !(token.kind.isTrivia || token.kind == .eof)

def Row.line (row : Row) : String :=
  let indent := String.ofList (List.replicate (2 * row.depth) ' ')
  let place := "@" ++ toString row.span.start ++ ".." ++ toString row.span.stop
  match row.entry with
  | .node kind => indent ++ kind.name ++ place ++ "\n"
  | .leaf token =>
      indent ++ token.kind.leafName ++ place ++ " " ++ String.ofList (quoted token.text) ++ "\n"

/-- One line for every node and every token that the grammar sees. -/
def outline (tree : Tree) : String :=
  String.join (((tree.rows 0 0).filter Row.isShown).map Row.line)

end ShellAwait.Tree
