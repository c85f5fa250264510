import ShellAwait.Token.Basic
import ShellAwait.Tree.Kind

/-! # Trees

A tree has tokens at its leaves and a kind at every node. Spans follow from the position of the tree and
the lengths of its leaves.
-/

namespace ShellAwait

open Text

inductive Tree where
  | leaf (token : Token)
  | node (kind : NodeKind) (children : List Tree)
deriving Repr, Inhabited

namespace Tree

mutual

def leaves : Tree → List Token
  | .leaf token => [token]
  | .node _ children => leavesAll children

def leavesAll : List Tree → List Token
  | [] => []
  | tree :: rest => tree.leaves ++ leavesAll rest

end

mutual

def width : Tree → Nat
  | .leaf token => byteLength token.text
  | .node _ children => widthAll children

def widthAll : List Tree → Nat
  | [] => 0
  | tree :: rest => tree.width + widthAll rest

end

def text (tree : Tree) : List Char := Token.textOf tree.leaves

def nodeKind? : Tree → Option NodeKind
  | .leaf _ => none
  | .node kind _ => some kind

def isNode (tree : Tree) : Bool := tree.nodeKind?.isSome

def isTrivia : Tree → Bool
  | .leaf token => token.kind.isTrivia
  | .node _ _ => false

@[simp] theorem leavesAll_append (a b : List Tree) :
    leavesAll (a ++ b) = leavesAll a ++ leavesAll b := by
  induction a with
  | nil => rfl
  | cons tree rest ih => simp [leavesAll, ih]

@[simp] theorem leavesAll_map_leaf (tokens : List Token) :
    leavesAll (tokens.map leaf) = tokens := by
  induction tokens with
  | nil => rfl
  | cons token rest ih => simp [leavesAll, leaves, ih]

end Tree

end ShellAwait
