import ShellAwait.Analysis.Findings
import ShellAwait.Output.Piece
import ShellAwait.Output.Place

/-! # Weaving

The tokens of a tree in order, with fragments where nodes that are marked begin and end.
-/

namespace ShellAwait.Output

open Text

structure Pending where
  /-- Nothing of a statement has been written that could belong to the one before it. -/
  isGlued : Bool := false
  /-- The next link of a chain is optional. -/
  resumes : Bool := false

def weaveToken (pending : Pending) (token : Token) : List Piece × Pending :=
  if token.kind.isTrivia then ([.source token], pending)
  else if !pending.resumes then ([.source token], {})
  else
    match token.kind with
    | .dot => ([.inserted .question, .source token], {})
    | .lBracket | .lParen => ([.inserted .link, .source token], {})
    | _ => ([.source token], {})

def opening (isSite isWrapped isPromoted isGlued : Bool) : List Piece :=
  (if isSite then
    if isWrapped then (if isGlued then [.inserted .semicolon] else []) ++ [.inserted .openAwait]
    else [.inserted .await]
  else []) ++
  if isPromoted then [.inserted .async] else []

mutual

def weaveTree (marks : Marks) (place : Place) (offset : Nat) (pending : Pending) :
    Tree → List Piece × Pending
  | .leaf token => weaveToken pending token
  | .node kind children =>
      let span : Span := ⟨offset, offset + Tree.widthAll children⟩
      let isSite := kind.isSite && marks.isSuspended span
      let isWrapped := isSite && place.isBase
      let isPromoted := kind.isFunction && marks.isPromoted span
      let isGlued := if kind = .exprStmt then place.isGlued else pending.isGlued
      let entered := { pending with isGlued := isGlued && !isSite && !isPromoted }
      let (pieces, left) := weaveTrees marks kind children none offset entered children
      let front := opening isSite isWrapped isPromoted isGlued
      if isWrapped then
        (front ++ pieces ++ [.inserted .close],
          { left with resumes := place.isLinkBase && hasOptionalLink (.node kind children) })
      else (front ++ pieces, left)

def weaveTrees (marks : Marks) (parent : NodeKind) (siblings : List Tree) (previous : Option Tree)
    (offset : Nat) (pending : Pending) : List Tree → List Piece × Pending
  | [] => ([], pending)
  | tree :: rest =>
      let (pieces, left) :=
        weaveTree marks (Place.under parent siblings previous) offset pending tree
      let behind := if tree.isNode then some tree else previous
      let (others, last) :=
        weaveTrees marks parent siblings behind (offset + tree.width) left rest
      (pieces ++ others, last)

end

def weave (marks : Marks) (tree : Tree) : List Piece := (weaveTree marks {} 0 {} tree).1

/-! Weaving keeps every token of the script, in order. -/

theorem sourceTokens_weaveToken (pending : Pending) (token : Token) :
    sourceTokens (weaveToken pending token).1 = [token] := by
  unfold weaveToken
  split
  · rfl
  · split
    · rfl
    · split <;> rfl

theorem sourceTokens_opening (isSite isWrapped isPromoted isGlued : Bool) :
    sourceTokens (opening isSite isWrapped isPromoted isGlued) = [] := by
  cases isSite <;> cases isWrapped <;> cases isPromoted <;> cases isGlued <;> rfl

mutual

theorem sourceTokens_weaveTree (marks : Marks) (place : Place) (offset : Nat) (pending : Pending)
    (tree : Tree) : sourceTokens (weaveTree marks place offset pending tree).1 = tree.leaves := by
  match tree with
  | .leaf token => simp [weaveTree, sourceTokens_weaveToken, Tree.leaves]
  | .node kind children =>
      simp only [weaveTree, Tree.leaves]
      split
      · simp [sourceTokens_opening, sourceTokens_weaveTrees]
        rfl
      · simp [sourceTokens_opening, sourceTokens_weaveTrees]

theorem sourceTokens_weaveTrees (marks : Marks) (parent : NodeKind) (siblings : List Tree)
    (previous : Option Tree) (offset : Nat) (pending : Pending) (trees : List Tree) :
    sourceTokens (weaveTrees marks parent siblings previous offset pending trees).1 =
      Tree.leavesAll trees := by
  match trees with
  | [] => rfl
  | tree :: rest =>
      simp [weaveTrees, Tree.leavesAll, sourceTokens_weaveTree, sourceTokens_weaveTrees]

end

theorem sourceTokens_weave (marks : Marks) (tree : Tree) :
    sourceTokens (weave marks tree) = tree.leaves :=
  sourceTokens_weaveTree marks {} 0 {} tree

end ShellAwait.Output
