import ShellAwait.Tree.Basic

/-! # Places

What stands around a node, as far as it decides how an `await` is put in front of it.
-/

namespace ShellAwait.Output

def isChain : NodeKind → Bool
  | .callExpr | .memberExpr | .indexExpr => true
  | _ => false

def isStatement : NodeKind → Bool
  | .varDecl | .functionDecl | .block | .exprStmt | .returnStmt | .ifStmt | .whileStmt | .doWhileStmt
  | .forStmt | .forInStmt | .breakStmt | .continueStmt | .throwStmt | .tryStmt | .switchStmt => true
  | _ => false

def holdsStatements : NodeKind → Bool
  | .script | .block | .switchCase => true
  | _ => false

def isFunctionValue : NodeKind → Bool
  | .functionExpr | .arrow | .method => true
  | _ => false

def hasLeaf (kind : TokenKind) (trees : List Tree) : Bool :=
  trees.any fun | .leaf token => token.kind = kind | .node .. => false

mutual

/-- The chain that ends at a tree holds an optional link. -/
def hasOptionalLink : Tree → Bool
  | .leaf _ => false
  | .node kind children => isChain kind && (hasLeaf .questionDot children || baseHasLink children)

def baseHasLink : List Tree → Bool
  | [] => false
  | .leaf _ :: rest => baseHasLink rest
  | node :: _ => hasOptionalLink node

end

/-- A token with the kinds of the node it stands in and of the node around that. -/
structure Ending where
  token : Token
  parent : Option NodeKind
  owner : Option NodeKind

mutual

/-- The last token of a tree that stands in the given nodes. -/
def ending? (parent owner : Option NodeKind) : Tree → Option Ending
  | .leaf token => some ⟨token, parent, owner⟩
  | .node kind children => endingOfLast? (some kind) parent children

def endingOfLast? (parent owner : Option NodeKind) : List Tree → Option Ending
  | [] => none
  | [tree] => ending? parent owner tree
  | _ :: rest => endingOfLast? parent owner rest

end

/-- A statement that ends like this goes on if a parenthesis follows. A block ends a statement; the body of
a function that is a value does not. -/
def Ending.goesOn (last : Ending) : Bool :=
  match last.token.kind with
  | .semicolon => false
  | .rBrace =>
      let isBlock := last.parent = some .block || last.parent = some .switchStmt
      !isBlock || last.owner.any isFunctionValue
  | _ => true

/-- A parenthesis right after this neighbour in a list of statements would be read as part of it. -/
def goesOnAfter (parent : NodeKind) (previous : Option Tree) : Bool :=
  match previous with
  | some (.node kind children) =>
      holdsStatements parent && isStatement kind &&
        ((ending? (some parent) none (.node kind children)).map Ending.goesOn).getD false
  | _ => false

/-- What decides how a node is awaited. -/
structure Place where
  /-- What is awaited has to stand in parentheses. -/
  isBase : Bool := false
  isLinkBase : Bool := false
  /-- A parenthesis in front of the node would belong to the statement before. -/
  isGlued : Bool := false

/-- The place of a child of a node, behind the given sibling. -/
def Place.under (parent : NodeKind) (siblings : List Tree) (previous : Option Tree) : Place :=
  let isFirst := previous.isNone
  { isBase := isFirst && match parent with
      | .memberExpr | .indexExpr | .callExpr | .newExpr | .taggedTemplate => true
      | .binaryExpr => hasLeaf .starStar siblings
      | _ => false
    isLinkBase := isFirst && isChain parent
    isGlued := goesOnAfter parent previous }

end ShellAwait.Output
