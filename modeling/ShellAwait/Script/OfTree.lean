import ShellAwait.Script.Syntax
import ShellAwait.Tree.Basic

/-! # The script of a tree

A tree is turned into a script from its leaves up: the items of a node's children are assembled into one
item by the kind of the node. Children that a kind has no place for are passed over, so the tree of a
broken text has a script as well.
-/

namespace ShellAwait.Script

open Text

/-- What a tree stands for. A node that is only a part of another keeps its items. -/
inductive Item where
  | token (token : Token)
  | expr (expr : Expr)
  | stmt (stmt : Stmt)
  | pattern (pattern : Pattern)
  | declarator (binding : Binding)
  | parameter (binding : Binding)
  | parameters (bindings : List Binding)
  | member (member : ObjectMember)
  | key (key : Key)
  | entry (entry : Entry)
  | part (kind : NodeKind) (items : List Item)

abbrev Items := List Item

namespace Items

def tokens (items : Items) : List Token :=
  items.filterMap fun | .token t => some t | _ => none

def exprs (items : Items) : List Expr :=
  items.filterMap fun | .expr e => some e | _ => none

def stmts (items : Items) : List Stmt :=
  items.filterMap fun | .stmt s => some s | _ => none

def patterns (items : Items) : List Pattern :=
  items.filterMap fun | .pattern p => some p | _ => none

def expr (items : Items) (n : Nat) : Expr := items.exprs.getD n .hole

def stmt (items : Items) : Stmt := items.stmts.headD .hole

def pattern (items : Items) : Pattern := items.patterns.headD .hole

def key (items : Items) : Key :=
  (items.findSome? fun | .key k => some k | _ => none).getD .hole

def firstToken (items : Items) : Token :=
  (items.tokens.find? (!·.kind.isTrivia)).getD Token.endOfText

def hasToken (items : Items) (kind : TokenKind) : Bool := items.tokens.any (·.kind == kind)

def identifier? (items : Items) : Option String :=
  (items.tokens.find? (·.kind == .ident)).map (String.ofList ·.text)

def parts (items : Items) (kind : NodeKind) : List Items :=
  items.filterMap fun
    | .part k inner => if k = kind then some inner else none
    | _ => none

def part? (items : Items) (kind : NodeKind) : Option Items := (items.parts kind).head?

def arguments (items : Items) : List Expr := ((items.part? .argList).getD []).exprs

def block (items : Items) : Stmt :=
  (items.stmts.find? fun | .block .. => true | _ => false).getD .hole

def blockBody (items : Items) : List Stmt :=
  match items.block with
  | .block _ body => body
  | _ => []

def interpolations (items : Items) : List Expr := (items.parts .interpolation).map (·.expr 0)

/-- The interpolations of the last template among the items. -/
def templateParts (items : Items) : List Expr :=
  (items.exprs.reverse.findSome? fun | .template _ parts => some parts | _ => none).getD []

/-- A function is asynchronous if its first item is the word. -/
def isAsync (items : Items) : Bool :=
  match items.find? fun | .token t => !t.kind.isTrivia | _ => true with
  | some (.token t) => t.kind == .ident && t.text == "async".toList
  | _ => false

def functionName? (items : Items) : Option String :=
  ((items.tokens.dropWhile (·.kind != .functionKw)).find? (·.kind == .ident)).map
    (String.ofList ·.text)

def valueStmt (e : Expr) : Stmt := .expr e.span e false

def functionBody (items : Items) : Stmt :=
  (items.findSome? fun
    | .stmt (.block span body) => some (.block span body)
    | .expr e => some (valueStmt e)
    | _ => none).getD .hole

def function (items : Items) (span : Span) : Function :=
  .mk span items.isAsync
    ((items.findSome? fun | .parameters bindings => some bindings | _ => none).getD [])
    items.functionBody

def memberName? (items : Items) : Option String :=
  (items.part? .memberName).bind fun inner =>
    (inner.tokens.find? (!·.kind.isTrivia)).map (String.ofList ·.text)

def literalKind? (items : Items) : Option LiteralKind :=
  match items.firstToken.kind with
  | .number => some .number
  | .string => some .string
  | .regex => some .regex
  | .trueKw | .falseKw => some .boolean
  | .nullKw => some .null
  | _ => none

def declKind? (items : Items) : Option DeclKind :=
  items.tokens.findSome? fun t =>
    match t.kind with
    | .varKw => some .var
    | .letKw => some .letKind
    | .constKw => some .const
    | _ => none

def members (items : Items) : List ObjectMember :=
  items.filterMap fun
    | .member m => some m
    | .expr (.spread _ inner) => some (.spread inner)
    | _ => none

/-- The parts of an object pattern, one for every node. -/
def entries (items : Items) : List Entry :=
  items.filterMap fun
    | .token _ => none
    | .entry e => some e
    | .pattern p => some (.rest p)
    | _ => some (.rest .hole)

def loopInit (items : Items) : Stmt :=
  match items.part? .forInit with
  | none => .hole
  | some inner =>
      match inner.stmts.find? fun | .var .. => true | _ => false with
      | some declaration => declaration
      | none => (inner.exprs.head?.map valueStmt).getD .hole

def loopClause (items : Items) (kind : NodeKind) : Expr :=
  ((items.part? kind).getD []).expr 0

/-- What a loop over a value assigns to: the first node, if it is a declaration or an expression. -/
def loopTarget (items : Items) : Stmt :=
  match items.find? fun | .token _ => false | _ => true with
  | some (.stmt (.var span kind declarators)) => .var span kind declarators
  | some (.expr e) => valueStmt e
  | _ => .hole

def iterable (items : Items) : Expr :=
  match items.loopTarget with
  | .var .. => items.expr 0
  | .hole => .hole
  | _ => items.expr 1

/-- The first statement after the parenthesis that closes a head. -/
def bodyAfterHead (items : Items) : Stmt :=
  stmt (items.dropWhile fun | .token t => t.kind != .rParen | _ => true)

def handler (items : Items) : Handler :=
  match items.part? .catchClause with
  | none => .hole
  | some inner => .clause inner.pattern inner.blockBody

def switchCases (items : Items) : List Case :=
  (items.parts .switchCase).map fun inner =>
    .mk (inner.hasToken .defaultKw) (inner.expr 0) inner.stmts

end Items

def assemble (kind : NodeKind) (span : Span) (items : Items) : Item :=
  match kind with
  | .literal => .expr (.literal span items.literalKind? items.firstToken.text)
  | .template => .expr (.template span items.interpolations)
  | .taggedTemplate => .expr (.tagged span (items.expr 0) items.templateParts)
  | .nameRef => .expr (.name span items.identifier?)
  | .thisExpr => .expr (.thisValue span)
  | .arrayExpr => .expr (.array span items.exprs)
  | .objectExpr => .expr (.object span items.members)
  | .spreadElement => .expr (.spread span (items.expr 0))
  | .functionExpr => .expr (.function span items.functionName? (items.function span))
  | .arrow => .expr (.arrow span (items.function span))
  | .parenExpr => .expr (.paren span (items.expr 0))
  | .memberExpr =>
      .expr (.member span (items.expr 0) items.memberName? (items.hasToken .questionDot))
  | .indexExpr => .expr (.index span (items.expr 0) (items.expr 1))
  | .callExpr => .expr (.call span (items.expr 0) items.arguments)
  | .newExpr =>
      .expr (.construct span (items.expr 0) (items.part? .argList).isSome items.arguments)
  | .prefixExpr => .expr (.unary span items.firstToken (items.expr 0))
  | .awaitExpr => .expr (.await span (items.expr 0))
  | .postfixExpr => .expr (.update span items.firstToken (items.expr 0))
  | .binaryExpr => .expr (.binary span items.firstToken (items.expr 0) (items.expr 1))
  | .assignExpr => .expr (.assign span items.firstToken (items.expr 0) (items.expr 1))
  | .condExpr => .expr (.cond span (items.expr 0) (items.expr 1) (items.expr 2))
  | .sequenceExpr => .expr (.sequence span items.exprs)
  | .property => .member (.property items.key (items.expr 0))
  | .method => .member (.method items.key (items.function span))
  | .propName => .key (.name span items.firstToken.text)
  | .computedName => .key (.computed span (items.expr 0))
  | .identPat => .pattern (.name span items.identifier?)
  | .arrayPat => .pattern (.array span items.patterns)
  | .objectPat => .pattern (.object span items.entries)
  | .patProp => .entry (.property items.key items.pattern)
  | .assignPat => .pattern (.withDefault span items.pattern (items.expr 0))
  | .restPat => .pattern (.rest span items.pattern)
  | .param => .parameter (.mk (items.hasToken .dotDotDot) items.pattern (items.expr 0))
  | .paramList =>
      .parameters (items.filterMap fun | .parameter binding => some binding | _ => none)
  | .declarator => .declarator (.mk false items.pattern (items.expr 0))
  | .varDecl =>
      .stmt (.var span items.declKind?
        (items.filterMap fun | .declarator binding => some binding | _ => none))
  | .functionDecl => .stmt (.function span items.functionName? (items.function span))
  | .block => .stmt (.block span items.stmts)
  | .exprStmt => .stmt (.expr span (items.expr 0) (items.hasToken .semicolon))
  | .emptyStmt => .stmt (.empty span)
  | .returnStmt => .stmt (.ret span (items.expr 0))
  | .breakStmt => .stmt (.breakOut span)
  | .continueStmt => .stmt (.continueOn span)
  | .throwStmt => .stmt (.throw span (items.expr 0))
  | .ifStmt =>
      .stmt (.cond span (items.expr 0) items.stmt ((items.part? .elseClause).getD []).stmt)
  | .whileStmt => .stmt (.while span (items.expr 0) items.stmt)
  | .doWhileStmt => .stmt (.doWhile span items.stmt (items.expr 0))
  | .forStmt =>
      .stmt (.loop span items.loopInit (items.loopClause .forTest) (items.loopClause .forUpdate)
        items.stmt)
  | .forInStmt =>
      .stmt (.each span (items.tokens.any fun t => t.kind == .ident && t.text == "of".toList)
        items.loopTarget items.iterable items.bodyAfterHead)
  | .tryStmt =>
      .stmt (.guarded span items.block items.handler
        ((items.part? .finallyClause).getD []).block)
  | .switchStmt => .stmt (.switch span (items.expr 0) items.switchCases)
  | kind => .part kind items

mutual

def Item.ofTree (offset : Nat) : Tree → Item
  | .leaf token => .token token
  | .node kind children =>
      assemble kind ⟨offset, offset + Tree.widthAll children⟩ (Items.ofTrees offset children)

def Items.ofTrees (offset : Nat) : List Tree → List Item
  | [] => []
  | tree :: rest => Item.ofTree offset tree :: Items.ofTrees (offset + tree.width) rest

end

def ofTree : Tree → List Stmt
  | .leaf _ => []
  | .node _ children => Items.stmts (Items.ofTrees 0 children)

end ShellAwait.Script
