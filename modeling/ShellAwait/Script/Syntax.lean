import ShellAwait.Token.Basic
import ShellAwait.Tree.Kind

/-! # Scripts

Expressions, binding patterns and statements with the spans of their nodes. A part that the text lacks is
a hole; a script without a syntax problem has holes only where a part may be left out.
-/

namespace ShellAwait

open Text

inductive LiteralKind where
  | number | string | regex | boolean | null
deriving DecidableEq, Repr

inductive DeclKind where
  | var | letKind | const
deriving DecidableEq, Repr

mutual

inductive Expr where
  | hole
  | literal (span : Span) (kind : Option LiteralKind) (text : List Char)
  | template (span : Span) (parts : List Expr)
  | tagged (span : Span) (tag : Expr) (parts : List Expr)
  | name (span : Span) (name : Option String)
  | thisValue (span : Span)
  | array (span : Span) (elements : List Expr)
  | object (span : Span) (members : List ObjectMember)
  | spread (span : Span) (inner : Expr)
  | function (span : Span) (name : Option String) (function : Function)
  | arrow (span : Span) (function : Function)
  | paren (span : Span) (inner : Expr)
  | member (span : Span) (object : Expr) (name : Option String) (optional : Bool)
  | index (span : Span) (object : Expr) (key : Expr)
  | call (span : Span) (callee : Expr) (arguments : List Expr)
  /-- `new` with a callee; the argument list may be left out. -/
  | construct (span : Span) (callee : Expr) (hasList : Bool) (arguments : List Expr)
  | unary (span : Span) (operator : Token) (operand : Expr)
  | await (span : Span) (operand : Expr)
  | update (span : Span) (operator : Token) (operand : Expr)
  | binary (span : Span) (operator : Token) (left : Expr) (right : Expr)
  | assign (span : Span) (operator : Token) (target : Expr) (value : Expr)
  | cond (span : Span) (test : Expr) (consequent : Expr) (alternate : Expr)
  | sequence (span : Span) (parts : List Expr)

/-- A member of an object literal. A name that is its own value has no key. -/
inductive ObjectMember where
  | property (key : Key) (value : Expr)
  | method (key : Key) (function : Function)
  | spread (inner : Expr)

inductive Key where
  | hole
  | name (span : Span) (text : List Char)
  | computed (span : Span) (inner : Expr)

/-- A function of any form. The body is a block, an expression, or missing. -/
inductive Function where
  | mk (span : Span) (isAsync : Bool) (parameters : List Binding) (body : Stmt)

/-- A pattern with an initial value: a declarator or a parameter. -/
inductive Binding where
  | mk (isRest : Bool) (pattern : Pattern) (value : Expr)

inductive Pattern where
  | hole
  | name (span : Span) (name : Option String)
  | array (span : Span) (elements : List Pattern)
  | object (span : Span) (entries : List Entry)
  | withDefault (span : Span) (pattern : Pattern) (value : Expr)
  | rest (span : Span) (pattern : Pattern)

/-- A part of an object pattern: a key with a pattern, or a rest element. -/
inductive Entry where
  | property (key : Key) (pattern : Pattern)
  | rest (pattern : Pattern)

inductive Stmt where
  | hole
  | var (span : Span) (kind : Option DeclKind) (declarators : List Binding)
  | function (span : Span) (name : Option String) (function : Function)
  | block (span : Span) (body : List Stmt)
  | expr (span : Span) (value : Expr) (terminated : Bool)
  | empty (span : Span)
  | breakOut (span : Span)
  | continueOn (span : Span)
  | ret (span : Span) (value : Expr)
  | throw (span : Span) (value : Expr)
  | cond (span : Span) (test : Expr) (consequent : Stmt) (alternate : Stmt)
  | while (span : Span) (test : Expr) (body : Stmt)
  | doWhile (span : Span) (body : Stmt) (test : Expr)
  /-- A loop with three clauses. The first is a declaration or an expression statement. -/
  | loop (span : Span) (init : Stmt) (test : Expr) (update : Expr) (body : Stmt)
  /-- A loop over a value. The head is a declaration or an expression statement. -/
  | each (span : Span) (isOf : Bool) (head : Stmt) (iterable : Expr) (body : Stmt)
  | guarded (span : Span) (body : Stmt) (handler : Handler) (cleanup : Stmt)
  | switch (span : Span) (value : Expr) (cases : List Case)

inductive Handler where
  | hole
  | clause (parameter : Pattern) (body : List Stmt)

inductive Case where
  | mk (isDefault : Bool) (test : Expr) (body : List Stmt)

end

instance : Inhabited Expr := ⟨.hole⟩
instance : Inhabited Pattern := ⟨.hole⟩
instance : Inhabited Stmt := ⟨.hole⟩
instance : Inhabited Key := ⟨.hole⟩
instance : Inhabited Handler := ⟨.hole⟩

namespace Expr

def isHole : Expr → Bool
  | .hole => true
  | _ => false

def kind : Expr → NodeKind
  | .hole => .broken
  | .literal .. => .literal
  | .template .. => .template
  | .tagged .. => .taggedTemplate
  | .name .. => .nameRef
  | .thisValue .. => .thisExpr
  | .array .. => .arrayExpr
  | .object .. => .objectExpr
  | .spread .. => .spreadElement
  | .function .. => .functionExpr
  | .arrow .. => .arrow
  | .paren .. => .parenExpr
  | .member .. => .memberExpr
  | .index .. => .indexExpr
  | .call .. => .callExpr
  | .construct .. => .newExpr
  | .unary .. => .prefixExpr
  | .await .. => .awaitExpr
  | .update .. => .postfixExpr
  | .binary .. => .binaryExpr
  | .assign .. => .assignExpr
  | .cond .. => .condExpr
  | .sequence .. => .sequenceExpr

def span : Expr → Span
  | .hole => default
  | .literal span .. | .template span .. | .tagged span .. | .name span .. | .thisValue span
  | .array span .. | .object span .. | .spread span .. | .function span .. | .arrow span ..
  | .paren span .. | .member span .. | .index span .. | .call span .. | .construct span ..
  | .unary span .. | .await span .. | .update span .. | .binary span .. | .assign span ..
  | .cond span .. | .sequence span .. => span

/-- The contents of a string literal without its quotes, with escapes as written. -/
def stringValue? : Expr → Option (List Char)
  | .literal _ (some .string) text => some (text.drop 1).dropLast
  | _ => none

end Expr

namespace Pattern

def isHole : Pattern → Bool
  | .hole => true
  | _ => false

def span : Pattern → Span
  | .hole => default
  | .name span _ | .array span _ | .object span _ | .withDefault span .. | .rest span _ => span

/-- Anything but a plain name, seen through defaults and rest marks. -/
def isDestructuring : Pattern → Bool
  | .hole => false
  | .name .. => false
  | .withDefault _ inner _ => inner.isDestructuring
  | .rest _ inner => inner.isDestructuring
  | .array .. | .object .. => true

mutual

def names : Pattern → List String
  | .hole => []
  | .name _ bound => bound.toList
  | .withDefault _ inner _ => inner.names
  | .rest _ inner => inner.names
  | .array _ elements => namesAll elements
  | .object _ entries => namesOfEntries entries

def namesAll : List Pattern → List String
  | [] => []
  | pattern :: more => pattern.names ++ namesAll more

def namesOfEntries : List Entry → List String
  | [] => []
  | .property _ pattern :: more => pattern.names ++ namesOfEntries more
  | .rest pattern :: more => pattern.names ++ namesOfEntries more

end

end Pattern

def Key.inner : Key → Expr
  | .computed _ inner => inner
  | _ => .hole

namespace Pattern

mutual

def expressions : Pattern → List Expr
  | .hole => []
  | .name .. => []
  | .withDefault _ inner value =>
      inner.expressions ++ (if value.isHole then [] else [value])
  | .rest _ inner => inner.expressions
  | .array _ elements => expressionsAll elements
  | .object _ entries => expressionsOfEntries entries

def expressionsAll : List Pattern → List Expr
  | [] => []
  | pattern :: more => pattern.expressions ++ expressionsAll more

def expressionsOfEntries : List Entry → List Expr
  | [] => []
  | .property key pattern :: more =>
      (if key.inner.isHole then [] else [key.inner]) ++ pattern.expressions ++
        expressionsOfEntries more
  | .rest pattern :: more => pattern.expressions ++ expressionsOfEntries more

end

end Pattern

def Entry.pattern : Entry → Pattern
  | .property _ pattern => pattern
  | .rest pattern => pattern

def Case.isDefault : Case → Bool
  | .mk isDefault _ _ => isDefault

namespace Stmt

def isHole : Stmt → Bool
  | .hole => true
  | _ => false

def span : Stmt → Span
  | .hole => default
  | .var span .. | .function span .. | .block span .. | .expr span .. | .empty span
  | .breakOut span | .continueOn span | .ret span .. | .throw span .. | .cond span ..
  | .while span .. | .doWhile span .. | .loop span .. | .each span .. | .guarded span ..
  | .switch span .. => span

end Stmt

end ShellAwait
