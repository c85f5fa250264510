import ShellAwait.Proofs.Tree.Occurrences
import ShellAwait.Script.Syntax

/-! # The nodes of a script

The expressions and functions of a script with where they stand, as its tree has them. Children of
a node that the script has no place for are not among them.
-/

namespace ShellAwait

open Text

namespace Setting

/-- A part of a node whose value is used there. -/
def used (around : Setting) : Setting := { region := around.region }

def underAwait (around : Setting) : Setting := { region := around.region, awaited := true }

def parametersOf (owner : Span) : Setting := { region := some ⟨owner, true⟩ }

def bodyOf (owner : Span) : Setting := { region := some ⟨owner, false⟩ }

/-- A node that stands here. -/
def node (around : Setting) (kind : NodeKind) (span : Span) : Occurrence :=
  { toSetting := around, kind, span }

@[simp] theorem used_used (around : Setting) : around.used.used = around.used := rfl

end Setting

namespace Function

def span : Function → Span
  | .mk span .. => span

def isAsync : Function → Bool
  | .mk _ isAsync .. => isAsync

end Function

/-- The name that an expression is. -/
def Expr.name? : Expr → Option String
  | .name _ text => text
  | _ => none

namespace Script

/-- The node of a function of some form. -/
def functionNode (around : Setting) (kind : NodeKind) (span : Span) (fn : Function) : Occurrence :=
  { around.node kind span with isAsync := fn.isAsync }

/-- A function that is an expression is one node, and two if it was read from elsewhere. -/
def functionValueNodes (around : Setting) (kind : NodeKind) (span : Span) (fn : Function) :
    List Occurrence :=
  functionNode around kind fn.span fn ::
    if fn.span = span then [] else [functionNode around kind span fn]

mutual

def exprNodes (around : Setting) : Expr → List Occurrence
  | .hole => []
  | .literal span .. => [around.node .literal span]
  | .template span parts => around.node .template span :: exprNodesAll around.used parts
  | .tagged span tag parts =>
      around.node .taggedTemplate span ::
        (exprNodes around.used tag ++ exprNodesAll around.used parts)
  | .name span _ => [around.node .nameRef span]
  | .thisValue span => [around.node .thisExpr span]
  | .array span elements => around.node .arrayExpr span :: exprNodesAll around.used elements
  | .object span members => around.node .objectExpr span :: memberNodes around.used members
  | .spread span inner => around.node .spreadElement span :: exprNodes around.used inner
  | .function span _ fn => functionValueNodes around .functionExpr span fn ++ functionNodes fn
  | .arrow span fn => functionValueNodes around .arrow span fn ++ functionNodes fn
  | .paren span inner => around.node .parenExpr span :: exprNodes around inner
  | .member span object _ _ => around.node .memberExpr span :: exprNodes around.used object
  | .index span object key =>
      around.node .indexExpr span :: (exprNodes around.used object ++ exprNodes around.used key)
  | .call span callee arguments =>
      { around.node .callExpr span with callee := callee.name? } ::
        (exprNodes around.used callee ++ exprNodesAll around.used arguments)
  | .construct span callee _ arguments =>
      around.node .newExpr span ::
        (exprNodes around.used callee ++ exprNodesAll around.used arguments)
  | .unary span _ operand => around.node .prefixExpr span :: exprNodes around.used operand
  | .await span operand => around.node .awaitExpr span :: exprNodes around.underAwait operand
  | .update span _ operand => around.node .postfixExpr span :: exprNodes around.used operand
  | .binary span _ left right =>
      around.node .binaryExpr span :: (exprNodes around.used left ++ exprNodes around.used right)
  | .assign span _ target value =>
      around.node .assignExpr span :: (exprNodes around.used target ++ exprNodes around.used value)
  | .cond span test consequent alternate =>
      around.node .condExpr span :: (exprNodes around.used test ++
        exprNodes around.used consequent ++ exprNodes around.used alternate)
  | .sequence span parts => around.node .sequenceExpr span :: exprNodesAll around.used parts

def exprNodesAll (around : Setting) : List Expr → List Occurrence
  | [] => []
  | expr :: more => exprNodes around expr ++ exprNodesAll around more

def memberNodes (around : Setting) : List ObjectMember → List Occurrence
  | [] => []
  | .property key value :: more =>
      keyNodes around key ++ exprNodes around.used value ++ memberNodes around more
  | .method key fn :: more =>
      functionNode around .method fn.span fn ::
        (keyNodes around key ++ functionNodes fn ++ memberNodes around more)
  | .spread inner :: more => exprNodes around.used inner ++ memberNodes around more

def keyNodes (around : Setting) : Key → List Occurrence
  | .hole => []
  | .name .. => []
  | .computed _ inner => exprNodes around.used inner

/-- The nodes in a function: in its parameters and in its body. -/
def functionNodes : Function → List Occurrence
  | .mk span _ parameters body =>
      bindingNodes (.parametersOf span) parameters ++ stmtNodes (.bodyOf span) body

def bindingNodes (around : Setting) : List Binding → List Occurrence
  | [] => []
  | .mk _ pattern value :: more =>
      patternNodes around pattern ++ exprNodes around.used value ++ bindingNodes around more

def patternNodes (around : Setting) : Pattern → List Occurrence
  | .hole => []
  | .name .. => []
  | .array _ elements => patternNodesAll around elements
  | .object _ entries => entryNodes around entries
  | .withDefault _ inner value => patternNodes around inner ++ exprNodes around.used value
  | .rest _ inner => patternNodes around inner

def patternNodesAll (around : Setting) : List Pattern → List Occurrence
  | [] => []
  | pattern :: more => patternNodes around pattern ++ patternNodesAll around more

def entryNodes (around : Setting) : List Entry → List Occurrence
  | [] => []
  | .property key pattern :: more =>
      keyNodes around key ++ patternNodes around pattern ++ entryNodes around more
  | .rest pattern :: more => patternNodes around pattern ++ entryNodes around more

def stmtNodes (around : Setting) : Stmt → List Occurrence
  | .hole => []
  | .var _ _ declarators => bindingNodes around declarators
  | .function _ _ fn => functionNode around .functionDecl fn.span fn :: functionNodes fn
  | .block _ body => stmtNodesAll around body
  | .expr _ value _ => exprNodes around.used value
  | .empty _ => []
  | .breakOut _ => []
  | .continueOn _ => []
  | .ret _ value => exprNodes around.used value
  | .throw _ value => exprNodes around.used value
  | .cond _ test consequent alternate =>
      exprNodes around.used test ++ stmtNodes around consequent ++ stmtNodes around alternate
  | .while _ test body => exprNodes around.used test ++ stmtNodes around body
  | .doWhile _ body test => stmtNodes around body ++ exprNodes around.used test
  | .loop _ init test update body =>
      stmtNodes around init ++ exprNodes around.used test ++ exprNodes around.used update ++
        stmtNodes around body
  | .each _ _ head iterable body =>
      stmtNodes around head ++ exprNodes around.used iterable ++ stmtNodes around body
  | .guarded _ body handler cleanup =>
      stmtNodes around body ++ handlerNodes around handler ++ stmtNodes around cleanup
  | .switch _ value cases => exprNodes around.used value ++ caseNodes around cases

def stmtNodesAll (around : Setting) : List Stmt → List Occurrence
  | [] => []
  | stmt :: more => stmtNodes around stmt ++ stmtNodesAll around more

def handlerNodes (around : Setting) : Handler → List Occurrence
  | .hole => []
  | .clause parameter body => patternNodes around parameter ++ stmtNodesAll around body

def caseNodes (around : Setting) : List Case → List Occurrence
  | [] => []
  | .mk _ test body :: more =>
      exprNodes around.used test ++ stmtNodesAll around body ++ caseNodes around more

end

theorem stmtNodesAll_append (around : Setting) (a b : List Stmt) :
    stmtNodesAll around (a ++ b) = stmtNodesAll around a ++ stmtNodesAll around b := by
  induction a with
  | nil => rfl
  | cons stmt more ih => rw [List.cons_append, stmtNodesAll, ih, stmtNodesAll, List.append_assoc]

end Script

end ShellAwait
