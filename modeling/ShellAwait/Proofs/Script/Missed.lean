import ShellAwait.Proofs.Script.Nodes

/-! # What a walk does not come to

A walk of a script enters most of it. It stays out of the values in the declaration at the head of a
loop over a value, of a target that is neither a name nor an access nor a pattern, and of the methods
in a pattern that is written as an object. The rest are parts of scripts that no text has: the value of
a binding without a pattern or of an assignment without a target, and the like.
-/

namespace ShellAwait.Script

open Text

mutual

/-- The nodes in an expression that a walk of it does not come to. -/
def exprMissed (around : Setting) : Expr → List Occurrence
  | .hole => []
  | .literal .. => []
  | .template _ parts => exprMissedAll around.used parts
  | .tagged _ tag parts => exprMissed around.used tag ++ exprMissedAll around.used parts
  | .name .. => []
  | .thisValue _ => []
  | .array _ elements => exprMissedAll around.used elements
  | .object _ members => memberMissed around.used members
  | .spread _ inner => exprMissed around.used inner
  | .function _ _ fn => functionMissed fn
  | .arrow _ fn => functionMissed fn
  | .paren _ inner => exprMissed around inner
  | .member _ object _ _ => exprMissed around.used object
  | .index _ object key => exprMissed around.used object ++ exprMissed around.used key
  | .call _ callee arguments => exprMissed around.used callee ++ exprMissedAll around.used arguments
  | .construct _ callee _ arguments =>
      exprMissed around.used callee ++ exprMissedAll around.used arguments
  | .unary _ _ operand => exprMissed around.used operand
  | .await _ operand => exprMissed around.underAwait operand
  | .update _ _ operand => exprMissed around.used operand
  | .binary _ _ left right => exprMissed around.used left ++ exprMissed around.used right
  | .assign _ _ target value =>
      match target with
      | .hole => exprNodes around.used value
      | .array .. | .object .. => targetMissed around.used target ++ exprMissed around.used value
      | _ => baseMissed around.used target ++ exprMissed around.used value
  | .cond _ test consequent alternate =>
      exprMissed around.used test ++ exprMissed around.used consequent ++
        exprMissed around.used alternate
  | .sequence _ parts => exprMissedAll around.used parts

def exprMissedAll (around : Setting) : List Expr → List Occurrence
  | [] => []
  | expr :: more => exprMissed around expr ++ exprMissedAll around more

def memberMissed (around : Setting) : List ObjectMember → List Occurrence
  | [] => []
  | .property key value :: more =>
      keyMissed around key ++ exprMissed around.used value ++ memberMissed around more
  | .method key fn :: more => keyMissed around key ++ functionMissed fn ++ memberMissed around more
  | .spread inner :: more => exprMissed around.used inner ++ memberMissed around more

def keyMissed (around : Setting) : Key → List Occurrence
  | .hole => []
  | .name .. => []
  | .computed _ inner => exprMissed around.used inner

/-- What is missed of a target that takes a value as it is: all of it, unless it is a name or an
access. -/
def baseMissed (around : Setting) : Expr → List Occurrence
  | .member _ object _ _ => exprMissed around.used object
  | .index _ object key => exprMissed around.used object ++ exprMissed around.used key
  | .name .. => []
  | .paren _ inner => baseMissed around inner
  | other => exprNodes around other

/-- What is missed of a target that takes a value apart. -/
def targetMissed (around : Setting) : Expr → List Occurrence
  | .name .. => []
  | .paren _ inner => targetMissed around inner
  | .member _ object _ _ => exprMissed around.used object
  | .index _ object key => exprMissed around.used object ++ exprMissed around.used key
  | .array _ elements => targetMissedAll around.used elements
  | .object _ members => targetMemberMissed around.used members
  | .spread _ inner => targetMissed around.used inner
  | .assign _ _ target value => targetMissed around.used target ++ exprMissed around.used value
  | other => exprNodes around other

def targetMissedAll (around : Setting) : List Expr → List Occurrence
  | [] => []
  | target :: more => targetMissed around target ++ targetMissedAll around more

def targetMemberMissed (around : Setting) : List ObjectMember → List Occurrence
  | [] => []
  | .property key value :: more =>
      keyMissed around key ++ targetMissed around.used value ++ targetMemberMissed around more
  | .method key fn :: more =>
      functionNode around .method fn.span fn ::
        (keyNodes around key ++ functionNodes fn ++ targetMemberMissed around more)
  | .spread inner :: more => targetMissed around.used inner ++ targetMemberMissed around more

def functionMissed : Function → List Occurrence
  | .mk span _ parameters body =>
      parameterMissed (.parametersOf span) parameters ++ bodyMissed (.bodyOf span) body

def bodyMissed (around : Setting) : Stmt → List Occurrence
  | .block _ body => stmtMissedAll around body
  | .expr _ value _ => exprMissed around.used value
  | other => stmtNodes around other

def parameterMissed (around : Setting) : List Binding → List Occurrence
  | [] => []
  | .mk _ pattern value :: more =>
      patternMissed around pattern ++ exprMissed around.used value ++ parameterMissed around more

def declaratorMissed (around : Setting) : List Binding → List Occurrence
  | [] => []
  | .mk _ .hole value :: more => exprNodes around.used value ++ declaratorMissed around more
  | .mk _ pattern value :: more =>
      patternMissed around pattern ++ exprMissed around.used value ++ declaratorMissed around more

/-- The values in the head of a loop over a value are missed. -/
def headMissed (around : Setting) : List Binding → List Occurrence
  | [] => []
  | .mk _ pattern value :: more =>
      patternMissed around pattern ++ exprNodes around.used value ++ headMissed around more

def patternMissed (around : Setting) : Pattern → List Occurrence
  | .hole => []
  | .name .. => []
  | .array _ elements => patternMissedAll around elements
  | .object _ entries => entryMissed around entries
  | .withDefault _ inner value => patternMissed around inner ++ exprMissed around.used value
  | .rest _ inner => patternMissed around inner

def patternMissedAll (around : Setting) : List Pattern → List Occurrence
  | [] => []
  | pattern :: more => patternMissed around pattern ++ patternMissedAll around more

def entryMissed (around : Setting) : List Entry → List Occurrence
  | [] => []
  | .property key pattern :: more =>
      keyMissed around key ++ patternMissed around pattern ++ entryMissed around more
  | .rest pattern :: more => patternMissed around pattern ++ entryMissed around more

def stmtMissed (around : Setting) : Stmt → List Occurrence
  | .hole => []
  | .var _ _ declarators => declaratorMissed around declarators
  | .function _ _ fn => functionMissed fn
  | .block _ body => stmtMissedAll around body
  | .expr _ value _ => exprMissed around.used value
  | .empty _ => []
  | .breakOut _ => []
  | .continueOn _ => []
  | .ret _ value => exprMissed around.used value
  | .throw _ value => exprMissed around.used value
  | .cond _ test consequent alternate =>
      exprMissed around.used test ++ stmtMissed around consequent ++ stmtMissed around alternate
  | .while _ test body => exprMissed around.used test ++ stmtMissed around body
  | .doWhile _ body test => stmtMissed around body ++ exprMissed around.used test
  | .loop _ init test update body =>
      stmtMissed around init ++ exprMissed around.used test ++ exprMissed around.used update ++
        stmtMissed around body
  | .each _ _ head iterable body =>
      (match head with
        | .var _ _ declarators => headMissed around declarators
        | .expr _ target _ => targetMissed around.used target
        | other => stmtNodes around other) ++
        exprMissed around.used iterable ++ stmtMissed around body
  | .guarded _ body handler cleanup =>
      stmtMissed around body ++ handlerMissed around handler ++ stmtMissed around cleanup
  | .switch _ value cases => exprMissed around.used value ++ caseMissed around cases

def stmtMissedAll (around : Setting) : List Stmt → List Occurrence
  | [] => []
  | stmt :: more => stmtMissed around stmt ++ stmtMissedAll around more

def handlerMissed (around : Setting) : Handler → List Occurrence
  | .hole => []
  | .clause parameter body => patternMissed around parameter ++ stmtMissedAll around body

def caseMissed (around : Setting) : List Case → List Occurrence
  | [] => []
  | .mk _ test body :: more =>
      exprMissed around.used test ++ stmtMissedAll around body ++ caseMissed around more

end

end ShellAwait.Script
