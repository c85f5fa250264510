import ShellAwait.Analysis.Typing

/-! # Written names

Every name that a part of a script binds or assigns to, at any depth: declarations, parameters,
the names of functions, and the targets of assignments, step operators and loops.
-/

namespace ShellAwait.Script

mutual

/-- The names that an assignment to the expression changes. -/
def targetNames : Expr → List String
  | .name _ name => name.toList
  | .paren _ inner => targetNames inner
  | .array _ elements => targetNamesAll elements
  | .object _ members => memberTargetNames members
  | .spread _ inner => targetNames inner
  | .assign _ _ target _ => targetNames target
  | _ => []

def targetNamesAll : List Expr → List String
  | [] => []
  | target :: more => targetNames target ++ targetNamesAll more

def memberTargetNames : List ObjectMember → List String
  | [] => []
  | .property _ value :: more => targetNames value ++ memberTargetNames more
  | .method .. :: more => memberTargetNames more
  | .spread inner :: more => targetNames inner ++ memberTargetNames more

end

/-- The names that the head of a loop over a value assigns to. -/
def headNames : Stmt → List String
  | .expr _ target _ => targetNames target
  | _ => []

mutual

def exprWrites : Expr → List String
  | .hole => []
  | .literal .. => []
  | .template _ parts => exprWritesAll parts
  | .tagged _ tag parts => exprWrites tag ++ exprWritesAll parts
  | .name .. => []
  | .thisValue _ => []
  | .array _ elements => exprWritesAll elements
  | .object _ members => memberWrites members
  | .spread _ inner => exprWrites inner
  | .function _ name fn => name.toList ++ functionWrites fn
  | .arrow _ fn => functionWrites fn
  | .paren _ inner => exprWrites inner
  | .member _ object _ _ => exprWrites object
  | .index _ object key => exprWrites object ++ exprWrites key
  | .call _ callee arguments => exprWrites callee ++ exprWritesAll arguments
  | .construct _ callee _ arguments => exprWrites callee ++ exprWritesAll arguments
  | .unary _ operator operand =>
      (if Analysis.isStepOperator operator.kind then targetNames operand else []) ++
        exprWrites operand
  | .await _ operand => exprWrites operand
  | .update _ _ operand => targetNames operand ++ exprWrites operand
  | .binary _ _ left right => exprWrites left ++ exprWrites right
  | .assign _ _ target value => targetNames target ++ exprWrites target ++ exprWrites value
  | .cond _ test consequent alternate =>
      exprWrites test ++ exprWrites consequent ++ exprWrites alternate
  | .sequence _ parts => exprWritesAll parts

def exprWritesAll : List Expr → List String
  | [] => []
  | expr :: more => exprWrites expr ++ exprWritesAll more

def memberWrites : List ObjectMember → List String
  | [] => []
  | .property key value :: more => keyWrites key ++ exprWrites value ++ memberWrites more
  | .method key fn :: more => keyWrites key ++ functionWrites fn ++ memberWrites more
  | .spread inner :: more => exprWrites inner ++ memberWrites more

def keyWrites : Key → List String
  | .hole => []
  | .name .. => []
  | .computed _ inner => exprWrites inner

def functionWrites : Function → List String
  | .mk _ _ parameters body => bindingWrites parameters ++ stmtWrites body

def bindingWrites : List Binding → List String
  | [] => []
  | .mk _ pattern value :: more =>
      pattern.names ++ patternWrites pattern ++ exprWrites value ++ bindingWrites more

/-- What the defaults and computed keys of a pattern write. -/
def patternWrites : Pattern → List String
  | .hole => []
  | .name .. => []
  | .array _ elements => patternWritesAll elements
  | .object _ entries => entryWrites entries
  | .withDefault _ inner value => patternWrites inner ++ exprWrites value
  | .rest _ inner => patternWrites inner

def patternWritesAll : List Pattern → List String
  | [] => []
  | pattern :: more => patternWrites pattern ++ patternWritesAll more

def entryWrites : List Entry → List String
  | [] => []
  | .property key pattern :: more => keyWrites key ++ patternWrites pattern ++ entryWrites more
  | .rest pattern :: more => patternWrites pattern ++ entryWrites more

def stmtWrites : Stmt → List String
  | .hole => []
  | .var _ _ declarators => bindingWrites declarators
  | .function _ name fn => name.toList ++ functionWrites fn
  | .block _ body => stmtWritesAll body
  | .expr _ value _ => exprWrites value
  | .empty _ => []
  | .breakOut _ => []
  | .continueOn _ => []
  | .ret _ value => exprWrites value
  | .throw _ value => exprWrites value
  | .cond _ test consequent alternate =>
      exprWrites test ++ stmtWrites consequent ++ stmtWrites alternate
  | .while _ test body => exprWrites test ++ stmtWrites body
  | .doWhile _ body test => stmtWrites body ++ exprWrites test
  | .loop _ init test update body =>
      stmtWrites init ++ exprWrites test ++ exprWrites update ++ stmtWrites body
  | .each _ _ head iterable body =>
      headNames head ++ stmtWrites head ++ exprWrites iterable ++ stmtWrites body
  | .guarded _ body handler cleanup =>
      stmtWrites body ++ handlerWrites handler ++ stmtWrites cleanup
  | .switch _ value cases => exprWrites value ++ caseWrites cases

def stmtWritesAll : List Stmt → List String
  | [] => []
  | stmt :: more => stmtWrites stmt ++ stmtWritesAll more

def handlerWrites : Handler → List String
  | .hole => []
  | .clause parameter body => parameter.names ++ patternWrites parameter ++ stmtWritesAll body

def caseWrites : List Case → List String
  | [] => []
  | .mk _ test body :: more => exprWrites test ++ stmtWritesAll body ++ caseWrites more

end

theorem stmtWritesAll_append (a b : List Stmt) :
    stmtWritesAll (a ++ b) = stmtWritesAll a ++ stmtWritesAll b := by
  induction a with
  | nil => rfl
  | cons stmt more ih => rw [List.cons_append, stmtWritesAll, ih, stmtWritesAll, List.append_assoc]

end ShellAwait.Script
