import ShellAwait.Script.Syntax

/-! # The names of a script

Every name that a part of a script reads, assigns or declares, with repetitions.
-/

namespace ShellAwait.Script

mutual

def exprNames : Expr → List String
  | .hole => []
  | .literal .. => []
  | .template _ parts => exprNamesAll parts
  | .tagged _ tag parts => exprNames tag ++ exprNamesAll parts
  | .name _ name => name.toList
  | .thisValue _ => []
  | .array _ elements => exprNamesAll elements
  | .object _ members => memberNames members
  | .spread _ inner => exprNames inner
  | .function _ name function => name.toList ++ functionNames function
  | .arrow _ function => functionNames function
  | .paren _ inner => exprNames inner
  | .member _ object _ _ => exprNames object
  | .index _ object key => exprNames object ++ exprNames key
  | .call _ callee arguments => exprNames callee ++ exprNamesAll arguments
  | .construct _ callee _ arguments => exprNames callee ++ exprNamesAll arguments
  | .unary _ _ operand => exprNames operand
  | .await _ operand => exprNames operand
  | .update _ _ operand => exprNames operand
  | .binary _ _ left right => exprNames left ++ exprNames right
  | .assign _ _ target value => exprNames target ++ exprNames value
  | .cond _ test consequent alternate =>
      exprNames test ++ exprNames consequent ++ exprNames alternate
  | .sequence _ parts => exprNamesAll parts

def exprNamesAll : List Expr → List String
  | [] => []
  | expr :: more => exprNames expr ++ exprNamesAll more

def memberNames : List ObjectMember → List String
  | [] => []
  | .property key value :: more => keyNames key ++ exprNames value ++ memberNames more
  | .method key function :: more => keyNames key ++ functionNames function ++ memberNames more
  | .spread inner :: more => exprNames inner ++ memberNames more

def keyNames : Key → List String
  | .hole => []
  | .name .. => []
  | .computed _ inner => exprNames inner

def functionNames : Function → List String
  | .mk _ _ parameters body => bindingNames parameters ++ stmtNames body

def bindingNames : List Binding → List String
  | [] => []
  | .mk _ pattern value :: more => patternNames pattern ++ exprNames value ++ bindingNames more

def patternNames : Pattern → List String
  | .hole => []
  | .name _ bound => bound.toList
  | .array _ elements => patternNamesAll elements
  | .object _ entries => entryNames entries
  | .withDefault _ inner value => patternNames inner ++ exprNames value
  | .rest _ inner => patternNames inner

def patternNamesAll : List Pattern → List String
  | [] => []
  | pattern :: more => patternNames pattern ++ patternNamesAll more

def entryNames : List Entry → List String
  | [] => []
  | .property key pattern :: more => keyNames key ++ patternNames pattern ++ entryNames more
  | .rest pattern :: more => patternNames pattern ++ entryNames more

def stmtNames : Stmt → List String
  | .hole => []
  | .var _ _ declarators => bindingNames declarators
  | .function _ name function => name.toList ++ functionNames function
  | .block _ body => stmtNamesAll body
  | .expr _ value _ => exprNames value
  | .empty _ => []
  | .breakOut _ => []
  | .continueOn _ => []
  | .ret _ value => exprNames value
  | .throw _ value => exprNames value
  | .cond _ test consequent alternate =>
      exprNames test ++ stmtNames consequent ++ stmtNames alternate
  | .while _ test body => exprNames test ++ stmtNames body
  | .doWhile _ body test => stmtNames body ++ exprNames test
  | .loop _ init test update body =>
      stmtNames init ++ exprNames test ++ exprNames update ++ stmtNames body
  | .each _ _ head iterable body => stmtNames head ++ exprNames iterable ++ stmtNames body
  | .guarded _ body handler cleanup =>
      stmtNames body ++ handlerNames handler ++ stmtNames cleanup
  | .switch _ value cases => exprNames value ++ caseNames cases

def stmtNamesAll : List Stmt → List String
  | [] => []
  | stmt :: more => stmtNames stmt ++ stmtNamesAll more

def handlerNames : Handler → List String
  | .hole => []
  | .clause parameter body => patternNames parameter ++ stmtNamesAll body

def caseNames : List Case → List String
  | [] => []
  | .mk _ test body :: more => exprNames test ++ stmtNamesAll body ++ caseNames more

end

end ShellAwait.Script
