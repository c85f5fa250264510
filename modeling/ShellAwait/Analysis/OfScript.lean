import ShellAwait.Analysis.Action
import ShellAwait.Analysis.Typing
import ShellAwait.Script.Names

/-! # The actions of a script

Every expression, pattern and statement stands for an action. An expression is used for its value, except
under an explicit `await`, which takes a deferred value as it is; parentheses pass either use on.
-/

namespace ShellAwait.Analysis

open Text

inductive Use where
  | consumed
  | awaited
deriving DecidableEq, Repr

namespace Action

/-- An access or a call: it is a site if it is consumed and its value deferred. -/
def site (use : Use) (kind : NodeKind) (span : Span) (a : Action) : Action :=
  match use with
  | .consumed => (a.recorded kind span).used span
  | .awaited => a.recorded kind span

def lookOptional : Option String → Action
  | some name => .look name
  | none => nothing

/-- A step operator leaves a number behind in a name. -/
def stepTarget : Expr → Action
  | .name _ (some name) => .assign name .number
  | _ => nothing

def assignName (target : Expr) (d : Descriptor) : Action :=
  match target with
  | .name _ (some name) => .assign name d
  | _ => nothing

def declareAll : List String → Action
  | [] => nothing
  | name :: more => (Action.declare name .unknown).andThen (declareAll more)

/-- A pattern with the given span takes apart what has been read. -/
def refuseShape (d : Descriptor) (span : Span) : Action :=
  match d.shapeName? with
  | some shape => .refuse shape span
  | none => nothing

def firstShape (a b : Descriptor) : Descriptor := if a.shapeName?.isSome then a else b

/-- The value that a pattern takes apart. A literal is looked into: what counts is the first shape among
its contents. -/
def source (value : Expr) (whole contents : Action) : Action :=
  match value with
  | .array span _ => contents.bind fun found => (Action.record .arrayExpr span .array).andThen (.give found)
  | .object span _ =>
      contents.bind fun found => (Action.record .objectExpr span .object).andThen (.give found)
  | _ => whole

def headPattern? : Stmt → Option Span
  | .var _ _ declarators =>
      declarators.findSome? fun
        | .mk _ .hole _ => none
        | .mk _ (.name ..) _ => none
        | .mk _ pattern _ => some pattern.span
  | .expr _ (.array span _) _ => some span
  | .expr _ (.object span _) _ => some span
  | _ => none

/-- The value that a loop runs over. A pattern takes its elements apart if they are written out. -/
def iterated (isOf : Bool) (head : Stmt) (iterable : Expr) (whole contents : Action) : Action :=
  match isOf, headPattern? head, iterable with
  | true, some span, .array .. => (source iterable whole contents).bind fun found => refuseShape found span
  | _, _, _ => whole

mutual

def ofExpr (c : Catalogue) (use : Use) : Expr → Action
  | .hole => nothing
  | .literal span kind _ => (give (literalDescriptor kind)).recorded .literal span
  | .template span parts => ((ofExprs c parts).andThen (.give .string)).recorded .template span
  | .tagged span tag parts =>
      site use .taggedTemplate span <|
        (ofExpr c .consumed tag).bind fun d => (ofExprs c parts).andThen (.give d.result)
  | .name span name => (lookOptional name).recorded .nameRef span
  | .thisValue span => nothing.recorded .thisExpr span
  | .array span elements => ((ofElements c elements).andThen (.give .array)).recorded .arrayExpr span
  | .object span members => ((ofMembers c members).andThen (.give .object)).recorded .objectExpr span
  | .spread span inner => ((ofExpr c .consumed inner).andThen nothing).recorded .spreadElement span
  | .function span name fn => (ofFunction c name fn).recorded .functionExpr span
  | .arrow span fn => (ofFunction c none fn).recorded .arrow span
  | .paren span inner => (ofExpr c use inner).recorded .parenExpr span
  | .member span object name _ =>
      site use .memberExpr span <|
        (ofExpr c .consumed object).map fun base => c.memberOf base name
  | .index span object key =>
      site use .indexExpr span <|
        (ofExpr c .consumed object).bind fun base =>
          (ofExpr c .consumed key).andThen
            (.give (c.memberOf base (key.stringValue?.map String.ofList)))
  | .call span callee arguments =>
      site use .callExpr span <|
        (ofExpr c .consumed callee).bind fun d => (ofExprs c arguments).andThen (.give d.result)
  | .construct span callee _ arguments =>
      site use .newExpr span <|
        ((ofExpr c .consumed callee).andThen (ofExprs c arguments)).andThen nothing
  | .unary span operator operand =>
      let stepped := if isStepOperator operator.kind then stepTarget operand else nothing
      (((ofExpr c .consumed operand).andThen stepped).andThen
        (.give (unaryDescriptor operator.kind))).recorded .prefixExpr span
  | .await span operand =>
      ((ofExpr c .awaited operand).bind fun d =>
        Action.awaiting.andThen (.give d.awaited)).recorded .awaitExpr span
  | .update span _ operand =>
      (((ofExpr c .consumed operand).andThen (stepTarget operand)).andThen
        (.give .number)).recorded .postfixExpr span
  | .binary span operator left right =>
      ((ofExpr c .consumed left).bind fun l =>
        if isLogical operator.kind then
          .fork (ofExpr c .consumed right) nothing fun r _ => l.common r
        else
          (ofExpr c .consumed right).map fun r => binaryDescriptor operator.kind l r).recorded
        .binaryExpr span
  | .assign span operator target value =>
      let assigned := match target with
        | .hole => nothing
        | .array .. | .object .. =>
            ((source value (ofExpr c .consumed value) (ofContents c value)).bind fun found =>
              refuseShape found target.span).andThen ((ofTarget c target).andThen nothing)
        | _ =>
            (ofBase c target).andThen <|
              ((ofExpr c .consumed value).map (assignedDescriptor operator.kind)).bind fun d =>
                (assignName target d).andThen (.give d)
      assigned.recorded .assignExpr span
  | .cond span test consequent alternate =>
      ((ofExpr c .consumed test).andThen
        (.fork (ofExpr c .consumed consequent) (ofExpr c .consumed alternate)
          Descriptor.common)).recorded .condExpr span
  | .sequence span parts => (ofExprs c parts).recorded .sequenceExpr span

def ofExprs (c : Catalogue) : List Expr → Action
  | [] => nothing
  | [expr] => ofExpr c .consumed expr
  | expr :: more => (ofExpr c .consumed expr).andThen (ofExprs c more)

/-- The elements of an array; yields the first that has a shape. -/
def ofElements (c : Catalogue) : List Expr → Action
  | [] => nothing
  | .spread span inner :: more =>
      (((ofExpr c .consumed inner).andThen nothing).recorded .spreadElement span).andThen
        (ofElements c more)
  | expr :: more =>
      (ofExpr c .consumed expr).bind fun d => (ofElements c more).map (firstShape d)

def ofMembers (c : Catalogue) : List ObjectMember → Action
  | [] => nothing
  | .property key value :: more =>
      (ofKey c key).andThen <| (ofExpr c .consumed value).bind fun d =>
        (ofMembers c more).map (firstShape d)
  | .method key fn :: more =>
      (ofKey c key).andThen ((ofFunction c none fn).andThen (ofMembers c more))
  | .spread inner :: more => (ofExpr c .consumed inner).andThen (ofMembers c more)

def ofKey (c : Catalogue) : Key → Action
  | .hole => nothing
  | .name .. => nothing
  | .computed _ inner => ofExpr c .consumed inner

def ofContents (c : Catalogue) : Expr → Action
  | .array _ elements => ofElements c elements
  | .object _ members => ofMembers c members
  | _ => nothing

/-- What is read of a target before its value. -/
def ofBase (c : Catalogue) : Expr → Action
  | .member span object _ _ =>
      (ofExpr c .consumed object).andThen (nothing.recorded .memberExpr span)
  | .index span object key =>
      ((ofExpr c .consumed object).andThen (ofExpr c .consumed key)).andThen
        (nothing.recorded .indexExpr span)
  | .name span name => (lookOptional name).recorded .nameRef span
  | .paren _ inner => ofBase c inner
  | _ => nothing

/-- A target of which nothing is known afterwards. Array and object literals are patterns here. -/
def ofTarget (c : Catalogue) : Expr → Action
  | .name _ (some name) => .assign name .unknown
  | .paren _ inner => ofTarget c inner
  | .member span object _ _ =>
      (ofExpr c .consumed object).andThen (nothing.recorded .memberExpr span)
  | .index span object key =>
      ((ofExpr c .consumed object).andThen (ofExpr c .consumed key)).andThen
        (nothing.recorded .indexExpr span)
  | .array _ elements => ofTargets c elements
  | .object _ members => ofTargetMembers c members
  | .spread _ inner => ofTarget c inner
  | .assign _ _ target value => (ofExpr c .consumed value).andThen (ofTarget c target)
  | _ => nothing

def ofTargets (c : Catalogue) : List Expr → Action
  | [] => nothing
  | target :: more => (ofTarget c target).andThen (ofTargets c more)

def ofTargetMembers (c : Catalogue) : List ObjectMember → Action
  | [] => nothing
  | .property key value :: more =>
      (ofKey c key).andThen ((ofTarget c value).andThen (ofTargetMembers c more))
  | .method .. :: more => ofTargetMembers c more
  | .spread inner :: more => (ofTarget c inner).andThen (ofTargetMembers c more)

/-- A function in a scope of its own, where it may know its own name. -/
def ofFunction (c : Catalogue) (self : Option String) : Function → Action
  | .mk span isAsync params body =>
      let inner := match body with
        | .block _ stmts =>
            (Action.hoist (ofDeclared c stmts .done)).andThen ((ofStmts c stmts).andThen .returned)
        | .expr _ value _ => ofExpr c .consumed value
        | _ => .returned
      .function span isAsync <| .scoped <|
        (declareAll self.toList).andThen ((Action.parameters (ofParameters c params)).andThen inner)

def ofParameters (c : Catalogue) : List Binding → Action
  | [] => nothing
  | .mk _ pattern value :: more =>
      (ofExpr c .consumed value).andThen <|
        ((ofPattern c pattern).andThen (declareAll pattern.names)).andThen (ofParameters c more)

def ofDeclarators (c : Catalogue) : List Binding → Action
  | [] => nothing
  | .mk _ pattern value :: more =>
      let bound := match pattern with
        | .hole => nothing
        | .name _ name => (ofExpr c .consumed value).bind fun d =>
            match name with
            | some name => .declare name d
            | none => nothing
        | pattern =>
            ((source value (ofExpr c .consumed value) (ofContents c value)).bind fun found =>
              refuseShape found pattern.span).andThen
              ((ofPattern c pattern).andThen (declareAll pattern.names))
      bound.andThen (ofDeclarators c more)

/-- The patterns of a declaration whose values come from elsewhere. -/
def ofHead (c : Catalogue) : List Binding → Action
  | [] => nothing
  | .mk _ pattern _ :: more =>
      ((ofPattern c pattern).andThen (declareAll pattern.names)).andThen (ofHead c more)

def ofPattern (c : Catalogue) : Pattern → Action
  | .hole => nothing
  | .name .. => nothing
  | .withDefault _ inner value => (ofPattern c inner).andThen (ofExpr c .consumed value)
  | .rest _ inner => ofPattern c inner
  | .array _ elements => ofPatterns c elements
  | .object _ entries => ofEntries c entries

def ofPatterns (c : Catalogue) : List Pattern → Action
  | [] => nothing
  | pattern :: more => (ofPattern c pattern).andThen (ofPatterns c more)

def ofEntries (c : Catalogue) : List Entry → Action
  | [] => nothing
  | .property key pattern :: more =>
      (ofKey c key).andThen ((ofPattern c pattern).andThen (ofEntries c more))
  | .rest pattern :: more => (ofPattern c pattern).andThen (ofEntries c more)

def ofStmt (c : Catalogue) : Stmt → Action
  | .hole => nothing
  | .var _ _ declarators => ofDeclarators c declarators
  | .function _ name fn =>
      (ofFunction c none fn).bind fun d =>
        match name with
        | some name => .declare name d
        | none => nothing
  | .block _ body =>
      .scoped ((Action.hoist (ofDeclared c body .done)).andThen (ofStmts c body))
  | .expr _ value _ => ofExpr c .consumed value
  | .empty _ => nothing
  | .breakOut _ => nothing
  | .continueOn _ => nothing
  | .ret _ value => if value.isHole then nothing else (ofExpr c .consumed value).bind .returning
  | .throw _ value => ofExpr c .consumed value
  | .cond _ test consequent alternate =>
      (ofExpr c .consumed test).andThen
        (.fork (ofStmt c consequent) (ofStmt c alternate) fun _ _ => .unknown)
  | .while _ test body =>
      .loop (Script.exprNames test ++ Script.stmtNames body)
        ((ofExpr c .consumed test).andThen (ofStmt c body))
  | .doWhile _ body test =>
      .loop (Script.stmtNames body ++ Script.exprNames test)
        ((ofStmt c body).andThen (ofExpr c .consumed test))
  | .loop _ init test update body =>
      .scoped <| (ofStmt c init).andThen <|
        .loop (Script.exprNames test ++ Script.stmtNames body ++ Script.exprNames update)
          (((ofExpr c .consumed test).andThen (ofStmt c body)).andThen (ofExpr c .consumed update))
  | .each _ isOf head iterable body =>
      let assigned := match head with
        | .var _ _ declarators => ofHead c declarators
        | .expr _ target _ => ofTarget c target
        | _ => nothing
      .scoped <|
        (iterated isOf head iterable (ofExpr c .consumed iterable) (ofContents c iterable)).andThen <|
        .loop (Script.stmtNames head ++ Script.stmtNames body) (assigned.andThen (ofStmt c body))
  | .guarded _ body handler cleanup =>
      (Action.fork (ofStmt c body) (ofHandler c handler) fun _ _ => .unknown).andThen
        (ofStmt c cleanup)
  | .switch _ value cases =>
      (ofExpr c .consumed value).andThen <| .scoped <|
        (Action.hoist (ofDeclaredCases c cases)).andThen <|
          .choose (ofCases c cases) (cases.any Case.isDefault)

def ofStmts (c : Catalogue) : List Stmt → Action
  | [] => nothing
  | stmt :: more => (ofStmt c stmt).andThen (ofStmts c more)

/-- The named function declarations of a statement list, before others. -/
def ofDeclared (c : Catalogue) : List Stmt → Declarations → Declarations
  | [], others => others
  | .function _ (some name) fn :: more, others =>
      .declaration name (ofFunction c none fn) (ofDeclared c more others)
  | _ :: more, others => ofDeclared c more others

def ofHandler (c : Catalogue) : Handler → Action
  | .hole => nothing
  | .clause parameter body =>
      .scoped <| ((ofPattern c parameter).andThen (declareAll parameter.names)).andThen <|
        (Action.hoist (ofDeclared c body .done)).andThen (ofStmts c body)

def ofCases (c : Catalogue) : List Case → Arms
  | [] => .done
  | .mk _ test body :: more => .arm (ofExpr c .consumed test) (ofStmts c body) (ofCases c more)

def ofDeclaredCases (c : Catalogue) : List Case → Declarations
  | [] => .done
  | .mk _ _ body :: more => ofDeclared c body (ofDeclaredCases c more)

end

def ofScript (c : Catalogue) (stmts : List Stmt) : Action :=
  (Action.hoist (ofDeclared c stmts .done)).andThen (ofStmts c stmts)

end Action

end ShellAwait.Analysis
