/-! # Kinds of nodes

The nodes of a script's tree: statements, binding patterns, expressions and their parts.
-/

namespace ShellAwait

inductive NodeKind where
  | broken | script | varDecl | declarator | functionDecl | paramList | param | block | exprStmt
  | emptyStmt | returnStmt | ifStmt | elseClause | whileStmt | doWhileStmt | forStmt | forInit
  | forTest | forUpdate | forInStmt | breakStmt | continueStmt | throwStmt | tryStmt
  | catchClause | finallyClause | switchStmt | switchCase | identPat | arrayPat | objectPat
  | patProp | assignPat | restPat | literal | template | interpolation | taggedTemplate | nameRef
  | thisExpr | arrayExpr | objectExpr | property | method | propName | computedName
  | spreadElement | functionExpr | arrow | parenExpr | memberExpr | memberName | indexExpr | callExpr
  | argList | newExpr | prefixExpr | awaitExpr | postfixExpr | binaryExpr | assignExpr | condExpr
  | sequenceExpr
deriving DecidableEq, Repr, Inhabited

namespace NodeKind

def name : NodeKind → String
  | .broken => "ERROR_NODE"
  | .script => "SOURCE_FILE"
  | .varDecl => "VAR_DECL"
  | .declarator => "DECLARATOR"
  | .functionDecl => "FN_DECL"
  | .paramList => "PARAM_LIST"
  | .param => "PARAM"
  | .block => "BLOCK"
  | .exprStmt => "EXPR_STMT"
  | .emptyStmt => "EMPTY_STMT"
  | .returnStmt => "RETURN_STMT"
  | .ifStmt => "IF_STMT"
  | .elseClause => "ELSE_CLAUSE"
  | .whileStmt => "WHILE_STMT"
  | .doWhileStmt => "DO_WHILE_STMT"
  | .forStmt => "FOR_STMT"
  | .forInit => "FOR_INIT"
  | .forTest => "FOR_TEST"
  | .forUpdate => "FOR_UPDATE"
  | .forInStmt => "FOR_IN_STMT"
  | .breakStmt => "BREAK_STMT"
  | .continueStmt => "CONTINUE_STMT"
  | .throwStmt => "THROW_STMT"
  | .tryStmt => "TRY_STMT"
  | .catchClause => "CATCH_CLAUSE"
  | .finallyClause => "FINALLY_CLAUSE"
  | .switchStmt => "SWITCH_STMT"
  | .switchCase => "SWITCH_CASE"
  | .identPat => "IDENT_PAT"
  | .arrayPat => "ARRAY_PAT"
  | .objectPat => "OBJECT_PAT"
  | .patProp => "PAT_PROP"
  | .assignPat => "ASSIGN_PAT"
  | .restPat => "REST_PAT"
  | .literal => "LITERAL"
  | .template => "TEMPLATE"
  | .interpolation => "INTERPOLATION"
  | .taggedTemplate => "TAGGED_TEMPLATE"
  | .nameRef => "NAME_REF"
  | .thisExpr => "THIS_EXPR"
  | .arrayExpr => "ARRAY_EXPR"
  | .objectExpr => "OBJECT_EXPR"
  | .property => "PROPERTY"
  | .method => "METHOD"
  | .propName => "PROP_NAME"
  | .computedName => "COMPUTED_NAME"
  | .spreadElement => "SPREAD_ELEMENT"
  | .functionExpr => "FN_EXPR"
  | .arrow => "ARROW_FN"
  | .parenExpr => "PAREN_EXPR"
  | .memberExpr => "MEMBER_EXPR"
  | .memberName => "NAME"
  | .indexExpr => "INDEX_EXPR"
  | .callExpr => "CALL_EXPR"
  | .argList => "ARG_LIST"
  | .newExpr => "NEW_EXPR"
  | .prefixExpr => "PREFIX_EXPR"
  | .awaitExpr => "AWAIT_EXPR"
  | .postfixExpr => "POSTFIX_EXPR"
  | .binaryExpr => "BINARY_EXPR"
  | .assignExpr => "ASSIGN_EXPR"
  | .condExpr => "COND_EXPR"
  | .sequenceExpr => "SEQUENCE_EXPR"

/-- Kinds that stand for one expression. A spread element counts, so that lists keep their order. -/
def isExpression : NodeKind → Bool
  | .literal | .template | .taggedTemplate | .nameRef | .thisExpr | .arrayExpr | .objectExpr
  | .spreadElement | .functionExpr | .arrow | .parenExpr | .memberExpr | .indexExpr | .callExpr
  | .newExpr | .prefixExpr | .awaitExpr | .postfixExpr | .binaryExpr | .assignExpr | .condExpr
  | .sequenceExpr => true
  | _ => false

/-- Expressions that may yield a deferred value and so may be awaited where they stand. -/
def isSite : NodeKind → Bool
  | .callExpr | .memberExpr | .indexExpr | .newExpr | .taggedTemplate => true
  | _ => false

def isFunction : NodeKind → Bool
  | .functionDecl | .functionExpr | .arrow | .method => true
  | _ => false

end NodeKind

end ShellAwait
