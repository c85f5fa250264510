import ShellAwait.Grammar.Functions

/-! # Statements

A statement may end without a semicolon before a closing brace, at the end of the text, and where the
line ends.
-/

namespace ShellAwait.Grammar

open Rule

def terminator : Rule :=
  look fun v =>
    if v.next .semicolon then eat .semicolon
    else if v.endsStatement then skip
    else report .missingTerminator

def declarator : Rule := node .declarator (call .pattern ++ initializer)

def declaration : Rule :=
  takeAny ++ declarator ++ many (fun v => !v.failed && v.next .comma) (eat .comma ++ declarator)

def condition : Rule := bracket .condition (succeed (call .expression))

def ifStatement : Rule :=
  node .ifStmt (eat .ifKw ++ condition ++ call .statement ++ look fun v =>
    if v.next .elseKw && !v.failed then node .elseClause (eat .elseKw ++ call .statement)
    else skip)

def whileStatement : Rule :=
  node .whileStmt (eat .whileKw ++ condition ++ unlessFailed (call .statement))

def doWhileStatement : Rule :=
  node .doWhileStmt (eat .doKw ++ call .statement ++ expect .whileKw ++ condition ++ eat .semicolon)

def loopClauses : Rule :=
  let clause (kind : NodeKind) (stop : TokenKind) : Rule :=
    node kind (look fun v => if v.next stop || v.failed then skip else call .expression)
  expect .semicolon ++ clause .forTest .semicolon ++ expect .semicolon ++ clause .forUpdate .rParen

/-- The head of a loop between its parentheses. What stands first decides the kind of the loop, and a
problem in it or before it leaves the head open. -/
def loopHead : Rule :=
  look fun v =>
    if v.next .semicolon then
      if v.failed then fail else node .forInit skip ++ succeed loopClauses
    else
      andThen
        (withNoIn true (look fun v =>
          if v.nextIn [.varKw, .letKw, .constKw] then node .varDecl declaration
          else call .expression))
        (look fun v =>
          if v.failed then fail
          else if v.nextWord "of" then
            become .forInStmt ++ eat .ident ++ succeed (call .assignment)
          else if v.next .inKw then
            become .forInStmt ++ eat .inKw ++ succeed (call .expression)
          else wrap .forInit skip ++ succeed loopClauses)

def forStatement : Rule :=
  node .forStmt (eat .forKw ++ look fun v =>
    if v.next .awaitKw then report (.unsupported .asyncLoops)
    else bracket .loopHead loopHead ++ unlessFailed (call .statement))

def returnStatement : Rule :=
  node .returnStmt (eat .returnKw ++
    (look fun v => if v.endsStatement then skip else call .expression) ++ terminator)

def jumpStatement (kind : NodeKind) : Rule :=
  node kind (takeAny ++
    (look fun v =>
      if v.next .ident && !v.breakAt 0 then report (.unsupported .labels) else skip) ++
    terminator)

def throwStatement : Rule :=
  node .throwStmt (eat .throwKw ++ look fun v =>
    if v.breakAt 0 then report .breakAfterThrow else call .expression ++ terminator)

def catchClause : Rule :=
  node .catchClause (eat .catchKw ++
    whenNext .lParen (bracket .catchBinding (succeed (call .pattern))) ++ block)

def finallyClause : Rule := node .finallyClause (eat .finallyKw ++ block)

def tryStatement : Rule :=
  node .tryStmt (eat .tryKw ++ block ++ look fun v =>
    if v.next .catchKw && !v.failed then
      catchClause ++
        look fun v => if v.next .finallyKw && !v.failed then finallyClause else skip
    else if v.next .finallyKw && !v.failed then finallyClause
    else report .missingHandler)

def caseBody : Rule :=
  expect .colon ++
    many (fun v => !v.nextIn [.caseKw, .defaultKw, .rBrace, .eof] && !v.failed) (call .statement)

def switchCase : Rule :=
  node .switchCase (look fun v =>
    if v.next .caseKw then eat .caseKw ++ call .expression ++ caseBody
    else if v.next .defaultKw then eat .defaultKw ++ caseBody
    else report .missingCase)

def switchStatement : Rule :=
  node .switchStmt (eat .switchKw ++ condition ++
    bracket .switchBody (many (·.within .rBrace) switchCase))

def expressionStatement : Rule := node .exprStmt (andThen (call .expression) terminator)

def statement : Rule :=
  look fun v =>
    match v.kind with
    | .lBrace => block
    | .varKw | .letKw | .constKw => node .varDecl (declaration ++ terminator)
    | .functionKw => functionDecl
    | .ifKw => ifStatement
    | .whileKw => whileStatement
    | .doKw => doWhileStatement
    | .forKw => forStatement
    | .returnKw => returnStatement
    | .breakKw => jumpStatement .breakStmt
    | .continueKw => jumpStatement .continueStmt
    | .throwKw => throwStatement
    | .tryKw => tryStatement
    | .switchKw => switchStatement
    | .semicolon => node .emptyStmt (eat .semicolon)
    | .classKw => report (.unsupported .classes)
    | .importKw | .exportKw => report (.unsupported .modules)
    | .ident =>
        if v.startsAsyncFunction then functionDecl
        else if v.kindAt 1 == .colon then report (.unsupported .labels)
        else expressionStatement
    | _ => expressionStatement

end ShellAwait.Grammar
