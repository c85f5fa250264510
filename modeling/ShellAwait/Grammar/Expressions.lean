import ShellAwait.Grammar.Functions
import ShellAwait.Grammar.Operators

/-! # Expressions

From the comma operator down to literals, with member, index, call and template links.
-/

namespace ShellAwait.Grammar

open Rule

/-! ## Links -/

/-- A member name may be a reserved word. -/
def memberName : Rule :=
  node .memberName (look fun v =>
    if v.next .ident || v.kind.isReserved then eat v.kind else report .missingMemberName)

def indexTail : Rule := bracket .index (withNoIn false (succeed (call .expression)))

def spread : Rule := node .spreadElement (eat .dotDotDot ++ call .assignment)

def element : Rule := look fun v => if v.next .dotDotDot then spread else call .assignment

def argumentList : Rule :=
  node .argList (bracket .argumentList
    (withNoIn false (many (·.within .rParen) (element ++ eat .comma))))

/-- Template text and interpolations up to the closing backtick. After a problem at most one part is
read, and the template is left open. -/
def templateParts : Rule :=
  let part := look fun v =>
    if v.next .templateContent then eat .templateContent
    else node .interpolation (bracket .interpolation (succeed (call .expression)))
  let hasPart := fun (v : View) => v.nextIn [.templateContent, .interpolationStart]
  look fun v =>
    if hasPart v then
      part ++ many (fun v => !v.failed && hasPart v) (succeed part) ++
        look fun v => if v.failed then fail else skip
    else skip

def template : Rule := node .template (bracket .template templateParts)

/-- The links that may follow any operand. -/
def linkKinds : List TokenKind := [.dot, .questionDot, .lBracket, .lParen, .templateStart]

def link : Rule :=
  look fun v =>
    match v.kind with
    | .dot => wrap .memberExpr (eat .dot ++ memberName)
    | .questionDot =>
        match v.kindAt 1 with
        | .lParen => wrap .callExpr (eat .questionDot ++ argumentList)
        | .lBracket => wrap .indexExpr (eat .questionDot ++ indexTail)
        | _ => wrap .memberExpr (eat .questionDot ++ memberName)
    | .lBracket => wrap .indexExpr indexTail
    | .lParen => wrap .callExpr argumentList
    | .templateStart => wrap .taggedTemplate template
    | _ => fail

/-! ## Operands -/

def arrayExpr : Rule :=
  node .arrayExpr (bracket .array (withNoIn false (separatedWithHoles .rBracket element)))

/-- A member of an object literal: a spread element, a method, a name that is its own value, or a key
with a value. -/
def property : Rule :=
  look fun v =>
    if v.next .dotDotDot then spread
    else if (v.nextWord "get" || v.nextWord "set") && v.modifiesKey then
      node .broken (report (.unsupported .accessors))
    else if v.next .star then node .broken (report (.unsupported .generators))
    else if v.nextWord "async" && v.modifiesKey && !v.breakAt 1 then
      node .method (eat .ident ++ propertyKey ++ parameterList ++ block)
    else if v.next .ident && [TokenKind.comma, .rBrace].contains (v.kindAt 1) then
      node .property (node .nameRef (eat .ident))
    else
      node .property (propertyKey ++ look fun v =>
        if v.next .lParen then become .method ++ parameterList ++ block
        else expect .colon ++ call .assignment)

def objectExpr : Rule :=
  node .objectExpr (bracket .objectLiteral (withNoIn false (separated .rBrace property)))

/-- The callee of `new` is a chain of members and indices without calls. -/
def newExpression : Rule :=
  node .newExpr (eat .newKw ++
    andThen (look fun v => if v.next .newKw then call .newExpression else call .primary)
      (many (fun v => !v.failed && v.nextIn [.dot, .lBracket]) link ++
        whenNext .lParen argumentList))

def primary : Rule :=
  look fun v =>
    match v.kind with
    | .number | .string | .regex | .trueKw | .falseKw | .nullKw => node .literal (eat v.kind)
    | .ident => if v.startsAsyncFunction then functionExpr else node .nameRef (eat .ident)
    | .thisKw => node .thisExpr (eat .thisKw)
    | .lParen =>
        node .parenExpr (bracket .parenthesis (withNoIn false (succeed (call .expression))))
    | .lBracket => arrayExpr
    | .lBrace => objectExpr
    | .templateStart => template
    | .newKw => call .newExpression
    | .functionKw => functionExpr
    | .classKw => report (.unsupported .classes)
    | .error => report .badToken
    | _ => report .missingExpression

/-! ## Operators -/

/-- Operators in front, `await`, and an operand with its links and a trailing increment. -/
def unary : Rule :=
  look fun v =>
    if v.next .awaitKw then node .awaitExpr (eat .awaitKw ++ call .unary)
    else if leadsOperand v.kind then node .prefixExpr (eat v.kind ++ call .unary)
    else
      andThen (andThen (call .primary) (many (fun v => !v.failed && v.nextIn linkKinds) link))
        (look fun v =>
          if v.nextIn [.plusPlus, .minusMinus] && !v.breakAt 0 then wrap .postfixExpr (eat v.kind)
          else skip)

def binary (floor : Nat) : Rule :=
  andThen (call .unary) (many (fun v => !v.failed && v.joins floor) (look fun v =>
    match v.power? with
    | some power => wrap .binaryExpr (eat v.kind ++ call (.binary power.right))
    | none => fail))

def assignment : Rule :=
  look fun v =>
    if v.startsArrow then arrow
    else if v.next .yieldKw then report (.unsupported .generators)
    else
      andThen (call (.binary 0)) (look fun v =>
        if v.next .question then
          wrap .condExpr (eat .question ++ withNoIn false (call .assignment) ++ expect .colon ++
            call .assignment)
        else if v.kind.isAssignment then wrap .assignExpr (eat v.kind ++ call .assignment)
        else skip)

def expression : Rule :=
  andThen (call .assignment) (whenNext .comma
    (wrap .sequenceExpr (many (·.next .comma) (eat .comma ++ call .assignment))))

end ShellAwait.Grammar
