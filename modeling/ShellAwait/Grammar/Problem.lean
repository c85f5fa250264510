import ShellAwait.Token.Kind

/-! # Syntax problems

What can be wrong with a script, and the words for it. A construct that is opened and never closed points
back at its opening token.
-/

namespace ShellAwait.Grammar

inductive Enclosure where
  | block | condition | loopHead | catchBinding | switchBody | index | parenthesis | argumentList
  | array | objectLiteral | computedKey | parameterList | arrayPattern | objectPattern | template
  | interpolation
deriving DecidableEq, Repr

/-- Constructs that scripts of the shell may not use. -/
inductive Feature where
  | classes | modules | labels | generators | accessors | asyncLoops
deriving DecidableEq, Repr

inductive Problem where
  | expected (kind : TokenKind)
  | unclosed (what : Enclosure)
  | unsupported (feature : Feature)
  | missingExpression
  | missingPattern
  | missingKey
  | missingMemberName
  | missingFunctionName
  | missingTerminator
  | missingHandler
  | missingCase
  | breakAfterThrow
  | badToken
deriving DecidableEq, Repr

namespace Enclosure

def opener : Enclosure → TokenKind
  | .block | .switchBody | .objectLiteral | .objectPattern => .lBrace
  | .condition | .loopHead | .catchBinding | .parenthesis | .argumentList | .parameterList => .lParen
  | .index | .array | .computedKey | .arrayPattern => .lBracket
  | .template => .templateStart
  | .interpolation => .interpolationStart

def closer : Enclosure → TokenKind
  | .block | .switchBody | .objectLiteral | .objectPattern => .rBrace
  | .condition | .loopHead | .catchBinding | .parenthesis | .argumentList | .parameterList => .rParen
  | .index | .array | .computedKey | .arrayPattern => .rBracket
  | .template => .templateEnd
  | .interpolation => .interpolationEnd

/-- Whether the problem of a missing end points back at the opening token. -/
def pointsBack : Enclosure → Bool
  | .template | .interpolation => false
  | _ => true

def label : Enclosure → String
  | .block => "block"
  | .condition => "condition"
  | .loopHead => "loop head"
  | .catchBinding => "catch binding"
  | .switchBody => "switch body"
  | .index => "index"
  | .parenthesis => "parenthesis"
  | .argumentList => "argument list"
  | .array => "array"
  | .objectLiteral => "object literal"
  | .computedKey => "computed key"
  | .parameterList => "parameter list"
  | .arrayPattern => "array pattern"
  | .objectPattern => "object pattern"
  | .template => "template"
  | .interpolation => "interpolation"

end Enclosure

def spelling : TokenKind → String
  | .lParen => "`(`"
  | .rParen => "`)`"
  | .lBracket => "`[`"
  | .rBracket => "`]`"
  | .lBrace => ("`".push '{').push '`'
  | .rBrace | .interpolationEnd => ("`".push '}').push '`'
  | .comma => "`,`"
  | .semicolon => "`;`"
  | .colon => "`:`"
  | .eq => "`=`"
  | .fatArrow => "`=>`"
  | .whileKw => "`while`"
  | .ident => "an identifier"
  | .eof => "end of input"
  | other => other.leafName

def Feature.message : Feature → String
  | .classes => "classes are not supported"
  | .modules => "modules are not supported"
  | .labels => "labels are not supported"
  | .generators => "generators are not supported"
  | .accessors => "getters and setters are not supported"
  | .asyncLoops => "`for await` is not supported"

namespace Problem

def message : Problem → String
  | .expected kind => "expected " ++ spelling kind
  | .unclosed .template => "unterminated template literal"
  | .unclosed what => "expected " ++ spelling what.closer
  | .unsupported feature => feature.message
  | .missingExpression => "expected expression"
  | .missingPattern => "expected a binding name or pattern"
  | .missingKey => "expected a property name"
  | .missingMemberName => "expected a property name after `.`"
  | .missingFunctionName => "expected a function name"
  | .missingTerminator => "expected `;` or a line break"
  | .missingHandler => "expected `catch` or `finally` after `try` block"
  | .missingCase => "expected `case` or `default`"
  | .breakAfterThrow => "line break is not allowed after `throw`"
  | .badToken => "unterminated literal or unexpected character"

def openerMessage : Problem → String
  | .unclosed what => what.label ++ " opened here"
  | _ => ""

end Problem

end ShellAwait.Grammar
