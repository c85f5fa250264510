import ShellAwait.Grammar.Rule

/-! # Binding patterns

Names, array and object patterns, defaults and rest elements.
-/

namespace ShellAwait.Grammar

open Rule

/-- The key of an object or of an object pattern: a word, a string, a number, or an expression in
brackets. -/
def propertyKey : Rule :=
  look fun v =>
    if v.next .lBracket then
      node .computedName (bracket .computedKey (succeed (call .assignment)))
    else if v.startsKey then node .propName (eat v.kind)
    else report .missingKey

def patternWithDefault : Rule :=
  andThen (call .pattern) (whenNext .eq (wrap .assignPat (eat .eq ++ call .assignment)))

def restPattern : Rule := node .restPat (eat .dotDotDot ++ call .pattern)

def arrayPattern : Rule :=
  node .arrayPat (bracket .arrayPattern (separatedWithHoles .rBracket
    (look fun v => if v.next .dotDotDot then restPattern else patternWithDefault)))

/-- A key with a pattern, or a name that is both. -/
def patternProperty : Rule :=
  node .patProp (look fun v =>
    if v.next .ident && v.kindAt 1 != .colon then patternWithDefault
    else propertyKey ++ expect .colon ++ patternWithDefault)

def objectPattern : Rule :=
  node .objectPat (bracket .objectPattern (separated .rBrace
    (look fun v => if v.next .dotDotDot then restPattern else patternProperty)))

def pattern : Rule :=
  look fun v =>
    match v.kind with
    | .ident => node .identPat (eat .ident)
    | .lBracket => arrayPattern
    | .lBrace => objectPattern
    | _ => report .missingPattern

end ShellAwait.Grammar
