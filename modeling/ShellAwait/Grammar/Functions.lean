import ShellAwait.Grammar.Patterns

/-! # Blocks and functions

Statement blocks, parameter lists, and the parts that declarations, function expressions, arrow functions
and methods share.
-/

namespace ShellAwait.Grammar

open Rule

/-- A block. Without its opening brace only a closing one is taken. -/
def block : Rule :=
  node .block (look fun v =>
    if v.next .lBrace then bracket .block (many (·.within .rBrace) (call .statement))
    else report (.expected .lBrace) ++ eat .rBrace)

def initializer : Rule := whenNext .eq (eat .eq ++ call .assignment)

def parameter : Rule := node .param (eat .dotDotDot ++ call .pattern ++ initializer)

def parameterList : Rule :=
  node .paramList (bracket .parameterList (separated .rParen parameter))

def functionTail (needsName : Bool) : Rule :=
  let rest := parameterList ++ unlessFailed block
  (look fun v => if v.nextWord "async" then eat .ident else skip) ++ expect .functionKw ++
    look fun v =>
      if v.next .star then report (.unsupported .generators)
      else if v.next .ident then eat .ident ++ rest
      else if needsName then report .missingFunctionName
      else rest

def functionExpr : Rule := node .functionExpr (functionTail false)

def functionDecl : Rule := node .functionDecl (functionTail true)

/-- An arrow function: a name or a parameter list, the arrow, and a block or an expression. -/
def arrow : Rule :=
  node .arrow <|
    (look fun v =>
      if v.nextWord "async" && v.kindAt 1 != .fatArrow then eat .ident else skip) ++
    (look fun v =>
      if v.next .ident then node .paramList (node .param (node .identPat (eat .ident)))
      else parameterList) ++
    expect .fatArrow ++
    look fun v => if v.next .lBrace then block else call .assignment

end ShellAwait.Grammar
