import ShellAwait.Token.Significant

/-! # Looking ahead

All that a rule of the grammar may decide by: the tokens ahead, whether `in` is taken for an operator,
and whether a problem has been found.
-/

namespace ShellAwait.Grammar

structure View where
  ahead : List Lookahead
  /-- In the head of a loop `in` is no operator. -/
  noIn : Bool
  failed : Bool
deriving DecidableEq, Repr

/-- Whether the parenthesis that opened at depth zero of `tokens` closes right before an arrow. One count
serves for brackets of every kind. -/
def closesBeforeArrow (depth : Nat) : List Lookahead → Bool
  | [] => false
  | t :: rest =>
      match t.kind with
      | .lParen | .lBracket | .lBrace | .interpolationStart => closesBeforeArrow (depth + 1) rest
      | .rParen | .rBracket | .rBrace =>
          if depth ≤ 1 then rest.head?.any (·.kind == .fatArrow)
          else closesBeforeArrow (depth - 1) rest
      | .interpolationEnd => closesBeforeArrow (depth - 1) rest
      | .eof => false
      | _ => closesBeforeArrow depth rest

namespace View

def nth (v : View) (n : Nat) : Lookahead := v.ahead.getD n .pastEnd

def kindAt (v : View) (n : Nat) : TokenKind := (v.nth n).kind

def kind (v : View) : TokenKind := v.kindAt 0

def breakAt (v : View) (n : Nat) : Bool := (v.nth n).breakBefore

def next (v : View) (kind : TokenKind) : Bool := v.kind == kind

def nextIn (v : View) (kinds : List TokenKind) : Bool := kinds.contains v.kind

def nextWord (v : View) (word : String) : Bool :=
  v.kind == .ident && (v.nth 0).text == word.toList

def endsStatement (v : View) : Bool := v.nextIn [.semicolon, .rBrace, .eof] || v.breakAt 0

/-- Whether the elements of an enclosure that closes with `closer` go on. -/
def within (v : View) (closer : TokenKind) : Bool :=
  !v.next closer && !v.next .eof && !v.failed

/-- Whether the parenthesis `n` places ahead opens the parameters of an arrow function. -/
def parametersAt (v : View) (n : Nat) : Bool :=
  v.kindAt n == .lParen && closesBeforeArrow 0 (v.ahead.drop n)

def startsAsyncFunction (v : View) : Bool :=
  v.nextWord "async" && v.kindAt 1 == .functionKw && !v.breakAt 1

def startsArrow (v : View) : Bool :=
  match v.kind with
  | .lParen => v.parametersAt 0
  | .ident =>
      if v.kindAt 1 == .fatArrow then true
      else if v.nextWord "async" && !v.breakAt 1 then
        match v.kindAt 1 with
        | .ident => v.kindAt 2 == .fatArrow
        | .lParen => v.parametersAt 1
        | _ => false
      else false
  | _ => false

def startsKey (v : View) : Bool :=
  v.kind.isReserved || v.nextIn [.ident, .string, .number, .lBracket]

/-- Whether a word here modifies the key that follows, and is no key itself. -/
def modifiesKey (v : View) : Bool :=
  !([TokenKind.comma, .colon, .lParen, .rBrace, .eq].contains (v.kindAt 1))

end View

end ShellAwait.Grammar
