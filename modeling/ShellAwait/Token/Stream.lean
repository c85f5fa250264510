import ShellAwait.Token.Scanner

/-! # The token stream of a script

What a character means depends on the templates it stands in and on the token before it: a slash divides
after an operand, and a closing brace may end an interpolation. The context is a function of the kinds of
the tokens so far.
-/

namespace ShellAwait.Token

open Text

inductive Mode where
  | template
  /-- Inside an interpolation, with this many braces open. -/
  | interpolation (depth : Nat)
deriving DecidableEq, Repr

structure Context where
  /-- The templates and interpolations around the next token, innermost first. -/
  modes : List Mode
  /-- The kind of the last token that is not trivia. -/
  last : Option TokenKind
  atStart : Bool
deriving DecidableEq, Repr

namespace Context

def start : Context := ⟨[], none, true⟩

def inTemplate (context : Context) : Bool := context.modes.head? == some .template

def slashDivides (context : Context) : Bool := context.last.any TokenKind.endsOperand

def closingBrace (context : Context) : TokenKind :=
  match context.modes with
  | .interpolation 0 :: _ => .interpolationEnd
  | _ => .rBrace

end Context

/-- The modes after a token. Inside a template an error token is its end. -/
def modesAfter (modes : List Mode) (kind : TokenKind) : List Mode :=
  match kind, modes with
  | .templateStart, modes => .template :: modes
  | .interpolationStart, modes => .interpolation 0 :: modes
  | .templateEnd, _ :: outer => outer
  | .interpolationEnd, _ :: outer => outer
  | .error, .template :: outer => outer
  | .lBrace, .interpolation depth :: outer => .interpolation (depth + 1) :: outer
  | .rBrace, .interpolation (depth + 1) :: outer => .interpolation depth :: outer
  | _, modes => modes

def Context.after (context : Context) (kind : TokenKind) : Context where
  modes := modesAfter context.modes kind
  last := if kind.isTrivia then context.last else some kind
  atStart := false

/-! ## Punctuation -/

/-- Punctuation, longer spellings first, so that the first match is the longest. -/
def punctuation : List (List Char × TokenKind) :=
  [(">>>=", .uShrEq), ("===", .eqEqEq), ("!==", .notEqEq), ("**=", .starStarEq), ("<<=", .shlEq),
   (">>=", .shrEq), (">>>", .uShr), ("&&=", .ampAmpEq), ("||=", .pipePipeEq),
   ("??=", .questionQuestionEq), ("...", .dotDotDot), ("=>", .fatArrow), ("==", .eqEq),
   ("!=", .notEq), ("<=", .ltEq), (">=", .gtEq), ("<<", .shl), (">>", .shr), ("**", .starStar),
   ("++", .plusPlus), ("--", .minusMinus), ("&&", .ampAmp), ("||", .pipePipe),
   ("??", .questionQuestion), ("+=", .plusEq), ("-=", .minusEq), ("*=", .starEq), ("/=", .slashEq),
   ("%=", .percentEq), ("&=", .ampEq), ("|=", .pipeEq), ("^=", .caretEq), ("=", .eq), ("<", .lt),
   (">", .gt), ("+", .plus), ("-", .minus), ("*", .star), ("/", .slash), ("%", .percent),
   ("&", .amp), ("|", .pipe), ("^", .caret), ("~", .tilde), ("!", .bang), ("?", .question),
   (":", .colon), (".", .dot), ("(", .lParen), (")", .rParen), ("[", .lBracket), ("]", .rBracket),
   (",", .comma), (";", .semicolon)].map fun (spelling, kind) => (spelling.toList, kind)

/-! ## One token -/

structure Lexeme where
  kind : TokenKind
  text : List Char
  rest : List Char
deriving DecidableEq, Repr

def Lexeme.of (kind : TokenKind) (cut : Cut) : Lexeme := ⟨kind, cut.taken, cut.rest⟩

/-- A literal of this kind, or an error token if it was never closed. -/
def Lexeme.ofLiteral (kind : TokenKind) (literal : Literal) : Lexeme :=
  ⟨if literal.closed then kind else .error, literal.cut.taken, literal.cut.rest⟩

/-- A question mark before a dot and a digit stands by itself, as in a conditional with a fraction. -/
def scanPunctuation : List Char → Lexeme
  | '?' :: '.' :: rest =>
      if rest.head?.any Char.isDigit then ⟨.question, ['?'], '.' :: rest⟩
      else ⟨.questionDot, ['?', '.'], rest⟩
  | text =>
      match punctuation.find? fun entry => entry.1.isPrefixOf text with
      | some (spelling, kind) => ⟨kind, spelling, text.drop spelling.length⟩
      | none => ⟨.error, text.take 1, text.drop 1⟩

def scanName (text : List Char) : Lexeme :=
  let cut := Cut.run continuesName text
  Lexeme.of ((reservedKind? (String.ofList cut.taken)).getD .ident) cut

def scanString (quote : Char) (rest : List Char) : Lexeme :=
  Lexeme.ofLiteral .string ((stringBody quote rest).push quote)

def scanRegex (rest : List Char) : Lexeme :=
  let body := (regexBody false rest).push '/'
  if body.closed then Lexeme.of .regex (body.cut.follow (Cut.run continuesName))
  else Lexeme.of .error body.cut

def scanTemplatePart : List Char → Lexeme
  | '`' :: rest => ⟨.templateEnd, ['`'], rest⟩
  | '$' :: '{' :: rest => ⟨.interpolationStart, ['$', '{'], rest⟩
  | text => Lexeme.ofLiteral .templateContent (templateText text)

def Context.scanAt (context : Context) (c : Char) (rest : List Char) : Lexeme :=
  if isLineTerminator c then Lexeme.of .newline (lineBreak (c :: rest))
  else if isBlank c then
    Lexeme.of .whitespace (Cut.run (fun b => isBlank b && !isLineTerminator b) (c :: rest))
  else if c = '#' && context.atStart && rest.head? == some '!' then
    Lexeme.of .comment (toEndOfLine (c :: rest))
  else if c = '/' && rest.head? == some '/' then Lexeme.of .comment (toEndOfLine (c :: rest))
  else if c = '/' && rest.head? == some '*' then
    Lexeme.ofLiteral .comment (((commentBody (rest.drop 1)).push '*').push '/')
  else if c.isDigit || (c = '.' && rest.head?.any Char.isDigit) then
    Lexeme.of .number (number (c :: rest))
  else if c = '"' || c = '\'' then scanString c rest
  else if c = '`' then ⟨.templateStart, [c], rest⟩
  else if c = '/' && !context.slashDivides then scanRegex rest
  else if c = '{' then ⟨.lBrace, [c], rest⟩
  else if c = '}' then ⟨context.closingBrace, [c], rest⟩
  else if startsName c then scanName (c :: rest)
  else scanPunctuation (c :: rest)

/-- The next token, or nothing at the end of the text. Inside a template the end of the text is itself an
error token, which may be empty. -/
def Context.scan (context : Context) (text : List Char) : Option Lexeme :=
  if context.inTemplate then some (scanTemplatePart text)
  else
    match text with
    | [] => none
    | c :: rest => some (context.scanAt c rest)

/-! ## All tokens -/

def tokensFrom : Nat → Context → List Char → List Token
  | 0, _, _ => []
  | fuel + 1, context, text =>
      match context.scan text with
      | none => [endOfText]
      | some lexeme =>
          ⟨lexeme.kind, lexeme.text⟩ :: tokensFrom fuel (context.after lexeme.kind) lexeme.rest

/-- The tokens of a script. The last one marks the end of the text. Every other token takes a character,
but for one that may report an unfinished template, so the fuel does not run out. -/
def tokenize (source : List Char) : List Token := tokensFrom (source.length + 2) .start source

end ShellAwait.Token
