/-! # Kinds of tokens

Blanks, line breaks and comments are tokens of their own, so that a token stream keeps the whole text.
The words `async`, `of`, `get` and `set` are plain identifiers.
-/

namespace ShellAwait

inductive TokenKind where
  | awaitKw | breakKw | caseKw | catchKw | classKw | constKw | continueKw | defaultKw | deleteKw
  | doKw | elseKw | exportKw | falseKw | finallyKw | forKw | functionKw | ifKw | importKw | inKw
  | instanceofKw | letKw | newKw | nullKw | returnKw | switchKw | thisKw | throwKw | trueKw
  | tryKw | typeofKw | varKw | voidKw | whileKw | yieldKw | plus | minus | star | starStar
  | slash | percent | plusPlus | minusMinus | eq | eqEq | eqEqEq | notEq | notEqEq | lt | gt
  | ltEq | gtEq | shl | shr | uShr | amp | pipe | caret | tilde | bang | ampAmp | pipePipe
  | questionQuestion | question | questionDot | colon | dot | dotDotDot | fatArrow | plusEq
  | minusEq | starEq | starStarEq | slashEq | percentEq | shlEq | shrEq | uShrEq | ampEq | pipeEq
  | caretEq | ampAmpEq | pipePipeEq | questionQuestionEq | lParen | rParen | lBracket | rBracket
  | lBrace | rBrace | comma | semicolon | number | string | regex | templateStart
  | templateContent | interpolationStart | interpolationEnd | templateEnd | whitespace | newline
  | comment | ident | eof | error
deriving DecidableEq, Repr, Inhabited

namespace TokenKind

def name : TokenKind → String
  | .awaitKw => "Await"
  | .breakKw => "Break"
  | .caseKw => "Case"
  | .catchKw => "Catch"
  | .classKw => "Class"
  | .constKw => "Const"
  | .continueKw => "Continue"
  | .defaultKw => "Default"
  | .deleteKw => "Delete"
  | .doKw => "Do"
  | .elseKw => "Else"
  | .exportKw => "Export"
  | .falseKw => "False"
  | .finallyKw => "Finally"
  | .forKw => "For"
  | .functionKw => "Function"
  | .ifKw => "If"
  | .importKw => "Import"
  | .inKw => "In"
  | .instanceofKw => "Instanceof"
  | .letKw => "Let"
  | .newKw => "New"
  | .nullKw => "Null"
  | .returnKw => "Return"
  | .switchKw => "Switch"
  | .thisKw => "This"
  | .throwKw => "Throw"
  | .trueKw => "True"
  | .tryKw => "Try"
  | .typeofKw => "Typeof"
  | .varKw => "Var"
  | .voidKw => "Void"
  | .whileKw => "While"
  | .yieldKw => "Yield"
  | .plus => "Plus"
  | .minus => "Minus"
  | .star => "Star"
  | .starStar => "StarStar"
  | .slash => "Slash"
  | .percent => "Percent"
  | .plusPlus => "PlusPlus"
  | .minusMinus => "MinusMinus"
  | .eq => "Eq"
  | .eqEq => "EqEq"
  | .eqEqEq => "EqEqEq"
  | .notEq => "NotEq"
  | .notEqEq => "NotEqEq"
  | .lt => "Lt"
  | .gt => "Gt"
  | .ltEq => "LtEq"
  | .gtEq => "GtEq"
  | .shl => "Shl"
  | .shr => "Shr"
  | .uShr => "UShr"
  | .amp => "Amp"
  | .pipe => "Pipe"
  | .caret => "Caret"
  | .tilde => "Tilde"
  | .bang => "Bang"
  | .ampAmp => "AmpAmp"
  | .pipePipe => "PipePipe"
  | .questionQuestion => "QuestionQuestion"
  | .question => "Question"
  | .questionDot => "QuestionDot"
  | .colon => "Colon"
  | .dot => "Dot"
  | .dotDotDot => "DotDotDot"
  | .fatArrow => "FatArrow"
  | .plusEq => "PlusEq"
  | .minusEq => "MinusEq"
  | .starEq => "StarEq"
  | .starStarEq => "StarStarEq"
  | .slashEq => "SlashEq"
  | .percentEq => "PercentEq"
  | .shlEq => "ShlEq"
  | .shrEq => "ShrEq"
  | .uShrEq => "UShrEq"
  | .ampEq => "AmpEq"
  | .pipeEq => "PipeEq"
  | .caretEq => "CaretEq"
  | .ampAmpEq => "AmpAmpEq"
  | .pipePipeEq => "PipePipeEq"
  | .questionQuestionEq => "QuestionQuestionEq"
  | .lParen => "LParen"
  | .rParen => "RParen"
  | .lBracket => "LBracket"
  | .rBracket => "RBracket"
  | .lBrace => "LBrace"
  | .rBrace => "RBrace"
  | .comma => "Comma"
  | .semicolon => "Semicolon"
  | .number => "Number"
  | .string => "String"
  | .regex => "Regex"
  | .templateStart => "TemplateStart"
  | .templateContent => "TemplateContent"
  | .interpolationStart => "InterpolationStart"
  | .interpolationEnd => "InterpolationEnd"
  | .templateEnd => "TemplateEnd"
  | .whitespace => "Whitespace"
  | .newline => "Newline"
  | .comment => "Comment"
  | .ident => "Ident"
  | .eof => "Eof"
  | .error => "Error"

def leafName : TokenKind → String
  | .awaitKw => "AWAIT_KW"
  | .breakKw => "BREAK_KW"
  | .caseKw => "CASE_KW"
  | .catchKw => "CATCH_KW"
  | .classKw => "CLASS_KW"
  | .constKw => "CONST_KW"
  | .continueKw => "CONTINUE_KW"
  | .defaultKw => "DEFAULT_KW"
  | .deleteKw => "DELETE_KW"
  | .doKw => "DO_KW"
  | .elseKw => "ELSE_KW"
  | .exportKw => "EXPORT_KW"
  | .falseKw => "FALSE_KW"
  | .finallyKw => "FINALLY_KW"
  | .forKw => "FOR_KW"
  | .functionKw => "FUNCTION_KW"
  | .ifKw => "IF_KW"
  | .importKw => "IMPORT_KW"
  | .inKw => "IN_KW"
  | .instanceofKw => "INSTANCEOF_KW"
  | .letKw => "LET_KW"
  | .newKw => "NEW_KW"
  | .nullKw => "NULL_KW"
  | .returnKw => "RETURN_KW"
  | .switchKw => "SWITCH_KW"
  | .thisKw => "THIS_KW"
  | .throwKw => "THROW_KW"
  | .trueKw => "TRUE_KW"
  | .tryKw => "TRY_KW"
  | .typeofKw => "TYPEOF_KW"
  | .varKw => "VAR_KW"
  | .voidKw => "VOID_KW"
  | .whileKw => "WHILE_KW"
  | .yieldKw => "YIELD_KW"
  | .plus => "PLUS"
  | .minus => "MINUS"
  | .star => "STAR"
  | .starStar => "STAR_STAR"
  | .slash => "SLASH"
  | .percent => "PERCENT"
  | .plusPlus => "PLUS_PLUS"
  | .minusMinus => "MINUS_MINUS"
  | .eq => "EQ"
  | .eqEq => "EQ_EQ"
  | .eqEqEq => "EQ_EQ_EQ"
  | .notEq => "NOT_EQ"
  | .notEqEq => "NOT_EQ_EQ"
  | .lt => "LT"
  | .gt => "GT"
  | .ltEq => "LT_EQ"
  | .gtEq => "GT_EQ"
  | .shl => "SHL"
  | .shr => "SHR"
  | .uShr => "USHR"
  | .amp => "AMP"
  | .pipe => "PIPE"
  | .caret => "CARET"
  | .tilde => "TILDE"
  | .bang => "BANG"
  | .ampAmp => "AMP_AMP"
  | .pipePipe => "PIPE_PIPE"
  | .questionQuestion => "QUESTION_QUESTION"
  | .question => "QUESTION"
  | .questionDot => "QUESTION_DOT"
  | .colon => "COLON"
  | .dot => "DOT"
  | .dotDotDot => "DOT_DOT_DOT"
  | .fatArrow => "FAT_ARROW"
  | .plusEq => "PLUS_EQ"
  | .minusEq => "MINUS_EQ"
  | .starEq => "STAR_EQ"
  | .starStarEq => "STAR_STAR_EQ"
  | .slashEq => "SLASH_EQ"
  | .percentEq => "PERCENT_EQ"
  | .shlEq => "SHL_EQ"
  | .shrEq => "SHR_EQ"
  | .uShrEq => "USHR_EQ"
  | .ampEq => "AMP_EQ"
  | .pipeEq => "PIPE_EQ"
  | .caretEq => "CARET_EQ"
  | .ampAmpEq => "AMP_AMP_EQ"
  | .pipePipeEq => "PIPE_PIPE_EQ"
  | .questionQuestionEq => "QUESTION_QUESTION_EQ"
  | .lParen => "L_PAREN"
  | .rParen => "R_PAREN"
  | .lBracket => "L_BRACKET"
  | .rBracket => "R_BRACKET"
  | .lBrace => "L_BRACE"
  | .rBrace => "R_BRACE"
  | .comma => "COMMA"
  | .semicolon => "SEMICOLON"
  | .number => "NUMBER"
  | .string => "STRING"
  | .regex => "REGEX"
  | .templateStart => "TEMPLATE_START"
  | .templateContent => "TEMPLATE_CONTENT"
  | .interpolationStart => "INTERPOLATION_START"
  | .interpolationEnd => "INTERPOLATION_END"
  | .templateEnd => "TEMPLATE_END"
  | .whitespace => "WHITESPACE"
  | .newline => "NEWLINE"
  | .comment => "COMMENT"
  | .ident => "IDENT"
  | .eof => "EOF"
  | .error => "ERROR"

def isTrivia : TokenKind → Bool
  | .whitespace | .newline | .comment => true
  | _ => false

/-- Whether a slash after a token of this kind divides, where it would otherwise open a regular
expression. -/
def endsOperand : TokenKind → Bool
  | .ident | .number | .string | .regex | .templateEnd | .rParen | .rBracket | .rBrace
  | .thisKw | .trueKw | .falseKw | .nullKw | .plusPlus | .minusMinus => true
  | _ => false

end TokenKind

def reservedWords : List (String × TokenKind) :=
  [("await", .awaitKw), ("break", .breakKw), ("case", .caseKw), ("catch", .catchKw),
   ("class", .classKw), ("const", .constKw), ("continue", .continueKw), ("default", .defaultKw),
   ("delete", .deleteKw), ("do", .doKw), ("else", .elseKw), ("export", .exportKw),
   ("false", .falseKw), ("finally", .finallyKw), ("for", .forKw), ("function", .functionKw),
   ("if", .ifKw), ("import", .importKw), ("in", .inKw), ("instanceof", .instanceofKw),
   ("let", .letKw), ("new", .newKw), ("null", .nullKw), ("return", .returnKw),
   ("switch", .switchKw), ("this", .thisKw), ("throw", .throwKw), ("true", .trueKw),
   ("try", .tryKw), ("typeof", .typeofKw), ("var", .varKw), ("void", .voidKw),
   ("while", .whileKw), ("yield", .yieldKw)]

def reservedKind? (word : String) : Option TokenKind := reservedWords.lookup word

namespace TokenKind

def isReserved (kind : TokenKind) : Bool := reservedWords.any (·.2 == kind)

def isAssignment : TokenKind → Bool
  | .eq | .plusEq | .minusEq | .starEq | .starStarEq | .slashEq | .percentEq | .shlEq | .shrEq
  | .uShrEq | .ampEq | .pipeEq | .caretEq | .ampAmpEq | .pipePipeEq | .questionQuestionEq => true
  | _ => false

end TokenKind

end ShellAwait
