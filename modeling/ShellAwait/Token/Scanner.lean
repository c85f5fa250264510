import ShellAwait.Text.Letter
import ShellAwait.Text.Numeral
import ShellAwait.Token.Basic
import ShellAwait.Token.Cut

/-! # Scanners of single tokens

Names, numbers, strings, regular expressions, comments and the text parts of templates. A literal that
never ends is scanned up to where it breaks off.
-/

namespace ShellAwait.Token

open Text

/-! ## Names and numbers -/

def startsName (c : Char) : Bool := isLetter c || c = '_' || c = '$'

def continuesName (c : Char) : Bool := isLetter c || isNumeral c || c = '_' || c = '$'

def isDigitOrSeparator (c : Char) : Bool := c.isDigit || c = '_'

def isHexDigitOrSeparator (c : Char) : Bool :=
  c.isDigit || ('a' ≤ c && c ≤ 'f') || ('A' ≤ c && c ≤ 'F') || c = '_'

def isBaseMark (c : Char) : Bool :=
  c = 'x' || c = 'X' || c = 'o' || c = 'O' || c = 'b' || c = 'B'

def fraction : List Char → Cut
  | '.' :: rest => (Cut.run isDigitOrSeparator rest).push '.'
  | text => Cut.nothing text

def exponent : List Char → Cut
  | [] => Cut.nothing []
  | c :: rest =>
      if c = 'e' || c = 'E' then
        (((Cut.one (fun s => s = '+' || s = '-') rest).follow (Cut.run isDigitOrSeparator))).push c
      else Cut.nothing (c :: rest)

def decimal (text : List Char) : Cut :=
  ((Cut.run isDigitOrSeparator text).follow fraction).follow exponent

/-- A number in any base without its suffix. Digits after a base mark are not checked against it. -/
def magnitude : List Char → Cut
  | '0' :: mark :: rest =>
      if isBaseMark mark then ((Cut.run isHexDigitOrSeparator rest).push mark).push '0'
      else decimal ('0' :: mark :: rest)
  | text => decimal text

def number (text : List Char) : Cut := (magnitude text).follow (Cut.one (· = 'n'))

/-! ## Strings, templates and regular expressions -/

/-- The rest of a string after its opening quote. A backslash keeps the next character, and a carriage
return with its line feed counts as one. A line terminator by itself breaks the string off. -/
def stringBody (quote : Char) : List Char → Literal
  | [] => ⟨false, Cut.nothing []⟩
  | '\\' :: '\r' :: '\n' :: rest => (((stringBody quote rest).push '\n').push '\r').push '\\'
  | '\\' :: c :: rest => ((stringBody quote rest).push c).push '\\'
  | c :: rest =>
      if isLineTerminator c then ⟨false, Cut.nothing (c :: rest)⟩
      else if c = '\\' then (stringBody quote rest).push c
      else if c = quote then ⟨true, ⟨[c], rest⟩⟩
      else (stringBody quote rest).push c

/-- Template text up to a backtick or an interpolation, which stay in the rest. -/
def templateText : List Char → Literal
  | [] => ⟨false, Cut.nothing []⟩
  | '`' :: rest => ⟨true, Cut.nothing ('`' :: rest)⟩
  | '$' :: '{' :: rest => ⟨true, Cut.nothing ('$' :: '{' :: rest)⟩
  | '\\' :: c :: rest => ((templateText rest).push c).push '\\'
  | c :: rest => (templateText rest).push c

/-- The rest of a regular expression after its opening slash, without flags. A slash inside a class does
not close it, and a backslash keeps any next character. The line terminator that breaks it off is taken. -/
def regexBody (inClass : Bool) : List Char → Literal
  | [] => ⟨false, Cut.nothing []⟩
  | '\\' :: c :: rest => ((regexBody inClass rest).push c).push '\\'
  | c :: rest =>
      if isLineTerminator c then ⟨false, ⟨[c], rest⟩⟩
      else if c = '[' then (regexBody true rest).push c
      else if c = ']' then (regexBody false rest).push c
      else if c = '/' && !inClass then ⟨true, ⟨[c], rest⟩⟩
      else (regexBody inClass rest).push c

/-! ## Line breaks and comments -/

/-- One line break; a carriage return takes the line feed after it. -/
def lineBreak : List Char → Cut
  | '\r' :: '\n' :: rest => ⟨['\r', '\n'], rest⟩
  | c :: rest => ⟨[c], rest⟩
  | [] => Cut.nothing []

def toEndOfLine (text : List Char) : Cut := Cut.run (fun c => !isLineTerminator c) text

def commentBody : List Char → Literal
  | [] => ⟨false, Cut.nothing []⟩
  | '*' :: '/' :: rest => ⟨true, ⟨['*', '/'], rest⟩⟩
  | c :: rest => (commentBody rest).push c

end ShellAwait.Token
