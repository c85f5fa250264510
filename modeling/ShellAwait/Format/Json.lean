import ShellAwait.Format.Value

/-! # JSON

A strict reader: one value with nothing but blanks around it, no trailing commas, no control characters in
strings, and surrogates only in pairs.
-/

namespace ShellAwait.Format.Json

def isBlank (c : Char) : Bool := c = ' ' || c = '\n' || c = '\r' || c = '\t'

def skipBlanks (text : List Char) : List Char := text.dropWhile isBlank

def escape? : Char → Option Char
  | '"' => some '"'
  | '\\' => some '\\'
  | '/' => some '/'
  | 'b' => some '\x08'
  | 'f' => some '\x0c'
  | 'n' => some '\n'
  | 'r' => some '\r'
  | 't' => some '\t'
  | _ => none

def joinSurrogates? (high low : Nat) : Option Char :=
  if 0xD800 ≤ high && high ≤ 0xDBFF && 0xDC00 ≤ low && low ≤ 0xDFFF then
    charOf? (0x10000 + (high - 0xD800) * 0x400 + (low - 0xDC00))
  else none

def stringBody : Reader (List Char)
  | [] => none
  | '"' :: rest => some ([], rest)
  | '\\' :: 'u' :: a :: b :: c :: d :: rest => do
      let unit ← hexNumber? [a, b, c, d]
      match charOf? unit, rest with
      | some char, rest =>
          let (text, after) ← stringBody rest
          return (char :: text, after)
      | none, '\\' :: 'u' :: e :: f :: g :: h :: rest =>
          let char ← joinSurrogates? unit (← hexNumber? [e, f, g, h])
          let (text, after) ← stringBody rest
          return (char :: text, after)
      | none, _ => none
  | '\\' :: c :: rest => do
      let char ← escape? c
      let (text, after) ← stringBody rest
      return (char :: text, after)
  | c :: rest => do
      if c = '\\' || c.toNat < 0x20 then none
      else
        let (text, after) ← stringBody rest
        return (c :: text, after)

def string : Reader String
  | '"' :: rest => (stringBody rest).map fun (text, after) => (String.ofList text, after)
  | _ => none

def digits (text : List Char) : Option (List Char) :=
  match text with
  | c :: rest => if c.isDigit then some (rest.dropWhile Char.isDigit) else none
  | [] => none

/-- What is left after a number: no leading zeros, and digits on both sides of a point. -/
def number (text : List Char) : Option (List Char) := do
  let unsigned := match text with | '-' :: rest => rest | text => text
  let afterWhole ← match unsigned with | '0' :: rest => some rest | text => digits text
  let afterFraction ← match afterWhole with | '.' :: rest => digits rest | text => some text
  match afterFraction with
  | 'e' :: '+' :: rest | 'e' :: '-' :: rest | 'E' :: '+' :: rest | 'E' :: '-' :: rest => digits rest
  | 'e' :: rest | 'E' :: rest => digits rest
  | text => some text

mutual

/-- A value, in texts with at most `fuel` values around and before one another. -/
def value : Nat → Reader Value
  | 0, _ => none
  | fuel + 1, text =>
      match skipBlanks text with
      | 'n' :: 'u' :: 'l' :: 'l' :: rest => some (.null, rest)
      | 't' :: 'r' :: 'u' :: 'e' :: rest => some (.bool true, rest)
      | 'f' :: 'a' :: 'l' :: 's' :: 'e' :: rest => some (.bool false, rest)
      | '"' :: rest => (string ('"' :: rest)).map fun (s, after) => (.string s, after)
      | '[' :: rest =>
          match skipBlanks rest with
          | ']' :: rest => some (.list [], rest)
          | rest => (items fuel rest).map fun (values, after) => (.list values, after)
      | '{' :: rest =>
          match skipBlanks rest with
          | '}' :: rest => some (.table [], rest)
          | rest => (fields fuel rest).map fun (entries, after) => (.table entries, after)
      | rest => (number rest).map fun after => (.number, after)

def items : Nat → Reader (List Value)
  | 0, _ => none
  | fuel + 1, text => do
      let (first, rest) ← value fuel text
      match skipBlanks rest with
      | ']' :: after => return ([first], after)
      | ',' :: rest =>
          let (others, after) ← items fuel rest
          return (first :: others, after)
      | _ => none

def fields : Nat → Reader (List (String × Value))
  | 0, _ => none
  | fuel + 1, text => do
      let (name, rest) ← string (skipBlanks text)
      match skipBlanks rest with
      | ':' :: rest =>
          let (first, rest) ← value fuel rest
          match skipBlanks rest with
          | '}' :: after => return ([(name, first)], after)
          | ',' :: rest =>
              let (others, after) ← fields fuel rest
              return ((name, first) :: others, after)
          | _ => none
      | _ => none

end

def read (text : List Char) : Option Value :=
  match value (2 * text.length + 2) text with
  | some (result, rest) => if (skipBlanks rest).isEmpty then some result else none
  | none => none

end ShellAwait.Format.Json
