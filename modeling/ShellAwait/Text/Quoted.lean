import ShellAwait.Text.Extending
import ShellAwait.Text.Unprintable

/-! # Quoted text

A text between double quotes in which quotes, backslashes, the usual controls and every character that
would not show by itself are escaped.
-/

namespace ShellAwait.Text

def hexDigits (n : Nat) : List Char := Nat.toDigits 16 n

def escapeChar (c : Char) : List Char :=
  match c with
  | '"' => ['\\', '"']
  | '\\' => ['\\', '\\']
  | '\n' => ['\\', 'n']
  | '\r' => ['\\', 'r']
  | '\t' => ['\\', 't']
  | c =>
      if c.toNat = 0 then ['\\', '0']
      else if isExtending c || isUnprintable c then
        ['\\', 'u', '{'] ++ hexDigits c.toNat ++ ['}']
      else [c]

def quoted (text : List Char) : List Char := '"' :: text.flatMap escapeChar ++ ['"']

end ShellAwait.Text
