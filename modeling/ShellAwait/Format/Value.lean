/-! # Values of a configuration text

What a text in either format can say. Tables keep every entry in the order of the text, so that a field
given twice can be told from one given once. No number has a place in a configuration, so its digits are
not kept.
-/

namespace ShellAwait.Format

inductive Value where
  | null
  | bool (value : Bool)
  | number
  | string (text : String)
  | list (items : List Value)
  | table (entries : List (String × Value))

/-- A reader takes a value off the front of a text, or rejects the text. -/
abbrev Reader (α : Type) := List Char → Option (α × List Char)

def hexValue? (c : Char) : Option Nat :=
  if '0' ≤ c && c ≤ '9' then some (c.toNat - 48)
  else if 'a' ≤ c && c ≤ 'f' then some (c.toNat - 87)
  else if 'A' ≤ c && c ≤ 'F' then some (c.toNat - 55)
  else none

def hexNumber? (digits : List Char) : Option Nat :=
  digits.foldl (fun n c => do return 16 * (← n) + (← hexValue? c)) (some 0)

def charOf? (n : Nat) : Option Char :=
  if n < 0xD800 || (0xDFFF < n && n < 0x110000) then some (Char.ofNat n) else none

end ShellAwait.Format
