/-! # Words of 32 bits

Offsets, lines and columns are words. A sum or a difference that is no word stops the program.
-/

namespace ShellAwait.Text

/-- How many words there are. -/
def wordSize : Nat := 0x100000000

inductive Overflow where
  | add
  | subtract
deriving DecidableEq, Repr

def Overflow.message : Overflow → String
  | .add => "attempt to add with overflow"
  | .subtract => "attempt to subtract with overflow"

def addWord (a b : Nat) : Except Overflow Nat :=
  if a + b < wordSize then .ok (a + b) else .error .add

def subWord (a b : Nat) : Except Overflow Nat := if b ≤ a then .ok (a - b) else .error .subtract

theorem addWord_of_lt {a b : Nat} (h : a + b < wordSize) : addWord a b = .ok (a + b) := if_pos h

theorem addWord_of_le {a b : Nat} (h : wordSize ≤ a + b) : addWord a b = .error .add :=
  if_neg (Nat.not_lt.mpr h)

theorem subWord_of_le {a b : Nat} (h : b ≤ a) : subWord a b = .ok (a - b) := if_pos h

end ShellAwait.Text
