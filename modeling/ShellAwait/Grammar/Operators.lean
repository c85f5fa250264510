import ShellAwait.Grammar.View

/-! # Operators

How tightly the operators between two operands bind. An operator takes a left operand whose operators
bind at least as its left power, and a right one whose operators bind at least as its right power, so a
larger right power makes it associate to the left.
-/

namespace ShellAwait.Grammar

structure Power where
  left : Nat
  right : Nat
deriving DecidableEq, Repr

/-- The powers of an operator between two operands. Exponentiation alone associates to the right. -/
def power? : TokenKind → Option Power
  | .questionQuestion => some ⟨1, 2⟩
  | .pipePipe => some ⟨3, 4⟩
  | .ampAmp => some ⟨5, 6⟩
  | .pipe => some ⟨7, 8⟩
  | .caret => some ⟨9, 10⟩
  | .amp => some ⟨11, 12⟩
  | .eqEq | .notEq | .eqEqEq | .notEqEq => some ⟨13, 14⟩
  | .lt | .gt | .ltEq | .gtEq | .instanceofKw | .inKw => some ⟨15, 16⟩
  | .shl | .shr | .uShr => some ⟨17, 18⟩
  | .plus | .minus => some ⟨19, 20⟩
  | .star | .slash | .percent => some ⟨21, 22⟩
  | .starStar => some ⟨24, 23⟩
  | _ => none

def leadsOperand : TokenKind → Bool
  | .bang | .tilde | .plus | .minus | .plusPlus | .minusMinus | .typeofKw | .voidKw
  | .deleteKw => true
  | _ => false

def View.power? (v : View) : Option Power :=
  if v.next .inKw && v.noIn then none else Grammar.power? v.kind

def View.joins (v : View) (floor : Nat) : Bool := v.power?.any (floor ≤ ·.left)

end ShellAwait.Grammar
