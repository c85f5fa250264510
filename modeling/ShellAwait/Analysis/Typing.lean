import ShellAwait.Catalogue.Basic
import ShellAwait.Script.Syntax

/-! # Descriptors of operators and members -/

namespace ShellAwait

namespace Analysis

def literalDescriptor : Option LiteralKind → Descriptor
  | some .number => .number
  | some .string => .string
  | some .regex => .regexp
  | some .boolean => .boolean
  | some .null => .null
  | none => .unknown

def isStepOperator : TokenKind → Bool
  | .plusPlus | .minusMinus => true
  | _ => false

def unaryDescriptor : TokenKind → Descriptor
  | .bang | .deleteKw => .boolean
  | .typeofKw => .string
  | .minus | .plus | .tilde | .plusPlus | .minusMinus => .number
  | _ => .unknown

/-- An operator that may leave its right side alone. -/
def isLogical : TokenKind → Bool
  | .ampAmp | .pipePipe | .questionQuestion => true
  | _ => false

def binaryDescriptor (operator : TokenKind) (left right : Descriptor) : Descriptor :=
  match operator with
  | .plus =>
      if left = .number && right = .number then .number
      else if left = .string || right = .string then .string
      else .unknown
  | .minus | .star | .starStar | .slash | .percent | .shl | .shr | .uShr | .amp | .pipe | .caret =>
      .number
  | .eqEq | .eqEqEq | .notEq | .notEqEq | .lt | .gt | .ltEq | .gtEq | .inKw | .instanceofKw =>
      .boolean
  | _ => .unknown

/-- What an assignment leaves and yields. Nothing is known after one that also reads its target. -/
def assignedDescriptor (operator : TokenKind) (value : Descriptor) : Descriptor :=
  if operator = .eq then value else .unknown

end Analysis

def Catalogue.memberOf (catalogue : Catalogue) (base : Descriptor) (name : Option String) : Descriptor :=
  match base.shapeName?, name with
  | some shape, some name => (catalogue.member shape name).descriptor
  | _, _ => .unknown

end ShellAwait
