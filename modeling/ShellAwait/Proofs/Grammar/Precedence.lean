import ShellAwait.Proofs.Grammar.Rooted

/-! # Precedence

The operands of an operator are held together more tightly than it holds them, and operators of the
same tightness are joined from the left, except for exponentiation. Operators are read by their
powers to the left and to the right; what comes out is said here in terms of their classes alone.
-/

namespace ShellAwait

/-- The operators between two operands, from the loosest to the tightest. -/
def operatorClasses : List (List TokenKind) :=
  [[.questionQuestion], [.pipePipe], [.ampAmp], [.pipe], [.caret], [.amp],
    [.eqEq, .notEq, .eqEqEq, .notEqEq], [.lt, .gt, .ltEq, .gtEq, .instanceofKw, .inKw],
    [.shl, .shr, .uShr], [.plus, .minus], [.star, .slash, .percent], [.starStar]]

namespace TokenKind

def isOperator (op : TokenKind) : Bool := operatorClasses.flatten.contains op

def tightness (op : TokenKind) : Nat := operatorClasses.findIdx (·.contains op)

def isLeftAssociative (op : TokenKind) : Bool := op.isOperator && op != .starStar

end TokenKind

namespace Grammar

open Phrase TokenKind

variable {op : TokenKind} {power : Power} {n : Bool}

/-! ## Powers -/

theorem power_of_class (h : power? op = some power) :
    op.isOperator = true ∧
      (op.isLeftAssociative = true ∧ op.tightness < 11 ∧
          power = ⟨2 * op.tightness + 1, 2 * op.tightness + 2⟩ ∨
        op = .starStar ∧ op.tightness = 11 ∧ power = ⟨24, 23⟩) := by
  cases op <;> cases h <;> decide

theorem power?_viewOf {t : Lookahead} (h : (viewOf n [t]).power? = some power)
    (rest : List Lookahead) :
    (viewOf n (t :: rest)).power? = some power ∧ power? t.kind = some power := by
  refine ⟨h, ?_⟩
  rw [View.power?] at h
  split at h
  · cases h
  · exact h

theorem isTrivia_of_power (h : power? op = some power) : op.isTrivia = false := by
  cases op <;> cases h <;> rfl

theorem tighter_left {inner : TokenKind} {power' : Power} (h : power? op = some power)
    (h' : power? inner = some power') (hlt : power.left < power'.right) :
    op.tightness < inner.tightness ∨
      inner.tightness = op.tightness ∧ op.isLeftAssociative = true := by
  obtain ⟨-, ⟨hleft, hop, rfl⟩ | ⟨-, hop, rfl⟩⟩ := power_of_class h <;>
    obtain ⟨-, ⟨-, hinner, rfl⟩ | ⟨-, hinner, rfl⟩⟩ := power_of_class h'
  · have hle : op.tightness ≤ inner.tightness := by
      simp only at hlt
      omega
    rcases Nat.lt_or_eq_of_le hle with hlt | heq
    · exact .inl hlt
    · exact .inr ⟨heq.symm, hleft⟩
  · exact .inl (by omega)
  · simp only at hlt
    omega
  · simp only at hlt
    omega

theorem tighter_right {inner : TokenKind} {power' : Power} (h : power? op = some power)
    (h' : power? inner = some power') (hle : power.right ≤ power'.left) :
    op.tightness < inner.tightness ∨ op = .starStar ∧ inner = .starStar := by
  obtain ⟨-, ⟨-, hop, rfl⟩ | ⟨rfl, -, rfl⟩⟩ := power_of_class h <;>
    obtain ⟨-, ⟨-, hinner, rfl⟩ | ⟨rfl, hinner, rfl⟩⟩ := power_of_class h'
  · simp only at hle
    exact .inl (by omega)
  · exact .inl (by omega)
  · simp only at hle
    omega
  · exact .inr ⟨rfl, rfl⟩

/-! ## Operands -/

/-- How loosely an expression is held together. -/
def looseness : NodeKind → Nat
  | .sequenceExpr => 4
  | .arrow | .condExpr | .assignExpr => 3
  | .binaryExpr => 2
  | .awaitExpr | .prefixExpr | .postfixExpr => 1
  | _ => 0

theorem looseness_le (kind : NodeKind) : looseness kind ≤ 4 := by
  cases kind <;> decide

namespace Part

/-- The loosest expression that a part can be. -/
def looseness : Part → Nat
  | .category .primary | .category .newExpression | .chain _ | .group _ => 0
  | .category .unary => 1
  | .category (.binary _) | .operands _ => 2
  | .category .assignment => 3
  | _ => 4

end Part

theorem Enclosure.looseness_kind {what : Enclosure} {kind : NodeKind} (h : what.kind? = some kind) :
    looseness kind = 0 := by
  cases what <;> cases h <;> rfl

theorem Reads.looseness_le {part : Part} {l : List Phrase} {rest : List Lookahead}
    (h : Reads part n l rest) {kind : NodeKind} {parts : List Phrase} (hl : l = [.node kind parts]) :
    looseness kind ≤ part.looseness := by
  induction h with
  | group hkind _ _ =>
      cases hl
      exact Nat.le_of_eq (Enclosure.looseness_kind hkind)
  | operand _ ih | operandGroup _ _ ih | created _ ih | joined _ _ ih => exact ih hl
  | linked _ _ _ ih | firstOperand _ ih | unassigned _ _ _ _ ih => exact Nat.le_succ_of_le (ih hl)
  | member | index | call | tagged | literal | reference | this | functionValue | constructBare
  | construct | await | lead | trail | join | arrow | conditional | assign =>
      cases hl
      exact Nat.le_refl _
  | _ => exact Grammar.looseness_le kind

/-- A binary expression among operands is an operator between two of them. -/
theorem Reads.operator {floor : Nat} {parts : List Phrase} {rest : List Lookahead}
    (h : Reads (.operands floor) n [.node .binaryExpr parts] rest) :
    ∃ p t q power, parts = [p, .leaf t, q] ∧
      Reads (.operands floor) n [p] (t :: (words [q] ++ rest)) ∧
      (viewOf n [t]).power? = some power ∧ floor ≤ power.left ∧
      Reads (.operands power.right) n [q] rest ∧ (viewOf n rest).joins power.right = false := by
  cases h with
  | firstOperand h => exact absurd (h.looseness_le rfl) (by decide)
  | join hp ht hfloor hq =>
      cases hq with
      | joined hq hnext => exact ⟨_, _, _, _, rfl, hp, ht, hfloor, hq, hnext⟩

end Grammar

namespace Tree

open Grammar Phrase TokenKind

def significantKind? : Tree → Option TokenKind
  | .leaf token => if token.kind.isTrivia then none else some token.kind
  | .node .. => none

def operator? : Tree → Option TokenKind
  | .node .binaryExpr children => children.findSome? significantKind?
  | _ => none

theorem stripAll_eq_map (trees : List Tree) :
    stripAll trees = (trees.filter (!·.isTrivia)).map strip := by
  induction trees with
  | nil => rfl
  | cons tree rest ih =>
      rw [stripAll, ih, List.filter_cons]
      cases tree.isTrivia <;> rfl

theorem nodeKind?_strip (tree : Tree) : tree.strip.nodeKind? = tree.nodeKind? := by
  cases tree <;> rfl

theorem findSome?_stripAll (trees : List Tree) :
    (stripAll trees).findSome? significantKind? = trees.findSome? significantKind? := by
  induction trees with
  | nil => rfl
  | cons tree rest ih =>
      rw [stripAll, List.findSome?_cons]
      cases tree with
      | node kind children => exact ih
      | leaf token =>
          rw [isTrivia, significantKind?]
          split
          · exact ih
          · rename_i hsolid
            rw [strip, List.findSome?_cons, significantKind?, if_neg hsolid]

theorem operator?_strip (tree : Tree) : tree.strip.operator? = tree.operator? := by
  cases tree with
  | leaf token => rfl
  | node kind children =>
      cases kind with
      | binaryExpr => exact findSome?_stripAll children
      | _ => rfl

/-- A tree that is read as operands. If it is a binary expression its operator is as tight as asked
for, and the token behind it is no operator that its right operand could be joined by. -/
theorem of_operands {floor : Nat} {n : Bool} {p : Phrase} {rest : List Lookahead} {tree : Tree}
    (h : Reads (.operands floor) n [p] rest) (htree : tree.strip = p.tree) :
    (tree.isNode = true ∧ tree.nodeKind? ≠ some .condExpr ∧ tree.nodeKind? ≠ some .assignExpr) ∧
      (tree.nodeKind? = some .binaryExpr → ∃ op power, tree.operator? = some op ∧
        power? op = some power ∧ floor ≤ power.left ∧
        (viewOf n rest).joins power.right = false) := by
  rw [isNode, ← nodeKind?_strip, ← operator?_strip, htree]
  cases p with
  | leaf t =>
      obtain ⟨kind, children, htree, -⟩ := h.supplies.exists_node
      cases htree
  | node kind parts =>
      have hloose : looseness kind ≤ 2 := h.looseness_le rfl
      refine ⟨⟨rfl, ?_, ?_⟩, ?_⟩
      · rintro ⟨⟩
        exact absurd hloose (by decide)
      · rintro ⟨⟩
        exact absurd hloose (by decide)
      · rintro ⟨⟩
        obtain ⟨p, t, q, power, rfl, hp, ht, hfloor, -, hnext⟩ := h.operator
        have hpower := (power?_viewOf ht []).2
        obtain ⟨kind, children, hleft, -⟩ := hp.supplies.exists_node
        refine ⟨t.kind, power, ?_, hpower, hfloor, hnext⟩
        simp [Phrase.tree, operator?, hleft, List.findSome?_cons, significantKind?, Lookahead.token,
          isTrivia_of_power hpower]

/-- Every binary expression is an operator between two operands. An operator in the left one is
tighter, or as tight where operators are joined from the left; one in the right one is tighter, or
both are exponentiations. Conditional expressions and assignments are not operands without
parentheses. -/
theorem operators_nest_by_tightness {source : List Char} (h : (parse source).fault = none) :
    ∀ spot ∈ (parse source).tree.spots, spot.kind = .binaryExpr →
      ∃ left op right, spot.children.filter (!·.isTrivia) = [left, .leaf op, right] ∧
        op.kind.isOperator = true ∧
        (left.nodeKind? = some .binaryExpr →
          ∃ inner, left.operator? = some inner ∧ inner.isOperator = true ∧
            (op.kind.tightness < inner.tightness ∨
              inner.tightness = op.kind.tightness ∧ op.kind.isLeftAssociative = true)) ∧
        (right.nodeKind? = some .binaryExpr →
          ∃ inner, right.operator? = some inner ∧ inner.isOperator = true ∧
            (op.kind.tightness < inner.tightness ∨ op.kind = .starStar ∧ inner = .starStar)) ∧
        ∀ operand ∈ [left, right], operand.isNode = true ∧
          operand.nodeKind? ≠ some .condExpr ∧ operand.nodeKind? ≠ some .assignExpr := by
  intro spot hspot hkind
  obtain ⟨parts, later, rest, hphrase⟩ := isPhrase_spot h hspot
  have hreadAs := hphrase.readAs
  rw [hkind] at hreadAs
  obtain ⟨_, n, ⟨floor, rfl⟩, hreads⟩ := hreadAs.resolve_left Bool.false_ne_true
  obtain ⟨p, t, q, power, rfl, hp, ht, -, hq, -⟩ := hreads.operator
  obtain ⟨hpower, hop⟩ := power?_viewOf ht (words [q] ++ rest)
  have hchildren := hphrase.children
  rw [stripAll_eq_map] at hchildren
  obtain ⟨left, _, hsplit, hleft, hchildren⟩ := List.map_eq_cons_iff.mp hchildren
  obtain ⟨middle, _, rfl, hmiddle, hchildren⟩ := List.map_eq_cons_iff.mp hchildren
  obtain ⟨right, _, rfl, hright, hchildren⟩ := List.map_eq_cons_iff.mp hchildren
  obtain rfl := List.map_eq_nil_iff.mp hchildren
  obtain ⟨hpoperand, hpbinary⟩ := of_operands hp hleft
  obtain ⟨hqoperand, hqbinary⟩ := of_operands hq hright
  cases middle with
  | node => cases hmiddle
  | leaf op =>
      cases hmiddle
      refine ⟨left, t.token, right, hsplit, (power_of_class hop).1, fun hbinary => ?_,
        fun hbinary => ?_, ?_⟩
      · obtain ⟨inner, power', hinner, hpower', -, hnext⟩ := hpbinary hbinary
        rw [View.joins, hpower, Option.any_some, decide_eq_false_iff_not, Nat.not_le] at hnext
        exact ⟨inner, hinner, (power_of_class hpower').1, tighter_left hop hpower' hnext⟩
      · obtain ⟨inner, power', hinner, hpower', hfloor, -⟩ := hqbinary hbinary
        exact ⟨inner, hinner, (power_of_class hpower').1, tighter_right hop hpower' hfloor⟩
      · intro operand hoperand
        rcases List.mem_pair.mp hoperand with rfl | rfl
        · exact hpoperand
        · exact hqoperand

def mixedOperators : List Char := "a - b ** c ** d - e * (f ? g : h) in i".toList

theorem operators_nest_by_tightness_mixedOperators :
    (parse mixedOperators).fault = none ∧
    ((parse mixedOperators).tree.spots.filterMap fun spot =>
        (node spot.kind spot.children).operator?) =
      [.inKw, .minus, .minus, .starStar, .starStar, .star] ∧
    ∃ spot ∈ (parse mixedOperators).tree.spots, spot.kind = .binaryExpr ∧
      ∃ left op right inner, spot.children.filter (!·.isTrivia) = [left, .leaf op, right] ∧
        left.nodeKind? = some .binaryExpr ∧ left.operator? = some inner ∧
        (op.kind.tightness < inner.tightness ∨
          inner.tightness = op.kind.tightness ∧ op.kind.isLeftAssociative = true) := by
  have hclean : (parse mixedOperators).fault = none := by decide +kernel
  have hnested : ∃ spot ∈ (parse mixedOperators).tree.spots, spot.kind = .binaryExpr ∧
      (spot.children.filter (!·.isTrivia)).head?.bind nodeKind? = some .binaryExpr := by
    decide +kernel
  obtain ⟨spot, hspot, hkind, hbinary⟩ := hnested
  obtain ⟨left, op, right, hchildren, -, hleft, -⟩ :=
    operators_nest_by_tightness hclean spot hspot hkind
  rw [hchildren] at hbinary
  obtain ⟨inner, hinner, -, htight⟩ := hleft hbinary
  exact ⟨hclean, by decide +kernel, spot, hspot, hkind, left, op, right, inner, hchildren, hbinary,
    hinner, htight⟩

end Tree

end ShellAwait
