import ShellAwait.Proofs.Tree.Layout

/-! # The shape of trees

What is known of the nodes in the tree of a script without a problem, as far as spans depend on
it. An expression or a function is never just another node: it has a token of its own or a second
part, so its text is longer than that of any node in it.
-/

namespace ShellAwait

open Text

variable {kind : NodeKind}

namespace NodeKind

/-- Nodes that findings refer to by their spans. -/
def isKeyed (kind : NodeKind) : Bool := kind.isExpression || kind.isFunction

/-- The clauses of a loop head may be left out, and are empty nodes then. -/
def mayBeEmpty : NodeKind → Bool
  | .forInit | .forTest | .forUpdate => true
  | _ => false

/-- The least bulk of the elements of a node. -/
def least (kind : NodeKind) : Nat := if kind.mayBeEmpty then 0 else if kind.isKeyed then 2 else 1

theorem two_le_least (h : kind.isKeyed = true) : 2 ≤ kind.least := by
  have hsolid : kind.mayBeEmpty = false := by
    revert h
    cases kind <;> decide
  simp [least, hsolid, h]

theorem one_le_least (h : kind.mayBeEmpty = false) : 1 ≤ kind.least := by
  simp only [least, h, Bool.false_eq_true, if_false]
  split <;> omega

theorem isExpression_of_isSite (h : kind.isSite = true) :
    kind.isExpression = true ∧ kind ≠ .awaitExpr := by
  revert h
  cases kind <;> decide

theorem isKeyed_of_isSite (h : kind.isSite = true) : kind.isKeyed = true := by
  rw [isKeyed, (isExpression_of_isSite h).1, Bool.true_or]

theorem isKeyed_of_isFunction (h : kind.isFunction = true) : kind.isKeyed = true := by
  rw [isKeyed, h, Bool.or_true]

end NodeKind

namespace Tree

/-- Twice the number of tokens and once the number of nodes that cannot be empty. -/
def bulk : List Tree → Nat
  | [] => 0
  | .leaf token :: rest => (if token.kind.isTrivia then 0 else 2) + bulk rest
  | .node kind _ :: rest => (if kind.mayBeEmpty then 0 else 1) + bulk rest

@[simp] theorem bulk_append (a b : List Tree) : bulk (a ++ b) = bulk a + bulk b := by
  fun_induction bulk a with
  | case1 => simp
  | case2 token rest ih => simp [bulk, ih, Nat.add_assoc]
  | case3 kind children rest ih => simp [bulk, ih, Nat.add_assoc]

@[simp] theorem bulk_reverse (trees : List Tree) : bulk trees.reverse = bulk trees := by
  induction trees with
  | nil => rfl
  | cons tree rest ih =>
      rw [List.reverse_cons, bulk_append, ih, Nat.add_comm]
      exact (bulk_append [tree] rest).symm

/-- A token with this kind that is an element by itself. -/
def isLeafOf (kind : TokenKind) : Tree → Bool
  | .leaf token => token.kind == kind
  | .node .. => false

/-- What the elements of a node of some kind are known to be. -/
structure Shaped (kind : NodeKind) (children : List Tree) : Prop where
  bulk : kind.least ≤ bulk children
  /-- A tag is an expression of its own in front of its template. -/
  tagged : kind = .taggedTemplate → ∃ tag inner parts, tag.isExpression = true ∧
    children.filter isNode = [.node tag inner, .node .template parts]
  /-- The target of a loop over a value stands inside its parentheses. -/
  head : kind = .forInStmt → ∀ tree ∈ children.takeWhile (!·.isNode), tree.isLeafOf .rParen = false

mutual

/-- Every node has the shape of its kind, and no token stands for an error or for the end of the
text. -/
def WellShaped : Tree → Prop
  | .leaf token => token.kind ≠ .eof ∧ token.kind ≠ .error
  | .node kind children => Shaped kind children ∧ WellShapedAll children

def WellShapedAll : List Tree → Prop
  | [] => True
  | tree :: rest => tree.WellShaped ∧ WellShapedAll rest

end

theorem wellShapedAll_iff (trees : List Tree) :
    WellShapedAll trees ↔ ∀ tree ∈ trees, tree.WellShaped := by
  induction trees with
  | nil => simp [WellShapedAll]
  | cons tree rest ih => simp [WellShapedAll, ih]

@[simp] theorem isNode_leaf (token : Token) : (leaf token).isNode = false := rfl

@[simp] theorem isNode_node (kind : NodeKind) (children : List Tree) :
    (node kind children).isNode = true := rfl

/-! ## Trivia does not matter -/

theorem bulk_stripAll (trees : List Tree) : bulk (stripAll trees) = bulk trees := by
  induction trees with
  | nil => rfl
  | cons tree rest ih =>
      cases tree with
      | leaf token =>
          by_cases h : token.kind.isTrivia <;> simp [stripAll, isTrivia, h, strip, bulk, ih]
      | node kind children => simp [stripAll, isTrivia, strip, bulk, ih]

theorem filter_isNode_stripAll (trees : List Tree) :
    (stripAll trees).filter isNode = (trees.filter isNode).map strip := by
  induction trees with
  | nil => rfl
  | cons tree rest ih =>
      cases tree with
      | leaf token =>
          by_cases h : token.kind.isTrivia <;>
            simp [stripAll, isTrivia, h, strip, ih]
      | node kind children => simp [stripAll, isTrivia, strip, List.filter_cons, ih]

theorem strip_eq_node {tree : Tree} {children : List Tree} (h : tree.strip = .node kind children) :
    ∃ inner, tree = .node kind inner := by
  cases tree with
  | leaf token => simp [strip] at h
  | node k inner =>
      simp only [strip, node.injEq] at h
      exact ⟨inner, by rw [h.1]⟩

theorem Shaped.of_strip {children : List Tree} (h : Shaped kind (stripAll children)) :
    Shaped kind children := by
  refine ⟨bulk_stripAll children ▸ h.bulk, ?_, ?_⟩
  · intro hkind
    obtain ⟨tag, inner, parts, htag, hnodes⟩ := h.tagged hkind
    rw [filter_isNode_stripAll] at hnodes
    obtain ⟨first, others, hfilter, hfirst, hothers⟩ := List.map_eq_cons_iff.mp hnodes
    obtain ⟨second, none, rfl, hsecond, hnone⟩ := List.map_eq_cons_iff.mp hothers
    obtain ⟨a, rfl⟩ := strip_eq_node hfirst
    obtain ⟨b, rfl⟩ := strip_eq_node hsecond
    rw [List.map_eq_nil_iff.mp hnone] at hfilter
    exact ⟨tag, a, b, htag, hfilter⟩
  · intro hkind
    have hhead := h.head hkind
    clear h hkind
    induction children with
    | nil => simp
    | cons tree rest ih =>
        cases tree with
        | node k inner => simp
        | leaf token =>
            intro tree htree
            simp only [isNode_leaf, Bool.not_false, List.takeWhile_cons, if_true,
              List.mem_cons] at htree
            by_cases htrivia : token.kind.isTrivia
            · simp only [stripAll, isTrivia, htrivia, if_true] at hhead
              rcases htree with rfl | htree
              · simp only [isLeafOf, beq_eq_false_iff_ne]
                rintro hkind
                simp [hkind, TokenKind.isTrivia] at htrivia
              · exact ih hhead tree htree
            · simp only [stripAll, isTrivia, htrivia, strip, isNode_leaf, Bool.not_false,
                Bool.false_eq_true, if_false, List.takeWhile_cons, if_true, List.mem_cons,
                forall_eq_or_imp] at hhead
              rcases htree with rfl | htree
              · exact hhead.1
              · exact ih hhead.2 tree htree

mutual

theorem WellShaped.of_strip {tree : Tree} (h : tree.strip.WellShaped) : tree.WellShaped := by
  match tree with
  | .leaf token => exact h
  | .node kind children => exact ⟨h.1.of_strip, WellShapedAll.of_strip h.2⟩

theorem WellShapedAll.of_strip {trees : List Tree} (h : WellShapedAll (stripAll trees)) :
    WellShapedAll trees := by
  match trees with
  | [] => trivial
  | tree :: rest =>
      rw [stripAll] at h
      split at h
      · rename_i htrivia
        refine ⟨?_, WellShapedAll.of_strip h⟩
        cases tree with
        | node kind children => simp [isTrivia] at htrivia
        | leaf token =>
            constructor <;> rintro hkind <;> simp [isTrivia, hkind, TokenKind.isTrivia] at htrivia
      · exact ⟨WellShaped.of_strip h.1, WellShapedAll.of_strip h.2⟩

end

/-! ## Widths -/

mutual

theorem exists_leaf {kind : NodeKind} {children : List Tree} (hkind : kind.mayBeEmpty = false)
    (hshape : (node kind children).WellShaped) :
    ∃ t ∈ leavesAll children, t.kind ≠ .eof ∧ t.kind ≠ .error :=
  exists_leafAll children hshape.2 (Nat.le_trans (NodeKind.one_le_least hkind) hshape.1.bulk)

theorem exists_leafAll (trees : List Tree) (hshape : WellShapedAll trees) (hbulk : 1 ≤ bulk trees) :
    ∃ t ∈ leavesAll trees, t.kind ≠ .eof ∧ t.kind ≠ .error := by
  match trees with
  | [] => simp [bulk] at hbulk
  | .leaf token :: rest => exact ⟨token, by simp [leavesAll, leaves], hshape.1⟩
  | .node kind children :: rest =>
      cases hkind : kind.mayBeEmpty with
      | false =>
          obtain ⟨t, ht, hgood⟩ := exists_leaf hkind hshape.1
          exact ⟨t, List.mem_append_left _ ht, hgood⟩
      | true =>
          obtain ⟨t, ht, hgood⟩ :=
            exists_leafAll rest hshape.2 (by simpa [bulk, hkind] using hbulk)
          exact ⟨t, List.mem_append_right _ ht, hgood⟩

end

@[simp] theorem widthAll_append (a b : List Tree) :
    widthAll (a ++ b) = widthAll a + widthAll b := by
  induction a with
  | nil => simp [widthAll]
  | cons tree rest ih => simp [widthAll, ih, Nat.add_assoc]

mutual

theorem width_le {t : Token} (tree : Tree) (ht : t ∈ tree.leaves) :
    byteLength t.text ≤ tree.width := by
  match tree with
  | .leaf token =>
      rw [List.mem_singleton.mp ht]
      exact Nat.le_refl _
  | .node kind children => exact widthAll_le children ht

theorem widthAll_le {t : Token} (trees : List Tree) (ht : t ∈ leavesAll trees) :
    byteLength t.text ≤ widthAll trees := by
  match trees with
  | [] => exact absurd ht List.not_mem_nil
  | tree :: rest =>
      rw [widthAll]
      rcases List.mem_append.mp ht with ht | ht
      · exact Nat.le_trans (width_le tree ht) (Nat.le_add_right _ _)
      · exact Nat.le_trans (widthAll_le rest ht) (Nat.le_add_left _ _)

end

theorem byteLength_pos {text : List Char} (h : text ≠ []) : 0 < byteLength text := by
  cases text with
  | nil => exact absurd rfl h
  | cons c rest =>
      have hsize := Char.utf8Size_pos c
      rw [byteLength]
      omega

/-- Only errors and the mark of the end have no text. -/
def Spelled (tokens : List Token) : Prop :=
  ∀ t ∈ tokens, t.text = [] → t.kind = .error ∨ t.kind = .eof

theorem Spelled.append {a b : List Token} (h : Spelled (a ++ b)) : Spelled a ∧ Spelled b :=
  ⟨fun t ht => h t (List.mem_append_left b ht), fun t ht => h t (List.mem_append_right a ht)⟩

theorem widthAll_pos {trees : List Tree} (hshape : WellShapedAll trees)
    (hspelled : Spelled (leavesAll trees)) (hbulk : 1 ≤ bulk trees) : 0 < widthAll trees := by
  obtain ⟨t, ht, heof, herror⟩ := exists_leafAll trees hshape hbulk
  have htext : t.text ≠ [] := fun hempty => (hspelled t ht hempty).elim herror heof
  exact Nat.lt_of_lt_of_le (byteLength_pos htext) (widthAll_le trees ht)

theorem width_lt_widthAll {before after : List Tree} {children : List Tree}
    (hshape : WellShapedAll (before ++ .node kind children :: after))
    (hspelled : Spelled (leavesAll (before ++ .node kind children :: after)))
    (hbulk : 2 ≤ bulk (before ++ .node kind children :: after)) :
    (node kind children).width < widthAll (before ++ .node kind children :: after) := by
  have hothers : 1 ≤ bulk (before ++ after) := by
    simp only [bulk_append, bulk] at hbulk ⊢
    split at hbulk <;> omega
  have hshapes : WellShapedAll (before ++ after) := by
    rw [wellShapedAll_iff] at hshape ⊢
    intro tree htree
    refine hshape tree ?_
    rw [List.mem_append] at htree ⊢
    exact htree.imp_right (List.mem_cons_of_mem _)
  have hspelledOthers : Spelled (leavesAll (before ++ after)) := by
    intro t ht
    refine hspelled t ?_
    simp only [leavesAll_append, leavesAll, List.mem_append] at ht ⊢
    exact ht.imp_right Or.inr
  have hpos := widthAll_pos hshapes hspelledOthers hothers
  simp only [widthAll_append, widthAll] at hpos ⊢
  omega

end Tree

end ShellAwait
