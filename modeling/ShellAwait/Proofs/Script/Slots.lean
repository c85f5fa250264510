import ShellAwait.Proofs.Script.OfTree
import ShellAwait.Proofs.Tree.Slots

/-! # Items in slots

The items that a node is assembled from, with its tokens left out, fill the slots of its kind. What an
item in a slot consists of is known from what the slot takes.
-/

namespace ShellAwait

open Text Script

/-- What an item consists of that such a slot takes. -/
@[reducible] def SlotKind.Content : SlotKind → Type
  | .expression => Expr
  | .template => Span × List Expr
  | .statement => Stmt
  | .block => Span × List Stmt
  | .body => (Span × List Stmt) ⊕ Expr
  | .target => (Span × Option DeclKind × List Binding) ⊕ Expr
  | .pattern => Pattern
  | .key => Key
  | .member => ObjectMember ⊕ (Span × Expr)
  | .entry => Entry ⊕ Pattern
  | .parameter => Binding
  | .parameters => List Binding
  | .declarator => Binding
  | .part _ => Items

@[reducible] def SlotKind.item : (wanted : SlotKind) → wanted.Content → Item
  | .expression, e => .expr e
  | .template, (span, parts) => .expr (.template span parts)
  | .statement, st => .stmt st
  | .block, (span, stmts) => .stmt (.block span stmts)
  | .body, .inl (span, stmts) => .stmt (.block span stmts)
  | .body, .inr e => .expr e
  | .target, .inl (span, kind, declarators) => .stmt (.var span kind declarators)
  | .target, .inr e => .expr e
  | .pattern, p => .pattern p
  | .key, k => .key k
  | .member, .inl m => .member m
  | .member, .inr (span, inner) => .expr (.spread span inner)
  | .entry, .inl e => .entry e
  | .entry, .inr p => .pattern p
  | .parameter, b => .parameter b
  | .parameters, bs => .parameters bs
  | .declarator, b => .declarator b
  | .part kind, inner => .part kind inner

namespace Script

/-- Whether such a slot takes the item. -/
def Item.suits : Item → SlotKind → Bool
  | .expr _, .expression => true
  | .expr (.template ..), .template => true
  | .stmt _, .statement => true
  | .stmt (.block ..), .block => true
  | .stmt (.block ..), .body => true
  | .expr _, .body => true
  | .stmt (.var ..), .target => true
  | .expr _, .target => true
  | .pattern _, .pattern => true
  | .key _, .key => true
  | .member _, .member => true
  | .expr (.spread ..), .member => true
  | .entry _, .entry => true
  | .pattern _, .entry => true
  | .parameter _, .parameter => true
  | .parameters _, .parameters => true
  | .declarator _, .declarator => true
  | .part k _, .part kind => k = kind
  | _, _ => false

theorem suits_assemble {kind : NodeKind} {wanted : SlotKind} (span : Span) (items : Items)
    (h : kind.suits wanted = true) : (assemble kind span items).suits wanted = true := by
  cases wanted with
  | part part =>
      obtain ⟨hpart, hkind⟩ := Bool.and_eq_true_iff.mp h
      cases kind <;> cases hpart <;> exact hkind
  | _ => cases kind <;> cases h <;> rfl

theorem exists_content {item : Item} {wanted : SlotKind} (h : item.suits wanted = true) :
    ∃ x : wanted.Content, item = wanted.item x := by
  cases wanted with
  | expression | statement | pattern | key | parameter | parameters | declarator =>
      cases item <;> first | exact ⟨_, rfl⟩ | cases h
  | part kind =>
      cases item with
      | part k inner => exact ⟨inner, by rw [of_decide_eq_true h]⟩
      | _ => cases h
  | template =>
      cases item with
      | expr e => cases e <;> first | exact ⟨(_, _), rfl⟩ | cases h
      | _ => cases h
  | block =>
      cases item with
      | stmt st => cases st <;> first | exact ⟨(_, _), rfl⟩ | cases h
      | _ => cases h
  | body =>
      cases item with
      | expr e => exact ⟨.inr e, rfl⟩
      | stmt st => cases st <;> first | exact ⟨.inl (_, _), rfl⟩ | cases h
      | _ => cases h
  | target =>
      cases item with
      | expr e => exact ⟨.inr e, rfl⟩
      | stmt st => cases st <;> first | exact ⟨.inl (_, _, _), rfl⟩ | cases h
      | _ => cases h
  | member =>
      cases item with
      | member m => exact ⟨.inl m, rfl⟩
      | expr e => cases e <;> first | exact ⟨.inr (_, _), rfl⟩ | cases h
      | _ => cases h
  | entry =>
      cases item with
      | entry e => exact ⟨.inl e, rfl⟩
      | pattern p => exact ⟨.inr p, rfl⟩
      | _ => cases h

/-! ## What stands in slots -/

section

variable {wanted : SlotKind} {slots : List Slot} {l : Items}

theorem uncons_one (h : Fills Item.suits (.one wanted :: slots) l) :
    ∃ x more, l = wanted.item x :: more ∧ Fills Item.suits slots more := by
  obtain ⟨item, more, rfl, hitem, hmore⟩ := Fills.one_iff.mp h
  obtain ⟨x, rfl⟩ := exists_content hitem
  exact ⟨x, more, rfl, hmore⟩

theorem uncons_optional (h : Fills Item.suits (.optional wanted :: slots) l) :
    Fills Item.suits slots l ∨ ∃ x more, l = wanted.item x :: more ∧ Fills Item.suits slots more := by
  refine (Fills.optional_iff.mp h).imp_right ?_
  rintro ⟨item, more, rfl, hitem, hmore⟩
  obtain ⟨x, rfl⟩ := exists_content hitem
  exact ⟨x, more, rfl, hmore⟩

theorem eq_of_last (h : Fills Item.suits [.one wanted] l) : ∃ x, l = [wanted.item x] := by
  obtain ⟨x, more, rfl, hmore⟩ := uncons_one h
  rw [Fills.nil_iff.mp hmore]
  exact ⟨x, rfl⟩

theorem eq_of_optional (h : Fills Item.suits [.optional wanted] l) :
    l = [] ∨ ∃ x, l = [wanted.item x] := by
  refine (uncons_optional h).imp Fills.nil_iff.mp ?_
  rintro ⟨x, more, rfl, hmore⟩
  rw [Fills.nil_iff.mp hmore]
  exact ⟨x, rfl⟩

theorem content_of_mem (h : Fills Item.suits [.many wanted] l) {item : Item} (hitem : item ∈ l) :
    ∃ x : wanted.Content, item = wanted.item x :=
  exists_content (Fills.many_iff.mp h item hitem)

end

namespace Items

/-- The items that are no tokens. -/
def nodes (items : Items) : Items := items.filter (!·.isToken)

variable (items : Items)

theorem filterMap_nodes {α : Type} (pick : Item → Option α) (h : ∀ t, pick (.token t) = none) :
    items.nodes.filterMap pick = items.filterMap pick := by
  induction items with
  | nil => rfl
  | cons item more ih =>
      cases item with
      | token t =>
          rw [List.filterMap_cons_none (h t)]
          exact ih
      | _ =>
          unfold nodes at ih ⊢
          rw [List.filter_cons_of_pos rfl, List.filterMap_cons, List.filterMap_cons, ih]

theorem findSome?_nodes {α : Type} (pick : Item → Option α) (h : ∀ t, pick (.token t) = none) :
    items.nodes.findSome? pick = items.findSome? pick := by
  rw [← List.head?_filterMap, ← List.head?_filterMap, filterMap_nodes items pick h]

theorem exprs_nodes : items.nodes.exprs = items.exprs := filterMap_nodes items _ fun _ => rfl

theorem stmts_nodes : items.nodes.stmts = items.stmts := filterMap_nodes items _ fun _ => rfl

theorem patterns_nodes : items.nodes.patterns = items.patterns :=
  filterMap_nodes items _ fun _ => rfl

theorem key_nodes : items.nodes.key = items.key :=
  congrArg (Option.getD · Key.hole) (findSome?_nodes items _ fun _ => rfl)

theorem parts_nodes (kind : NodeKind) : items.nodes.parts kind = items.parts kind :=
  filterMap_nodes items _ fun _ => rfl

end Items

/-! ## Nodes of lists -/

variable {o : Occurrence} {around : Setting}

theorem mem_exprNodesAll {exprs : List Expr} :
    o ∈ exprNodesAll around exprs ↔ ∃ e ∈ exprs, o ∈ exprNodes around e := by
  induction exprs with
  | nil => simp [exprNodesAll]
  | cons e more ih => simp [exprNodesAll, ih]

theorem mem_stmtNodesAll {stmts : List Stmt} :
    o ∈ stmtNodesAll around stmts ↔ ∃ st ∈ stmts, o ∈ stmtNodes around st := by
  induction stmts with
  | nil => simp [stmtNodesAll]
  | cons st more ih => simp [stmtNodesAll, ih]

theorem mem_patternNodesAll {patterns : List Pattern} :
    o ∈ patternNodesAll around patterns ↔ ∃ p ∈ patterns, o ∈ patternNodes around p := by
  induction patterns with
  | nil => simp [patternNodesAll]
  | cons p more ih => simp [patternNodesAll, ih]

theorem mem_bindingNodes {bindings : List Binding} :
    o ∈ bindingNodes around bindings ↔ ∃ b ∈ bindings, o ∈ bindingNodes around [b] := by
  induction bindings with
  | nil => simp [bindingNodes]
  | cons b more ih =>
      rw [bindingNodes_cons, List.mem_append, ih]
      simp

theorem mem_memberNodes {members : List ObjectMember} :
    o ∈ memberNodes around members ↔ ∃ m ∈ members, o ∈ memberNodes around [m] := by
  induction members with
  | nil => simp [memberNodes]
  | cons m more ih =>
      have hsplit : o ∈ memberNodes around (m :: more) ↔
          o ∈ memberNodes around [m] ∨ o ∈ memberNodes around more := by
        cases m <;> simp [memberNodes, or_assoc]
      rw [hsplit, ih]
      simp

theorem mem_entryNodes {entries : List Entry} :
    o ∈ entryNodes around entries ↔ ∃ e ∈ entries, o ∈ entryNodes around [e] := by
  induction entries with
  | nil => simp [entryNodes]
  | cons e more ih =>
      have hsplit : o ∈ entryNodes around (e :: more) ↔
          o ∈ entryNodes around [e] ∨ o ∈ entryNodes around more := by
        cases e <;> simp [entryNodes, or_assoc]
      rw [hsplit, ih]
      simp

theorem mem_caseNodes {cases : List Case} :
    o ∈ caseNodes around cases ↔ ∃ c ∈ cases, o ∈ caseNodes around [c] := by
  induction cases with
  | nil => simp [caseNodes]
  | cons c more ih =>
      have hsplit : o ∈ caseNodes around (c :: more) ↔
          o ∈ caseNodes around [c] ∨ o ∈ caseNodes around more := by
        cases c
        simp [caseNodes, or_assoc]
      rw [hsplit, ih]
      simp

theorem mem_itemNodesAll {items : Items} :
    o ∈ itemNodesAll around items ↔ ∃ item ∈ items, o ∈ itemNodes around item := by
  induction items with
  | nil => simp [itemNodesAll]
  | cons item more ih => simp [itemNodesAll, ih]

/-! ## Tokens have no nodes -/

theorem itemNodesAll_nodes (items : Items) :
    itemNodesAll around items.nodes = itemNodesAll around items := by
  induction items with
  | nil => rfl
  | cons item more ih =>
      cases item with
      | token t => exact ih
      | _ => exact congrArg (itemNodes around _ ++ ·) ih

theorem innerNodes_nodes (kind : NodeKind) (span : Span) (items : Items) :
    innerNodes around kind span items.nodes = innerNodes around kind span items := by
  induction items with
  | nil => rfl
  | cons item more ih =>
      cases item with
      | token t => exact ih
      | _ => exact congrArg (itemNodes (around.inside kind span _) _ ++ ·) ih

theorem nodes_assemble_nodes {kind : NodeKind} (span : Span) (items : Items)
    (hfunction : kind.isFunction = false) (hloop : kind ≠ .forInStmt) :
    itemNodes around (assemble kind span items.nodes) =
      itemNodes around (assemble kind span items) := by
  have hexprs := items.exprs_nodes
  have hstmts := items.stmts_nodes
  have hpatterns := items.patterns_nodes
  have hkey := items.key_nodes
  have hparts := items.parts_nodes
  cases kind with
  | functionDecl | functionExpr | arrow | method => cases hfunction
  | forInStmt => exact absurd rfl hloop
  | objectExpr =>
      exact congrArg (fun members => itemNodes around (.expr (.object span members)))
        (Items.filterMap_nodes items _ fun _ => rfl)
  | objectPat =>
      exact congrArg (fun entries => itemNodes around (.pattern (.object span entries)))
        (Items.filterMap_nodes items _ fun _ => rfl)
  | varDecl =>
      exact congrArg (bindingNodes around) (Items.filterMap_nodes items _ fun _ => rfl)
  | paramList =>
      exact congrArg (bindingNodes around) (Items.filterMap_nodes items _ fun _ => rfl)
  | _ =>
      simp only [assemble, itemNodes, exprNodes, stmtNodes, patternNodes, bindingNodes, keyNodes,
        memberNodes, entryNodes, Items.expr, Items.stmt, Items.pattern, Items.part?, Items.arguments,
        Items.interpolations, Items.templateParts, Items.loopInit, Items.loopClause, Items.block,
        Items.handler, Items.switchCases, itemNodesAll_nodes, hexprs, hstmts, hpatterns, hkey, hparts]

theorem itemNodesAll_singleton (a : Item) : itemNodesAll around [a] = itemNodes around a :=
  List.append_nil _

theorem itemNodesAll_pair (a b : Item) :
    itemNodesAll around [a, b] = itemNodes around a ++ itemNodes around b := by
  rw [itemNodesAll, itemNodesAll_singleton]

theorem itemNodesAll_triple (a b c : Item) :
    itemNodesAll around [a, b, c] =
      itemNodes around a ++ itemNodes around b ++ itemNodes around c := by
  rw [itemNodesAll, itemNodesAll_pair, List.append_assoc]

end Script

end ShellAwait
