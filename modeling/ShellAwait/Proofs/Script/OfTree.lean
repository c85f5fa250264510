import Mathlib.Data.List.Perm.Subperm
import ShellAwait.Proofs.Script.Nodes
import ShellAwait.Script.OfTree

/-! # Every node of a script is a node of its tree

Counted with multiplicity: reading a script off a tree never takes a node twice.
-/

namespace ShellAwait.Script

open Text

variable {around : Setting} {kind : NodeKind} {items : Items} {children : List Tree}

/-! ## The nodes of items -/

/-- What decides where the parts of an item stand. -/
def Item.role : Item → Option NodeKind
  | .parameters _ => some .paramList
  | .key _ => some .propName
  | .expr _ => some .nameRef
  | _ => none

mutual

def itemNodes (around : Setting) : Item → List Occurrence
  | .token _ => []
  | .expr expr => exprNodes around expr
  | .stmt stmt => stmtNodes around stmt
  | .pattern pattern => patternNodes around pattern
  | .declarator binding => bindingNodes around [binding]
  | .parameter binding => bindingNodes around [binding]
  | .parameters bindings => bindingNodes around bindings
  | .member member => memberNodes around [member]
  | .key key => keyNodes around key
  | .entry entry => entryNodes around [entry]
  | .part _ items => itemNodesAll around.used items

def itemNodesAll (around : Setting) : List Item → List Occurrence
  | [] => []
  | item :: more => itemNodes around item ++ itemNodesAll around more

end

/-- The nodes of the items of a node. -/
def innerNodes (around : Setting) (kind : NodeKind) (span : Span) (items : Items) :
    List Occurrence :=
  items.flatMap fun item => itemNodes (around.inside kind span item.role) item

/-- The node that items are assembled into. -/
def ownNode (around : Setting) (kind : NodeKind) (span : Span) (items : Items) : Occurrence :=
  { around.node kind span with
    isAsync := kind.isFunction && items.isAsync
    callee := if kind = .callExpr then (items.expr 0).name? else none }

theorem inside_paren (around : Setting) (span : Span) :
    around.inside .parenExpr span (some .nameRef) = around := by
  cases around
  simp [Setting.inside, NodeKind.isFunction, NodeKind.isExpression]

theorem inside_eq_used {span : Span} (hfunction : kind.isFunction = false)
    (hwrapped : ¬(kind = .parenExpr ∨ kind = .awaitExpr)) (child : Option NodeKind) :
    around.inside kind span child = around.used := by
  obtain ⟨hparen, hawait⟩ := not_or.mp hwrapped
  simp [Setting.inside, Setting.used, hfunction, hawait, hparen]

theorem innerNodes_of_inside {span : Span} (items : Items)
    (h : ∀ child, around.inside kind span child = around.used) :
    innerNodes around kind span items = itemNodesAll around.used items := by
  induction items with
  | nil => rfl
  | cons item more ih =>
      rw [innerNodes, List.flatMap_cons, h, itemNodesAll, ← ih]
      rfl

/-! ## Classes of items -/

variable (o : Occurrence)

def keyItems (items : Items) : List Key := items.filterMap fun | .key k => some k | _ => none

def keyNodesAll (around : Setting) : List Key → List Occurrence
  | [] => []
  | key :: more => keyNodes around key ++ keyNodesAll around more

/-- The nodes of the parts among items. -/
def partNodes (around : Setting) : List Item → List Occurrence
  | [] => []
  | .part _ inner :: more => itemNodesAll around.used inner ++ partNodes around more
  | _ :: more => partNodes around more

theorem count_classes_le (around : Setting) (items : Items) :
    (exprNodesAll around items.exprs).count o + (stmtNodesAll around items.stmts).count o +
      (patternNodesAll around items.patterns).count o +
        (keyNodesAll around (keyItems items)).count o +
      (partNodes around items).count o ≤ (itemNodesAll around items).count o := by
  induction items with
  | nil => simp [Items.exprs, Items.stmts, Items.patterns, keyItems, exprNodesAll, stmtNodesAll,
      patternNodesAll, keyNodesAll, partNodes]
  | cons item more ih =>
      rw [itemNodesAll, List.count_append]
      cases item <;>
        simp only [Items.exprs, Items.stmts, Items.patterns, keyItems, List.filterMap_cons,
          exprNodesAll, stmtNodesAll, patternNodesAll, keyNodesAll, partNodes, itemNodes,
          List.count_append, List.count_nil] at ih ⊢ <;>
        omega

theorem count_three_exprs_le (around : Setting) (exprs : List Expr) :
    (exprNodes around (exprs.getD 0 .hole)).count o +
      (exprNodes around (exprs.getD 1 .hole)).count o +
      (exprNodes around (exprs.getD 2 .hole)).count o ≤ (exprNodesAll around exprs).count o := by
  match exprs with
  | [] => simp [exprNodes]
  | [a] => simp [exprNodes, exprNodesAll]
  | [a, b] => simp [exprNodes, exprNodesAll]
  | a :: b :: c :: more =>
      simp only [List.getD_cons_zero, List.getD_cons_succ, exprNodesAll, List.count_append]
      omega

theorem count_stmt_le (around : Setting) {stmt : Stmt} {stmts : List Stmt} (h : stmt ∈ stmts) :
    (stmtNodes around stmt).count o ≤ (stmtNodesAll around stmts).count o := by
  induction stmts with
  | nil => exact absurd h List.not_mem_nil
  | cons first more ih =>
      rw [stmtNodesAll, List.count_append]
      rcases List.mem_cons.mp h with rfl | h
      · omega
      · have hmore := ih h
        omega

theorem count_first_stmt_le (around : Setting) (stmts : List Stmt) :
    (stmtNodes around (stmts.headD .hole)).count o ≤ (stmtNodesAll around stmts).count o := by
  cases stmts with
  | nil => simp [stmtNodes]
  | cons first more => exact count_stmt_le o around List.mem_cons_self

theorem block_cases (items : Items) :
    items.block = .hole ∨ ∃ span body, items.block = .block span body ∧
      .block span body ∈ items.stmts := by
  unfold Items.block
  generalize hfound : List.find? _ items.stmts = found
  cases found with
  | none => exact .inl rfl
  | some stmt =>
      have hmem := List.mem_of_find?_eq_some hfound
      have hblock := List.find?_some hfound
      cases stmt with
      | block span body => exact .inr ⟨span, body, rfl, hmem⟩
      | _ => cases hblock

theorem count_block_le (around : Setting) (items : Items) :
    (stmtNodes around items.block).count o ≤ (stmtNodesAll around items.stmts).count o := by
  rcases block_cases items with h | ⟨span, body, h, hmem⟩
  · simp [h, stmtNodes]
  · exact h ▸ count_stmt_le o around hmem

theorem stmtNodes_block (around : Setting) (items : Items) :
    stmtNodes around items.block = stmtNodesAll around items.blockBody := by
  unfold Items.blockBody
  rcases block_cases items with h | ⟨span, body, h, -⟩ <;> rw [h] <;> rfl

theorem count_first_pattern_le (around : Setting) (patterns : List Pattern) :
    (patternNodes around (patterns.headD .hole)).count o ≤
      (patternNodesAll around patterns).count o := by
  cases patterns with
  | nil => simp [patternNodes]
  | cons first more => simp [patternNodesAll]

theorem count_key_le (around : Setting) (items : Items) :
    (keyNodes around items.key).count o ≤ (keyNodesAll around (keyItems items)).count o := by
  have hkey : items.key = (keyItems items).headD .hole := by
    rw [Items.key, ← List.head?_filterMap, List.headD_eq_head?_getD]
    rfl
  rw [hkey]
  cases keyItems items with
  | nil => simp [keyNodes]
  | cons first more => simp [keyNodesAll]

/-- The nodes of the parts of some kinds. -/
def partNodesOf (around : Setting) (kinds : List NodeKind) (items : Items) : List Occurrence :=
  kinds.flatMap fun kind => (items.parts kind).flatMap (itemNodesAll around.used)

theorem parts_cons (kind k : NodeKind) (inner more : Items) :
    Items.parts (.part k inner :: more) kind =
      if k = kind then inner :: Items.parts more kind else Items.parts more kind := by
  rw [Items.parts, List.filterMap_cons]
  by_cases h : k = kind <;> simp [h] <;> rfl

theorem partNodesOf_cons_of_not_mem {kinds : List NodeKind} {k : NodeKind} (inner more : Items)
    (h : k ∉ kinds) :
    partNodesOf around kinds (.part k inner :: more) = partNodesOf around kinds more := by
  induction kinds with
  | nil => rfl
  | cons kind others ih =>
      rw [List.mem_cons, not_or] at h
      have hothers := ih h.2
      unfold partNodesOf at hothers ⊢
      rw [List.flatMap_cons, List.flatMap_cons, hothers, parts_cons, if_neg h.1]

theorem count_parts_le (around : Setting) {kinds : List NodeKind} (hkinds : kinds.Nodup)
    (items : Items) :
    (partNodesOf around kinds items).count o ≤ (partNodes around items).count o := by
  induction items with
  | nil =>
      have hempty : partNodesOf around kinds [] = [] :=
        List.flatMap_eq_nil_iff.mpr fun _ _ => rfl
      simp [hempty]
  | cons item more ih =>
      cases item with
      | part k inner =>
          have hone : (partNodesOf around kinds (.part k inner :: more)).count o ≤
              (itemNodesAll around.used inner).count o +
                (partNodesOf around kinds more).count o := by
            clear ih
            induction kinds with
            | nil => simp [partNodesOf]
            | cons kind others ih =>
                obtain ⟨hkind, hothers⟩ := List.nodup_cons.mp hkinds
                have hstep (items : Items) : partNodesOf around (kind :: others) items =
                    (items.parts kind).flatMap (itemNodesAll around.used) ++
                      partNodesOf around others items := rfl
                rw [hstep, hstep, List.count_append, List.count_append, parts_cons]
                by_cases h : k = kind
                · subst h
                  rw [partNodesOf_cons_of_not_mem inner more hkind, if_pos rfl, List.flatMap_cons,
                    List.count_append]
                  omega
                · have hmore := ih hothers
                  rw [if_neg h]
                  omega
          rw [partNodes, List.count_append]
          omega
      | _ => exact ih

theorem count_part_le (around : Setting) (kind : NodeKind) (items : Items) :
    (itemNodesAll around.used ((items.part? kind).getD [])).count o ≤
      ((items.parts kind).flatMap (itemNodesAll around.used)).count o := by
  unfold Items.part?
  cases items.parts kind with
  | nil => simp [itemNodesAll]
  | cons first more => simp [List.count_append]

/-! ## Lists of items -/

theorem count_members_le (around : Setting) (items : Items) :
    (memberNodes around items.members).count o ≤ (itemNodesAll around items).count o := by
  induction items with
  | nil => simp [Items.members, memberNodes]
  | cons item more ih =>
      rw [itemNodesAll, List.count_append]
      cases item with
      | member m =>
          have hsplit : (memberNodes around (m :: Items.members more)).count o =
              (memberNodes around [m]).count o +
                (memberNodes around (Items.members more)).count o := by
            cases m <;> simp [memberNodes, List.count_append, List.count_cons] <;> omega
          have hmembers : Items.members (.member m :: more) = m :: Items.members more := rfl
          rw [hmembers, hsplit, itemNodes]
          omega
      | expr e =>
          cases e with
          | spread span inner =>
              have hmembers : Items.members (.expr (.spread span inner) :: more) =
                  .spread inner :: Items.members more := rfl
              rw [hmembers, memberNodes, itemNodes, exprNodes, List.count_append, List.count_cons]
              omega
          | _ => exact Nat.le_trans ih (Nat.le_add_left _ _)
      | _ => exact Nat.le_trans ih (Nat.le_add_left _ _)

theorem count_entries_le (around : Setting) (items : Items) :
    (entryNodes around items.entries).count o ≤ (itemNodesAll around items).count o := by
  induction items with
  | nil => simp [Items.entries, entryNodes]
  | cons item more ih =>
      rw [itemNodesAll, List.count_append]
      have hrest (pattern : Pattern) :
          (entryNodes around (.rest pattern :: Items.entries more)).count o =
          (patternNodes around pattern).count o +
            (entryNodes around (Items.entries more)).count o := by
        rw [entryNodes, List.count_append]
      cases item with
      | token t => exact Nat.le_trans ih (Nat.le_add_left _ _)
      | entry e =>
          have hsplit : (entryNodes around (e :: Items.entries more)).count o =
              (entryNodes around [e]).count o +
                (entryNodes around (Items.entries more)).count o := by
            cases e <;> simp [entryNodes, List.count_append, Nat.add_assoc]
          have hentries : Items.entries (.entry e :: more) = e :: Items.entries more := rfl
          rw [hentries, hsplit, itemNodes]
          omega
      | pattern p =>
          have hentries : Items.entries (.pattern p :: more) = .rest p :: Items.entries more := rfl
          rw [hentries, hrest, itemNodes]
          omega
      | _ =>
          refine Nat.le_trans (Nat.le_of_eq (hrest .hole)) ?_
          simp only [patternNodes, List.count_nil]
          omega

theorem bindingNodes_cons (around : Setting) (binding : Binding) (more : List Binding) :
    bindingNodes around (binding :: more) = bindingNodes around [binding] ++
      bindingNodes around more := by
  cases binding
  simp [bindingNodes]

theorem count_bindings_le (around : Setting) {pick : Item → Option Binding}
    (hpick : ∀ item binding, pick item = some binding →
      itemNodes around item = bindingNodes around [binding]) (items : Items) :
    (bindingNodes around (items.filterMap pick)).count o ≤ (itemNodesAll around items).count o := by
  induction items with
  | nil => simp [bindingNodes]
  | cons item more ih =>
      rw [itemNodesAll, List.count_append, List.filterMap_cons]
      cases hitem : pick item with
      | none => exact Nat.le_trans ih (Nat.le_add_left _ _)
      | some binding =>
          rw [bindingNodes_cons, List.count_append, hpick item binding hitem]
          omega

theorem count_expr_le (around : Setting) (items : Items) :
    (exprNodes around (items.expr 0)).count o ≤ (itemNodesAll around items).count o := by
  have hclasses := count_classes_le o around items
  have hexprs := count_three_exprs_le o around items.exprs
  rw [Items.expr]
  omega

theorem count_interpolations_le (around : Setting) (parts : List Items) :
    (exprNodesAll around (parts.map (·.expr 0))).count o ≤
      (parts.flatMap (itemNodesAll around)).count o := by
  induction parts with
  | nil => simp [exprNodesAll]
  | cons inner more ih =>
      rw [List.map_cons, exprNodesAll, List.flatMap_cons, List.count_append, List.count_append]
      have hexpr := count_expr_le o around inner
      omega

theorem count_cases_le (around : Setting) (parts : List Items) :
    (caseNodes around.used (parts.map fun inner =>
      .mk (inner.hasToken .defaultKw) (inner.expr 0) inner.stmts)).count o ≤
      (parts.flatMap (itemNodesAll around.used)).count o := by
  induction parts with
  | nil => simp [caseNodes]
  | cons inner more ih =>
      have hclasses := count_classes_le o around.used inner
      have hexprs := count_three_exprs_le o around.used inner.exprs
      rw [List.map_cons, caseNodes, List.flatMap_cons, List.count_append, List.count_append,
        List.count_append, Items.expr, Setting.used_used]
      omega

theorem count_loopInit_le (around : Setting) (items : Items) :
    (stmtNodes around.used items.loopInit).count o ≤
      ((items.parts .forInit).flatMap (itemNodesAll around.used)).count o := by
  have hpart := count_part_le o around .forInit items
  unfold Items.loopInit
  cases hinit : items.part? .forInit with
  | none => simp [stmtNodes]
  | some inner =>
      rw [hinit, Option.getD_some] at hpart
      have hclasses := count_classes_le o around.used inner
      refine Nat.le_trans ?_ hpart
      simp only
      generalize hfound : List.find? _ inner.stmts = found
      cases found with
      | some stmt =>
          have hstmt := count_stmt_le o around.used (List.mem_of_find?_eq_some hfound)
          simp only
          omega
      | none =>
          have hexprs := count_three_exprs_le o around.used inner.exprs
          cases hexpr : inner.exprs with
          | nil => simp [stmtNodes]
          | cons e more =>
              rw [hexpr, List.getD_cons_zero] at hexprs
              rw [hexpr] at hclasses
              simp only [List.head?_cons, Option.map_some, Option.getD_some, Items.valueStmt,
                stmtNodes]
              rw [Setting.used_used]
              omega

theorem count_handler_le (around : Setting) (items : Items) :
    (handlerNodes around.used items.handler).count o ≤
      ((items.parts .catchClause).flatMap (itemNodesAll around.used)).count o := by
  have hpart := count_part_le o around .catchClause items
  unfold Items.handler
  cases hclause : items.part? .catchClause with
  | none => simp [handlerNodes]
  | some inner =>
      rw [hclause, Option.getD_some] at hpart
      have hclasses := count_classes_le o around.used inner
      have hpattern := count_first_pattern_le o around.used inner.patterns
      have hblock := count_block_le o around.used inner
      simp only [handlerNodes, List.count_append, ← stmtNodes_block, Items.pattern]
      omega

/-! ## Functions -/

theorem inside_function (around : Setting) (span : Span) (hkind : kind.isFunction = true) :
    around.inside kind span (some .paramList) = .parametersOf span ∧
      around.inside kind span (some .propName) = around.used ∧
      around.inside kind span (some .nameRef) = .bodyOf span ∧
      around.inside kind span none = .bodyOf span := by
  cases kind <;> cases hkind <;> exact ⟨rfl, rfl, rfl, rfl⟩

theorem count_function_le (around : Setting) (span : Span) (hkind : kind.isFunction = true)
    (items : Items) :
    (functionNodes (items.function span)).count o + (keyNodes around.used items.key).count o ≤
      (innerNodes around kind span items).count o := by
  obtain ⟨hparameters, hkey, hvalue, hbody⟩ := inside_function around span hkind
  rw [Items.function, functionNodes, List.count_append]
  induction items with
  | nil => simp [bindingNodes, Items.functionBody, stmtNodes, Items.key, keyNodes]
  | cons item more ih =>
      rw [innerNodes, List.flatMap_cons, List.count_append]
      change _ ≤ _ + (innerNodes around kind span more).count o
      cases item with
      | parameters bindings =>
          rw [Item.role, hparameters, itemNodes]
          simp only [List.findSome?_cons, Option.getD_some]
          change _ + (stmtNodes _ (Items.functionBody more)).count o +
            (keyNodes _ (Items.key more)).count o ≤ _
          omega
      | key k =>
          rw [Item.role, hkey, itemNodes]
          change (bindingNodes _ ((more.findSome? _).getD [])).count o +
            (stmtNodes _ (Items.functionBody more)).count o + (keyNodes _ k).count o ≤ _
          omega
      | expr e =>
          rw [Item.role, hvalue, itemNodes]
          change (bindingNodes _ ((more.findSome? _).getD [])).count o +
            (exprNodes (Setting.bodyOf span) e).count o + (keyNodes _ (Items.key more)).count o ≤ _
          omega
      | stmt st =>
          have hrole : around.inside kind span (Item.stmt st).role = .bodyOf span := hbody
          rw [hrole, itemNodes]
          cases st with
          | block sp body =>
              change (bindingNodes _ ((more.findSome? _).getD [])).count o +
                (stmtNodes _ (.block sp body)).count o + (keyNodes _ (Items.key more)).count o ≤ _
              omega
          | _ => exact Nat.le_trans ih (Nat.le_add_left _ _)
      | _ => exact Nat.le_trans ih (Nat.le_add_left _ _)

/-! ## Loops over a value -/

def Item.isToken : Item → Bool
  | .token _ => true
  | _ => false

/-- The parenthesis that closes the head of a loop stands behind its target. -/
def ClosesLate (items : Items) : Prop :=
  ∀ t, .token t ∈ items.takeWhile Item.isToken → t.kind ≠ .rParen

theorem count_bodyAfter_le (around : Setting) (items : Items) :
    (stmtNodes around items.bodyAfterHead).count o ≤ (stmtNodesAll around items.stmts).count o := by
  unfold Items.bodyAfterHead Items.stmt
  generalize hafter : List.dropWhile _ items = after
  have hsuffix : after <:+ items := hafter ▸ List.dropWhile_suffix _
  cases hstmts : Items.stmts after with
  | nil => simp [stmtNodes]
  | cons first more =>
      have hmem : first ∈ Items.stmts after := hstmts ▸ List.mem_cons_self
      have hsublist : (Items.stmts after).Sublist items.stmts := hsuffix.sublist.filterMap _
      exact count_stmt_le o around (hsublist.mem hmem)

theorem count_each_le (around : Setting) (h : ClosesLate items) :
    (stmtNodes around.used items.loopTarget).count o +
      (exprNodes around.used items.iterable).count o +
      (stmtNodes around.used items.bodyAfterHead).count o ≤
      (itemNodesAll around.used items).count o := by
  induction items with
  | nil => simp [Items.loopTarget, Items.iterable, Items.bodyAfterHead, Items.stmt, Items.stmts,
      stmtNodes, exprNodes]
  | cons item more ih =>
      have hclasses := count_classes_le o around.used more
      have hexprs := count_three_exprs_le o around.used (Items.exprs more)
      have hbody := count_bodyAfter_le o around.used more
      rw [itemNodesAll, List.count_append]
      cases item with
      | token t =>
          have ht : t.kind ≠ .rParen := h t List.mem_cons_self
          have hmore : ClosesLate more := fun u hu => h u (by
            simp only [List.takeWhile_cons, Item.isToken, if_true, List.mem_cons]
            exact .inr hu)
          have hskip : Items.bodyAfterHead (.token t :: more) = Items.bodyAfterHead more :=
            congrArg Items.stmt (List.dropWhile_cons_of_pos (bne_iff_ne.mpr ht))
          rw [hskip]
          exact Nat.le_trans (ih hmore) (Nat.le_add_left _ _)
      | expr e =>
          change (exprNodes around.used e).count o +
            (exprNodes around.used ((Items.exprs more).getD 0 .hole)).count o +
              (stmtNodes around.used (Items.bodyAfterHead more)).count o ≤
                (exprNodes around.used e).count o + _
          omega
      | stmt st =>
          cases st with
          | var sp kind declarators =>
              change (stmtNodes around.used (.var sp kind declarators)).count o +
                (exprNodes around.used ((Items.exprs more).getD 0 .hole)).count o +
                  (stmtNodes around.used (Items.bodyAfterHead more)).count o ≤
                    (stmtNodes around.used (.var sp kind declarators)).count o + _
              omega
          | _ =>
              change (stmtNodes around.used .hole).count o + (exprNodes around.used .hole).count o +
                (stmtNodes around.used (Items.bodyAfterHead more)).count o ≤ _
              simp only [stmtNodes, exprNodes, List.count_nil]
              omega
      | _ =>
          change (stmtNodes around.used .hole).count o + (exprNodes around.used .hole).count o +
            (stmtNodes around.used (Items.bodyAfterHead more)).count o ≤ _
          simp only [stmtNodes, exprNodes, List.count_nil]
          omega

/-! ## Tagged templates -/

theorem count_tagged_le (around : Setting) {tag : Expr} {span : Span} {parts : List Expr}
    (h : items.exprs = [tag, .template span parts]) :
    (exprNodes around.used (items.expr 0)).count o +
      (exprNodesAll around.used items.templateParts).count o ≤
      (itemNodesAll around.used items).count o := by
  have hclasses := count_classes_le o around.used items
  have htag : items.expr 0 = tag := by rw [Items.expr, h]; rfl
  have hparts : items.templateParts = parts := by rw [Items.templateParts, h]; rfl
  rw [h, exprNodesAll, exprNodesAll, exprNodesAll, exprNodes, List.count_append, List.append_nil,
    List.count_cons, Setting.used_used] at hclasses
  rw [htag, hparts]
  omega

/-! ## Nodes -/

/-- What the shape of a node says of its items. -/
structure Fits (kind : NodeKind) (items : Items) : Prop where
  tagged : kind = .taggedTemplate → ∃ tag span parts, items.exprs = [tag, .template span parts]
  head : kind = .forInStmt → ClosesLate items

theorem count_arguments_le (around : Setting) (items : Items) :
    (exprNodesAll around.used items.arguments).count o ≤ (partNodes around.used items).count o := by
  have hinner := count_classes_le o around.used ((items.part? .argList).getD [])
  have hpart := count_part_le o around .argList items
  have hparts := count_parts_le o around.used (show [.argList].Nodup by decide) items
  rw [partNodesOf, List.flatMap_singleton, Setting.used_used] at hparts
  rw [Items.arguments]
  omega

theorem count_operand_le (around : Setting) (kind : NodeKind) (span : Span) (items : Items) :
    (exprNodes (around.inside kind span (some .nameRef)) (items.expr 0)).count o ≤
      (innerNodes around kind span items).count o := by
  induction items with
  | nil => simp [Items.expr, Items.exprs, exprNodes]
  | cons item more ih =>
      rw [innerNodes, List.flatMap_cons, List.count_append]
      cases item with
      | expr e => exact Nat.le_add_right _ _
      | _ => exact Nat.le_trans ih (Nat.le_add_left _ _)

theorem count_assemble_part_le (around : Setting) (span : Span)
    (hexpression : kind.isExpression = false) (hfunction : kind.isFunction = false)
    (hfits : Fits kind items) :
    (itemNodes around.used (assemble kind span items)).count o ≤
      (itemNodesAll around.used items).count o := by
  have hclasses := count_classes_le o around.used items
  have hexprs := count_three_exprs_le o around.used items.exprs
  have hexpr := count_expr_le o around.used items
  have hstmt := count_first_stmt_le o around.used items.stmts
  have hpattern := count_first_pattern_le o around.used items.patterns
  have hkey := count_key_le o around.used items
  cases kind with
  | varDecl =>
      refine count_bindings_le o around.used ?_ items
      rintro (_ | _) binding ⟨⟩; rfl
  | paramList =>
      refine count_bindings_le o around.used ?_ items
      rintro (_ | _) binding ⟨⟩; rfl
  | declarator | param | assignPat =>
      simp only [assemble, itemNodes, bindingNodes, patternNodes, List.count_append, List.count_nil]
      change _ + (exprNodes around.used _).count o ≤ _
      rw [Items.pattern, Items.expr]
      omega
  | block | arrayPat => simp only [assemble, itemNodes, stmtNodes, patternNodes]; omega
  | restPat => simp only [assemble, itemNodes, patternNodes, Items.pattern]; omega
  | exprStmt | returnStmt | throwStmt | computedName => exact hexpr
  | emptyStmt | breakStmt | continueStmt | identPat | propName => exact Nat.zero_le _
  | whileStmt | doWhileStmt =>
      simp only [assemble, itemNodes, stmtNodes, List.count_append, Items.stmt, Items.expr]
      rw [Setting.used_used]
      omega
  | objectPat => exact count_entries_le o around.used items
  | patProp =>
      simp only [assemble, itemNodes, entryNodes, List.count_append, List.count_nil, Items.pattern]
      omega
  | property =>
      simp only [assemble, itemNodes, memberNodes, List.count_append, List.count_nil, Items.expr]
      rw [Setting.used_used]
      omega
  | ifStmt =>
      have hinner := count_classes_le o around.used ((items.part? .elseClause).getD [])
      have helse := count_first_stmt_le o around.used ((items.part? .elseClause).getD []).stmts
      have hpart := count_part_le o around.used .elseClause items
      have hparts := count_parts_le o around.used (show [.elseClause].Nodup by decide) items
      rw [partNodesOf, List.flatMap_singleton] at hparts
      simp only [assemble, itemNodes, stmtNodes, List.count_append, Items.stmt, Items.expr]
      rw [Setting.used_used] at *
      omega
  | forStmt =>
      have htest := count_expr_le o around.used ((items.part? .forTest).getD [])
      have hupdate := count_expr_le o around.used ((items.part? .forUpdate).getD [])
      have hinit := count_loopInit_le o around.used items
      have hfirst := count_part_le o around.used .forTest items
      have hsecond := count_part_le o around.used .forUpdate items
      have hparts := count_parts_le o around.used
          (show [.forInit, .forTest, .forUpdate].Nodup by decide) items
      simp only [partNodesOf, List.flatMap_cons, List.flatMap_nil, List.append_nil,
        List.count_append] at hparts
      simp only [assemble, itemNodes, stmtNodes, List.count_append, Items.stmt, Items.loopClause]
      rw [Setting.used_used] at *
      omega
  | forInStmt =>
      have heach := count_each_le o around (hfits.head rfl)
      simp only [assemble, itemNodes, stmtNodes, List.count_append]
      exact heach
  | tryStmt =>
      have hblock := count_block_le o around.used items
      have hinner := count_classes_le o around.used ((items.part? .finallyClause).getD [])
      have hcleanup := count_block_le o around.used ((items.part? .finallyClause).getD [])
      have hpart := count_part_le o around.used .finallyClause items
      have hhandler := count_handler_le o around.used items
      have hparts := count_parts_le o around.used
          (show [.catchClause, .finallyClause].Nodup by decide) items
      simp only [partNodesOf, List.flatMap_cons, List.flatMap_nil, List.append_nil,
        List.count_append] at hparts
      simp only [assemble, itemNodes, stmtNodes, List.count_append]
      rw [Setting.used_used] at *
      omega
  | switchStmt =>
      have hcases := count_cases_le o around (items.parts .switchCase)
      have hparts := count_parts_le o around.used (show [.switchCase].Nodup by decide) items
      rw [partNodesOf, List.flatMap_singleton] at hparts
      simp only [assemble, itemNodes, stmtNodes, List.count_append, Items.switchCases]
      rw [Items.expr, Setting.used_used] at *
      omega
  | broken | script | elseClause | forInit | forTest | forUpdate | catchClause | finallyClause
  | switchCase | interpolation | memberName | argList => exact Nat.le_refl _
  | functionDecl | method => cases hfunction
  | _ => cases hexpression

theorem count_own_le {span : Span} (parts : List Occurrence)
    (hinside : ∀ child, around.inside kind span child = around.used)
    (hparts : parts.count o ≤ (itemNodesAll around.used items).count o) :
    (ownNode around kind span items :: parts).count o ≤
      (ownNode around kind span items :: innerNodes around kind span items).count o := by
  rw [innerNodes_of_inside items hinside, List.count_cons, List.count_cons]
  omega

theorem functionValueNodes_items (around : Setting) (span : Span) (items : Items)
    (h : kind.isFunction = true) :
    functionValueNodes around kind span (items.function span) =
      [ownNode around kind span items] := by
  have hcall : kind ≠ .callExpr := by rintro rfl; cases h
  rw [functionValueNodes, if_pos (show (items.function span).span = span from rfl), ownNode, h,
    if_neg hcall]
  rfl

theorem count_assemble_function_le (around : Setting) (span : Span)
    (hfunction : kind.isFunction = true) :
    (itemNodes around (assemble kind span items)).count o ≤
      (ownNode around kind span items :: innerNodes around kind span items).count o := by
  have hinner := count_function_le o around span hfunction items
  rw [List.count_cons]
  cases kind with
  | functionDecl =>
      change (ownNode around _ span items :: functionNodes (items.function span)).count o ≤ _
      rw [List.count_cons]
      omega
  | functionExpr | arrow =>
      change (functionValueNodes around _ span _ ++ functionNodes (items.function span)).count o ≤ _
      rw [functionValueNodes_items around span items rfl, List.singleton_append, List.count_cons]
      omega
  | method =>
      have hkey : keyNodes around items.key = keyNodes around.used items.key := by
        cases items.key <;> rfl
      change (ownNode around _ span items :: (keyNodes around items.key ++
        functionNodes (items.function span) ++ [])).count o ≤ _
      rw [List.append_nil, List.count_cons, List.count_append, hkey]
      omega
  | _ => cases hfunction

theorem count_assemble_expr_le (around : Setting) (span : Span)
    (hexpression : kind.isExpression = true) (hfunction : kind.isFunction = false)
    (hfits : Fits kind items) :
    (itemNodes around (assemble kind span items)).count o ≤
      (ownNode around kind span items :: innerNodes around kind span items).count o := by
  have hclasses := count_classes_le o around.used items
  have hexprs := count_three_exprs_le o around.used items.exprs
  have hexpr := count_expr_le o around.used items
  have harguments := count_arguments_le o around items
  cases kind with
  | literal | nameRef | thisExpr => exact count_own_le o _ (fun _ => rfl) (Nat.zero_le _)
  | arrayExpr | sequenceExpr =>
      exact count_own_le o (exprNodesAll around.used items.exprs) (fun _ => rfl) (by omega)
  | spreadElement | memberExpr | prefixExpr | postfixExpr =>
      exact count_own_le o _ (fun _ => rfl) hexpr
  | indexExpr | binaryExpr | assignExpr =>
      refine count_own_le o (exprNodes around.used (items.expr 0) ++
        exprNodes around.used (items.expr 1)) (fun _ => rfl) ?_
      rw [List.count_append, Items.expr, Items.expr]
      omega
  | condExpr =>
      refine count_own_le o (exprNodes around.used (items.expr 0) ++
        exprNodes around.used (items.expr 1) ++ exprNodes around.used (items.expr 2)) (fun _ =>
          rfl) ?_
      rw [List.count_append, List.count_append, Items.expr, Items.expr, Items.expr]
      omega
  | callExpr | newExpr =>
      refine count_own_le o (exprNodes around.used (items.expr 0) ++
        exprNodesAll around.used items.arguments) (fun _ => rfl) ?_
      rw [List.count_append, Items.expr]
      omega
  | template =>
      have hinner := count_interpolations_le o around.used (items.parts .interpolation)
      have hparts := count_parts_le o around.used (show [.interpolation].Nodup by decide) items
      rw [partNodesOf, List.flatMap_singleton, Setting.used_used] at hparts
      refine count_own_le o (exprNodesAll around.used items.interpolations) (fun _ => rfl) ?_
      rw [Items.interpolations]
      omega
  | taggedTemplate =>
      obtain ⟨tag, templateSpan, parts, h⟩ := hfits.tagged rfl
      refine count_own_le o (exprNodes around.used (items.expr 0) ++
        exprNodesAll around.used items.templateParts) (fun _ => rfl) ?_
      rw [List.count_append]
      exact count_tagged_le o around h
  | objectExpr => exact count_own_le o _ (fun _ => rfl) (count_members_le o around.used items)
  | parenExpr =>
      have hoperand := count_operand_le o around .parenExpr span items
      change (ownNode around _ span items :: exprNodes around (items.expr 0)).count o ≤ _
      rw [inside_paren] at hoperand
      rw [List.count_cons, List.count_cons]
      omega
  | awaitExpr =>
      have hoperand := count_operand_le o around .awaitExpr span items
      change (ownNode around _ span items :: exprNodes
        (around.inside .awaitExpr span (some .nameRef))
        (items.expr 0)).count o ≤ _
      rw [List.count_cons, List.count_cons]
      omega
  | functionExpr | arrow => cases hfunction
  | _ => cases hexpression

theorem count_assemble_le (span : Span) (haround : around.awaited = true → kind.isExpression = true)
    (hfits : Fits kind items) :
    (itemNodes around (assemble kind span items)).count o ≤
      (ownNode around kind span items :: innerNodes around kind span items).count o := by
  by_cases hfunction : kind.isFunction = true
  · exact count_assemble_function_le o around span hfunction
  · rw [Bool.not_eq_true] at hfunction
    by_cases hexpression : kind.isExpression = true
    · exact count_assemble_expr_le o around span hexpression hfunction hfits
    · have hused : around = around.used := by
        cases around
        simpa [Setting.used] using mt haround hexpression
      rw [Bool.not_eq_true] at hexpression
      have hwrapped : ¬(kind = .parenExpr ∨ kind = .awaitExpr) := by
        rintro (rfl | rfl) <;> cases hexpression
      have hparts := count_assemble_part_le o around span hexpression hfunction hfits
      rw [← hused] at hparts
      rw [innerNodes_of_inside items (inside_eq_used hfunction hwrapped), ← hused, List.count_cons]
      omega

/-! ## Items of trees -/

theorem isToken_assemble (kind : NodeKind) (span : Span) (items : Items) :
    (assemble kind span items).isToken = false := by
  cases kind <;> rfl

theorem assemble_of_isExpression (span : Span) (items : Items) (h : kind.isExpression = true) :
    ∃ e, assemble kind span items = .expr e ∧ (kind ≠ .nameRef → e.name? = none) := by
  cases kind <;> cases h <;> exact ⟨_, rfl, fun hkind => by first | rfl | exact absurd rfl hkind⟩

theorem exprs_assemble_of_not_isExpression (span : Span) (items more : Items)
    (h : kind.isExpression = false) :
    Items.exprs (assemble kind span items :: more) = Items.exprs more := by
  cases kind <;> cases h <;> rfl

theorem isAsync_ofTrees (offset : Nat) (children : List Tree) :
    Items.isAsync (Items.ofTrees offset children) = Tree.startsAsync children := by
  induction children generalizing offset with
  | nil => rfl
  | cons tree rest ih =>
      cases tree with
      | leaf token =>
          by_cases h : token.kind.isTrivia = true
          · have hitems : Items.isAsync (Items.ofTrees offset (.leaf token :: rest)) =
                Items.isAsync (Items.ofTrees (offset + byteLength token.text) rest) := by
              unfold Items.isAsync
              rw [Items.ofTrees, Item.ofTree, List.find?_cons_of_neg (by simpa using h)]
              rfl
            rw [hitems, ih, Tree.startsAsync, Tree.startsAsync,
              List.find?_cons_of_neg (by simpa [Tree.isTrivia] using h)]
          · unfold Items.isAsync
            rw [Items.ofTrees, Item.ofTree, List.find?_cons_of_pos (by simpa using h),
              Tree.startsAsync,
              List.find?_cons_of_pos (by simpa [Tree.isTrivia] using h)]
      | node kind children =>
          have htoken := isToken_assemble kind ⟨offset, offset + Tree.widthAll children⟩
            (Items.ofTrees offset children)
          rw [Items.ofTrees, Item.ofTree]
          generalize assemble kind _ _ = item at htoken
          cases item with
          | token t => cases htoken
          | _ => rfl

theorem identifier_ofTrees (offset : Nat) (children : List Tree) :
    Items.identifier? (Items.ofTrees offset children) = Tree.identifier? children := by
  induction children generalizing offset with
  | nil => rfl
  | cons tree rest ih =>
      cases tree with
      | leaf token =>
          rw [Tree.identifier?, ← ih (offset + byteLength token.text)]
          change ((token :: Items.tokens _).find? _).map _ = _
          by_cases h : token.kind = .ident
          · rw [List.find?_cons_of_pos (by simpa using h), if_pos h]
            rfl
          · rw [List.find?_cons_of_neg (by simpa using h), if_neg h]
            rfl
      | node kind children =>
          rw [Tree.identifier?, ← ih (offset + Tree.widthAll children)]
          have htokens (items more : Items) (span : Span) :
              Items.tokens (assemble kind span items :: more) = Items.tokens more := by
            cases kind <;> rfl
          rw [Items.ofTrees, Item.ofTree, Items.identifier?, htokens]
          rfl

theorem calledName_ofTrees (offset : Nat) (children : List Tree) :
    (Items.expr (Items.ofTrees offset children) 0).name? = Tree.calledName? children := by
  induction children generalizing offset with
  | nil => rfl
  | cons tree rest ih =>
      cases tree with
      | leaf token => exact ih _
      | node kind children =>
          rw [Items.ofTrees, Item.ofTree, Tree.calledName?, Items.expr]
          by_cases hname : kind = .nameRef
          · subst hname
            rw [if_pos rfl, ← identifier_ofTrees offset children]
            rfl
          · rw [if_neg hname]
            by_cases hexpression : kind.isExpression = true
            · obtain ⟨e, hitem, he⟩ := assemble_of_isExpression
                ⟨offset, offset + Tree.widthAll children⟩
                  (Items.ofTrees offset children) hexpression
              rw [if_pos hexpression, hitem]
              exact he hname
            · rw [if_neg hexpression, exprs_assemble_of_not_isExpression _ _ _
                (by simpa using hexpression)]
              exact ih _

theorem ownNode_ofTrees (around : Setting) (kind : NodeKind) (span : Span) (offset : Nat)
    (children : List Tree) :
    ownNode around kind span (Items.ofTrees offset children) =
      Tree.occurrence around kind span children := by
  rw [ownNode, Tree.occurrence, isAsync_ofTrees, calledName_ofTrees]
  rfl

theorem inside_role (around : Setting) (kind : NodeKind) (span : Span) (offset : Nat)
    (tree : Tree) :
    around.inside kind span (Item.ofTree offset tree).role =
      around.inside kind span tree.nodeKind? := by
  cases tree with
  | leaf token => rfl
  | node k children => cases k <;> rfl

/-! ## Shapes of items -/

theorem exprs_ofTrees_of_filter_nil {offset : Nat} (h : children.filter Tree.isNode = []) :
    Items.exprs (Items.ofTrees offset children) = [] := by
  induction children generalizing offset with
  | nil => rfl
  | cons tree rest ih =>
      cases tree with
      | leaf token => exact ih h
      | node kind children => cases h

theorem exprs_ofTrees_of_filter_cons (offset : Nat) {rest : List Tree} {tree : Tree}
    (h : children.filter Tree.isNode = tree :: rest) :
    ∃ start next others, others.filter Tree.isNode = rest ∧
      Items.exprs (Items.ofTrees offset children) =
        Items.exprs [Item.ofTree start tree] ++ Items.exprs (Items.ofTrees next others) := by
  induction children generalizing offset with
  | nil => cases h
  | cons first more ih =>
      cases first with
      | leaf token => exact ih _ h
      | node kind children =>
          rw [List.filter_cons_of_pos rfl] at h
          obtain ⟨rfl, rfl⟩ := List.cons.inj h
          exact ⟨offset, _, more, rfl, List.filterMap_append (l := [_])⟩

theorem closesLate_ofTrees {offset : Nat}
    (h : ∀ tree ∈ children.takeWhile (!·.isNode), tree.isLeafOf .rParen = false) :
    ClosesLate (Items.ofTrees offset children) := by
  induction children generalizing offset with
  | nil => exact fun t ht => absurd ht List.not_mem_nil
  | cons tree rest ih =>
      cases tree with
      | leaf token =>
          intro t ht
          rcases List.mem_cons.mp ht with heq | ht
          · cases heq
            simpa [Tree.isLeafOf] using h (.leaf token) List.mem_cons_self
          · exact ih (fun tree htree => h tree (List.mem_cons_of_mem _ htree)) t ht
      | node kind children =>
          intro t ht
          rw [Items.ofTrees, Item.ofTree, List.takeWhile_cons_of_neg
            (by simp [isToken_assemble])] at ht
          exact absurd ht List.not_mem_nil

theorem fits_ofTrees (offset : Nat) (h : Tree.Shaped kind children) :
    Fits kind (Items.ofTrees offset children) := by
  refine ⟨fun hkind => ?_, fun hkind => closesLate_ofTrees (h.head hkind)⟩
  obtain ⟨tag, inner, parts, htag, hnodes⟩ := h.tagged hkind
  obtain ⟨start, next, others, hothers, hexprs⟩ := exprs_ofTrees_of_filter_cons offset hnodes
  obtain ⟨start', next', others', hothers', hexprs'⟩ := exprs_ofTrees_of_filter_cons next hothers
  obtain ⟨e, he, -⟩ := assemble_of_isExpression ⟨start, start + Tree.widthAll inner⟩
    (Items.ofTrees start inner) htag
  rw [hexprs, hexprs', exprs_ofTrees_of_filter_nil hothers', Item.ofTree, he]
  exact ⟨_, _, _, rfl⟩

/-! ## Scripts of trees -/

mutual

theorem count_ofTree_le (tree : Tree) (around : Setting) (offset : Nat)
    (haround : around.awaited = true → tree.nodeKind?.any NodeKind.isExpression = true)
    (hshape : tree.isNode = true → tree.WellShaped) :
    (itemNodes around (Item.ofTree offset tree)).count o ≤
      (tree.occurrences around offset).count o := by
  match tree with
  | .leaf token => exact Nat.le_refl _
  | .node kind children =>
      obtain ⟨hown, hchildren⟩ := hshape rfl
      have hassemble := count_assemble_le o ⟨offset, offset + Tree.widthAll children⟩ haround
        (fits_ofTrees offset hown)
      have hinner := count_ofTrees_le children around kind
          ⟨offset, offset + Tree.widthAll children⟩ offset
        fun tree htree _ => (Tree.wellShapedAll_iff children).mp hchildren tree htree
      rw [ownNode_ofTrees, List.count_cons] at hassemble
      rw [Item.ofTree, Tree.occurrences, List.count_cons]
      omega

theorem count_ofTrees_le (trees : List Tree) (around : Setting) (kind : NodeKind) (span : Span)
    (offset : Nat) (hshape : ∀ tree ∈ trees, tree.isNode = true → tree.WellShaped) :
    (innerNodes around kind span (Items.ofTrees offset trees)).count o ≤
      (Tree.occurrencesIn around kind span offset trees).count o := by
  match trees with
  | [] => exact Nat.le_refl _
  | tree :: rest =>
      have hfirst := count_ofTree_le tree (around.inside kind span tree.nodeKind?) offset
        (fun h => (Bool.and_eq_true_iff.mp h).2) (hshape tree List.mem_cons_self)
      have hrest := count_ofTrees_le rest around kind span (offset + tree.width)
        fun t ht => hshape t (List.mem_cons_of_mem tree ht)
      rw [Items.ofTrees, innerNodes, List.flatMap_cons, inside_role, Tree.occurrencesIn,
        List.count_append, List.count_append]
      exact Nat.add_le_add hfirst hrest

end

/-- The nodes of the script of a tree, each as often as in the tree at most. -/
theorem nodes_ofTree (hshape : ∀ tree ∈ children, tree.isNode = true → tree.WellShaped) :
    (stmtNodesAll {} (ofTree (.node .script children))).Subperm
      (Tree.node .script children).nodes := by
  refine List.subperm_ext_iff.mpr fun o _ => ?_
  have hclasses := count_classes_le o {} (Items.ofTrees 0 children)
  have hinner := count_ofTrees_le o children {} .script ⟨0, 0 + Tree.widthAll children⟩ 0 hshape
  rw [innerNodes_of_inside _ fun _ => rfl] at hinner
  change (stmtNodesAll {} (Items.stmts (Items.ofTrees 0 children))).count o ≤
    (_ :: Tree.occurrencesIn {} .script _ 0 children).count o
  change (itemNodesAll {} (Items.ofTrees 0 children)).count o ≤ _ at hinner
  rw [List.count_cons]
  omega

end ShellAwait.Script
