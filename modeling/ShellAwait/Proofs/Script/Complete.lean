import ShellAwait.Proofs.Script.Slots

/-! # Every site of a tree is a node of its script

Where the nodes in every node fill its slots, reading a script off a tree passes over no call and no
access: each node that an item is assembled from has its place in it.
-/

namespace ShellAwait.Script

open Text

variable {items : Items} {kind : NodeKind}

variable {o : Occurrence} {around : Setting}

/-! ## Parts of nodes -/

section

variable {inner : Items}

theorem mem_optional_expr (h : Fills Item.suits [.optional .expression] inner.nodes)
    (ho : o ∈ itemNodesAll around inner) : o ∈ exprNodes around (inner.expr 0) := by
  rw [← itemNodesAll_nodes] at ho
  rw [Items.expr, ← Items.exprs_nodes]
  rcases eq_of_optional h with hnodes | ⟨e, hnodes⟩
  · rw [hnodes] at ho
    cases ho
  · rw [hnodes, itemNodesAll_singleton] at ho
    rw [hnodes]
    exact ho

theorem mem_one_expr (h : Fills Item.suits [.one .expression] inner.nodes)
    (ho : o ∈ itemNodesAll around inner) : o ∈ exprNodes around (inner.expr 0) := by
  obtain ⟨e, hnodes⟩ := eq_of_last h
  rw [← itemNodesAll_nodes, hnodes, itemNodesAll_singleton] at ho
  rw [Items.expr, ← Items.exprs_nodes, hnodes]
  exact ho

theorem mem_one_stmt (h : Fills Item.suits [.one .statement] inner.nodes)
    (ho : o ∈ itemNodesAll around inner) : o ∈ stmtNodes around inner.stmt := by
  obtain ⟨st, hnodes⟩ := eq_of_last h
  rw [← itemNodesAll_nodes, hnodes, itemNodesAll_singleton] at ho
  rw [Items.stmt, ← Items.stmts_nodes, hnodes]
  exact ho

theorem mem_one_block (h : Fills Item.suits [.one .block] inner.nodes)
    (ho : o ∈ itemNodesAll around inner) : o ∈ stmtNodes around inner.block := by
  obtain ⟨⟨span, body⟩, hnodes⟩ := eq_of_last h
  rw [← itemNodesAll_nodes, hnodes, itemNodesAll_singleton] at ho
  rw [Items.block, ← Items.stmts_nodes, hnodes]
  exact ho

theorem mem_loopInit (hpart : items.part? .forInit = some inner)
    (h : Fills Item.suits [.optional .target] inner.nodes)
    (ho : o ∈ itemNodesAll around.used inner) :
    o ∈ stmtNodes around.used items.loopInit := by
  rw [← itemNodesAll_nodes] at ho
  rw [Items.loopInit, hpart]
  simp only
  rw [← Items.stmts_nodes, ← Items.exprs_nodes]
  rcases eq_of_optional h with hnodes | ⟨declaration | e, hnodes⟩
  · rw [hnodes] at ho
    cases ho
  all_goals
    rw [hnodes, itemNodesAll_singleton] at ho
    rw [hnodes]
    exact ho

theorem mem_handler (hpart : items.part? .catchClause = some inner)
    (h : Fills Item.suits [.optional .pattern, .one .block] inner.nodes)
    (ho : o ∈ itemNodesAll around inner) : o ∈ handlerNodes around items.handler := by
  rw [← itemNodesAll_nodes] at ho
  rw [Items.handler, hpart]
  simp only [handlerNodes, Items.pattern]
  rw [← stmtNodes_block, Items.block, ← Items.patterns_nodes, ← Items.stmts_nodes]
  rcases uncons_optional h with hblock | ⟨p, more, hnodes, hblock⟩
  · obtain ⟨⟨span, body⟩, hnodes⟩ := eq_of_last hblock
    rw [hnodes, itemNodesAll_singleton] at ho
    rw [hnodes]
    exact ho
  · obtain ⟨⟨span, body⟩, rfl⟩ := eq_of_last hblock
    rw [hnodes, itemNodesAll_pair] at ho
    rw [hnodes]
    exact ho

theorem mem_statements {stmts : Items} (h : Fills Item.suits [.many .statement] stmts)
    (ho : o ∈ itemNodesAll around stmts) : o ∈ stmtNodesAll around stmts.stmts := by
  obtain ⟨item, hitem, ho⟩ := mem_itemNodesAll.mp ho
  obtain ⟨st, rfl⟩ := content_of_mem h hitem
  exact mem_stmtNodesAll.mpr ⟨st, List.mem_filterMap.mpr ⟨_, hitem, rfl⟩, ho⟩

theorem mem_case (h : Fills Item.suits [.optional .expression, .many .statement] inner.nodes)
    (isDefault : Bool) (ho : o ∈ itemNodesAll around.used inner) :
    o ∈ caseNodes around.used [.mk isDefault (inner.expr 0) inner.stmts] := by
  rw [← itemNodesAll_nodes] at ho
  rw [caseNodes, caseNodes, List.append_nil, Items.expr, ← Items.exprs_nodes, ← Items.stmts_nodes]
  rcases uncons_optional h with hstmts | ⟨e, more, hnodes, hstmts⟩
  · exact List.mem_append_right _ (mem_statements hstmts ho)
  · rw [hnodes, itemNodesAll] at ho
    rw [hnodes]
    rcases List.mem_append.mp ho with ho | ho
    · exact List.mem_append_left _ ho
    · have hbody := mem_statements hstmts ho
      exact List.mem_append_right _ hbody

end

theorem mem_guarded (span : Span) {nodes : Items}
    (hfills : Fills Item.suits (NodeKind.slots .tryStmt) nodes)
    (hparts : ∀ part inner, Item.part part inner ∈ nodes →
      Fills Item.suits part.slots (Items.nodes inner))
    (ho : o ∈ itemNodesAll around.used nodes) :
    o ∈ itemNodes around.used (assemble .tryStmt span nodes) := by
  obtain ⟨⟨sp, body⟩, _, rfl, hclauses⟩ := uncons_one hfills
  rcases uncons_optional hclauses with hending | ⟨clause, _, rfl, hending⟩
  · rcases eq_of_optional hending with rfl | ⟨ending, rfl⟩
    · rw [itemNodesAll_singleton] at ho
      exact List.mem_append_left _ (List.mem_append_left _ ho)
    · rw [itemNodesAll_pair] at ho
      rcases List.mem_append.mp ho with ho | ho
      · exact List.mem_append_left _ (List.mem_append_left _ ho)
      · have hcleanup := mem_one_block (hparts .finallyClause ending (by simp)) ho
        exact List.mem_append_right _ hcleanup
  · have hcaught (ho : o ∈ itemNodesAll around.used clause) (more : Items) :
        o ∈ handlerNodes around.used (Items.handler
          (.stmt (.block sp body) :: .part .catchClause clause :: more)) :=
      mem_handler rfl (hparts .catchClause clause (by simp)) ho
    rcases eq_of_optional hending with rfl | ⟨ending, rfl⟩
    · rw [itemNodesAll_pair] at ho
      rcases List.mem_append.mp ho with ho | ho
      · exact List.mem_append_left _ (List.mem_append_left _ ho)
      · exact List.mem_append_left _ (List.mem_append_right _ (hcaught ho _))
    · rw [itemNodesAll_triple] at ho
      rcases List.mem_append.mp ho with ho | ho
      · rcases List.mem_append.mp ho with ho | ho
        · exact List.mem_append_left _ (List.mem_append_left _ ho)
        · exact List.mem_append_left _ (List.mem_append_right _ (hcaught ho _))
      · have hcleanup := mem_one_block (hparts .finallyClause ending (by simp)) ho
        exact List.mem_append_right _ hcleanup

theorem mem_counted (span : Span) {nodes : Items}
    (hfills : Fills Item.suits (NodeKind.slots .forStmt) nodes)
    (hparts : ∀ part inner, Item.part part inner ∈ nodes →
      Fills Item.suits part.slots (Items.nodes inner))
    (ho : o ∈ itemNodesAll around.used nodes) :
    o ∈ itemNodes around.used (assemble .forStmt span nodes) := by
  obtain ⟨init, _, rfl, htest⟩ := uncons_one hfills
  obtain ⟨test, _, rfl, hupdate⟩ := uncons_one htest
  obtain ⟨update, _, rfl, hbody⟩ := uncons_one hupdate
  obtain ⟨body, rfl⟩ := eq_of_last hbody
  rw [itemNodesAll, itemNodesAll_triple] at ho
  change o ∈ stmtNodes around.used (Items.loopInit _) ++
    exprNodes around.used (Items.expr test 0) ++ exprNodes around.used (Items.expr update 0) ++
      stmtNodes around.used body
  simp only [List.mem_append, itemNodes] at ho ⊢
  rcases ho with hinit | (htest | hupdate) | hbody
  · exact .inl (.inl (.inl (mem_loopInit rfl (hparts .forInit init (by simp)) hinit)))
  · exact .inl (.inl (.inr (mem_optional_expr (hparts .forTest test (by simp)) htest)))
  · exact .inl (.inr (mem_optional_expr (hparts .forUpdate update (by simp)) hupdate))
  · exact .inr hbody

theorem mem_assemble_part (span : Span) {nodes : Items} (hexpression : kind.isExpression = false)
    (hfunction : kind.isFunction = false) (hloop : kind ≠ .forInStmt)
    (hfills : Fills Item.suits kind.slots nodes)
    (hparts : ∀ part inner, Item.part part inner ∈ nodes →
      Fills Item.suits part.slots (Items.nodes inner)) (ho : o ∈ itemNodesAll around.used nodes) :
    o ∈ itemNodes around.used (assemble kind span nodes) := by
  cases kind with
  | emptyStmt | breakStmt | continueStmt | identPat | propName =>
      cases Fills.nil_iff.mp hfills
      cases ho
  | block => exact mem_statements hfills ho
  | arrayPat =>
      obtain ⟨item, hitem, ho⟩ := mem_itemNodesAll.mp ho
      obtain ⟨p, rfl⟩ := content_of_mem hfills hitem
      exact mem_patternNodesAll.mpr ⟨p, List.mem_filterMap.mpr ⟨_, hitem, rfl⟩, ho⟩
  | paramList | varDecl =>
      obtain ⟨item, hitem, ho⟩ := mem_itemNodesAll.mp ho
      obtain ⟨b, rfl⟩ := content_of_mem hfills hitem
      exact mem_bindingNodes.mpr ⟨b, List.mem_filterMap.mpr ⟨_, hitem, rfl⟩, ho⟩
  | objectPat =>
      obtain ⟨item, hitem, ho⟩ := mem_itemNodesAll.mp ho
      obtain ⟨e | p, rfl⟩ := content_of_mem hfills hitem
      · exact mem_entryNodes.mpr ⟨e, List.mem_filterMap.mpr ⟨_, hitem, rfl⟩, ho⟩
      · exact mem_entryNodes.mpr ⟨.rest p, List.mem_filterMap.mpr ⟨_, hitem, rfl⟩,
          List.mem_append_left _ ho⟩
  | exprStmt | throwStmt | computedName | restPat =>
      obtain ⟨x, rfl⟩ := eq_of_last hfills
      rwa [itemNodesAll_singleton] at ho
  | returnStmt =>
      rcases eq_of_optional hfills with rfl | ⟨e, rfl⟩
      · cases ho
      · rwa [itemNodesAll_singleton] at ho
  | declarator | param =>
      obtain ⟨p, _, rfl, hvalue⟩ := uncons_one hfills
      rcases eq_of_optional hvalue with rfl | ⟨e, rfl⟩
      · rw [itemNodesAll_singleton] at ho
        exact List.mem_append_left _ (List.mem_append_left _ ho)
      · rw [itemNodesAll_pair] at ho
        exact List.mem_append_left _ ho
  | property | patProp =>
      rcases uncons_optional hfills with hvalue | ⟨k, _, rfl, hvalue⟩
      · obtain ⟨x, rfl⟩ := eq_of_last hvalue
        rw [itemNodesAll_singleton] at ho
        exact List.mem_append_left _ ho
      · obtain ⟨x, rfl⟩ := eq_of_last hvalue
        rw [itemNodesAll_pair] at ho
        exact List.mem_append_left _ ho
  | assignPat | whileStmt | doWhileStmt =>
      obtain ⟨x, _, rfl, hsecond⟩ := uncons_one hfills
      obtain ⟨y, rfl⟩ := eq_of_last hsecond
      rwa [itemNodesAll_pair] at ho
  | ifStmt =>
      obtain ⟨test, _, rfl, hbranches⟩ := uncons_one hfills
      obtain ⟨body, _, rfl, helse⟩ := uncons_one hbranches
      rcases eq_of_optional helse with rfl | ⟨inner, rfl⟩
      · rw [itemNodesAll_pair] at ho
        exact List.mem_append_left _ ho
      · rw [itemNodesAll_triple] at ho
        rcases List.mem_append.mp ho with ho | ho
        · exact List.mem_append_left _ ho
        · have hbranch := mem_one_stmt (hparts .elseClause inner (by simp)) ho
          exact List.mem_append_right _ hbranch
  | forStmt => exact mem_counted span hfills hparts ho
  | tryStmt => exact mem_guarded span hfills hparts ho
  | switchStmt =>
      obtain ⟨value, cases, rfl, hcases⟩ := uncons_one hfills
      rw [itemNodesAll] at ho
      rcases List.mem_append.mp ho with ho | ho
      · exact List.mem_append_left _ ho
      · obtain ⟨item, hitem, ho⟩ := mem_itemNodesAll.mp ho
        obtain ⟨inner, rfl⟩ := content_of_mem hcases hitem
        have hmem : Item.part .switchCase inner ∈ Item.expr value :: cases :=
          List.mem_cons_of_mem _ hitem
        have hcase := mem_case (hparts _ inner hmem) (Items.hasToken inner .defaultKw) ho
        refine List.mem_append_right _ (mem_caseNodes.mpr ⟨_, ?_, hcase⟩)
        exact List.mem_map.mpr ⟨inner, List.mem_filterMap.mpr ⟨_, hmem, rfl⟩, rfl⟩
  | forInStmt => exact absurd rfl hloop
  | broken | script | elseClause | forInit | forTest | forUpdate | catchClause | finallyClause
  | switchCase | interpolation | memberName | argList => exact ho
  | functionDecl | method => cases hfunction
  | _ => cases hexpression

/-! ## Loops over a value -/

theorem Items.loopTarget_nodes (items : Items) : items.nodes.loopTarget = items.loopTarget := by
  induction items with
  | nil => rfl
  | cons item more ih =>
      cases item with
      | token t => exact ih
      | _ => rfl

/-- What stands behind the head of a loop. -/
def Items.behindHead (items : Items) : Items :=
  items.dropWhile fun | .token t => t.kind != .rParen | _ => true

theorem bodyAfterHead_eq {first second : Item} {body : Stmt}
    (hnodes : items.nodes = [first, second, .stmt body])
    (hhead : items.behindHead.nodes.length = 1) :
    items.bodyAfterHead = body := by
  have hsuffix : items.behindHead.nodes <:+ items.nodes := (List.dropWhile_suffix _).filter _
  obtain ⟨front, hfront⟩ := hsuffix
  obtain ⟨last, hlast⟩ := List.length_eq_one_iff.mp hhead
  have hbehind : items.behindHead.nodes = [.stmt body] := by
    rw [hlast, hnodes] at hfront
    have hsplit : front ++ [last] = [first, second] ++ [.stmt body] := hfront
    rw [hlast]
    exact List.append_inj_right' hsplit rfl
  change (Items.stmts items.behindHead).headD .hole = body
  rw [← Items.stmts_nodes, hbehind]
  rfl

theorem mem_each (hfills : Fills Item.suits (NodeKind.slots .forInStmt) items.nodes)
    (hhead : items.behindHead.nodes.length = 1) (ho : o ∈ itemNodesAll around.used items) :
    o ∈ stmtNodes around.used items.loopTarget ++ exprNodes around.used items.iterable ++
      stmtNodes around.used items.bodyAfterHead := by
  obtain ⟨target, _, hnodes, hmore⟩ := uncons_one hfills
  obtain ⟨value, _, rfl, hbody⟩ := uncons_one hmore
  obtain ⟨body, rfl⟩ := eq_of_last hbody
  rw [← itemNodesAll_nodes, hnodes, itemNodesAll_triple] at ho
  rw [bodyAfterHead_eq hnodes hhead, Items.iterable, Items.expr, Items.expr, ← Items.exprs_nodes,
    ← Items.loopTarget_nodes, hnodes]
  rcases target with declaration | e
  · exact ho
  · exact ho

/-! ## Functions -/

theorem functionNodes_nodes (span : Span) (items : Items) :
    functionNodes (items.nodes.function span) = functionNodes (items.function span) := by
  have hbody : items.nodes.functionBody = items.functionBody :=
    congrArg (Option.getD · Stmt.hole) (Items.findSome?_nodes items _ fun _ => rfl)
  rw [Items.function, functionNodes, Items.function, functionNodes, hbody]
  exact congrArg (fun found => bindingNodes _ (Option.getD found []) ++ _)
    (Items.findSome?_nodes items _ fun _ => rfl)

theorem mem_function (span : Span) {nodes : Items} (hkind : kind.isFunction = true)
    (hfills : Fills Item.suits kind.slots nodes) (ho : o ∈ innerNodes around kind span nodes) :
    (kind = .method ∧ o ∈ keyNodes around.used nodes.key) ∨
      o ∈ functionNodes (nodes.function span) := by
  obtain ⟨hparameters, hkey, hvalue, hbody⟩ := inside_function around span hkind
  cases kind with
  | functionDecl | functionExpr =>
      obtain ⟨ps, _, rfl, hblock⟩ := uncons_one hfills
      obtain ⟨⟨sp, body⟩, rfl⟩ := eq_of_last hblock
      simp only [innerNodes, List.flatMap_cons, List.flatMap_nil, List.append_nil, Item.role,
        hparameters, hbody] at ho
      exact .inr ho
  | arrow =>
      obtain ⟨ps, _, rfl, hrest⟩ := uncons_one hfills
      obtain ⟨⟨sp, body⟩ | e, rfl⟩ := eq_of_last hrest
      · simp only [innerNodes, List.flatMap_cons, List.flatMap_nil, List.append_nil, Item.role,
          hparameters, hbody] at ho
        exact .inr ho
      · simp only [innerNodes, List.flatMap_cons, List.flatMap_nil, List.append_nil, Item.role,
          hparameters, hvalue] at ho
        exact .inr ho
  | method =>
      obtain ⟨k, _, rfl, hrest⟩ := uncons_one hfills
      obtain ⟨ps, _, rfl, hblock⟩ := uncons_one hrest
      obtain ⟨⟨sp, body⟩, rfl⟩ := eq_of_last hblock
      simp only [innerNodes, List.flatMap_cons, List.flatMap_nil, List.append_nil, Item.role,
        hparameters, hkey, hbody] at ho
      exact (List.mem_append.mp ho).imp_left fun ho => ⟨rfl, ho⟩
  | _ => cases hkind

/-! ## Expressions -/

theorem mem_expressions {exprs : Items} (h : Fills Item.suits [.many .expression] exprs)
    (ho : o ∈ itemNodesAll around exprs) : o ∈ exprNodesAll around exprs.exprs := by
  obtain ⟨item, hitem, ho⟩ := mem_itemNodesAll.mp ho
  obtain ⟨e, rfl⟩ := content_of_mem h hitem
  exact mem_exprNodesAll.mpr ⟨e, List.mem_filterMap.mpr ⟨_, hitem, rfl⟩, ho⟩

theorem mem_arguments {inner : Items} (h : Fills Item.suits [.many .expression] inner.nodes)
    (ho : o ∈ itemNodesAll around inner) : o ∈ exprNodesAll around inner.exprs := by
  rw [← itemNodesAll_nodes] at ho
  rw [← Items.exprs_nodes]
  exact mem_expressions h ho

theorem mem_assemble_plain (span : Span) {nodes : Items} (hexpression : kind.isExpression = true)
    (hfunction : kind.isFunction = false) (hfills : Fills Item.suits kind.slots nodes)
    (hparts : ∀ part inner, Item.part part inner ∈ nodes →
      Fills Item.suits part.slots (Items.nodes inner)) (hsite : o.kind.isSite = true)
    (hwrapped : ¬(kind = .parenExpr ∨ kind = .awaitExpr))
    (ho : o ∈ itemNodesAll around.used nodes) :
    o ∈ itemNodes around (assemble kind span nodes) := by
  cases kind with
  | parenExpr | awaitExpr => simp at hwrapped
  | literal | nameRef | thisExpr =>
      cases Fills.nil_iff.mp hfills
      cases ho
  | arrayExpr | sequenceExpr => exact List.mem_cons_of_mem _ (mem_expressions hfills ho)
  | spreadElement | prefixExpr | postfixExpr =>
      obtain ⟨e, rfl⟩ := eq_of_last hfills
      rw [itemNodesAll_singleton] at ho
      exact List.mem_cons_of_mem _ ho
  | indexExpr | binaryExpr | assignExpr =>
      obtain ⟨a, _, rfl, hsecond⟩ := uncons_one hfills
      obtain ⟨b, rfl⟩ := eq_of_last hsecond
      rw [itemNodesAll_pair] at ho
      exact List.mem_cons_of_mem _ ho
  | condExpr =>
      obtain ⟨a, _, rfl, hsecond⟩ := uncons_one hfills
      obtain ⟨b, _, rfl, hthird⟩ := uncons_one hsecond
      obtain ⟨c, rfl⟩ := eq_of_last hthird
      rw [itemNodesAll_triple] at ho
      exact List.mem_cons_of_mem _ ho
  | memberExpr =>
      obtain ⟨object, _, rfl, hname⟩ := uncons_one hfills
      obtain ⟨inner, rfl⟩ := eq_of_last hname
      rw [itemNodesAll_pair] at ho
      rcases List.mem_append.mp ho with ho | ho
      · exact List.mem_cons_of_mem _ ho
      · have hempty := Fills.nil_iff.mp (hparts .memberName inner (by simp))
        rw [itemNodes, ← itemNodesAll_nodes, hempty] at ho
        cases ho
  | callExpr =>
      obtain ⟨callee, _, rfl, hlist⟩ := uncons_one hfills
      obtain ⟨inner, rfl⟩ := eq_of_last hlist
      rw [itemNodesAll_pair] at ho
      refine List.mem_cons_of_mem _ (List.mem_append.mpr ?_)
      exact (List.mem_append.mp ho).imp_right (mem_arguments (hparts .argList inner (by simp)))
  | newExpr =>
      obtain ⟨callee, _, rfl, hlist⟩ := uncons_one hfills
      refine List.mem_cons_of_mem _ (List.mem_append.mpr ?_)
      rcases eq_of_optional hlist with rfl | ⟨inner, rfl⟩
      · rw [itemNodesAll_singleton] at ho
        exact .inl ho
      · rw [itemNodesAll_pair] at ho
        exact (List.mem_append.mp ho).imp_right (mem_arguments (hparts .argList inner (by simp)))
  | template =>
      obtain ⟨item, hitem, ho⟩ := mem_itemNodesAll.mp ho
      obtain ⟨inner, rfl⟩ := content_of_mem hfills hitem
      have hvalue := mem_one_expr (hparts .interpolation inner hitem) ho
      refine List.mem_cons_of_mem _ (mem_exprNodesAll.mpr ⟨_, ?_, hvalue⟩)
      exact List.mem_map.mpr ⟨inner, List.mem_filterMap.mpr ⟨_, hitem, rfl⟩, rfl⟩
  | taggedTemplate =>
      obtain ⟨tag, _, rfl, htemplate⟩ := uncons_one hfills
      obtain ⟨⟨sp, parts⟩, rfl⟩ := eq_of_last htemplate
      rw [itemNodesAll_pair] at ho
      refine List.mem_cons_of_mem _ ?_
      rcases List.mem_append.mp ho with ho | ho
      · exact List.mem_append_left _ ho
      · -- the template in a tagged template is no node of the script, and no site
        rcases List.mem_cons.mp ho with rfl | ho
        · cases hsite
        · exact List.mem_append_right _ ho
  | objectExpr =>
      obtain ⟨item, hitem, ho⟩ := mem_itemNodesAll.mp ho
      refine List.mem_cons_of_mem _ (mem_memberNodes.mpr ?_)
      obtain ⟨m | ⟨sp, inner⟩, rfl⟩ := content_of_mem hfills hitem
      · exact ⟨m, List.mem_filterMap.mpr ⟨_, hitem, rfl⟩, ho⟩
      · refine ⟨.spread inner, List.mem_filterMap.mpr ⟨_, hitem, rfl⟩, ?_⟩
        rcases List.mem_cons.mp ho with rfl | ho
        · cases hsite
        · exact List.mem_append_left _ ho
  | functionExpr | arrow => cases hfunction
  | _ => cases hexpression

theorem mem_assemble_expr (span : Span) {nodes : Items} (hexpression : kind.isExpression = true)
    (hfunction : kind.isFunction = false) (hfills : Fills Item.suits kind.slots nodes)
    (hparts : ∀ part inner, Item.part part inner ∈ nodes →
      Fills Item.suits part.slots (Items.nodes inner)) (hsite : o.kind.isSite = true)
    (ho : o ∈ innerNodes around kind span nodes) :
    o ∈ itemNodes around (assemble kind span nodes) := by
  by_cases hwrapped : kind = .parenExpr ∨ kind = .awaitExpr
  · rcases hwrapped with rfl | rfl
    · obtain ⟨e, rfl⟩ := eq_of_last hfills
      simp only [innerNodes, List.flatMap_singleton, Item.role, inside_paren] at ho
      exact List.mem_cons_of_mem _ ho
    · obtain ⟨e, rfl⟩ := eq_of_last hfills
      simp only [innerNodes, List.flatMap_singleton] at ho
      exact List.mem_cons_of_mem _ ho
  · rw [innerNodes_of_inside nodes (inside_eq_used hfunction hwrapped)] at ho
    exact mem_assemble_plain span hexpression hfunction hfills hparts hsite hwrapped ho

/-! ## Nodes -/

/-- Items fill the slots of a node, and the items of parts among them fill those of the parts. -/
structure Complete (kind : NodeKind) (items : Items) : Prop where
  fills : Fills Item.suits kind.slots items.nodes
  parts : ∀ part inner, Item.part part inner ∈ items →
    Fills Item.suits part.slots (Items.nodes inner)
  head : kind = .forInStmt → items.behindHead.nodes.length = 1

theorem Complete.nodes (h : Complete kind items) (part : NodeKind) (inner : List Item)
    (hmem : Item.part part inner ∈ items.nodes) : Fills Item.suits part.slots (Items.nodes inner) :=
  h.parts part inner (List.mem_filter.mp hmem).1

theorem mem_assemble_function (span : Span) (hfunction : kind.isFunction = true)
    (h : Complete kind items) (ho : o ∈ innerNodes around kind span items) :
    o ∈ itemNodes around (assemble kind span items) := by
  rw [← innerNodes_nodes] at ho
  have hparts := mem_function span hfunction h.fills ho
  rw [functionNodes_nodes, Items.key_nodes] at hparts
  rcases hparts with ⟨rfl, hkey⟩ | hinner
  · refine List.mem_cons_of_mem _ (List.mem_append_left _ (List.mem_append_left _ ?_))
    cases hitem : items.key with
    | hole | name => rw [hitem] at hkey; cases hkey
    | computed span inner =>
        rw [hitem] at hkey
        exact hkey
  · cases kind with
    | functionDecl => exact List.mem_cons_of_mem _ hinner
    | functionExpr | arrow => exact List.mem_append_right _ hinner
    | method =>
        exact List.mem_cons_of_mem _ (List.mem_append_left _ (List.mem_append_right _ hinner))
    | _ => cases hfunction

/-- A site among the nodes that an item is assembled from is a node of the item. -/
theorem mem_assemble (span : Span) (haround : around.awaited = true → kind.isExpression = true)
    (h : Complete kind items) (hsite : o.kind.isSite = true)
    (hnode : o ∈ ownNode around kind span items :: innerNodes around kind span items) :
    o ∈ itemNodes around (assemble kind span items) := by
  rcases List.mem_cons.mp hnode with rfl | ho
  · change kind.isSite = true at hsite
    cases kind <;> cases hsite <;> exact List.mem_cons_self
  by_cases hfunction : kind.isFunction = true
  · exact mem_assemble_function span hfunction h ho
  rw [Bool.not_eq_true] at hfunction
  by_cases hexpression : kind.isExpression = true
  · have hloop : kind ≠ .forInStmt := by
      rintro rfl
      cases hexpression
    rw [← innerNodes_nodes] at ho
    rw [← nodes_assemble_nodes span items hfunction hloop]
    exact mem_assemble_expr span hexpression hfunction h.fills h.nodes hsite ho
  · have hused : around = around.used := by
      cases around
      simpa [Setting.used] using mt haround hexpression
    rw [Bool.not_eq_true] at hexpression
    have hwrapped : ¬(kind = .parenExpr ∨ kind = .awaitExpr) := by
      rintro (rfl | rfl) <;> cases hexpression
    rw [innerNodes_of_inside items (inside_eq_used hfunction hwrapped)] at ho
    rw [hused]
    by_cases hloop : kind = .forInStmt
    · have hfills := h.fills
      rw [hloop] at hfills ⊢
      exact mem_each hfills (h.head hloop) ho
    · rw [← itemNodesAll_nodes] at ho
      rw [← nodes_assemble_nodes span items hfunction hloop]
      exact mem_assemble_part span hexpression hfunction hloop h.fills h.nodes ho

/-! ## Items of filled trees -/

theorem assemble_eq_part {part : NodeKind} {span : Span} {inner : Items}
    (h : assemble kind span items = .part part inner) : part = kind ∧ inner = items := by
  cases kind <;> cases h <;> exact ⟨rfl, rfl⟩

theorem exists_of_part_mem {part : NodeKind} {inner : Items} {offset : Nat} {trees : List Tree}
    (h : Item.part part inner ∈ Items.ofTrees offset trees) :
    ∃ start children, Tree.node part children ∈ trees ∧ inner = Items.ofTrees start children := by
  induction trees generalizing offset with
  | nil => cases h
  | cons tree rest ih =>
      rw [Items.ofTrees] at h
      rcases List.mem_cons.mp h with heq | h
      · cases tree with
        | leaf token => cases heq
        | node kind children =>
            obtain ⟨rfl, rfl⟩ := assemble_eq_part heq.symm
            exact ⟨offset, children, List.mem_cons_self, rfl⟩
      · obtain ⟨start, children, hmem, rfl⟩ := ih h
        exact ⟨start, children, List.mem_cons_of_mem _ hmem, rfl⟩

theorem suits_ofTrees (offset : Nat) (trees : List Tree) :
    List.Forall₂
      (fun kind item => ∀ wanted, NodeKind.suits kind wanted = true → Item.suits item wanted = true)
      (Tree.kinds trees) (Items.nodes (Items.ofTrees offset trees)) := by
  induction trees generalizing offset with
  | nil => exact .nil
  | cons tree rest ih =>
      cases tree with
      | leaf token => exact ih _
      | node kind children =>
          have hitem := isToken_assemble kind ⟨offset, offset + Tree.widthAll children⟩
            (Items.ofTrees offset children)
          rw [Items.ofTrees, Item.ofTree, Items.nodes, List.filter_cons_of_pos (by simpa using hitem)]
          exact .cons (fun _ hwanted => suits_assemble _ _ hwanted) (ih _)

theorem behindHead_ofTrees (offset : Nat) (trees : List Tree) :
    ∃ start, Items.behindHead (Items.ofTrees offset trees) =
      Items.ofTrees start (Tree.behindHead trees) := by
  induction trees generalizing offset with
  | nil => exact ⟨0, rfl⟩
  | cons tree rest ih =>
      cases tree with
      | leaf token =>
          unfold Items.behindHead Tree.behindHead at ih ⊢
          rw [Items.ofTrees, Item.ofTree]
          by_cases h : token.kind = .rParen
          · rw [List.dropWhile_cons_of_neg (by simpa using h),
              List.dropWhile_cons_of_neg (by simpa [Tree.isLeafOf] using h)]
            exact ⟨offset, rfl⟩
          · rw [List.dropWhile_cons_of_pos (by simpa using h),
              List.dropWhile_cons_of_pos (by simpa [Tree.isLeafOf] using h)]
            exact ih _
      | node kind children =>
          have hitem := isToken_assemble kind ⟨offset, offset + Tree.widthAll children⟩
            (Items.ofTrees offset children)
          rw [Items.ofTrees, Item.ofTree]
          generalize assemble kind _ _ = item at hitem
          cases item with
          | token t => cases hitem
          | _ => exact ih _

theorem complete_ofTrees (offset : Nat) {children : List Tree}
    (h : (Tree.node kind children).Filled) : Complete kind (Items.ofTrees offset children) := by
  obtain ⟨⟨hfills, hhead⟩, hchildren⟩ := h
  refine ⟨hfills.mono (suits_ofTrees offset children), fun part inner hmem => ?_, fun hkind => ?_⟩
  · obtain ⟨start, elements, hnode, rfl⟩ := exists_of_part_mem hmem
    have hpart := (Tree.filledAll_iff children).mp hchildren _ hnode
    exact hpart.1.1.mono (suits_ofTrees start elements)
  · obtain ⟨start, hbehind⟩ := behindHead_ofTrees offset children
    rw [hbehind, ← (suits_ofTrees start _).length_eq]
    exact hhead hkind

mutual

theorem mem_ofTree (tree : Tree) (around : Setting) (offset : Nat)
    (haround : around.awaited = true → tree.nodeKind?.any NodeKind.isExpression = true)
    (hfilled : tree.Filled) (hsite : o.kind.isSite = true)
    (ho : o ∈ tree.occurrences around offset) : o ∈ itemNodes around (Item.ofTree offset tree) := by
  match tree with
  | .leaf token => cases ho
  | .node kind children =>
      rw [Item.ofTree]
      apply mem_assemble _ haround (complete_ofTrees offset hfilled) hsite
      rw [ownNode_ofTrees]
      rcases List.mem_cons.mp ho with rfl | ho
      · exact List.mem_cons_self
      · exact List.mem_cons_of_mem _ (mem_ofTrees children around kind _ offset hfilled.2 hsite ho)

theorem mem_ofTrees (trees : List Tree) (around : Setting) (kind : NodeKind) (span : Span)
    (offset : Nat) (hfilled : Tree.FilledAll trees) (hsite : o.kind.isSite = true)
    (ho : o ∈ Tree.occurrencesIn around kind span offset trees) :
    o ∈ innerNodes around kind span (Items.ofTrees offset trees) := by
  match trees with
  | [] => cases ho
  | tree :: rest =>
      rw [Items.ofTrees, innerNodes, List.flatMap_cons, inside_role]
      rcases List.mem_append.mp ho with ho | ho
      · have hawaited : (around.inside kind span tree.nodeKind?).awaited = true →
            tree.nodeKind?.any NodeKind.isExpression = true :=
          fun h => (Bool.and_eq_true_iff.mp h).2
        exact List.mem_append_left _ (mem_ofTree tree _ offset hawaited hfilled.1 hsite ho)
      · exact List.mem_append_right _ (mem_ofTrees rest around kind span _ hfilled.2 hsite ho)

end

theorem mem_nodes_ofTree {children : List Tree} (hfilled : (Tree.node .script children).Filled)
    (hsite : o.kind.isSite = true) (ho : o ∈ (Tree.node .script children).nodes) :
    o ∈ stmtNodesAll {} (ofTree (.node .script children)) := by
  rcases List.mem_cons.mp ho with rfl | ho
  · cases hsite
  · have hinner := mem_ofTrees children {} .script _ 0 hfilled.2 hsite ho
    rw [innerNodes_of_inside _ fun _ => rfl, ← itemNodesAll_nodes] at hinner
    have hstmts := mem_statements (complete_ofTrees 0 hfilled).fills hinner
    rwa [Items.stmts_nodes] at hstmts

end ShellAwait.Script
