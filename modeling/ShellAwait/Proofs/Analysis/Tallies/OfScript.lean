import ShellAwait.Proofs.Analysis.OfScript
import ShellAwait.Proofs.Analysis.Tallies

/-! # The tally of a script

The walk of every expression, pattern and statement tallies with its nodes: constructs one by one
first, and then all of them by induction over the script.
-/

namespace ShellAwait.Analysis

open Text Script Analysis.Action

variable {action contents : Action}

variable {listed missed more moreMissed : List Occurrence}

/-! ## Constructs -/

theorem tallies_node (around : Setting) (kind : NodeKind) (span : Span)
    (h : Tallies listed missed action) :
    Tallies (around.node kind span :: listed) missed (action.recorded kind span) :=
  tallies_recorded (around.node kind span) h

theorem tallies_access (around : Setting) (use : Use) (kind : NodeKind) (span : Span)
    (h : Tallies listed missed action) :
    Tallies (around.node kind span :: listed) missed (site use kind span action) :=
  tallies_site use (around.node kind span) h

theorem tallies_target (around : Setting) (kind : NodeKind) (span : Span)
    (h : Tallies listed missed action) :
    Tallies (around.node kind span :: listed) missed
      (action.andThen (nothing.recorded kind span)) :=
  tallies_snoc h fun _ => tallies_node around kind span tallies_nothing

theorem tallies_lookOptional (name : Option String) : Tallies [] [] (lookOptional name) := by
  cases name with
  | none => exact tallies_nothing
  | some name => exact tallies_look name

theorem tallies_declareOptional (name : Option String) (d : Descriptor) :
    Tallies [] [] (match name with | some name => .declare name d | none => nothing) := by
  cases name with
  | none => exact tallies_nothing
  | some name => exact tallies_declare name d

theorem tallies_stepTarget (operand : Expr) : Tallies [] [] (stepTarget operand) := by
  unfold stepTarget
  split
  · exact tallies_assign _ _
  · exact tallies_nothing

theorem tallies_assignName (target : Expr) (d : Descriptor) :
    Tallies [] [] (assignName target d) := by
  unfold assignName
  split
  · exact tallies_assign _ _
  · exact tallies_nothing

theorem tallies_refuseShape (d : Descriptor) (span : Span) :
    Tallies [] [] (refuseShape d span) := by
  unfold refuseShape
  split
  · exact tallies_refuse _ _
  · exact tallies_nothing

theorem tallies_optional (merge : Descriptor → Descriptor → Descriptor)
    (h : Tallies listed missed action) : Tallies listed missed (.fork action nothing merge) := by
  simpa using tallies_fork merge h tallies_nothing

theorem tallies_functionValue (around : Setting) {kind : NodeKind} (span : Span) (fn : Function)
    (hsite : kind.isSite = false) (h : Tallies listed missed action) :
    Tallies (functionValueNodes around kind span fn ++ listed) missed
      (action.recorded kind span) := by
  unfold functionValueNodes
  by_cases hspan : fn.span = span
  · subst hspan
    rw [if_pos rfl]
    exact tallies_recorded (functionNode around kind fn.span fn) h
  · rw [if_neg hspan]
    exact (tallies_recorded (functionNode around kind span fn) h).cons hsite

/-- A function in a scope of its own, from its parameters and what its body does. -/
theorem tallies_walk {parameters inner : Action} (span : Span) (isAsync : Bool)
    (names : List String) (hparameters : Tallies listed missed parameters)
    (hinner : Tallies more moreMissed inner) :
    Tallies (listed ++ more) (missed ++ moreMissed)
      (.function span isAsync <| .scoped <|
        (declareAll names).andThen ((Action.parameters parameters).andThen inner)) :=
  tallies_function span isAsync (tallies_scoped (tallies_silent_andThen (tallies_declareAll names)
    (tallies_andThen (tallies_parameters hparameters) hinner)))

/-- What is missed in a literal that a pattern takes apart. -/
def contentMissed (around : Setting) : Expr → List Occurrence
  | .array _ elements => exprMissedAll around elements
  | .object _ members => memberMissed around members
  | _ => []

theorem tallies_contents (around : Setting) {kind : NodeKind} (span : Span) (d : Descriptor)
    (h : Tallies listed missed contents) :
    Tallies (around.node kind span :: listed) missed
      (contents.bind fun found => (Action.record kind span d).andThen (.give found)) := by
  exact tallies_snoc h fun found =>
    tallies_bind_silent (tallies_record (around.node kind span) d) fun _ => tallies_give found

theorem tallies_source (around : Setting) (value : Expr) {whole : Action}
    (hwhole : Tallies (exprNodes around value) (exprMissed around value) whole)
    (hcontents : Tallies (contentNodes around.used value) (contentMissed around.used value)
      contents) :
    Tallies (exprNodes around value) (exprMissed around value) (source value whole contents) := by
  cases value with
  | array span elements => exact tallies_contents around span .array hcontents
  | object span members => exact tallies_contents around span .object hcontents
  | _ => exact hwhole

theorem tallies_iterated (around : Setting) (isOf : Bool) (head : Stmt) (iterable : Expr)
    {whole : Action}
    (hwhole : Tallies (exprNodes around iterable) (exprMissed around iterable) whole)
    (hcontents : Tallies (contentNodes around.used iterable) (contentMissed around.used iterable)
      contents) :
    Tallies (exprNodes around iterable) (exprMissed around iterable)
      (iterated isOf head iterable whole contents) := by
  unfold iterated
  split
  · exact tallies_bind_silent (tallies_source around _ hwhole hcontents) fun found =>
      tallies_refuseShape found _
  · exact hwhole

/-- What a pattern is given, which it must not take apart, and then the pattern. -/
theorem tallies_destructured (around : Setting) (value : Expr) {whole pattern : Action}
    (span : Span) (hwhole : Tallies (exprNodes around value) (exprMissed around value) whole)
    (hcontents : Tallies (contentNodes around.used value) (contentMissed around.used value)
      contents) (hpattern : Tallies listed missed pattern) :
    Tallies (listed ++ exprNodes around value) (missed ++ exprMissed around value)
      (((source value whole contents).bind fun found => refuseShape found span).andThen
        pattern) := by
  have hsource := tallies_bind_silent (tallies_source around value hwhole hcontents) fun found =>
    tallies_refuseShape found span
  exact (tallies_andThen hsource hpattern).perm List.perm_append_comm List.perm_append_comm

/-- A loop over a value reads the value first, and then its head and its body in every round. -/
theorem tallies_each {source assigned body : Action} {names : List String}
    {read unread heads headsMissed : List Occurrence} (hsource : Tallies read unread source)
    (hassigned : Tallies heads headsMissed assigned) (hbody : Tallies listed missed body) :
    Tallies (heads ++ read ++ listed) (headsMissed ++ unread ++ missed)
      (.scoped (source.andThen (.loop names (assigned.andThen body)))) := by
  refine (tallies_scoped (tallies_andThen hsource
    (tallies_loop names (tallies_andThen hassigned hbody)))).perm ?_ ?_ <;>
  · rw [← List.append_assoc]
    exact List.perm_append_comm.append_right _

theorem tallies_counted {init test update body : Action} {names : List String}
    {inits initsMissed tests testsMissed updates updatesMissed : List Occurrence}
    (hinit : Tallies inits initsMissed init) (htest : Tallies tests testsMissed test)
    (hupdate : Tallies updates updatesMissed update) (hbody : Tallies listed missed body) :
    Tallies (inits ++ tests ++ updates ++ listed)
      (initsMissed ++ testsMissed ++ updatesMissed ++ missed)
      (.scoped (init.andThen (.loop names ((test.andThen body).andThen update)))) := by
  refine (tallies_scoped (tallies_andThen hinit
    (tallies_loop names (tallies_andThen (tallies_andThen htest hbody) hupdate)))).perm ?_ ?_ <;>
  · simp only [List.append_assoc]
    exact (List.perm_append_comm.append_left _).append_left _

/-! ## Scripts -/

mutual

theorem tallies_ofExpr (c : Catalogue) (use : Use) (around : Setting) (expr : Expr) :
    Tallies (exprNodes around expr) (exprMissed around expr) (ofExpr c use expr) := by
  match expr with
  | .hole => exact tallies_nothing
  | .literal span kind text => exact tallies_node around .literal span (tallies_give _)
  | .template span parts =>
      exact tallies_node around .template span
        (tallies_bind_silent (tallies_ofExprs c around.used parts) fun _ => tallies_give _)
  | .tagged span tag parts =>
      exact tallies_access around use .taggedTemplate span
        (tallies_bind (tallies_ofExpr c .consumed around.used tag) fun d =>
          tallies_bind_silent (tallies_ofExprs c around.used parts) fun _ => tallies_give d.result)
  | .name span name => exact tallies_node around .nameRef span (tallies_lookOptional name)
  | .thisValue span => exact tallies_node around .thisExpr span tallies_nothing
  | .array span elements =>
      exact tallies_node around .arrayExpr span
        (tallies_bind_silent (tallies_ofElements c around.used elements) fun _ => tallies_give _)
  | .object span members =>
      exact tallies_node around .objectExpr span
        (tallies_bind_silent (tallies_ofMembers c around.used members) fun _ => tallies_give _)
  | .spread span inner =>
      exact tallies_node around .spreadElement span
        (tallies_bind_silent (tallies_ofExpr c .consumed around.used inner) fun _ =>
          tallies_nothing)
  | .function span name fn =>
      exact tallies_functionValue around span fn rfl (tallies_ofFunction c name fn)
  | .arrow span fn =>
      exact tallies_functionValue around span fn rfl (tallies_ofFunction c none fn)
  | .paren span inner => exact tallies_node around .parenExpr span (tallies_ofExpr c use around inner)
  | .member span object name optional =>
      exact tallies_access around use .memberExpr span
        (tallies_map _ (tallies_ofExpr c .consumed around.used object))
  | .index span object key =>
      exact tallies_access around use .indexExpr span
        (tallies_bind (tallies_ofExpr c .consumed around.used object) fun base =>
          tallies_bind_silent (tallies_ofExpr c .consumed around.used key) fun _ => tallies_give _)
  | .call span callee arguments =>
      exact tallies_site use { around.node .callExpr span with callee := callee.name? }
        (tallies_bind (tallies_ofExpr c .consumed around.used callee) fun d =>
          tallies_bind_silent (tallies_ofExprs c around.used arguments) fun _ =>
            tallies_give d.result)
  | .construct span callee hasList arguments =>
      exact tallies_access around use .newExpr span (tallies_bind_silent
        (tallies_andThen (tallies_ofExpr c .consumed around.used callee)
          (tallies_ofExprs c around.used arguments)) fun _ => tallies_nothing)
  | .unary span operator operand =>
      have hstepped : Tallies [] []
          (if isStepOperator operator.kind then stepTarget operand else nothing) := by
        split
        · exact tallies_stepTarget operand
        · exact tallies_nothing
      exact tallies_node around .prefixExpr span (tallies_bind_silent (tallies_bind_silent
        (tallies_ofExpr c .consumed around.used operand) fun _ => hstepped) fun _ => tallies_give _)
  | .await span operand =>
      exact tallies_node around .awaitExpr span
        (tallies_bind_silent (tallies_ofExpr c .awaited around.underAwait operand) fun d =>
          tallies_bind_silent tallies_awaiting fun _ => tallies_give _)
  | .update span operator operand =>
      exact tallies_node around .postfixExpr span (tallies_bind_silent (tallies_bind_silent
        (tallies_ofExpr c .consumed around.used operand) fun _ => tallies_stepTarget operand)
          fun _ => tallies_give _)
  | .binary span operator left right =>
      have hright := tallies_ofExpr c .consumed around.used right
      refine tallies_node around .binaryExpr span
        (tallies_bind (tallies_ofExpr c .consumed around.used left) fun l => ?_)
      split
      · exact tallies_optional _ hright
      · exact tallies_map _ hright
  | .assign span operator target value =>
      have hwhole := tallies_ofExpr c .consumed around.used value
      have hcontents := tallies_ofContents c around.used.used value
      have hbase := tallies_ofBase c around.used target
      have htarget := tallies_ofTarget c around.used target
      cases target with
      | hole =>
          exact tallies_node around .assignExpr span (tallies_nothing.missingAll _)
      | array targetSpan elements | object targetSpan elements =>
          exact tallies_node around .assignExpr span (tallies_destructured around.used value _ hwhole
            hcontents (tallies_bind_silent htarget fun _ => tallies_nothing))
      | _ =>
          exact tallies_node around .assignExpr span (tallies_andThen hbase (tallies_bind_silent
            (tallies_map _ hwhole) fun d => tallies_bind_silent (tallies_assignName _ d)
              fun _ => tallies_give d))
  | .cond span test consequent alternate =>
      have hbranches := tallies_fork Descriptor.common
        (tallies_ofExpr c .consumed around.used consequent)
        (tallies_ofExpr c .consumed around.used alternate)
      exact tallies_node around .condExpr span
        (tallies_andThen (tallies_ofExpr c .consumed around.used test) hbranches).assoc
  | .sequence span parts =>
      exact tallies_node around .sequenceExpr span (tallies_ofExprs c around.used parts)

theorem tallies_ofExprs (c : Catalogue) (around : Setting) (exprs : List Expr) :
    Tallies (exprNodesAll around exprs) (exprMissedAll around exprs) (ofExprs c exprs) := by
  match exprs with
  | [] => exact tallies_nothing
  | [expr] =>
      have hexpr := tallies_ofExpr c .consumed around expr
      exact hexpr.perm (.of_eq (List.append_nil _)) (.of_eq (List.append_nil _))
  | expr :: next :: more =>
      exact tallies_andThen (tallies_ofExpr c .consumed around expr)
        (tallies_ofExprs c around (next :: more))

theorem tallies_ofElements (c : Catalogue) (around : Setting) (elements : List Expr) :
    Tallies (exprNodesAll around elements) (exprMissedAll around elements)
      (ofElements c elements) := by
  match elements with
  | [] => exact tallies_nothing
  | expr :: more =>
      have hfirst := tallies_ofExpr c .consumed around expr
      have hrest := tallies_ofElements c around more
      cases expr with
      | spread span inner => exact tallies_andThen hfirst hrest
      | _ => exact tallies_bind hfirst fun d => tallies_map (firstShape d) hrest

theorem tallies_ofMembers (c : Catalogue) (around : Setting) (members : List ObjectMember) :
    Tallies (memberNodes around members) (memberMissed around members) (ofMembers c members) := by
  match members with
  | [] => exact tallies_nothing
  | .property key value :: more =>
      exact (tallies_andThen (tallies_ofKey c around key)
        (tallies_bind (tallies_ofExpr c .consumed around.used value) fun d =>
          tallies_map (firstShape d) (tallies_ofMembers c around more))).assoc
  | .method key fn :: more =>
      have hboth := tallies_andThen (tallies_ofFunction c none fn) (tallies_ofMembers c around more)
      exact (tallies_andThen (tallies_ofKey c around key) hboth).assoc.cons rfl
  | .spread inner :: more =>
      exact tallies_andThen (tallies_ofExpr c .consumed around.used inner)
        (tallies_ofMembers c around more)

theorem tallies_ofKey (c : Catalogue) (around : Setting) (key : Key) :
    Tallies (keyNodes around key) (keyMissed around key) (ofKey c key) := by
  match key with
  | .hole | .name .. => exact tallies_nothing
  | .computed span inner => exact tallies_ofExpr c .consumed around.used inner

theorem tallies_ofContents (c : Catalogue) (around : Setting) (value : Expr) :
    Tallies (contentNodes around value) (contentMissed around value) (ofContents c value) := by
  cases value with
  | array span elements => exact tallies_ofElements c around elements
  | object span members => exact tallies_ofMembers c around members
  | _ => exact tallies_nothing

theorem tallies_ofBase (c : Catalogue) (around : Setting) (target : Expr) :
    Tallies (exprNodes around target) (baseMissed around target) (ofBase c target) := by
  cases target with
  | member span object name optional =>
      exact tallies_target around .memberExpr span (tallies_ofExpr c .consumed around.used object)
  | index span object key =>
      exact tallies_target around .indexExpr span
        (tallies_andThen (tallies_ofExpr c .consumed around.used object)
          (tallies_ofExpr c .consumed around.used key))
  | name span name => exact tallies_node around .nameRef span (tallies_lookOptional name)
  | paren span inner => exact (tallies_ofBase c around inner).cons rfl
  | _ => exact tallies_nothing.missingAll _

theorem tallies_ofTarget (c : Catalogue) (around : Setting) (target : Expr) :
    Tallies (exprNodes around target) (targetMissed around target) (ofTarget c target) := by
  cases target with
  | name span name =>
      cases name with
      | some name => exact (tallies_assign name .unknown).cons rfl
      | none => exact tallies_nothing.cons rfl
  | paren span inner => exact (tallies_ofTarget c around inner).cons rfl
  | member span object name optional =>
      exact tallies_target around .memberExpr span (tallies_ofExpr c .consumed around.used object)
  | index span object key =>
      exact tallies_target around .indexExpr span
        (tallies_andThen (tallies_ofExpr c .consumed around.used object)
          (tallies_ofExpr c .consumed around.used key))
  | array span elements => exact (tallies_ofTargets c around.used elements).cons rfl
  | object span members => exact (tallies_ofTargetMembers c around.used members).cons rfl
  | spread span inner => exact (tallies_ofTarget c around.used inner).cons rfl
  | assign span operator inner value =>
      have hboth := tallies_andThen (tallies_ofExpr c .consumed around.used value)
        (tallies_ofTarget c around.used inner)
      exact (hboth.perm List.perm_append_comm List.perm_append_comm).cons rfl
  | _ => exact tallies_nothing.missingAll _

theorem tallies_ofTargets (c : Catalogue) (around : Setting) (targets : List Expr) :
    Tallies (exprNodesAll around targets) (targetMissedAll around targets)
      (ofTargets c targets) := by
  match targets with
  | [] => exact tallies_nothing
  | target :: more =>
      exact tallies_andThen (tallies_ofTarget c around target) (tallies_ofTargets c around more)

theorem tallies_ofTargetMembers (c : Catalogue) (around : Setting) (members : List ObjectMember) :
    Tallies (memberNodes around members) (targetMemberMissed around members)
      (ofTargetMembers c members) := by
  match members with
  | [] => exact tallies_nothing
  | .property key value :: more =>
      have hboth := tallies_andThen (tallies_ofTarget c around.used value)
        (tallies_ofTargetMembers c around more)
      exact (tallies_andThen (tallies_ofKey c around key) hboth).assoc
  | .method key fn :: more =>
      exact (tallies_ofTargetMembers c around more).missing
        (functionNode around .method fn.span fn :: (keyNodes around key ++ functionNodes fn))
  | .spread inner :: more =>
      exact tallies_andThen (tallies_ofTarget c around.used inner)
        (tallies_ofTargetMembers c around more)

theorem tallies_ofFunction (c : Catalogue) (self : Option String) (fn : Function) :
    Tallies (functionNodes fn) (functionMissed fn) (ofFunction c self fn) := by
  obtain ⟨span, isAsync, params, body⟩ := fn
  cases body with
  | block blockSpan stmts =>
      exact tallies_walk span isAsync _ (tallies_ofParameters c (.parametersOf span) params)
        (tallies_silent_andThen (tallies_hoist _) (tallies_bind_silent
          (tallies_ofStmts c (.bodyOf span) stmts) fun _ => tallies_returned))
  | expr valueSpan value terminated =>
      exact tallies_walk span isAsync _ (tallies_ofParameters c (.parametersOf span) params)
        (tallies_ofExpr c .consumed _ value)
  | _ =>
      exact tallies_walk span isAsync _ (tallies_ofParameters c (.parametersOf span) params)
        (tallies_returned.missingAll _)

theorem tallies_ofParameters (c : Catalogue) (around : Setting) (params : List Binding) :
    Tallies (bindingNodes around params) (parameterMissed around params)
      (ofParameters c params) := by
  match params with
  | [] => exact tallies_nothing
  | .mk isRest pattern value :: more =>
      have hbound := tallies_bind_silent (tallies_ofPattern c around pattern) fun _ =>
        tallies_declareAll pattern.names
      refine (tallies_andThen (tallies_ofExpr c .consumed around.used value)
        (tallies_andThen hbound (tallies_ofParameters c around more))).perm ?_ ?_ <;>
      · rw [← List.append_assoc]
        exact List.perm_append_comm.append_right _

theorem tallies_ofDeclarators (c : Catalogue) (around : Setting) (declarators : List Binding) :
    Tallies (bindingNodes around declarators) (declaratorMissed around declarators)
      (ofDeclarators c declarators) := by
  match declarators with
  | [] => exact tallies_nothing
  | .mk isRest pattern value :: more =>
      have hwhole := tallies_ofExpr c .consumed around.used value
      have hcontents := tallies_ofContents c around.used.used value
      have hbound := tallies_bind_silent (tallies_ofPattern c around pattern) fun _ =>
        tallies_declareAll pattern.names
      have hrest := tallies_ofDeclarators c around more
      cases pattern with
      | hole => exact tallies_andThen (tallies_nothing.missingAll _) hrest
      | name span name =>
          exact tallies_andThen
            (tallies_bind_silent hwhole fun d => tallies_declareOptional name d) hrest
      | _ =>
          exact tallies_andThen (tallies_destructured around.used value _ hwhole hcontents hbound)
            hrest

theorem tallies_ofHead (c : Catalogue) (around : Setting) (declarators : List Binding) :
    Tallies (bindingNodes around declarators) (headMissed around declarators)
      (ofHead c declarators) := by
  match declarators with
  | [] => exact tallies_nothing
  | .mk isRest pattern value :: more =>
      have hbound := tallies_bind_silent (tallies_ofPattern c around pattern) fun _ =>
        tallies_declareAll pattern.names
      exact tallies_andThen ((hbound.missing (exprNodes around.used value)).perm
        List.perm_append_comm List.perm_append_comm) (tallies_ofHead c around more)

theorem tallies_ofPattern (c : Catalogue) (around : Setting) (pattern : Pattern) :
    Tallies (patternNodes around pattern) (patternMissed around pattern) (ofPattern c pattern) := by
  match pattern with
  | .hole | .name .. => exact tallies_nothing
  | .withDefault span inner value =>
      exact tallies_andThen (tallies_ofPattern c around inner)
        (tallies_ofExpr c .consumed around.used value)
  | .rest span inner => exact tallies_ofPattern c around inner
  | .array span elements => exact tallies_ofPatterns c around elements
  | .object span entries => exact tallies_ofEntries c around entries

theorem tallies_ofPatterns (c : Catalogue) (around : Setting) (patterns : List Pattern) :
    Tallies (patternNodesAll around patterns) (patternMissedAll around patterns)
      (ofPatterns c patterns) := by
  match patterns with
  | [] => exact tallies_nothing
  | pattern :: more =>
      exact tallies_andThen (tallies_ofPattern c around pattern) (tallies_ofPatterns c around more)

theorem tallies_ofEntries (c : Catalogue) (around : Setting) (entries : List Entry) :
    Tallies (entryNodes around entries) (entryMissed around entries) (ofEntries c entries) := by
  match entries with
  | [] => exact tallies_nothing
  | .property key pattern :: more =>
      have hboth := tallies_andThen (tallies_ofPattern c around pattern)
        (tallies_ofEntries c around more)
      exact (tallies_andThen (tallies_ofKey c around key) hboth).assoc
  | .rest pattern :: more =>
      exact tallies_andThen (tallies_ofPattern c around pattern) (tallies_ofEntries c around more)

theorem tallies_ofStmt (c : Catalogue) (around : Setting) (stmt : Stmt) :
    Tallies (stmtNodes around stmt) (stmtMissed around stmt) (ofStmt c stmt) := by
  match stmt with
  | .hole | .empty .. | .breakOut .. | .continueOn .. => exact tallies_nothing
  | .var span kind declarators => exact tallies_ofDeclarators c around declarators
  | .function span name fn =>
      exact tallies_bind_silent ((tallies_ofFunction c none fn).cons rfl) fun d =>
        tallies_declareOptional name d
  | .block span body =>
      exact tallies_scoped (tallies_silent_andThen (tallies_hoist _) (tallies_ofStmts c around body))
  | .expr span value terminated => exact tallies_ofExpr c .consumed around.used value
  | .ret span value =>
      have hvalue := tallies_ofExpr c .consumed around.used value
      cases value with
      | hole => exact tallies_nothing
      | _ => exact tallies_bind_silent hvalue fun d => tallies_returning d
  | .throw span value => exact tallies_ofExpr c .consumed around.used value
  | .cond span test consequent alternate =>
      have hbranches := tallies_fork (fun _ _ => .unknown) (tallies_ofStmt c around consequent)
        (tallies_ofStmt c around alternate)
      exact (tallies_andThen (tallies_ofExpr c .consumed around.used test) hbranches).assoc
  | .while span test body =>
      exact tallies_loop _ (tallies_andThen (tallies_ofExpr c .consumed around.used test)
        (tallies_ofStmt c around body))
  | .doWhile span body test =>
      exact tallies_loop _ (tallies_andThen (tallies_ofStmt c around body)
        (tallies_ofExpr c .consumed around.used test))
  | .loop span init test update body =>
      exact tallies_counted (tallies_ofStmt c around init)
        (tallies_ofExpr c .consumed around.used test)
        (tallies_ofExpr c .consumed around.used update) (tallies_ofStmt c around body)
  | .each span isOf head iterable body =>
      have hsource := tallies_iterated around.used isOf head iterable
        (tallies_ofExpr c .consumed around.used iterable)
        (tallies_ofContents c around.used.used iterable)
      have hbody := tallies_ofStmt c around body
      cases head with
      | var headSpan kind declarators =>
          exact tallies_each hsource (tallies_ofHead c around declarators) hbody
      | expr headSpan target terminated =>
          exact tallies_each hsource (tallies_ofTarget c around.used target) hbody
      | _ => exact tallies_each hsource (tallies_nothing.missingAll _) hbody
  | .guarded span body handler cleanup =>
      exact tallies_andThen (tallies_fork _ (tallies_ofStmt c around body)
        (tallies_ofHandler c around handler)) (tallies_ofStmt c around cleanup)
  | .switch span value cases =>
      exact tallies_andThen (tallies_ofExpr c .consumed around.used value)
        (tallies_scoped (tallies_silent_andThen (tallies_hoist _)
          (tallies_choose _ (tallies_ofCases c around cases))))

theorem tallies_ofStmts (c : Catalogue) (around : Setting) (stmts : List Stmt) :
    Tallies (stmtNodesAll around stmts) (stmtMissedAll around stmts) (ofStmts c stmts) := by
  match stmts with
  | [] => exact tallies_nothing
  | stmt :: more =>
      exact tallies_andThen (tallies_ofStmt c around stmt) (tallies_ofStmts c around more)

theorem tallies_ofHandler (c : Catalogue) (around : Setting) (handler : Handler) :
    Tallies (handlerNodes around handler) (handlerMissed around handler) (ofHandler c handler) := by
  match handler with
  | .hole => exact tallies_nothing
  | .clause parameter body =>
      have hbound := tallies_bind_silent (tallies_ofPattern c around parameter) fun _ =>
        tallies_declareAll parameter.names
      exact tallies_scoped (tallies_andThen hbound
        (tallies_silent_andThen (tallies_hoist _) (tallies_ofStmts c around body)))

theorem tallies_ofCases (c : Catalogue) (around : Setting) (cases : List Case) :
    TalliesArms (caseNodes around cases) (caseMissed around cases) (ofCases c cases) := by
  match cases with
  | [] => exact talliesArms_done
  | .mk isDefault test body :: more =>
      exact tallies_arm (tallies_ofExpr c .consumed around.used test)
        (tallies_ofStmts c around body) (tallies_ofCases c around more)

end

theorem tallies_ofScript (c : Catalogue) (stmts : List Stmt) :
    Tallies (stmtNodesAll {} stmts) (stmtMissedAll {} stmts) (ofScript c stmts) :=
  tallies_silent_andThen (tallies_hoist _) (tallies_ofStmts c {} stmts)

end ShellAwait.Analysis
