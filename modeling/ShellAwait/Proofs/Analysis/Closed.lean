import ShellAwait.Analysis.OfScript

/-! # Properties of the actions of expressions

Expressions, the targets of assignments and the values inside of patterns are walked by a few kinds
of action. A property of these kinds that a sequence and a fork pass on holds of the walk of every
expression.
-/

namespace ShellAwait.Analysis

/-- A property of every action that the walk of an expression is made of. Functions have a scope of
their own. -/
structure Closed (P : Action → Prop) : Prop where
  give : ∀ d, P (.give d)
  look : ∀ name, P (.look name)
  assign : ∀ name d, P (.assign name d)
  record : ∀ kind span d, P (.record kind span d)
  suspend : ∀ span inner, P (.suspend span inner)
  awaiting : P .awaiting
  refuse : ∀ shape span, P (.refuse shape span)
  bind : ∀ {first : Action} {next : Descriptor → Action}, P first → (∀ d, P (next d)) →
    P (first.bind next)
  fork : ∀ {left right : Action} (merge : Descriptor → Descriptor → Descriptor), P left → P right →
    P (.fork left right merge)
  function : ∀ span isAsync body, P (.function span isAsync (.scoped body))

namespace Closed

open Analysis.Action

variable {P : Action → Prop} {a b : Action} (h : Closed P)

include h

/-! ## Combinations -/

theorem andThen (ha : P a) (hb : P b) : P (a.andThen b) := h.bind ha fun _ => hb

theorem map (f : Descriptor → Descriptor) (ha : P a) : P (a.map f) := h.bind ha fun _ => h.give _

theorem recorded (kind : NodeKind) (span : Text.Span) (ha : P a) : P (a.recorded kind span) :=
  h.bind ha (h.record kind span)

theorem site (use : Use) (kind : NodeKind) (span : Text.Span) (ha : P a) :
    P (Action.site use kind span a) := by
  have hrecorded := h.recorded kind span ha
  cases use with
  | awaited => exact hrecorded
  | consumed =>
      refine h.bind hrecorded fun d => ?_
      cases d with
      | deferred inner => exact h.suspend span inner
      | _ => exact h.give _

theorem lookOptional (name : Option String) : P (Action.lookOptional name) := by
  cases name with
  | none => exact h.give _
  | some name => exact h.look name

theorem stepTarget (operand : Expr) : P (Action.stepTarget operand) := by
  unfold Action.stepTarget
  split
  · exact h.assign _ _
  · exact h.give _

theorem assignName (target : Expr) (d : Descriptor) : P (Action.assignName target d) := by
  unfold Action.assignName
  split
  · exact h.assign _ _
  · exact h.give _

theorem refuseShape (d : Descriptor) (span : Text.Span) : P (Action.refuseShape d span) := by
  unfold Action.refuseShape
  split
  · exact h.refuse _ _
  · exact h.give _

theorem source (value : Expr) (ha : P a) (hb : P b) : P (Action.source value a b) := by
  unfold Action.source
  split
  · exact h.bind hb fun _ => h.andThen (h.record _ _ _) (h.give _)
  · exact h.bind hb fun _ => h.andThen (h.record _ _ _) (h.give _)
  · exact ha

theorem iterated (isOf : Bool) (head : Stmt) (iterable : Expr) (ha : P a) (hb : P b) :
    P (Action.iterated isOf head iterable a b) := by
  unfold Action.iterated
  split
  · exact h.bind (h.source _ ha hb) fun found => h.refuseShape found _
  · exact ha

theorem destructured (value : Expr) (span : Text.Span) {pattern : Action} (ha : P a) (hb : P b)
    (hpattern : P pattern) :
    P (((Action.source value a b).bind fun found => Action.refuseShape found span).andThen
      pattern) :=
  h.andThen (h.bind (h.source value ha hb) fun found => h.refuseShape found span) hpattern

/-! ## Expressions -/

theorem ofFunction (c : Catalogue) (self : Option String) (fn : Function) :
    P (Action.ofFunction c self fn) := by
  obtain ⟨span, isAsync, parameters, body⟩ := fn
  cases body <;> exact h.function _ _ _

mutual

theorem ofExpr (c : Catalogue) (use : Use) (expr : Expr) : P (Action.ofExpr c use expr) := by
  match expr with
  | .hole => exact h.give _
  | .literal span kind text => exact h.recorded _ _ (h.give _)
  | .template span parts => exact h.recorded _ _ (h.andThen (ofExprs c parts) (h.give _))
  | .tagged span tag parts =>
      exact h.site _ _ _ (h.bind (ofExpr c .consumed tag) fun _ =>
        h.andThen (ofExprs c parts) (h.give _))
  | .name span name => exact h.recorded _ _ (h.lookOptional name)
  | .thisValue span => exact h.recorded _ _ (h.give _)
  | .array span elements => exact h.recorded _ _ (h.andThen (ofElements c elements) (h.give _))
  | .object span members => exact h.recorded _ _ (h.andThen (ofMembers c members) (h.give _))
  | .spread span inner => exact h.recorded _ _ (h.andThen (ofExpr c .consumed inner) (h.give _))
  | .function span name fn => exact h.recorded _ _ (h.ofFunction c name fn)
  | .arrow span fn => exact h.recorded _ _ (h.ofFunction c none fn)
  | .paren span inner => exact h.recorded _ _ (ofExpr c use inner)
  | .member span object name optional =>
      exact h.site _ _ _ (h.map _ (ofExpr c .consumed object))
  | .index span object key =>
      exact h.site _ _ _ (h.bind (ofExpr c .consumed object) fun _ =>
        h.andThen (ofExpr c .consumed key) (h.give _))
  | .call span callee arguments =>
      exact h.site _ _ _ (h.bind (ofExpr c .consumed callee) fun _ =>
        h.andThen (ofExprs c arguments) (h.give _))
  | .construct span callee hasList arguments =>
      exact h.site _ _ _ (h.andThen (h.andThen (ofExpr c .consumed callee) (ofExprs c arguments))
        (h.give _))
  | .unary span operator operand =>
      apply h.recorded
      apply h.andThen _ (h.give _)
      apply h.andThen (ofExpr c .consumed operand)
      split
      · exact h.stepTarget operand
      · exact h.give _
  | .await span operand =>
      exact h.recorded _ _ (h.bind (ofExpr c .awaited operand) fun _ =>
        h.andThen h.awaiting (h.give _))
  | .update span operator operand =>
      exact h.recorded _ _ (h.andThen (h.andThen (ofExpr c .consumed operand)
        (h.stepTarget operand)) (h.give _))
  | .binary span operator left right =>
      apply h.recorded
      apply h.bind (ofExpr c .consumed left)
      intro d
      split
      · exact h.fork _ (ofExpr c .consumed right) (h.give _)
      · exact h.map _ (ofExpr c .consumed right)
  | .assign span operator target value =>
      have hvalue := ofExpr c .consumed value
      have hcontents := ofContents c value
      have hbase := ofBase c target
      have htarget := ofTarget c target
      apply h.recorded
      cases target with
      | hole => exact h.give _
      | array span elements | object span elements =>
          exact h.destructured value _ hvalue hcontents (h.andThen htarget (h.give _))
      | _ =>
          exact h.andThen hbase (h.bind (h.map _ hvalue) fun d =>
            h.andThen (h.assignName _ d) (h.give _))
  | .cond span test consequent alternate =>
      exact h.recorded _ _ (h.andThen (ofExpr c .consumed test)
        (h.fork _ (ofExpr c .consumed consequent) (ofExpr c .consumed alternate)))
  | .sequence span parts => exact h.recorded _ _ (ofExprs c parts)

theorem ofExprs (c : Catalogue) (exprs : List Expr) : P (Action.ofExprs c exprs) := by
  match exprs with
  | [] => exact h.give _
  | [expr] => exact ofExpr c .consumed expr
  | expr :: next :: more => exact h.andThen (ofExpr c .consumed expr) (ofExprs c (next :: more))

theorem ofElements (c : Catalogue) (elements : List Expr) : P (Action.ofElements c elements) := by
  match elements with
  | [] => exact h.give _
  | expr :: more =>
      have hfirst := ofExpr c .consumed expr
      have hrest := ofElements c more
      cases expr with
      | spread span inner => exact h.andThen hfirst hrest
      | _ => exact h.bind hfirst fun d => h.map _ hrest

theorem ofMembers (c : Catalogue) (members : List ObjectMember) :
    P (Action.ofMembers c members) := by
  match members with
  | [] => exact h.give _
  | .property key value :: more =>
      exact h.andThen (ofKey c key) (h.bind (ofExpr c .consumed value) fun d =>
        h.map _ (ofMembers c more))
  | .method key fn :: more =>
      exact h.andThen (ofKey c key) (h.andThen (h.ofFunction c none fn) (ofMembers c more))
  | .spread inner :: more => exact h.andThen (ofExpr c .consumed inner) (ofMembers c more)

theorem ofKey (c : Catalogue) (key : Key) : P (Action.ofKey c key) := by
  match key with
  | .hole | .name .. => exact h.give _
  | .computed span inner => exact ofExpr c .consumed inner

theorem ofContents (c : Catalogue) (value : Expr) : P (Action.ofContents c value) := by
  cases value with
  | array span elements => exact ofElements c elements
  | object span members => exact ofMembers c members
  | _ => exact h.give _

theorem ofBase (c : Catalogue) (target : Expr) : P (Action.ofBase c target) := by
  cases target with
  | member span object name optional =>
      exact h.andThen (ofExpr c .consumed object) (h.recorded _ _ (h.give _))
  | index span object key =>
      exact h.andThen (h.andThen (ofExpr c .consumed object) (ofExpr c .consumed key))
        (h.recorded _ _ (h.give _))
  | name span name => exact h.recorded _ _ (h.lookOptional name)
  | paren span inner => exact ofBase c inner
  | _ => exact h.give _

theorem ofTarget (c : Catalogue) (target : Expr) : P (Action.ofTarget c target) := by
  cases target with
  | name span name =>
      cases name with
      | some name => exact h.assign _ _
      | none => exact h.give _
  | paren span inner => exact ofTarget c inner
  | member span object name optional =>
      exact h.andThen (ofExpr c .consumed object) (h.recorded _ _ (h.give _))
  | index span object key =>
      exact h.andThen (h.andThen (ofExpr c .consumed object) (ofExpr c .consumed key))
        (h.recorded _ _ (h.give _))
  | array span elements => exact ofTargets c elements
  | object span members => exact ofTargetMembers c members
  | spread span inner => exact ofTarget c inner
  | assign span operator inner value =>
      exact h.andThen (ofExpr c .consumed value) (ofTarget c inner)
  | _ => exact h.give _

theorem ofTargets (c : Catalogue) (targets : List Expr) : P (Action.ofTargets c targets) := by
  match targets with
  | [] => exact h.give _
  | target :: more => exact h.andThen (ofTarget c target) (ofTargets c more)

theorem ofTargetMembers (c : Catalogue) (members : List ObjectMember) :
    P (Action.ofTargetMembers c members) := by
  match members with
  | [] => exact h.give _
  | .property key value :: more =>
      exact h.andThen (ofKey c key) (h.andThen (ofTarget c value) (ofTargetMembers c more))
  | .method key fn :: more => exact ofTargetMembers c more
  | .spread inner :: more => exact h.andThen (ofTarget c inner) (ofTargetMembers c more)

theorem ofPattern (c : Catalogue) (pattern : Pattern) : P (Action.ofPattern c pattern) := by
  match pattern with
  | .hole | .name .. => exact h.give _
  | .withDefault span inner value =>
      exact h.andThen (ofPattern c inner) (ofExpr c .consumed value)
  | .rest span inner => exact ofPattern c inner
  | .array span elements => exact ofPatterns c elements
  | .object span entries => exact ofEntries c entries

theorem ofPatterns (c : Catalogue) (patterns : List Pattern) :
    P (Action.ofPatterns c patterns) := by
  match patterns with
  | [] => exact h.give _
  | pattern :: more => exact h.andThen (ofPattern c pattern) (ofPatterns c more)

theorem ofEntries (c : Catalogue) (entries : List Entry) : P (Action.ofEntries c entries) := by
  match entries with
  | [] => exact h.give _
  | .property key pattern :: more =>
      exact h.andThen (ofKey c key) (h.andThen (ofPattern c pattern) (ofEntries c more))
  | .rest pattern :: more => exact h.andThen (ofPattern c pattern) (ofEntries c more)

end

end Closed

end ShellAwait.Analysis
