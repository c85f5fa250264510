import ShellAwait.Analysis.OfScript
import ShellAwait.Proofs.Analysis.Findings
import ShellAwait.Proofs.Script.Nodes

/-! # The expressions of a script

Every expression of a script with what is done with it there: its value is consumed, an explicit
`await` takes it as it is, or it is the target of an assignment or of a loop. Each expression is a
node of the script, so in a text without a fault no two of them have the same span.
-/

namespace ShellAwait

open Text Analysis

/-- What is done with an expression where it stands. -/
inductive Role where
  | value (use : Use)
  | target
deriving DecidableEq, Repr

namespace Role

/-- The role of a part whose value is consumed. -/
def consumed : Role := .value .consumed

/-- The role of the parts of a literal: those of a pattern are targets as well. -/
def inner : Role → Role
  | .value _ => consumed
  | .target => .target

end Role

/-- An expression that the text has, and its role. -/
structure Place where
  role : Role
  expr : Expr
  present : expr.isHole = false

namespace Script

mutual

def exprPlaces (role : Role) : Expr → List Place
  | .hole => []
  | .literal span kind text => [⟨role, .literal span kind text, rfl⟩]
  | .template span parts =>
      ⟨role, .template span parts, rfl⟩ :: exprPlacesAll .consumed parts
  | .tagged span tag parts =>
      ⟨role, .tagged span tag parts, rfl⟩ ::
        (exprPlaces .consumed tag ++ exprPlacesAll .consumed parts)
  | .name span name => [⟨role, .name span name, rfl⟩]
  | .thisValue span => [⟨role, .thisValue span, rfl⟩]
  | .array span elements =>
      ⟨role, .array span elements, rfl⟩ :: exprPlacesAll role.inner elements
  | .object span members =>
      ⟨role, .object span members, rfl⟩ :: memberPlaces role.inner members
  | .spread span inner => ⟨role, .spread span inner, rfl⟩ :: exprPlaces role.inner inner
  | .function span name fn => ⟨role, .function span name fn, rfl⟩ :: functionPlaces fn
  | .arrow span fn => ⟨role, .arrow span fn, rfl⟩ :: functionPlaces fn
  | .paren span inner => ⟨role, .paren span inner, rfl⟩ :: exprPlaces role inner
  | .member span object name optional =>
      ⟨role, .member span object name optional, rfl⟩ :: exprPlaces .consumed object
  | .index span object key =>
      ⟨role, .index span object key, rfl⟩ ::
        (exprPlaces .consumed object ++ exprPlaces .consumed key)
  | .call span callee arguments =>
      ⟨role, .call span callee arguments, rfl⟩ ::
        (exprPlaces .consumed callee ++ exprPlacesAll .consumed arguments)
  | .construct span callee hasList arguments =>
      ⟨role, .construct span callee hasList arguments, rfl⟩ ::
        (exprPlaces .consumed callee ++ exprPlacesAll .consumed arguments)
  | .unary span operator operand =>
      ⟨role, .unary span operator operand, rfl⟩ :: exprPlaces .consumed operand
  | .await span operand =>
      ⟨role, .await span operand, rfl⟩ :: exprPlaces (.value .awaited) operand
  | .update span operator operand =>
      ⟨role, .update span operator operand, rfl⟩ :: exprPlaces .consumed operand
  | .binary span operator left right =>
      ⟨role, .binary span operator left right, rfl⟩ ::
        (exprPlaces .consumed left ++ exprPlaces .consumed right)
  | .assign span operator target value =>
      ⟨role, .assign span operator target value, rfl⟩ ::
        (exprPlaces .target target ++ exprPlaces .consumed value)
  | .cond span test consequent alternate =>
      ⟨role, .cond span test consequent alternate, rfl⟩ ::
        (exprPlaces .consumed test ++ exprPlaces .consumed consequent ++
          exprPlaces .consumed alternate)
  | .sequence span parts =>
      ⟨role, .sequence span parts, rfl⟩ :: exprPlacesAll .consumed parts

def exprPlacesAll (role : Role) : List Expr → List Place
  | [] => []
  | expr :: more => exprPlaces role expr ++ exprPlacesAll role more

def memberPlaces (role : Role) : List ObjectMember → List Place
  | [] => []
  | .property key value :: more =>
      keyPlaces key ++ exprPlaces role value ++ memberPlaces role more
  | .method key fn :: more => keyPlaces key ++ functionPlaces fn ++ memberPlaces role more
  | .spread inner :: more => exprPlaces role inner ++ memberPlaces role more

def keyPlaces : Key → List Place
  | .hole => []
  | .name .. => []
  | .computed _ inner => exprPlaces .consumed inner

def functionPlaces : Function → List Place
  | .mk _ _ parameters body => bindingPlaces parameters ++ stmtPlaces .consumed body

def bindingPlaces : List Binding → List Place
  | [] => []
  | .mk _ pattern value :: more =>
      patternPlaces pattern ++ exprPlaces .consumed value ++ bindingPlaces more

def patternPlaces : Pattern → List Place
  | .hole => []
  | .name .. => []
  | .array _ elements => patternPlacesAll elements
  | .object _ entries => entryPlaces entries
  | .withDefault _ inner value => patternPlaces inner ++ exprPlaces .consumed value
  | .rest _ inner => patternPlaces inner

def patternPlacesAll : List Pattern → List Place
  | [] => []
  | pattern :: more => patternPlaces pattern ++ patternPlacesAll more

def entryPlaces : List Entry → List Place
  | [] => []
  | .property key pattern :: more =>
      keyPlaces key ++ patternPlaces pattern ++ entryPlaces more
  | .rest pattern :: more => patternPlaces pattern ++ entryPlaces more

/-- The role is that of an expression which is the statement: in the head of a loop over a value
it is what the values are assigned to. -/
def stmtPlaces (role : Role) : Stmt → List Place
  | .hole => []
  | .var _ _ declarators => bindingPlaces declarators
  | .function _ _ fn => functionPlaces fn
  | .block _ body => stmtPlacesAll body
  | .expr _ value _ => exprPlaces role value
  | .empty _ => []
  | .breakOut _ => []
  | .continueOn _ => []
  | .ret _ value => exprPlaces .consumed value
  | .throw _ value => exprPlaces .consumed value
  | .cond _ test consequent alternate =>
      exprPlaces .consumed test ++ stmtPlaces .consumed consequent ++
        stmtPlaces .consumed alternate
  | .while _ test body => exprPlaces .consumed test ++ stmtPlaces .consumed body
  | .doWhile _ body test => stmtPlaces .consumed body ++ exprPlaces .consumed test
  | .loop _ init test update body =>
      stmtPlaces .consumed init ++ exprPlaces .consumed test ++ exprPlaces .consumed update ++
        stmtPlaces .consumed body
  | .each _ _ head iterable body =>
      stmtPlaces .target head ++ exprPlaces .consumed iterable ++ stmtPlaces .consumed body
  | .guarded _ body handler cleanup =>
      stmtPlaces .consumed body ++ handlerPlaces handler ++ stmtPlaces .consumed cleanup
  | .switch _ value cases => exprPlaces .consumed value ++ casePlaces cases

def stmtPlacesAll : List Stmt → List Place
  | [] => []
  | stmt :: more => stmtPlaces .consumed stmt ++ stmtPlacesAll more

def handlerPlaces : Handler → List Place
  | .hole => []
  | .clause parameter body => patternPlaces parameter ++ stmtPlacesAll body

def casePlaces : List Case → List Place
  | [] => []
  | .mk _ test body :: more =>
      exprPlaces .consumed test ++ stmtPlacesAll body ++ casePlaces more

end

/-! ## Places are nodes -/

/-- In their order, the places are nodes of the list. -/
def Covers (nodes : List Occurrence) (places : List Place) : Prop :=
  (places.map fun p => (p.expr.kind, p.expr.span)).Sublist (nodes.map fun o => (o.kind, o.span))

namespace Covers

variable {nodes more : List Occurrence} {places others : List Place}

theorem nil : Covers nodes [] := List.nil_sublist _

theorem append (h : Covers nodes places) (hmore : Covers more others) :
    Covers (nodes ++ more) (places ++ others) := by
  unfold Covers
  rw [List.map_append, List.map_append]
  exact List.Sublist.append h hmore

theorem node {o : Occurrence} {p : Place} (hkind : p.expr.kind = o.kind)
    (hspan : p.expr.span = o.span) (h : Covers nodes places) :
    Covers (o :: nodes) (p :: places) := by
  unfold Covers
  rw [List.map_cons, List.map_cons, hkind, hspan]
  exact List.Sublist.cons_cons _ h

theorem skip (o : Occurrence) (h : Covers nodes places) : Covers (o :: nodes) places :=
  List.Sublist.cons _ h

theorem functionValue {around : Setting} {kind : NodeKind} {span : Span} {fn : Function} {p : Place}
    (hkind : p.expr.kind = kind) (hspan : p.expr.span = span) (h : Covers nodes places) :
    Covers (functionValueNodes around kind span fn ++ nodes) (p :: places) := by
  unfold functionValueNodes
  by_cases hsame : fn.span = span
  · rw [if_pos hsame]
    exact node hkind (hspan.trans hsame.symm) h
  · rw [if_neg hsame]
    exact skip _ (node hkind hspan h)

end Covers

mutual

theorem covers_expr (around : Setting) (role : Role) (expr : Expr) :
    Covers (exprNodes around expr) (exprPlaces role expr) := by
  match expr with
  | .hole => exact .nil
  | .literal .. | .name .. | .thisValue .. => exact .node rfl rfl .nil
  | .template span parts => exact .node rfl rfl (covers_exprs _ _ parts)
  | .tagged span tag parts =>
      exact .node rfl rfl ((covers_expr _ _ tag).append (covers_exprs _ _ parts))
  | .array span elements => exact .node rfl rfl (covers_exprs _ _ elements)
  | .object span members => exact .node rfl rfl (covers_members _ _ members)
  | .spread span inner => exact .node rfl rfl (covers_expr _ _ inner)
  | .function span name fn => exact .functionValue rfl rfl (covers_function fn)
  | .arrow span fn => exact .functionValue rfl rfl (covers_function fn)
  | .paren span inner => exact .node rfl rfl (covers_expr _ _ inner)
  | .member span object name optional => exact .node rfl rfl (covers_expr _ _ object)
  | .index span object key =>
      exact .node rfl rfl ((covers_expr _ _ object).append (covers_expr _ _ key))
  | .call span callee arguments | .construct span callee hasList arguments =>
      exact .node rfl rfl ((covers_expr _ _ callee).append (covers_exprs _ _ arguments))
  | .unary span operator operand | .await span operand | .update span operator operand =>
      exact .node rfl rfl (covers_expr _ _ operand)
  | .binary span operator left right =>
      exact .node rfl rfl ((covers_expr _ _ left).append (covers_expr _ _ right))
  | .assign span operator target value =>
      exact .node rfl rfl ((covers_expr _ _ target).append (covers_expr _ _ value))
  | .cond span test consequent alternate =>
      exact .node rfl rfl (((covers_expr _ _ test).append (covers_expr _ _ consequent)).append
        (covers_expr _ _ alternate))
  | .sequence span parts => exact .node rfl rfl (covers_exprs _ _ parts)

theorem covers_exprs (around : Setting) (role : Role) (exprs : List Expr) :
    Covers (exprNodesAll around exprs) (exprPlacesAll role exprs) := by
  match exprs with
  | [] => exact .nil
  | expr :: more => exact (covers_expr _ _ expr).append (covers_exprs _ _ more)

theorem covers_members (around : Setting) (role : Role) (members : List ObjectMember) :
    Covers (memberNodes around members) (memberPlaces role members) := by
  match members with
  | [] => exact .nil
  | .property key value :: more =>
      exact ((covers_key _ key).append (covers_expr _ _ value)).append (covers_members _ _ more)
  | .method key fn :: more =>
      exact .skip _ (((covers_key _ key).append (covers_function fn)).append
        (covers_members _ _ more))
  | .spread inner :: more => exact (covers_expr _ _ inner).append (covers_members _ _ more)

theorem covers_key (around : Setting) (key : Key) : Covers (keyNodes around key) (keyPlaces key) := by
  match key with
  | .hole | .name .. => exact .nil
  | .computed span inner => exact covers_expr _ _ inner

theorem covers_function (fn : Function) : Covers (functionNodes fn) (functionPlaces fn) := by
  match fn with
  | .mk span isAsync parameters body =>
      exact (covers_bindings _ parameters).append (covers_stmt _ _ body)

theorem covers_bindings (around : Setting) (bindings : List Binding) :
    Covers (bindingNodes around bindings) (bindingPlaces bindings) := by
  match bindings with
  | [] => exact .nil
  | .mk isRest pattern value :: more =>
      exact ((covers_pattern _ pattern).append (covers_expr _ _ value)).append
        (covers_bindings _ more)

theorem covers_pattern (around : Setting) (pattern : Pattern) :
    Covers (patternNodes around pattern) (patternPlaces pattern) := by
  match pattern with
  | .hole | .name .. => exact .nil
  | .array span elements => exact covers_patterns _ elements
  | .object span entries => exact covers_entries _ entries
  | .withDefault span inner value =>
      exact (covers_pattern _ inner).append (covers_expr _ _ value)
  | .rest span inner => exact covers_pattern _ inner

theorem covers_patterns (around : Setting) (patterns : List Pattern) :
    Covers (patternNodesAll around patterns) (patternPlacesAll patterns) := by
  match patterns with
  | [] => exact .nil
  | pattern :: more => exact (covers_pattern _ pattern).append (covers_patterns _ more)

theorem covers_entries (around : Setting) (entries : List Entry) :
    Covers (entryNodes around entries) (entryPlaces entries) := by
  match entries with
  | [] => exact .nil
  | .property key pattern :: more =>
      exact ((covers_key _ key).append (covers_pattern _ pattern)).append (covers_entries _ more)
  | .rest pattern :: more => exact (covers_pattern _ pattern).append (covers_entries _ more)

theorem covers_stmt (around : Setting) (role : Role) (stmt : Stmt) :
    Covers (stmtNodes around stmt) (stmtPlaces role stmt) := by
  match stmt with
  | .hole | .empty .. | .breakOut .. | .continueOn .. => exact .nil
  | .var span kind declarators => exact covers_bindings _ declarators
  | .function span name fn => exact .skip _ (covers_function fn)
  | .block span body => exact covers_stmts _ body
  | .expr span value terminated => exact covers_expr _ _ value
  | .ret span value | .throw span value => exact covers_expr _ _ value
  | .cond span test consequent alternate =>
      exact ((covers_expr _ _ test).append (covers_stmt _ _ consequent)).append
        (covers_stmt _ _ alternate)
  | .while span test body => exact (covers_expr _ _ test).append (covers_stmt _ _ body)
  | .doWhile span body test => exact (covers_stmt _ _ body).append (covers_expr _ _ test)
  | .loop span init test update body =>
      exact (((covers_stmt _ _ init).append (covers_expr _ _ test)).append
        (covers_expr _ _ update)).append (covers_stmt _ _ body)
  | .each span isOf head iterable body =>
      exact ((covers_stmt _ _ head).append (covers_expr _ _ iterable)).append
        (covers_stmt _ _ body)
  | .guarded span body handler cleanup =>
      exact ((covers_stmt _ _ body).append (covers_handler _ handler)).append
        (covers_stmt _ _ cleanup)
  | .switch span value cases => exact (covers_expr _ _ value).append (covers_cases _ cases)

theorem covers_stmts (around : Setting) (stmts : List Stmt) :
    Covers (stmtNodesAll around stmts) (stmtPlacesAll stmts) := by
  match stmts with
  | [] => exact .nil
  | stmt :: more => exact (covers_stmt _ _ stmt).append (covers_stmts _ more)

theorem covers_handler (around : Setting) (handler : Handler) :
    Covers (handlerNodes around handler) (handlerPlaces handler) := by
  match handler with
  | .hole => exact .nil
  | .clause parameter body => exact (covers_pattern _ parameter).append (covers_stmts _ body)

theorem covers_cases (around : Setting) (cases : List Case) :
    Covers (caseNodes around cases) (casePlaces cases) := by
  match cases with
  | [] => exact .nil
  | .mk isDefault test body :: more =>
      exact ((covers_expr _ _ test).append (covers_stmts _ body)).append (covers_cases _ more)

end

/-! ## Places by their spans -/

theorem isExpression_kind {expr : Expr} (h : expr.isHole = false) :
    expr.kind.isExpression = true := by
  cases expr <;> first | rfl | cases h

theorem Covers.nodup {nodes listed : List Occurrence} {places : List Place}
    (h : Covers nodes places) (hnodes : nodes.Subperm listed) (hdistinct : Distinct listed) :
    (places.map fun p => p.expr.span).Nodup := by
  have hkeyed : ∀ key ∈ places.map (fun p => (p.expr.kind, p.expr.span)),
      NodeKind.isKeyed key.1 = true := by
    intro key hkey
    obtain ⟨p, -, rfl⟩ := List.mem_map.mp hkey
    rw [NodeKind.isKeyed, isExpression_kind p.present, Bool.true_or]
  have hsublist := (h.filter fun key => NodeKind.isKeyed key.1).map Prod.snd
  rw [List.filter_eq_self.mpr hkeyed, List.filter_map, List.map_map, List.map_map] at hsublist
  have hspans : ((nodes.filter (·.kind.isKeyed)).map Occurrence.span).Nodup := by
    obtain ⟨picked, hperm, hpicked⟩ := hnodes.filter (·.kind.isKeyed)
    exact ((hperm.map Occurrence.span).nodup_iff).mp ((hpicked.map Occurrence.span).nodup hdistinct)
  exact hsublist.nodup hspans

end Script

end ShellAwait
