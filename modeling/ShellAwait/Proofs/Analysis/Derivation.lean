import ShellAwait.Proofs.Analysis.Notes
import ShellAwait.Proofs.Analysis.Suspensions

/-! # The descriptors of a script are a derivation

Construct by construct, and then by induction over the script, its walk notes expressions by the
typing rules. The table of the findings agrees with all these notes, since every expression has a
span of its own: so each descriptor that was found follows by a rule from the others.
-/

namespace ShellAwait

open Text Analysis Script

namespace Analysis

open Analysis.Action

variable {expr : Expr} {whole : Action}

variable {c : Catalogue} {table : Table} {places others : List Place}

/-- The walk of an action whose value does not matter. -/
def Visits (c : Catalogue) (table : Table) (places : List Place) (action : Action) : Prop :=
  Derives c table True places action fun _ => True

namespace Visits

variable {a b : Action}

theorem ofDerives {post : Descriptor → Prop} (h : Derives c table True places a post) :
    Visits c table places a := h.weaken fun _ _ _ => trivial

theorem more (h : Visits c table places a) (hplaces : places.Subperm others) :
    Visits c table others a := Derives.more h hplaces

theorem regroup {first second third : List Place}
    (h : Visits c table (first ++ (second ++ third)) a) :
    Visits c table (first ++ second ++ third) a := by
  rwa [List.append_assoc]

theorem bind {next : Descriptor → Action} (h : Visits c table places a)
    (hnext : ∀ d, Visits c table others (next d)) :
    Visits c table (places ++ others) (a.bind next) := derives_bind h fun d => (hnext d).under

theorem andThen (ha : Visits c table places a) (hb : Visits c table others b) :
    Visits c table (places ++ others) (a.andThen b) := ha.bind fun _ => hb

theorem thenSilent {next : Descriptor → Action} (h : Visits c table places a)
    (hnext : ∀ d, Visits c table [] (next d)) : Visits c table places (a.bind next) :=
  derives_bind_silent h fun d => (hnext d).under

theorem map (f : Descriptor → Descriptor) (h : Visits c table places a) :
    Visits c table places (a.map f) := derives_map f h fun _ _ _ => trivial

theorem enclosed (h : Visits c table places a) : Visits c table places (.scoped a) :=
  derives_scoped h

theorem loop (names : List String) (h : Visits c table places a) :
    Visits c table places (.loop names a) := derives_loop names h

theorem fork (merge : Descriptor → Descriptor → Descriptor) (ha : Visits c table places a)
    (hb : Visits c table others b) : Visits c table (places ++ others) (.fork a b merge) :=
  derives_fork merge ha (fun _ => hb.under) fun _ _ _ _ _ => trivial

theorem hoisted (declarations : Declarations) (h : Visits c table places a) :
    Visits c table places ((Action.hoist declarations).andThen a) :=
  derives_andThen (derives_hoist declarations) fun _ => h.under

end Visits

/-! ## Actions without a note -/

theorem visits_silent {action : Action} (h : ∀ s, (action.run s).2.log = s.log) :
    Visits c table [] action := by
  apply derives_silent
  intro s v t hrun
  have hlog := h s
  rw [hrun] at hlog
  exact ⟨hlog, fun _ => trivial⟩

theorem visits_nothing : Visits c table [] nothing := visits_silent fun _ => rfl

theorem visits_look (name : Option String) : Visits c table [] (lookOptional name) := by
  cases name with
  | none => exact visits_nothing
  | some name => exact visits_silent fun _ => rfl

theorem visits_assign (name : String) (d : Descriptor) : Visits c table [] (.assign name d) :=
  visits_silent fun _ => rfl

theorem visits_declare (name : String) (d : Descriptor) : Visits c table [] (.declare name d) :=
  visits_silent fun _ => rfl

theorem visits_awaiting : Visits c table [] .awaiting := visits_silent fun _ => log_onFrame _ _

theorem visits_returning (d : Descriptor) : Visits c table [] (.returning d) :=
  visits_silent fun _ => log_onFrame _ _

theorem visits_returned : Visits c table [] .returned := visits_silent fun _ => rfl

theorem visits_stepTarget (operand : Expr) : Visits c table [] (stepTarget operand) := by
  unfold stepTarget
  split
  · exact visits_assign _ _
  · exact visits_nothing

theorem visits_assignName (target : Expr) (d : Descriptor) :
    Visits c table [] (assignName target d) := by
  unfold assignName
  split
  · exact visits_assign _ _
  · exact visits_nothing

theorem visits_declareOptional (name : Option String) (d : Descriptor) :
    Visits c table [] (match name with | some name => .declare name d | none => nothing) := by
  cases name with
  | none => exact visits_nothing
  | some name => exact visits_declare name d

theorem visits_declareAll (names : List String) : Visits c table [] (declareAll names) := by
  induction names with
  | nil => exact visits_nothing
  | cons name more ih => exact (visits_declare name .unknown).andThen ih

theorem visits_refuseShape (d : Descriptor) (span : Span) :
    Visits c table [] (refuseShape d span) := by
  unfold refuseShape
  split
  · exact visits_silent fun _ => rfl
  · exact visits_nothing

/-! ## Expressions -/

theorem Typed.fits {use : Use} {d : Descriptor} (h : Typed c table use expr d)
    (hpresent : expr.isHole = false) : Fits c table ⟨.value use, expr, hpresent⟩ d := by
  intro other hother
  cases hother
  exact h

theorem derives_value (use : Use) (hpresent : expr.isHole = false) (kind : NodeKind) {a : Action}
    (h : Derives c table True places a (Typed c table use expr)) :
    Derives c table True (⟨.value use, expr, hpresent⟩ :: places) (a.recorded kind expr.span)
      fun v => table use expr = some v :=
  (derives_recorded ⟨.value use, expr, hpresent⟩ kind
    (h.weaken fun _ _ htyped => htyped.fits hpresent)).weaken fun _ _ hentry => hentry use

theorem derives_access (use : Use) (hpresent : expr.isHole = false) (kind : NodeKind) {a : Action}
    (h : Derives c table True places a (Typed c table use expr)) :
    Derives c table True (⟨.value use, expr, hpresent⟩ :: places)
      (site use kind expr.span a) fun v => table use expr = some v :=
  derives_site ⟨.value use, expr, hpresent⟩ kind use
    (h.weaken fun _ _ htyped => htyped.fits hpresent)

theorem visits_target (hpresent : expr.isHole = false) (kind : NodeKind) {a : Action}
    (h : Visits c table places a) :
    Visits c table (⟨.target, expr, hpresent⟩ :: places) (a.recorded kind expr.span) :=
  .ofDerives (derives_recorded ⟨.target, expr, hpresent⟩ kind
    (h.weaken fun _ _ _ _ hvalue => by cases hvalue))

/-- The places inside a literal that a pattern takes apart. -/
def contentPlaces : Expr → List Place
  | .array _ elements => exprPlacesAll .consumed elements
  | .object _ members => memberPlaces .consumed members
  | _ => []

theorem visits_source {value : Expr} {contents : Action}
    (hwhole : Visits c table (exprPlaces .consumed value) whole)
    (hcontents : Visits c table (contentPlaces value) contents) :
    Visits c table (exprPlaces .consumed value) (source value whole contents) := by
  have hliteral (place : Place) (kind : NodeKind) {d : Descriptor} (h : Fits c table place d)
      (found : Descriptor) : Visits c table [place]
        ((Action.record kind place.expr.span d).andThen (.give found)) :=
    derives_thenGive (derives_record place kind fun _ => h) fun _ => trivial
  cases value with
  | array span elements =>
      exact (hcontents.bind (hliteral ⟨.consumed, .array span elements, rfl⟩ .arrayExpr
        (Typed.array.fits rfl))).more (subperm_place _ _)
  | object span members =>
      exact (hcontents.bind (hliteral ⟨.consumed, .object span members, rfl⟩ .objectExpr
        (Typed.object.fits rfl))).more (subperm_place _ _)
  | _ => exact hwhole

theorem visits_iterated (isOf : Bool) (head : Stmt) {iterable : Expr} {contents : Action}
    (hwhole : Visits c table (exprPlaces .consumed iterable) whole)
    (hcontents : Visits c table (contentPlaces iterable) contents) :
    Visits c table (exprPlaces .consumed iterable)
      (iterated isOf head iterable whole contents) := by
  unfold iterated
  split
  · exact (visits_source hwhole hcontents).thenSilent fun found => visits_refuseShape found _
  · exact hwhole

theorem derives_destructured {value : Expr} {contents pattern : Action} (span : Span)
    {post : Descriptor → Prop} (hwhole : Visits c table (exprPlaces .consumed value) whole)
    (hcontents : Visits c table (contentPlaces value) contents)
    (hpattern : Derives c table True places pattern post) :
    Derives c table True (places ++ exprPlaces .consumed value)
      (((source value whole contents).bind fun found => refuseShape found span).andThen pattern)
      post := by
  have hsource := (visits_source hwhole hcontents).thenSilent fun found =>
    visits_refuseShape found span
  exact (derives_andThen hsource fun _ => hpattern.under).more List.perm_append_comm.subperm

theorem derives_assigned {use : Use} {span : Span} {operator : Token} {target value : Expr}
    {base : Action} (htarget : target.isPattern = false) (hbase : Visits c table places base)
    (hwhole : Derives c table True others whole fun v => table .consumed value = some v) :
    Derives c table True (places ++ others)
      (base.andThen <| (whole.map (assignedDescriptor operator.kind)).bind fun d =>
        (assignName target d).andThen (.give d))
      (Typed c table use (.assign span operator target value)) := by
  have hassigned : Derives c table True others (whole.map (assignedDescriptor operator.kind))
      (Typed c table use (.assign span operator target value)) :=
    derives_map _ hwhole fun d _ hvalue => .assign htarget hvalue
  apply derives_andThen hbase
  intro _
  exact derives_bind_silent hassigned.under fun d =>
    derives_thenGive (visits_assignName target d).under And.right

theorem derives_ofParts {span : Span} {isAsync : Bool} (self : Option String)
    {parameters body : Action} (hparameters : Visits c table places parameters)
    (hbody : Visits c table others body) :
    Derives c table True (places ++ others)
      (.function span isAsync <| .scoped <|
        (declareAll self.toList).andThen ((Action.parameters parameters).andThen body))
      fun v => ∃ result, v = .callable result := by
  have hinner : Visits c table (places ++ others) ((Action.parameters parameters).andThen body) :=
    derives_andThen (derives_parameters hparameters) fun _ => hbody.under
  exact derives_function ((visits_declareAll self.toList).andThen hinner).enclosed

theorem derives_hole (use : Use) :
    Derives c table True [] nothing fun v => table use .hole = some v := by
  intro s v t hrecording hrun
  cases hrun
  refine ⟨[], noted_remarks (OnlyRemarks.refl _), List.Subperm.refl _, fun hagrees _ => ?_⟩
  exact ⟨fun _ hn => absurd hn List.not_mem_nil, hagrees.hole use⟩

/-! ## Expressions with their parts -/

/-- The walk of an expression notes its places by the rules, and yields what the table says of it. -/
def DerivesExpr (c : Catalogue) (table : Table) (use : Use) (expr : Expr) : Prop :=
  Derives c table True (exprPlaces (.value use) expr) (ofExpr c use expr)
    fun v => table use expr = some v

section

variable {use : Use} {span : Span} {operator : Token} {left right : Expr} {fn : Function}

theorem derives_unary (h : DerivesExpr c table .consumed right) :
    DerivesExpr c table use (.unary span operator right) := by
  have hstepped : Visits c table []
      (if isStepOperator operator.kind then stepTarget right else nothing) := by
    split
    · exact visits_stepTarget right
    · exact visits_nothing
  exact derives_value use rfl _
    (derives_thenGive ((Visits.ofDerives h).thenSilent fun _ => hstepped) fun _ => .unary)

theorem derives_index (hleft : DerivesExpr c table .consumed left)
    (hright : DerivesExpr c table .consumed right) :
    DerivesExpr c table use (.index span left right) := by
  apply derives_access use rfl
  apply derives_bind hleft
  intro base
  apply derives_thenGive hright.under
  intro hpre
  rw [memberOf_eq]
  exact .index hpre.2

theorem derives_binary (hleft : DerivesExpr c table .consumed left)
    (hright : DerivesExpr c table .consumed right) :
    DerivesExpr c table use (.binary span operator left right) := by
  apply derives_value use rfl
  apply derives_bind hleft
  intro l
  by_cases hlogical : isLogical operator.kind = true
  · rw [if_pos hlogical]
    refine (derives_fork _ hright.under (fun _ => visits_nothing.under)
      fun r _ hpre hr _ => .logical hlogical hpre.2 hr).more ?_
    rw [List.append_nil]
    exact List.Subperm.refl _
  · rw [if_neg hlogical]
    apply derives_map _ hright.under
    intro r hpre hr
    by_cases hplus : operator.kind = .plus
    · rw [hplus]
      exact .sum hplus hpre.2 hr
    · rw [binaryDescriptor_eq hplus]
      exact .binary (Bool.eq_false_iff.mpr hlogical) hplus

theorem derives_assignment (hvalue : DerivesExpr c table .consumed right)
    (hcontents : Visits c table (contentPlaces right) (ofContents c right))
    (hbase : Visits c table (exprPlaces .target left) (ofBase c left))
    (htarget : Visits c table (exprPlaces .target left) (ofTarget c left)) :
    DerivesExpr c table use (.assign span operator left right) := by
  apply derives_value use rfl
  cases left with
  | hole => exact (derives_give fun _ => .destructure rfl).more List.nil_subperm
  | array | object =>
      exact derives_destructured _ (.ofDerives hvalue) hcontents
        (derives_thenGive htarget fun _ => .destructure rfl)
  | _ => exact derives_assigned rfl hbase hvalue

end

mutual

theorem derives_ofExpr (c : Catalogue) (table : Table) (use : Use) (expr : Expr) :
    DerivesExpr c table use expr := by
  match expr with
  | .hole => exact derives_hole use
  | .literal span kind text => exact derives_value use rfl _ (derives_give fun _ => .literal)
  | .template span parts =>
      exact derives_value use rfl _ (derives_thenGive (derives_ofExprs c table parts)
        fun _ => .template)
  | .tagged span tag parts =>
      apply derives_access use rfl
      apply derives_bind (derives_ofExpr c table .consumed tag)
      intro d
      exact derives_thenGive (derives_ofExprs c table parts).under fun hpre => .tagged hpre.2
  | .name span name =>
      exact derives_value use rfl _ ((visits_look name).weaken fun _ _ _ => .name)
  | .thisValue span => exact derives_value use rfl _ (derives_give fun _ => .thisValue)
  | .array span elements =>
      exact derives_value use rfl _ (derives_thenGive (visits_ofElements c table elements)
        fun _ => .array)
  | .object span members =>
      exact derives_value use rfl _ (derives_thenGive (visits_ofMembers c table members)
        fun _ => .object)
  | .spread span inner =>
      exact derives_value use rfl _ (derives_thenGive (derives_ofExpr c table .consumed inner)
        fun _ => .spread)
  | .function span name fn =>
      apply derives_value use rfl
      apply (derives_ofFunction c table name fn).weaken
      rintro _ _ ⟨result, rfl⟩
      exact .function
  | .arrow span fn =>
      apply derives_value use rfl
      apply (derives_ofFunction c table none fn).weaken
      rintro _ _ ⟨result, rfl⟩
      exact .arrow
  | .paren span inner =>
      exact derives_value use rfl _ ((derives_ofExpr c table use inner).weaken
        fun _ _ hinner => .paren hinner)
  | .member span object name optional =>
      apply derives_access use rfl
      apply derives_map _ (derives_ofExpr c table .consumed object)
      intro base _ hbase
      rw [memberOf_eq]
      exact .member hbase
  | .index span object key =>
      exact derives_index (derives_ofExpr c table .consumed object)
        (derives_ofExpr c table .consumed key)
  | .call span callee arguments =>
      apply derives_access use rfl
      apply derives_bind (derives_ofExpr c table .consumed callee)
      intro d
      exact derives_thenGive (derives_ofExprs c table arguments).under fun hpre => .call hpre.2
  | .construct span callee hasList arguments =>
      have hparts := (Visits.ofDerives (derives_ofExpr c table .consumed callee)).andThen
        (.ofDerives (derives_ofExprs c table arguments))
      exact derives_access use rfl _ (derives_thenGive hparts fun _ => .construct)
  | .unary span operator operand => exact derives_unary (derives_ofExpr c table .consumed operand)
  | .await span operand =>
      apply derives_value use rfl
      apply derives_bind_silent (derives_ofExpr c table .awaited operand)
      intro d
      exact derives_thenGive visits_awaiting.under fun hpre => .await hpre.2
  | .update span operator operand =>
      have hoperand := Visits.ofDerives (derives_ofExpr c table .consumed operand)
      exact derives_value use rfl _ (derives_thenGive
        (hoperand.thenSilent fun _ => visits_stepTarget operand) fun _ => .update)
  | .binary span operator left right =>
      exact derives_binary (derives_ofExpr c table .consumed left)
        (derives_ofExpr c table .consumed right)
  | .assign span operator target value =>
      exact derives_assignment (derives_ofExpr c table .consumed value)
        (visits_ofContents c table value) (visits_ofBase c table target)
        (visits_ofTarget c table target)
  | .cond span test consequent alternate =>
      apply derives_value use rfl
      rw [List.append_assoc]
      apply derives_andThen (derives_ofExpr c table .consumed test)
      intro _
      exact derives_fork _ (derives_ofExpr c table .consumed consequent).under
        (fun _ => (derives_ofExpr c table .consumed alternate).under)
        fun a b _ ha hb => .cond ha hb
  | .sequence span parts =>
      exact derives_value use rfl _ ((derives_ofExprs c table parts).weaken
        fun _ _ hlast => .sequence hlast)

theorem derives_ofExprs (c : Catalogue) (table : Table) (exprs : List Expr) :
    Derives c table True (exprPlacesAll .consumed exprs) (ofExprs c exprs)
      fun v => table.last exprs = some v := by
  match exprs with
  | [] => exact derives_give fun _ => rfl
  | [expr] =>
      exact (derives_ofExpr c table .consumed expr).more (List.sublist_append_left _ _).subperm
  | expr :: next :: more =>
      exact derives_andThen (derives_ofExpr c table .consumed expr)
        fun _ => (derives_ofExprs c table (next :: more)).under

theorem visits_ofElements (c : Catalogue) (table : Table) (elements : List Expr) :
    Visits c table (exprPlacesAll .consumed elements) (ofElements c elements) := by
  match elements with
  | [] => exact visits_nothing
  | expr :: more =>
      have hfirst := Visits.ofDerives (derives_ofExpr c table .consumed expr)
      have hrest := visits_ofElements c table more
      cases expr with
      | spread span inner => exact hfirst.andThen hrest
      | _ => exact hfirst.bind fun d => hrest.map _

theorem visits_ofMembers (c : Catalogue) (table : Table) (members : List ObjectMember) :
    Visits c table (memberPlaces .consumed members) (ofMembers c members) := by
  match members with
  | [] => exact visits_nothing
  | .property key value :: more =>
      have hvalue := Visits.ofDerives (derives_ofExpr c table .consumed value)
      exact ((visits_ofKey c table key).andThen (hvalue.bind fun _ =>
        (visits_ofMembers c table more).map _)).regroup
  | .method key fn :: more =>
      exact ((visits_ofKey c table key).andThen
        ((Visits.ofDerives (derives_ofFunction c table none fn)).andThen
          (visits_ofMembers c table more))).regroup
  | .spread inner :: more =>
      exact (Visits.ofDerives (derives_ofExpr c table .consumed inner)).andThen
        (visits_ofMembers c table more)

theorem visits_ofKey (c : Catalogue) (table : Table) (key : Key) :
    Visits c table (keyPlaces key) (ofKey c key) := by
  match key with
  | .hole | .name .. => exact visits_nothing
  | .computed span inner => exact .ofDerives (derives_ofExpr c table .consumed inner)

theorem visits_ofContents (c : Catalogue) (table : Table) (value : Expr) :
    Visits c table (contentPlaces value) (ofContents c value) := by
  cases value with
  | array span elements => exact visits_ofElements c table elements
  | object span members => exact visits_ofMembers c table members
  | _ => exact visits_nothing

theorem visits_ofBase (c : Catalogue) (table : Table) (target : Expr) :
    Visits c table (exprPlaces .target target) (ofBase c target) := by
  cases target with
  | member span object name optional =>
      exact ((Visits.ofDerives (derives_ofExpr c table .consumed object)).andThen
        (visits_target rfl .memberExpr visits_nothing)).more (subperm_place _ _)
  | index span object key =>
      exact (((Visits.ofDerives (derives_ofExpr c table .consumed object)).andThen
        (.ofDerives (derives_ofExpr c table .consumed key))).andThen
        (visits_target rfl .indexExpr visits_nothing)).more (subperm_place _ _)
  | name span name => exact visits_target rfl .nameRef (visits_look name)
  | paren span inner => exact (visits_ofBase c table inner).more List.Subperm.cons_self
  | _ => exact visits_nothing.more List.nil_subperm

theorem visits_ofTarget (c : Catalogue) (table : Table) (target : Expr) :
    Visits c table (exprPlaces .target target) (ofTarget c target) := by
  cases target with
  | name span name =>
      cases name with
      | some name => exact (visits_assign name .unknown).more List.nil_subperm
      | none => exact visits_nothing.more List.nil_subperm
  | paren span inner => exact (visits_ofTarget c table inner).more List.Subperm.cons_self
  | member span object name optional =>
      exact ((Visits.ofDerives (derives_ofExpr c table .consumed object)).andThen
        (visits_target rfl .memberExpr visits_nothing)).more (subperm_place _ _)
  | index span object key =>
      exact (((Visits.ofDerives (derives_ofExpr c table .consumed object)).andThen
        (.ofDerives (derives_ofExpr c table .consumed key))).andThen
        (visits_target rfl .indexExpr visits_nothing)).more (subperm_place _ _)
  | array span elements => exact (visits_ofTargets c table elements).more List.Subperm.cons_self
  | object span members =>
      exact (visits_ofTargetMembers c table members).more List.Subperm.cons_self
  | spread span inner => exact (visits_ofTarget c table inner).more List.Subperm.cons_self
  | assign span operator inner value =>
      exact ((Visits.ofDerives (derives_ofExpr c table .consumed value)).andThen
        (visits_ofTarget c table inner)).more
          (List.perm_append_comm.subperm.trans List.Subperm.cons_self)
  | _ => exact visits_nothing.more List.nil_subperm

theorem visits_ofTargets (c : Catalogue) (table : Table) (targets : List Expr) :
    Visits c table (exprPlacesAll .target targets) (ofTargets c targets) := by
  match targets with
  | [] => exact visits_nothing
  | target :: more => exact (visits_ofTarget c table target).andThen (visits_ofTargets c table more)

theorem visits_ofTargetMembers (c : Catalogue) (table : Table) (members : List ObjectMember) :
    Visits c table (memberPlaces .target members) (ofTargetMembers c members) := by
  match members with
  | [] => exact visits_nothing
  | .property key value :: more =>
      exact ((visits_ofKey c table key).andThen ((visits_ofTarget c table value).andThen
        (visits_ofTargetMembers c table more))).regroup
  | .method key fn :: more =>
      exact (visits_ofTargetMembers c table more).more (List.sublist_append_right _ _).subperm
  | .spread inner :: more =>
      exact (visits_ofTarget c table inner).andThen (visits_ofTargetMembers c table more)

theorem derives_ofFunction (c : Catalogue) (table : Table) (self : Option String) (fn : Function) :
    Derives c table True (functionPlaces fn) (ofFunction c self fn)
      fun v => ∃ result, v = .callable result := by
  obtain ⟨span, isAsync, params, body⟩ := fn
  cases body with
  | block blockSpan stmts =>
      exact derives_ofParts self (visits_ofParameters c table params)
        (((visits_ofStmts c table stmts).thenSilent fun _ => visits_returned).hoisted _)
  | expr valueSpan value terminated =>
      exact derives_ofParts self (visits_ofParameters c table params)
        (.ofDerives (derives_ofExpr c table .consumed value))
  | _ =>
      exact derives_ofParts self (visits_ofParameters c table params)
        (visits_returned.more List.nil_subperm)

theorem visits_ofParameters (c : Catalogue) (table : Table) (params : List Binding) :
    Visits c table (bindingPlaces params) (ofParameters c params) := by
  match params with
  | [] => exact visits_nothing
  | .mk isRest pattern value :: more =>
      have hbound := (visits_ofPattern c table pattern).thenSilent
        fun _ => visits_declareAll pattern.names
      have hvalue := Visits.ofDerives (derives_ofExpr c table .consumed value)
      refine (hvalue.andThen (hbound.andThen (visits_ofParameters c table more))).more ?_
      rw [← List.append_assoc]
      exact (List.perm_append_comm.append_right _).subperm

theorem visits_ofDeclarators (c : Catalogue) (table : Table) (declarators : List Binding) :
    Visits c table (bindingPlaces declarators) (ofDeclarators c declarators) := by
  match declarators with
  | [] => exact visits_nothing
  | .mk isRest pattern value :: more =>
      have hvalue := Visits.ofDerives (derives_ofExpr c table .consumed value)
      have hcontents := visits_ofContents c table value
      have hbound := (visits_ofPattern c table pattern).thenSilent
        fun _ => visits_declareAll pattern.names
      have hrest := visits_ofDeclarators c table more
      cases pattern with
      | hole => exact (visits_nothing.more List.nil_subperm).andThen hrest
      | name span name =>
          exact (hvalue.thenSilent fun d => visits_declareOptional name d).andThen hrest
      | _ => exact Visits.andThen (derives_destructured _ hvalue hcontents hbound) hrest

theorem visits_ofHead (c : Catalogue) (table : Table) (declarators : List Binding) :
    Visits c table (bindingPlaces declarators) (ofHead c declarators) := by
  match declarators with
  | [] => exact visits_nothing
  | .mk isRest pattern value :: more =>
      have hbound := (visits_ofPattern c table pattern).thenSilent
        fun _ => visits_declareAll pattern.names
      exact (hbound.more (List.sublist_append_left _ _).subperm).andThen
        (visits_ofHead c table more)

theorem visits_ofPattern (c : Catalogue) (table : Table) (pattern : Pattern) :
    Visits c table (patternPlaces pattern) (ofPattern c pattern) := by
  match pattern with
  | .hole | .name .. => exact visits_nothing
  | .withDefault span inner value =>
      exact (visits_ofPattern c table inner).andThen
        (.ofDerives (derives_ofExpr c table .consumed value))
  | .rest span inner => exact visits_ofPattern c table inner
  | .array span elements => exact visits_ofPatterns c table elements
  | .object span entries => exact visits_ofEntries c table entries

theorem visits_ofPatterns (c : Catalogue) (table : Table) (patterns : List Pattern) :
    Visits c table (patternPlacesAll patterns) (ofPatterns c patterns) := by
  match patterns with
  | [] => exact visits_nothing
  | pattern :: more =>
      exact (visits_ofPattern c table pattern).andThen (visits_ofPatterns c table more)

theorem visits_ofEntries (c : Catalogue) (table : Table) (entries : List Entry) :
    Visits c table (entryPlaces entries) (ofEntries c entries) := by
  match entries with
  | [] => exact visits_nothing
  | .property key pattern :: more =>
      exact ((visits_ofKey c table key).andThen
        ((visits_ofPattern c table pattern).andThen (visits_ofEntries c table more))).regroup
  | .rest pattern :: more =>
      exact (visits_ofPattern c table pattern).andThen (visits_ofEntries c table more)

theorem visits_ofLoopHead (c : Catalogue) (table : Table) (head : Stmt) :
    Visits c table (stmtPlaces .target head)
      (match head with
        | .var _ _ declarators => ofHead c declarators
        | .expr _ target _ => ofTarget c target
        | _ => nothing) := by
  cases head with
  | var span kind declarators => exact visits_ofHead c table declarators
  | expr span target terminated => exact visits_ofTarget c table target
  | _ => exact visits_nothing.more List.nil_subperm

theorem visits_ofStmt (c : Catalogue) (table : Table) (stmt : Stmt) :
    Visits c table (stmtPlaces .consumed stmt) (ofStmt c stmt) := by
  match stmt with
  | .hole | .empty .. | .breakOut .. | .continueOn .. => exact visits_nothing
  | .var span kind declarators => exact visits_ofDeclarators c table declarators
  | .function span name fn =>
      exact (Visits.ofDerives (derives_ofFunction c table none fn)).thenSilent
        fun d => visits_declareOptional name d
  | .block span body => exact ((visits_ofStmts c table body).hoisted _).enclosed
  | .expr span value terminated => exact .ofDerives (derives_ofExpr c table .consumed value)
  | .ret span value =>
      have hvalue := Visits.ofDerives (derives_ofExpr c table .consumed value)
      change Visits c table _ (if value.isHole then nothing else _)
      split
      · exact visits_nothing.more List.nil_subperm
      · exact hvalue.thenSilent visits_returning
  | .throw span value => exact .ofDerives (derives_ofExpr c table .consumed value)
  | .cond span test consequent alternate =>
      exact ((Visits.ofDerives (derives_ofExpr c table .consumed test)).andThen
        ((visits_ofStmt c table consequent).fork _ (visits_ofStmt c table alternate))).regroup
  | .while span test body =>
      exact ((Visits.ofDerives (derives_ofExpr c table .consumed test)).andThen
        (visits_ofStmt c table body)).loop _
  | .doWhile span body test =>
      exact ((visits_ofStmt c table body).andThen
        (.ofDerives (derives_ofExpr c table .consumed test))).loop _
  | .loop span init test update body =>
      have htest := Visits.ofDerives (derives_ofExpr c table .consumed test)
      have hround := (htest.andThen (visits_ofStmt c table body)).andThen
        (.ofDerives (derives_ofExpr c table .consumed update))
      have hperm : (stmtPlaces .consumed init ++ (exprPlaces .consumed test ++
          stmtPlaces .consumed body ++ exprPlaces .consumed update)).Subperm
          (stmtPlaces .consumed init ++ exprPlaces .consumed test ++
            exprPlaces .consumed update ++ stmtPlaces .consumed body) := by
        simp only [List.append_assoc]
        exact ((List.perm_append_comm.append_left _).append_left _).subperm
      exact ((visits_ofStmt c table init).andThen (hround.loop _)).enclosed.more hperm
  | .each span isOf head iterable body =>
      have hsource := visits_iterated isOf head
        (.ofDerives (derives_ofExpr c table .consumed iterable)) (visits_ofContents c table iterable)
      have hloop := ((visits_ofLoopHead c table head).andThen (visits_ofStmt c table body)).loop
        (Script.stmtNames head ++ Script.stmtNames body)
      have hperm : (exprPlaces .consumed iterable ++
          (stmtPlaces .target head ++ stmtPlaces .consumed body)).Subperm
          (stmtPlaces .consumed (.each span isOf head iterable body)) := by
        rw [← List.append_assoc]
        exact (List.perm_append_comm.append_right _).subperm
      cases head <;> exact (hsource.andThen hloop).enclosed.more hperm
  | .guarded span body handler cleanup =>
      exact ((visits_ofStmt c table body).fork _ (visits_ofHandler c table handler)).andThen
        (visits_ofStmt c table cleanup)
  | .switch span value cases =>
      have hcases : Visits c table (casePlaces cases)
          (.choose (ofCases c cases) (cases.any Case.isDefault)) :=
        derives_choose _ (derives_ofCases c table cases)
      exact (Visits.ofDerives (derives_ofExpr c table .consumed value)).andThen
        (hcases.hoisted _).enclosed

theorem visits_ofStmts (c : Catalogue) (table : Table) (stmts : List Stmt) :
    Visits c table (stmtPlacesAll stmts) (ofStmts c stmts) := by
  match stmts with
  | [] => exact visits_nothing
  | stmt :: more => exact (visits_ofStmt c table stmt).andThen (visits_ofStmts c table more)

theorem visits_ofHandler (c : Catalogue) (table : Table) (handler : Handler) :
    Visits c table (handlerPlaces handler) (ofHandler c handler) := by
  match handler with
  | .hole => exact visits_nothing
  | .clause parameter body =>
      have hbound := (visits_ofPattern c table parameter).thenSilent
        fun _ => visits_declareAll parameter.names
      exact (hbound.andThen ((visits_ofStmts c table body).hoisted _)).enclosed

theorem derives_ofCases (c : Catalogue) (table : Table) (cases : List Case) :
    DerivesArms c table (casePlaces cases) (ofCases c cases) := by
  match cases with
  | [] => exact derives_done
  | .mk isDefault test body :: more =>
      exact derives_arm (derives_ofExpr c table .consumed test) (visits_ofStmts c table body)
        (derives_ofCases c table more)

end

end Analysis

/-! ## The table of the findings -/

namespace Findings

variable {expr : Expr}

/-- What is left of an expression for those who consume its value: a suspension awaits it first. -/
def used? (f : Findings) (span : Span) : Option Descriptor :=
  (f.typeOf? span).map fun d => if f.isSuspended span then d.awaited else d

/-- Nothing is known of what the text lacks. -/
def table (f : Findings) : Table
  | _, .hole => some .unknown
  | .consumed, expr => f.used? expr.span
  | .awaited, expr => f.typeOf? expr.span

variable {s : State} {notes : List Note}

end Findings

variable {catalogue : Catalogue} {source : List Char} {findings : Findings}

/-- The only name is a function that has to be awaited for another function. -/
def linking : Catalogue :=
  ⟨⟨[("link", ⟨true, .callable (.deferred (.callable .number))⟩)]⟩, ⟨[]⟩⟩

end ShellAwait
