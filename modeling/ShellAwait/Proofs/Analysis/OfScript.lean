import ShellAwait.Proofs.Analysis.Traced
import ShellAwait.Proofs.Script.Nodes
import ShellAwait.Proofs.Script.Writes

/-! # The trace of a script

Every expression, pattern and statement leaves a trace of its own nodes: constructs one by one
first, and then all of them by induction over the script.
-/

namespace ShellAwait.Analysis

open Text Script Analysis.Action

variable {action contents : Action} {kind : NodeKind} {fn : Function}

variable {I : Invariant} {region : Option Region} {listed more : List Occurrence}

/-- Where an expression stands that is used in this way. -/
def Use.setting (region : Option Region) (use : Use) : Setting :=
  { region, awaited := use = .awaited }

/-- Every one of the names may be written. -/
def Allows (I : Invariant) (names : List String) : Prop := ∀ name ∈ names, I.Writes name

theorem allows_append {a b : List String} : Allows I (a ++ b) ↔ Allows I a ∧ Allows I b :=
  List.forall_mem_append

theorem allows_none : Allows I (none : Option String).toList := fun _ h => absurd h List.not_mem_nil

/-! ## Expressions -/

theorem traced_plain (use : Use) (kind : NodeKind) (span : Span)
    (hkind : (kind.isExpression && !kind.isSite && kind != .awaitExpr) = true)
    (h : Traced I region listed action) :
    Traced I region ((use.setting region).node kind span :: listed)
      (action.recorded kind span) := by
  simp only [Bool.and_eq_true, Bool.not_eq_true', bne_iff_ne] at hkind
  refine traced_recorded (o := (use.setting region).node kind span) hkind.1.1 hkind.2 rfl
    (fun hsite => ?_) h
  exact absurd (hkind.1.2.symm.trans hsite) Bool.false_ne_true

theorem traced_access {use : Use} (span : Span) (hsite : kind.isSite = true)
    (h : Traced I region listed action) :
    Traced I region ((use.setting region).node kind span :: listed) (site use kind span action) :=
  traced_site (o := (use.setting region).node kind span) hsite rfl h fun _ _ _ hname =>
    nomatch hname

theorem traced_targetAccess (span : Span) (hsite : kind.isSite = true)
    (h : Traced I region listed nothing) :
    Traced I region ((Use.consumed.setting region).node kind span :: listed)
      (nothing.recorded kind span) := by
  obtain ⟨hkind, hawait⟩ := NodeKind.isExpression_of_isSite hsite
  refine traced_recorded (o := (Use.consumed.setting region).node kind span) hkind hawait rfl ?_ h
  intro _ s d t hrun
  cases hrun
  rfl

theorem traced_lookOptional (name : Option String) : Traced I region [] (lookOptional name) := by
  cases name with
  | none => exact traced_nothing
  | some name => exact traced_look name

/-- The value of a call of a name is the result of what the name is bound to when the call
begins. -/
theorem explains_call {o : Occurrence} {c : Catalogue} {callee : Expr} {rest : Action} {k : Nat}
    {s t : State} {d : Descriptor} (hcallee : o.callee = callee.name?)
    (hholds : I.Holds k s.bindings)
    (hrun : ((ofExpr c .consumed callee).bind fun v => rest.andThen (.give v.result)).run s =
      (.ok d, t)) :
    I.Explains o d := by
  intro name hname
  rw [hcallee] at hname
  cases callee with
  | name span text =>
      obtain rfl : text = some name := hname
      obtain ⟨v, middle, hone, htwo⟩ := run_bind hrun
      change ((lookOptional (some name)).recorded .nameRef span).run s = _ at hone
      obtain ⟨start, hlook, -⟩ := run_recorded hone
      cases hlook
      obtain ⟨w, last, -, hlast⟩ := run_bind htwo
      cases hlast
      exact ⟨k, _, hholds, rfl⟩
  | _ => cases hname

theorem traced_call {c : Catalogue} {use : Use} {callee : Expr} {rest : Action} (span : Span)
    (hcallee : Traced I region listed (ofExpr c .consumed callee))
    (hrest : Traced I region more rest) :
    Traced I region ({ (use.setting region).node .callExpr span with callee := callee.name? } ::
      (listed ++ more)) (site use .callExpr span
        ((ofExpr c .consumed callee).bind fun d => rest.andThen (.give d.result))) :=
  traced_site (o := { (use.setting region).node .callExpr span with callee := callee.name? })
    rfl rfl
    (traced_bind hcallee fun _ => traced_bind_silent hrest fun _ => traced_give _)
    (explains_call rfl)

theorem traced_functionExpr {around : Setting} {span : Span} {body : Action}
    (hkind : (kind.isFunction && kind.isExpression) = true)
    (h : Traced I (some ⟨fn.span, false⟩) listed body) :
    Traced I around.region (functionValueNodes around kind span fn ++ listed)
      ((Action.function fn.span fn.isAsync body).recorded kind span) := by
  obtain ⟨hfunction, hexpression⟩ := Bool.and_eq_true_iff.mp hkind
  unfold functionValueNodes
  by_cases hspan : fn.span = span
  · subst hspan
    rw [if_pos rfl]
    exact traced_functionValue (o := functionNode around kind fn.span fn) hfunction hexpression
      rfl h
  · rw [if_neg hspan]
    have hplain : kind.isSite = false ∧ kind ≠ .awaitExpr := by
      revert hfunction
      cases kind <;> simp [NodeKind.isFunction, NodeKind.isSite]
    have hwalked := traced_function (o := functionNode around kind fn.span fn) hfunction h
    refine (traced_recorded (o := functionNode around kind span fn) hexpression hplain.2 rfl ?_
      hwalked).mono (List.Perm.swap _ _ _).subperm
    intro hsite
    exact absurd (hplain.1.symm.trans hsite) Bool.false_ne_true

theorem traced_optional (merge : Descriptor → Descriptor → Descriptor)
    (h : Traced I region listed action) : Traced I region listed (.fork action nothing merge) := by
  simpa using traced_fork merge h traced_nothing

/-! ## Values that are taken apart -/

theorem Traced.congr {a b : Action} (h : Traced I region listed a) (hrun : ∀ s, a.run s = b.run s) :
    Traced I region listed b :=
  ⟨fun hholds hb => h.keeps hholds ((hrun _).trans hb),
    fun hholds hrecording hwithin hb => h.tells hholds hrecording hwithin ((hrun _).trans hb)⟩

theorem Traced.assoc {others : List Occurrence}
    (h : Traced I region (listed ++ (more ++ others)) action) :
    Traced I region (listed ++ more ++ others) action := by
  rwa [List.append_assoc]

theorem traced_refuseShape (d : Descriptor) (span : Span) :
    Traced I region [] (refuseShape d span) := by
  unfold refuseShape
  split
  · exact traced_refuse _ _
  · exact traced_nothing

/-- The nodes in a literal that a pattern takes apart. -/
def contentNodes (around : Setting) : Expr → List Occurrence
  | .array _ elements => exprNodesAll around elements
  | .object _ members => memberNodes around members
  | _ => []

theorem traced_contents (kind : NodeKind) (span : Span) (d : Descriptor)
    (hkind : (kind.isExpression && !kind.isSite && kind != .awaitExpr) = true)
    (h : Traced I region listed contents) :
    Traced I region ((Use.consumed.setting region).node kind span :: listed)
      (contents.bind fun found => (Action.record kind span d).andThen (.give found)) := by
  have hrecord : Traced I region [(Use.consumed.setting region).node kind span]
      (.record kind span d) :=
    (traced_plain .consumed kind span hkind (traced_give d)).congr fun _ => rfl
  exact (traced_bind h fun found => traced_bind_silent hrecord fun _ => traced_give found).mono
    (subperm_node _ _)

theorem traced_source (value : Expr) {whole : Action}
    (hwhole : Traced I region (exprNodes (Use.consumed.setting region) value) whole)
    (hcontents : Traced I region (contentNodes (Use.consumed.setting region) value) contents) :
    Traced I region (exprNodes (Use.consumed.setting region) value)
      (source value whole contents) := by
  cases value with
  | array span elements =>
      exact traced_contents .arrayExpr span .array rfl hcontents
  | object span members =>
      exact traced_contents .objectExpr span .object rfl hcontents
  | _ => exact hwhole

theorem traced_iterated (isOf : Bool) (head : Stmt) (iterable : Expr) {whole : Action}
    (hwhole : Traced I region (exprNodes (Use.consumed.setting region) iterable) whole)
    (hcontents : Traced I region (contentNodes (Use.consumed.setting region) iterable) contents) :
    Traced I region (exprNodes (Use.consumed.setting region) iterable)
      (iterated isOf head iterable whole contents) := by
  unfold iterated
  split
  · exact traced_bind_silent (traced_source _ hwhole hcontents) fun found =>
      traced_refuseShape found _
  · exact hwhole

theorem traced_destructured (value : Expr) {whole pattern : Action} (span : Span)
    (hwhole : Traced I region (exprNodes (Use.consumed.setting region) value) whole)
    (hcontents : Traced I region (contentNodes (Use.consumed.setting region) value) contents)
    (hpattern : Traced I region listed pattern) :
    Traced I region (exprNodes (Use.consumed.setting region) value ++ listed)
      (((source value whole contents).bind fun found => refuseShape found span).andThen pattern) :=
  traced_andThen (traced_bind_silent (traced_source value hwhole hcontents)
    fun found => traced_refuseShape found span) hpattern

/-! ## Targets -/

theorem traced_stepTarget {operand : Expr} (h : Allows I (targetNames operand)) :
    Traced I region [] (stepTarget operand) := by
  unfold stepTarget
  split
  · exact traced_assign .number (h _ (by simp [targetNames]))
  · exact traced_nothing

theorem traced_assignName {target : Expr} (d : Descriptor) (h : Allows I (targetNames target)) :
    Traced I region [] (assignName target d) := by
  unfold assignName
  split
  · exact traced_assign d (h _ (by simp [targetNames]))
  · exact traced_nothing

theorem traced_declareOptional (name : Option String) (d : Descriptor) : Allows I name.toList →
    Traced I region [] (match name with | some name => .declare name d | none => nothing) := by
  intro h
  cases name with
  | none => exact traced_nothing
  | some name => exact traced_declare d (h name (by simp))

/-! ## Functions -/

/-- The action is a walk of the function whose body leaves a trace. -/
def Walks (I : Invariant) (fn : Function) (action : Action) : Prop :=
  ∃ body, action = .function fn.span fn.isAsync body ∧
    Traced I (some ⟨fn.span, false⟩) (functionNodes fn) body

theorem Walks.keeps (h : Walks I fn action) :
    action.Keeps I ∧ ∀ s, (action.run s).2.frames = s.frames := by
  obtain ⟨body, rfl, hbody⟩ := h
  exact ⟨keeps_function hbody.keeps, frames_function _ _ _⟩

theorem Walks.traced (around : Setting) (kind : NodeKind) (hkind : kind.isFunction = true)
    (h : Walks I fn action) :
    Traced I around.region (functionNode around kind fn.span fn :: functionNodes fn) action := by
  obtain ⟨body, rfl, hbody⟩ := h
  exact traced_function (o := functionNode around kind fn.span fn) hkind hbody

theorem Walks.tracedValue (around : Setting) (span : Span)
    (hkind : (kind.isFunction && kind.isExpression) = true) (h : Walks I fn action) :
    Traced I around.region (functionValueNodes around kind span fn ++ functionNodes fn)
      (action.recorded kind span) := by
  obtain ⟨body, rfl, hbody⟩ := h
  exact traced_functionExpr hkind hbody

theorem walks_ofParts {parameters inner : Action} {names : List String} (hnames : Allows I names)
    (hparameters : Traced I (some ⟨fn.span, true⟩) listed parameters)
    (hinner : Traced I (some ⟨fn.span, false⟩) more inner)
    (hnodes : functionNodes fn = listed ++ more) :
    Walks I fn (.function fn.span fn.isAsync <| .scoped <|
      (declareAll names).andThen ((Action.parameters parameters).andThen inner)) := by
  refine ⟨_, rfl, ?_⟩
  have hrest := traced_andThen (traced_parameters hparameters) hinner
  have hbody : Traced I _ ([] ++ (listed ++ more)) _ :=
    traced_andThen (traced_declareAll hnames) hrest
  rw [hnodes]
  exact traced_scoped hbody

theorem traced_counted {init test update body : Action} {names : List String}
    {inits tests updates : List Occurrence} (hinit : Traced I region inits init)
    (htest : Traced I region tests test) (hupdate : Traced I region updates update)
    (hbody : Traced I region listed body) :
    Traced I region (inits ++ tests ++ updates ++ listed)
      (.scoped (init.andThen (.loop names ((test.andThen body).andThen update)))) := by
  refine (traced_scoped (traced_andThen hinit (traced_loop names
    (traced_andThen (traced_andThen htest hbody) hupdate)))).mono ?_
  simp only [List.append_assoc]
  exact ((List.perm_append_comm.append_left _).append_left _).subperm

/-! ## Scripts -/

mutual

theorem traced_ofExpr (c : Catalogue) (use : Use) (region : Option Region) (expr : Expr)
    (h : Allows I (exprWrites expr)) :
    Traced I region (exprNodes (use.setting region) expr) (ofExpr c use expr) := by
  match expr with
  | .hole => exact traced_nothing
  | .literal span kind text => exact traced_plain use .literal span rfl (traced_give _)
  | .template span parts =>
      have hparts := traced_ofExprs c region parts h
      exact traced_plain use .template span rfl (traced_bind_silent hparts fun _ => traced_give _)
  | .tagged span tag parts =>
      obtain ⟨htag, hparts⟩ := allows_append.mp h
      exact traced_access span rfl (traced_bind (traced_ofExpr c .consumed region tag htag)
        fun d => traced_bind_silent (traced_ofExprs c region parts hparts) fun _ =>
          traced_give d.result)
  | .name span name => exact traced_plain use .nameRef span rfl (traced_lookOptional name)
  | .thisValue span => exact traced_plain use .thisExpr span rfl traced_nothing
  | .array span elements =>
      have helements := traced_ofElements c region elements h
      exact traced_plain use .arrayExpr span rfl
        (traced_bind_silent helements fun _ => traced_give _)
  | .object span members =>
      have hmembers := traced_ofMembers c region members h
      exact traced_plain use .objectExpr span rfl
        (traced_bind_silent hmembers fun _ => traced_give _)
  | .spread span inner =>
      have hinner := traced_ofExpr c .consumed region inner h
      exact traced_plain use .spreadElement span rfl
        (traced_bind_silent hinner fun _ => traced_nothing)
  | .function span name fn =>
      obtain ⟨hname, hfn⟩ := allows_append.mp h
      exact (walks_ofFunction c name fn hname hfn).tracedValue (use.setting region) span rfl
  | .arrow span fn =>
      exact (walks_ofFunction c none fn allows_none h).tracedValue
        (use.setting region) span rfl
  | .paren span inner =>
      exact traced_plain use .parenExpr span rfl (traced_ofExpr c use region inner h)
  | .member span object name optional =>
      exact traced_access span rfl (traced_map _ (traced_ofExpr c .consumed region object h))
  | .index span object key =>
      obtain ⟨hobject, hkey⟩ := allows_append.mp h
      exact traced_access span rfl (traced_bind (traced_ofExpr c .consumed region object hobject)
        fun base => traced_bind_silent (traced_ofExpr c .consumed region key hkey) fun _ =>
          traced_give _)
  | .call span callee arguments =>
      obtain ⟨hcallee, harguments⟩ := allows_append.mp h
      exact traced_call span (traced_ofExpr c .consumed region callee hcallee)
        (traced_ofExprs c region arguments harguments)
  | .construct span callee hasList arguments =>
      obtain ⟨hcallee, harguments⟩ := allows_append.mp h
      exact traced_access span rfl (traced_bind_silent (traced_andThen
        (traced_ofExpr c .consumed region callee hcallee)
        (traced_ofExprs c region arguments harguments)) fun _ => traced_nothing)
  | .unary span operator operand =>
      obtain ⟨htarget, hoperand⟩ := allows_append.mp h
      have hstepped : Traced I region []
          (if isStepOperator operator.kind then stepTarget operand else nothing) := by
        split
        next hstep =>
          rw [if_pos hstep] at htarget
          exact traced_stepTarget htarget
        next => exact traced_nothing
      exact traced_plain use .prefixExpr span rfl (traced_bind_silent (traced_bind_silent
        (traced_ofExpr c .consumed region operand hoperand) fun _ => hstepped)
          fun _ => traced_give _)
  | .await span operand =>
      exact traced_await (o := (use.setting region).node .awaitExpr span) rfl rfl Descriptor.awaited
        (traced_ofExpr c .awaited region operand h)
  | .update span operator operand =>
      obtain ⟨htarget, hoperand⟩ := allows_append.mp h
      exact traced_plain use .postfixExpr span rfl (traced_bind_silent (traced_bind_silent
        (traced_ofExpr c .consumed region operand hoperand) fun _ => traced_stepTarget htarget)
        fun _ => traced_give _)
  | .binary span operator left right =>
      obtain ⟨hleft, hright⟩ := allows_append.mp h
      have hvalue := traced_ofExpr c .consumed region right hright
      refine traced_plain use .binaryExpr span rfl
        (traced_bind (traced_ofExpr c .consumed region left hleft) fun l => ?_)
      split
      · exact traced_optional _ hvalue
      · exact traced_map _ hvalue
  | .assign span operator target value =>
      obtain ⟨htargets, hvalue⟩ := allows_append.mp h
      obtain ⟨hnames, hwritten⟩ := allows_append.mp htargets
      have hwhole := traced_ofExpr c .consumed region value hvalue
      have hcontents := traced_ofContents c region value hvalue
      have hbase := traced_ofBase c region target hwritten
      have htarget := traced_ofTarget c region target hnames hwritten
      cases target with
      | hole => exact traced_plain use .assignExpr span rfl (traced_nothing.mono List.nil_subperm)
      | array targetSpan elements | object targetSpan elements =>
          exact traced_plain use .assignExpr span rfl ((traced_destructured value targetSpan hwhole
            hcontents (traced_bind_silent htarget fun _ => traced_nothing)).mono
              List.perm_append_comm.subperm)
      | _ =>
          exact traced_plain use .assignExpr span rfl (traced_andThen hbase (traced_bind_silent
            (traced_map _ hwhole) fun d => traced_bind_silent (traced_assignName d hnames)
              fun _ => traced_give d))
  | .cond span test consequent alternate =>
      obtain ⟨htests, halternate⟩ := allows_append.mp h
      obtain ⟨htest, hconsequent⟩ := allows_append.mp htests
      have hbranches := traced_fork Descriptor.common
        (traced_ofExpr c .consumed region consequent hconsequent)
        (traced_ofExpr c .consumed region alternate halternate)
      exact traced_plain use .condExpr span rfl
        (traced_andThen (traced_ofExpr c .consumed region test htest) hbranches).assoc
  | .sequence span parts =>
      exact traced_plain use .sequenceExpr span rfl (traced_ofExprs c region parts h)

theorem traced_ofExprs (c : Catalogue) (region : Option Region) (exprs : List Expr)
    (h : Allows I (exprWritesAll exprs)) :
    Traced I region (exprNodesAll (Use.consumed.setting region) exprs) (ofExprs c exprs) := by
  match exprs with
  | [] => exact traced_nothing
  | [expr] =>
      have hexpr := traced_ofExpr c .consumed region expr (allows_append.mp h).1
      exact hexpr.mono (List.sublist_append_left _ _).subperm
  | expr :: next :: more =>
      obtain ⟨hexpr, hmore⟩ := allows_append.mp h
      exact traced_andThen (traced_ofExpr c .consumed region expr hexpr)
        (traced_ofExprs c region (next :: more) hmore)

theorem traced_ofElements (c : Catalogue) (region : Option Region) (elements : List Expr)
    (h : Allows I (exprWritesAll elements)) :
    Traced I region (exprNodesAll (Use.consumed.setting region) elements)
      (ofElements c elements) := by
  match elements with
  | [] => exact traced_nothing
  | expr :: more =>
      obtain ⟨hexpr, hmore⟩ := allows_append.mp h
      have hfirst := traced_ofExpr c .consumed region expr hexpr
      have hrest := traced_ofElements c region more hmore
      cases expr with
      | spread span inner => exact traced_andThen hfirst hrest
      | _ => exact traced_bind hfirst fun d => traced_map (firstShape d) hrest

theorem traced_ofMembers (c : Catalogue) (region : Option Region) (members : List ObjectMember)
    (h : Allows I (memberWrites members)) :
    Traced I region (memberNodes (Use.consumed.setting region) members) (ofMembers c members) := by
  match members with
  | [] => exact traced_nothing
  | .property key value :: more =>
      obtain ⟨hboth, hmore⟩ := allows_append.mp h
      obtain ⟨hkey, hvalue⟩ := allows_append.mp hboth
      exact (traced_andThen (traced_ofKey c region key hkey)
        (traced_bind (traced_ofExpr c .consumed region value hvalue) fun d =>
          traced_map (firstShape d) (traced_ofMembers c region more hmore))).assoc
  | .method key fn :: more =>
      obtain ⟨hboth, hmore⟩ := allows_append.mp h
      obtain ⟨hkey, hfn⟩ := allows_append.mp hboth
      have hfunction := (walks_ofFunction c none fn allows_none hfn).traced
        (Use.consumed.setting region) .method rfl
      have hwalked := traced_andThen (traced_ofKey c region key hkey)
        (traced_andThen hfunction (traced_ofMembers c region more hmore))
      exact hwalked.assoc.mono (List.perm_middle.append_right _).subperm
  | .spread inner :: more =>
      obtain ⟨hinner, hmore⟩ := allows_append.mp h
      exact traced_andThen (traced_ofExpr c .consumed region inner hinner)
        (traced_ofMembers c region more hmore)

theorem traced_ofKey (c : Catalogue) (region : Option Region) (key : Key)
    (h : Allows I (keyWrites key)) :
    Traced I region (keyNodes (Use.consumed.setting region) key) (ofKey c key) := by
  match key with
  | .hole | .name .. => exact traced_nothing
  | .computed span inner => exact traced_ofExpr c .consumed region inner h

theorem traced_ofContents (c : Catalogue) (region : Option Region) (value : Expr)
    (h : Allows I (exprWrites value)) :
    Traced I region (contentNodes (Use.consumed.setting region) value) (ofContents c value) := by
  cases value with
  | array span elements => exact traced_ofElements c region elements h
  | object span members => exact traced_ofMembers c region members h
  | _ => exact traced_nothing

theorem traced_ofBase (c : Catalogue) (region : Option Region) (target : Expr)
    (h : Allows I (exprWrites target)) :
    Traced I region (exprNodes (Use.consumed.setting region) target) (ofBase c target) := by
  cases target with
  | member span object name optional =>
      exact (traced_andThen (traced_ofExpr c .consumed region object h)
        (traced_targetAccess span rfl traced_nothing)).mono (subperm_node _ _)
  | index span object key =>
      obtain ⟨hobject, hkey⟩ := allows_append.mp h
      exact (traced_andThen (traced_andThen (traced_ofExpr c .consumed region object hobject)
        (traced_ofExpr c .consumed region key hkey))
        (traced_targetAccess span rfl traced_nothing)).mono (subperm_node _ _)
  | name span name => exact traced_plain .consumed .nameRef span rfl (traced_lookOptional name)
  | paren span inner => exact (traced_ofBase c region inner h).mono List.Subperm.cons_self
  | _ => exact traced_nothing.mono List.nil_subperm

theorem traced_ofTarget (c : Catalogue) (region : Option Region) (target : Expr)
    (hnames : Allows I (targetNames target)) (h : Allows I (exprWrites target)) :
    Traced I region (exprNodes (Use.consumed.setting region) target) (ofTarget c target) := by
  cases target with
  | name span name =>
      cases name with
      | some name =>
          exact (traced_assign .unknown (hnames name (by simp [targetNames]))).mono List.nil_subperm
      | none => exact traced_nothing.mono List.nil_subperm
  | paren span inner =>
      exact (traced_ofTarget c region inner hnames h).mono List.Subperm.cons_self
  | member span object name optional =>
      exact (traced_andThen (traced_ofExpr c .consumed region object h)
        (traced_targetAccess span rfl traced_nothing)).mono (subperm_node _ _)
  | index span object key =>
      obtain ⟨hobject, hkey⟩ := allows_append.mp h
      exact (traced_andThen (traced_andThen (traced_ofExpr c .consumed region object hobject)
        (traced_ofExpr c .consumed region key hkey))
        (traced_targetAccess span rfl traced_nothing)).mono (subperm_node _ _)
  | array span elements =>
      exact (traced_ofTargets c region elements hnames h).mono List.Subperm.cons_self
  | object span members =>
      exact (traced_ofTargetMembers c region members hnames h).mono List.Subperm.cons_self
  | spread span inner =>
      exact (traced_ofTarget c region inner hnames h).mono List.Subperm.cons_self
  | assign span operator inner value =>
      obtain ⟨hboth, hvalue⟩ := allows_append.mp h
      exact (traced_andThen (traced_ofExpr c .consumed region value hvalue)
        (traced_ofTarget c region inner hnames (allows_append.mp hboth).2)).mono
          (List.perm_append_comm.subperm.trans List.Subperm.cons_self)
  | _ => exact traced_nothing.mono List.nil_subperm

theorem traced_ofTargets (c : Catalogue) (region : Option Region) (targets : List Expr)
    (hnames : Allows I (targetNamesAll targets)) (h : Allows I (exprWritesAll targets)) :
    Traced I region (exprNodesAll (Use.consumed.setting region) targets) (ofTargets c targets) := by
  match targets with
  | [] => exact traced_nothing
  | target :: more =>
      obtain ⟨hfirst, hothers⟩ := allows_append.mp hnames
      obtain ⟨htarget, hmore⟩ := allows_append.mp h
      exact traced_andThen (traced_ofTarget c region target hfirst htarget)
        (traced_ofTargets c region more hothers hmore)

theorem traced_ofTargetMembers (c : Catalogue) (region : Option Region)
    (members : List ObjectMember)
    (hnames : Allows I (memberTargetNames members)) (h : Allows I (memberWrites members)) :
    Traced I region (memberNodes (Use.consumed.setting region) members)
      (ofTargetMembers c members) := by
  match members with
  | [] => exact traced_nothing
  | .property key value :: more =>
      obtain ⟨hfirst, hothers⟩ := allows_append.mp hnames
      obtain ⟨hboth, hmore⟩ := allows_append.mp h
      obtain ⟨hkey, hvalue⟩ := allows_append.mp hboth
      have hboth := traced_andThen (traced_ofTarget c region value hfirst hvalue)
        (traced_ofTargetMembers c region more hothers hmore)
      exact (traced_andThen (traced_ofKey c region key hkey) hboth).assoc
  | .method key fn :: more =>
      have hmore := traced_ofTargetMembers c region more hnames (allows_append.mp h).2
      exact hmore.mono ((List.sublist_append_right _ _).cons _).subperm
  | .spread inner :: more =>
      obtain ⟨hfirst, hothers⟩ := allows_append.mp hnames
      obtain ⟨hinner, hmore⟩ := allows_append.mp h
      exact traced_andThen (traced_ofTarget c region inner hfirst hinner)
        (traced_ofTargetMembers c region more hothers hmore)

theorem walks_ofFunction (c : Catalogue) (self : Option String) (fn : Function)
    (hself : Allows I self.toList) (h : Allows I (functionWrites fn)) :
    Walks I fn (ofFunction c self fn) := by
  obtain ⟨span, isAsync, params, body⟩ := fn
  cases body with
  | block blockSpan stmts =>
      obtain ⟨hparameters, hstmts⟩ := allows_append.mp h
      have hhoist : Traced I (some ⟨span, false⟩) [] (.hoist (ofDeclared c stmts .done)) :=
        traced_hoist (kept_ofDeclared c stmts .done hstmts trivial)
      exact walks_ofParts hself (traced_ofParameters c _ params hparameters)
        (traced_andThen hhoist (traced_bind_silent (traced_ofStmts c _ stmts hstmts)
          fun _ => traced_returned)) rfl
  | expr valueSpan value terminated =>
      obtain ⟨hparameters, hvalue⟩ := allows_append.mp h
      exact walks_ofParts hself (traced_ofParameters c _ params hparameters)
        (traced_ofExpr c .consumed _ value hvalue) rfl
  | _ =>
      obtain ⟨hparameters, -⟩ := allows_append.mp h
      exact walks_ofParts hself (traced_ofParameters c _ params hparameters)
        (traced_returned.mono List.nil_subperm) rfl

theorem traced_ofParameters (c : Catalogue) (region : Option Region) (params : List Binding)
    (h : Allows I (bindingWrites params)) :
    Traced I region (bindingNodes (Use.consumed.setting region) params)
      (ofParameters c params) := by
  match params with
  | [] => exact traced_nothing
  | .mk isRest pattern value :: more =>
      obtain ⟨hfirst, hmore⟩ := allows_append.mp h
      obtain ⟨hboth, hvalue⟩ := allows_append.mp hfirst
      obtain ⟨hnames, hpattern⟩ := allows_append.mp hboth
      have hbound := traced_bind_silent (traced_ofPattern c region pattern hpattern)
        fun _ => traced_declareAll hnames
      refine (traced_andThen (traced_ofExpr c .consumed region value hvalue)
        (traced_andThen hbound (traced_ofParameters c region more hmore))).mono ?_
      rw [← List.append_assoc]
      exact (List.perm_append_comm.append_right _).subperm

theorem traced_ofDeclarators (c : Catalogue) (region : Option Region) (declarators : List Binding)
    (h : Allows I (bindingWrites declarators)) :
    Traced I region (bindingNodes (Use.consumed.setting region) declarators)
      (ofDeclarators c declarators) := by
  match declarators with
  | [] => exact traced_nothing
  | .mk isRest pattern value :: more =>
      obtain ⟨hfirst, hmore⟩ := allows_append.mp h
      obtain ⟨hboth, hvalue⟩ := allows_append.mp hfirst
      obtain ⟨hnames, hwritten⟩ := allows_append.mp hboth
      have hwhole := traced_ofExpr c .consumed region value hvalue
      have hcontents := traced_ofContents c region value hvalue
      have hpattern := traced_ofPattern c region pattern hwritten
      have hbound := traced_bind_silent hpattern fun _ => traced_declareAll hnames
      have hrest := traced_ofDeclarators c region more hmore
      cases pattern with
      | hole => exact traced_andThen (traced_nothing.mono List.nil_subperm) hrest
      | name span name =>
          exact traced_andThen (traced_bind_silent hwhole fun d =>
            traced_declareOptional name d hnames)
            hrest
      | _ =>
          exact traced_andThen ((traced_destructured value _ hwhole hcontents hbound).mono
            List.perm_append_comm.subperm) hrest

theorem traced_ofHead (c : Catalogue) (region : Option Region) (declarators : List Binding)
    (h : Allows I (bindingWrites declarators)) :
    Traced I region (bindingNodes (Use.consumed.setting region) declarators)
      (ofHead c declarators) := by
  match declarators with
  | [] => exact traced_nothing
  | .mk isRest pattern value :: more =>
      obtain ⟨hfirst, hmore⟩ := allows_append.mp h
      obtain ⟨hnames, hpattern⟩ := allows_append.mp (allows_append.mp hfirst).1
      have hbound := traced_bind_silent (traced_ofPattern c region pattern hpattern)
        fun _ => traced_declareAll hnames
      exact traced_andThen (hbound.mono (List.sublist_append_left _ _).subperm)
        (traced_ofHead c region more hmore)

theorem traced_ofPattern (c : Catalogue) (region : Option Region) (pattern : Pattern)
    (h : Allows I (patternWrites pattern)) :
    Traced I region (patternNodes (Use.consumed.setting region) pattern) (ofPattern c pattern) := by
  match pattern with
  | .hole | .name .. => exact traced_nothing
  | .withDefault span inner value =>
      obtain ⟨hinner, hvalue⟩ := allows_append.mp h
      exact traced_andThen (traced_ofPattern c region inner hinner)
        (traced_ofExpr c .consumed region value hvalue)
  | .rest span inner => exact traced_ofPattern c region inner h
  | .array span elements => exact traced_ofPatterns c region elements h
  | .object span entries => exact traced_ofEntries c region entries h

theorem traced_ofPatterns (c : Catalogue) (region : Option Region) (patterns : List Pattern)
    (h : Allows I (patternWritesAll patterns)) :
    Traced I region (patternNodesAll (Use.consumed.setting region) patterns)
      (ofPatterns c patterns) := by
  match patterns with
  | [] => exact traced_nothing
  | pattern :: more =>
      obtain ⟨hpattern, hmore⟩ := allows_append.mp h
      exact traced_andThen (traced_ofPattern c region pattern hpattern)
        (traced_ofPatterns c region more hmore)

theorem traced_ofEntries (c : Catalogue) (region : Option Region) (entries : List Entry)
    (h : Allows I (entryWrites entries)) :
    Traced I region (entryNodes (Use.consumed.setting region) entries) (ofEntries c entries) := by
  match entries with
  | [] => exact traced_nothing
  | .property key pattern :: more =>
      obtain ⟨hboth, hmore⟩ := allows_append.mp h
      obtain ⟨hkey, hpattern⟩ := allows_append.mp hboth
      have hboth := traced_andThen (traced_ofPattern c region pattern hpattern)
        (traced_ofEntries c region more hmore)
      exact (traced_andThen (traced_ofKey c region key hkey) hboth).assoc
  | .rest pattern :: more =>
      obtain ⟨hpattern, hmore⟩ := allows_append.mp h
      exact traced_andThen (traced_ofPattern c region pattern hpattern)
        (traced_ofEntries c region more hmore)

theorem traced_ofLoopHead (c : Catalogue) (region : Option Region) (head : Stmt) :
    Allows I (headNames head) → Allows I (stmtWrites head) →
    Traced I region (stmtNodes (Use.consumed.setting region) head)
      (match head with
        | .var _ _ declarators => ofHead c declarators
        | .expr _ target _ => ofTarget c target
        | _ => nothing) := by
  intro hnames h
  cases head with
  | var span kind declarators => exact traced_ofHead c region declarators h
  | expr span target terminated => exact traced_ofTarget c region target hnames h
  | _ => exact traced_nothing.mono List.nil_subperm

theorem traced_ofStmt (c : Catalogue) (region : Option Region) (stmt : Stmt)
    (h : Allows I (stmtWrites stmt)) :
    Traced I region (stmtNodes (Use.consumed.setting region) stmt) (ofStmt c stmt) := by
  match stmt with
  | .hole | .empty .. | .breakOut .. | .continueOn .. => exact traced_nothing
  | .var span kind declarators => exact traced_ofDeclarators c region declarators h
  | .function span name fn =>
      obtain ⟨hname, hfn⟩ := allows_append.mp h
      have hwalk := walks_ofFunction c none fn allows_none hfn
      exact traced_bind_silent (hwalk.traced (Use.consumed.setting region) .functionDecl rfl)
        fun d => traced_declareOptional name d hname
  | .block span body =>
      have hhoist : Traced I region [] (.hoist (ofDeclared c body .done)) :=
        traced_hoist (kept_ofDeclared c body .done h trivial)
      exact traced_scoped (traced_andThen hhoist (traced_ofStmts c region body h))
  | .expr span value terminated => exact traced_ofExpr c .consumed region value h
  | .ret span value =>
      have hvalue := traced_ofExpr c .consumed region value h
      change Traced I region _ (if value.isHole then nothing else _)
      split
      · exact traced_nothing.mono List.nil_subperm
      · exact traced_bind_silent hvalue fun d => traced_returning d
  | .throw span value => exact traced_ofExpr c .consumed region value h
  | .cond span test consequent alternate =>
      obtain ⟨hboth, halternate⟩ := allows_append.mp h
      obtain ⟨htest, hconsequent⟩ := allows_append.mp hboth
      have hbranches := traced_fork (fun _ _ => .unknown)
        (traced_ofStmt c region consequent hconsequent)
        (traced_ofStmt c region alternate halternate)
      exact (traced_andThen (traced_ofExpr c .consumed region test htest) hbranches).assoc
  | .while span test body =>
      obtain ⟨htest, hbody⟩ := allows_append.mp h
      exact traced_loop _ (traced_andThen (traced_ofExpr c .consumed region test htest)
        (traced_ofStmt c region body hbody))
  | .doWhile span body test =>
      obtain ⟨hbody, htest⟩ := allows_append.mp h
      exact traced_loop _ (traced_andThen (traced_ofStmt c region body hbody)
        (traced_ofExpr c .consumed region test htest))
  | .loop span init test update body =>
      obtain ⟨hthree, hbody⟩ := allows_append.mp h
      obtain ⟨htwo, hupdate⟩ := allows_append.mp hthree
      obtain ⟨hinit, htest⟩ := allows_append.mp htwo
      exact traced_counted (traced_ofStmt c region init hinit)
        (traced_ofExpr c .consumed region test htest)
        (traced_ofExpr c .consumed region update hupdate) (traced_ofStmt c region body hbody)
  | .each span isOf head iterable body =>
      obtain ⟨hthree, hbody⟩ := allows_append.mp h
      obtain ⟨htwo, hiterable⟩ := allows_append.mp hthree
      obtain ⟨hnames, hhead⟩ := allows_append.mp htwo
      have hassigned := traced_ofLoopHead c region head hnames hhead
      have hsource := traced_iterated isOf head iterable
        (traced_ofExpr c .consumed region iterable hiterable)
        (traced_ofContents c region iterable hiterable)
      have hloop := traced_loop (Script.stmtNames head ++ Script.stmtNames body)
        (traced_andThen hassigned (traced_ofStmt c region body hbody))
      have hperm : (exprNodes (Use.consumed.setting region) iterable ++
          (stmtNodes (Use.consumed.setting region) head ++
            stmtNodes (Use.consumed.setting region) body)).Subperm
          (stmtNodes (Use.consumed.setting region) (.each span isOf head iterable body)) := by
        rw [← List.append_assoc]
        exact (List.perm_append_comm.append_right _).subperm
      cases head <;> exact (traced_scoped (traced_andThen hsource hloop)).mono hperm
  | .guarded span body handler cleanup =>
      obtain ⟨hboth, hcleanup⟩ := allows_append.mp h
      obtain ⟨hbody, hhandler⟩ := allows_append.mp hboth
      exact traced_andThen (traced_fork _ (traced_ofStmt c region body hbody)
        (traced_ofHandler c region handler hhandler)) (traced_ofStmt c region cleanup hcleanup)
  | .switch span value cases =>
      obtain ⟨hvalue, hcases⟩ := allows_append.mp h
      have hhoist : Traced I region [] (.hoist (ofDeclaredCases c cases)) :=
        traced_hoist (kept_ofDeclaredCases c cases hcases)
      exact traced_andThen (traced_ofExpr c .consumed region value hvalue)
        (traced_scoped (traced_andThen hhoist
          (traced_choose _ (tracedArms_ofCases c region cases hcases))))

theorem traced_ofStmts (c : Catalogue) (region : Option Region) (stmts : List Stmt)
    (h : Allows I (stmtWritesAll stmts)) :
    Traced I region (stmtNodesAll (Use.consumed.setting region) stmts) (ofStmts c stmts) := by
  match stmts with
  | [] => exact traced_nothing
  | stmt :: more =>
      obtain ⟨hstmt, hmore⟩ := allows_append.mp h
      exact traced_andThen (traced_ofStmt c region stmt hstmt) (traced_ofStmts c region more hmore)

theorem kept_ofDeclared (c : Catalogue) (stmts : List Stmt) (others : Declarations)
    (h : Allows I (stmtWritesAll stmts)) (hothers : others.Kept I) :
    (ofDeclared c stmts others).Kept I := by
  match stmts with
  | [] => exact hothers
  | .function span (some name) fn :: more =>
      obtain ⟨hstmt, hmore⟩ := allows_append.mp h
      obtain ⟨hname, hfn⟩ := allows_append.mp hstmt
      have hwalk := walks_ofFunction c none fn allows_none hfn
      exact ⟨hname name (by simp), hwalk.keeps.1, hwalk.keeps.2,
        kept_ofDeclared c more others hmore hothers⟩
  | .function span none fn :: more | .hole :: more | .var .. :: more | .block .. :: more
  | .expr .. :: more | .empty .. :: more | .breakOut .. :: more | .continueOn .. :: more
  | .ret .. :: more | .throw .. :: more | .cond .. :: more | .while .. :: more
  | .doWhile .. :: more | .loop .. :: more | .each .. :: more | .guarded .. :: more
  | .switch .. :: more => exact kept_ofDeclared c more others (allows_append.mp h).2 hothers

theorem traced_ofHandler (c : Catalogue) (region : Option Region) (handler : Handler)
    (h : Allows I (handlerWrites handler)) :
    Traced I region (handlerNodes (Use.consumed.setting region) handler) (ofHandler c handler) := by
  match handler with
  | .hole => exact traced_nothing
  | .clause parameter body =>
      obtain ⟨hboth, hbody⟩ := allows_append.mp h
      obtain ⟨hnames, hparameter⟩ := allows_append.mp hboth
      have hbound := traced_bind_silent (traced_ofPattern c region parameter hparameter)
        fun _ => traced_declareAll hnames
      have hhoist : Traced I region [] (.hoist (ofDeclared c body .done)) :=
        traced_hoist (kept_ofDeclared c body .done hbody trivial)
      exact traced_scoped (traced_andThen hbound
        (traced_andThen hhoist (traced_ofStmts c region body hbody)))

theorem tracedArms_ofCases (c : Catalogue) (region : Option Region) (cases : List Case)
    (h : Allows I (caseWrites cases)) :
    TracedArms I region (caseNodes (Use.consumed.setting region) cases) (ofCases c cases) := by
  match cases with
  | [] => exact tracedArms_done
  | .mk isDefault test body :: more =>
      obtain ⟨hboth, hmore⟩ := allows_append.mp h
      obtain ⟨htest, hbody⟩ := allows_append.mp hboth
      exact traced_arm (traced_ofExpr c .consumed region test htest)
        (traced_ofStmts c region body hbody) (tracedArms_ofCases c region more hmore)

theorem kept_ofDeclaredCases (c : Catalogue) (cases : List Case) (h : Allows I (caseWrites cases)) :
    (ofDeclaredCases c cases).Kept I := by
  match cases with
  | [] => exact trivial
  | .mk isDefault test body :: more =>
      obtain ⟨hboth, hmore⟩ := allows_append.mp h
      exact kept_ofDeclared c body _ (allows_append.mp hboth).2 (kept_ofDeclaredCases c more hmore)

end

theorem traced_ofScript (c : Catalogue) {stmts : List Stmt} (h : Allows I (stmtWritesAll stmts)) :
    Traced I none (stmtNodesAll {} stmts) (ofScript c stmts) :=
  traced_andThen (traced_hoist (kept_ofDeclared c stmts .done h trivial))
    (traced_ofStmts c none stmts h)

end ShellAwait.Analysis
