import ShellAwait.Proofs.Analysis.Regimes
import ShellAwait.Proofs.Script.Nodes

/-! # Scripts keep to a regime

The walk of every expression, pattern and statement is sound, in parameter lists and elsewhere,
provided that the regime lets anything be awaited if the script has an `await`.
-/

namespace ShellAwait.Analysis

open Analysis.Action Script

variable {c : Catalogue} {R : Regime c} {m : Bool} {use : Use} {d : Descriptor}

/-- The nodes await nothing, unless something may be awaited. -/
def Regime.Admits (R : Regime c) (nodes : List Occurrence) : Prop :=
  ∀ o ∈ nodes, o.kind = .awaitExpr → R.Waits

theorem Regime.Admits.append {a b : List Occurrence} (h : R.Admits (a ++ b)) :
    R.Admits a ∧ R.Admits b := List.forall_mem_append.mp h

theorem Regime.Admits.tail {o : Occurrence} {nodes : List Occurrence} (h : R.Admits (o :: nodes)) :
    R.Admits nodes := (List.forall_mem_cons.mp h).2

/-! ## Parts of expressions -/

/-- What an expression yields to its use. -/
def Regime.Used (R : Regime c) (m : Bool) : Use → Descriptor → Prop
  | .consumed => R.Value m
  | .awaited => R.Raw

theorem Regime.Used.raw (h : R.Used m use d) : R.Raw d := by
  cases use with
  | consumed => exact Regime.Value.raw h
  | awaited => exact h

theorem Regime.Used.of_value (h : R.Value m d) : R.Used m use d := by
  cases use with
  | consumed => exact h
  | awaited => exact h.raw

theorem Regime.settled_awaited (h : R.Raw d) : R.Settled d.awaited := by
  cases d with
  | deferred inner => exact (R.inner h).1
  | unknown | plain | callable | shape => exact R.settled h rfl

/-- Nothing is known of the value, or it is plain. -/
def isSimple : Descriptor → Bool
  | .unknown | .plain _ => true
  | .deferred _ | .callable _ | .shape _ => false

theorem Regime.settled_of_isSimple (h : isSimple d = true) : R.Settled d := by
  cases d with
  | unknown => exact R.unknown
  | plain name => exact R.plain name
  | deferred | callable | shape => cases h

theorem isSimple_literal (kind : Option LiteralKind) :
    isSimple (literalDescriptor kind) = true := by
  unfold literalDescriptor
  split <;> rfl

theorem isSimple_unary (operator : TokenKind) : isSimple (unaryDescriptor operator) = true := by
  unfold unaryDescriptor
  split <;> rfl

theorem isSimple_binary (operator : TokenKind) (left right : Descriptor) :
    isSimple (binaryDescriptor operator left right) = true := by
  unfold binaryDescriptor
  repeat' split
  all_goals rfl

theorem Regime.Value.assigned (h : R.Value m d) (operator : TokenKind) :
    R.Value m (assignedDescriptor operator d) := by
  unfold assignedDescriptor
  split
  · exact h
  · exact value_unknown

theorem Regime.Value.firstShape {a b : Descriptor} (ha : R.Value m a) (hb : R.Value m b) :
    R.Value m (Action.firstShape a b) := by
  unfold Action.firstShape
  split
  · exact ha
  · exact hb

theorem sound_recordedUse {a : Action} (h : Sound R m (R.Value m) a) (kind : NodeKind)
    (span : Text.Span) : Sound R m (R.Used m use) (a.recorded kind span) :=
  (sound_recorded h (fun _ => Regime.Value.raw) kind span).mono fun _ => .of_value

theorem sound_recordedValue {a : Action} (h : Sound R m (R.Value m) a) (kind : NodeKind)
    (span : Text.Span) : Sound R m (R.Value m) (a.recorded kind span) :=
  sound_recorded h (fun _ => Regime.Value.raw) kind span

theorem sound_site {a : Action} (h : Sound R m R.Raw a) (kind : NodeKind) (span : Text.Span) :
    Sound R m (R.Used m use) (Action.site use kind span a) := by
  have hrecorded := sound_recorded h (fun _ hd => hd) kind span
  cases use with
  | awaited => exact hrecorded
  | consumed =>
      refine sound_bind hrecorded fun d hd => ?_
      cases d with
      | deferred inner => exact sound_suspend hd span
      | unknown | plain | callable | shape => exact sound_give (.of_settled (R.settled hd rfl))

theorem sound_lookOptional (name : Option String) :
    Sound R m (R.Value m) (Action.lookOptional name) := by
  cases name with
  | none => exact sound_nothing
  | some name => exact sound_look name

theorem sound_stepTarget (operand : Expr) : Sound R m (R.Value m) (Action.stepTarget operand) := by
  unfold Action.stepTarget
  split
  · exact sound_assign (.of_settled (R.plain _)) _
  · exact sound_nothing

theorem sound_assignName (target : Expr) (hd : R.Value m d) :
    Sound R m (R.Value m) (Action.assignName target d) := by
  unfold Action.assignName
  split
  · exact sound_assign hd _
  · exact sound_nothing

theorem sound_declareAll (names : List String) :
    Sound R m (R.Value m) (Action.declareAll names) := by
  induction names with
  | nil => exact sound_nothing
  | cons name more ih => exact sound_andThen (sound_declare R.unknown name) ih

theorem sound_refuseShape (d : Descriptor) (span : Text.Span) :
    Sound R m (R.Value m) (Action.refuseShape d span) := by
  unfold Action.refuseShape
  split
  · exact sound_refuse _ _
  · exact sound_nothing

theorem sound_source (value : Expr) {whole contents : Action}
    (hwhole : Sound R m (R.Value m) whole) (hcontents : Sound R m (R.Value m) contents) :
    Sound R m (R.Value m) (Action.source value whole contents) := by
  have hliteral (kind : NodeKind) (span : Text.Span) (name : Option String) :
      Sound R m (R.Value m) (contents.bind fun found =>
        (Action.record kind span (.plain name)).andThen (.give found)) :=
    sound_bind hcontents fun found hfound =>
      sound_andThen (sound_record (V := R.Raw) (R.raw (R.plain name)) (R.raw (R.plain name)) kind
        span) (sound_give hfound)
  unfold Action.source
  split
  · exact hliteral _ _ _
  · exact hliteral _ _ _
  · exact hwhole

theorem sound_destructured (value : Expr) (span : Text.Span) {whole contents pattern : Action}
    (hwhole : Sound R m (R.Value m) whole) (hcontents : Sound R m (R.Value m) contents)
    (hpattern : Sound R m (R.Value m) pattern) :
    Sound R m (R.Value m) (((Action.source value whole contents).bind fun found =>
      Action.refuseShape found span).andThen pattern) :=
  sound_andThen (sound_bind (sound_source value hwhole hcontents) fun found _ =>
    sound_refuseShape found span) hpattern

theorem sound_iterated (isOf : Bool) (head : Stmt) (iterable : Expr) {whole contents : Action}
    (hwhole : Sound R m (R.Value m) whole) (hcontents : Sound R m (R.Value m) contents) :
    Sound R m (R.Value m) (Action.iterated isOf head iterable whole contents) := by
  unfold Action.iterated
  split
  · exact sound_bind (sound_source _ hwhole hcontents) fun found _ => sound_refuseShape found _
  · exact hwhole

theorem sound_memberOf (base : Descriptor) (name : Option String) :
    Sound R m R.Raw (.give (c.memberOf base name)) := sound_give (R.member base name)

/-! ## Expressions with their parts -/

section

variable {a b : Action} {span : Text.Span} {operator : Token} {left right : Expr}

theorem sound_thenPlain (h : Sound R m (R.Value m) a) (name : Option String) :
    Sound R m (R.Value m) (a.andThen (.give (.plain name))) :=
  sound_andThen h (sound_give (.of_settled (R.plain name)))

theorem sound_called (ha : Sound R m (R.Value m) a) (hb : Sound R m (R.Value m) b)
    (kind : NodeKind) :
    Sound R m (R.Used m use) (site use kind span (a.bind fun d => b.andThen (.give d.result))) :=
  sound_site (sound_bind ha fun _ hd =>
    sound_andThen hb (sound_give (R.result (Regime.Value.raw hd)))) kind span

theorem sound_functionValue (h : Sound R m R.Settled a) (kind : NodeKind) :
    Sound R m (R.Used m use) (a.recorded kind span) :=
  sound_recordedUse (h.mono fun _ => .of_settled) kind span

theorem sound_unary (h : Sound R m (R.Value m) (ofExpr c .consumed right)) :
    Sound R m (R.Used m use) (ofExpr c use (.unary span operator right)) := by
  apply sound_recordedUse
  refine sound_andThen (sound_andThen h (W := R.Value m) ?_)
    (sound_give (.of_settled (R.settled_of_isSimple (isSimple_unary operator.kind))))
  split
  · exact sound_stepTarget right
  · exact sound_nothing

theorem sound_await (hwaits : R.Waits) (h : Sound R m R.Raw (ofExpr c .awaited right)) :
    Sound R m (R.Used m use) (ofExpr c use (.await span right)) := by
  apply sound_recordedUse
  refine sound_bind h fun d hd => sound_andThen (sound_awaiting hwaits) ?_
  exact sound_give (.of_settled (Regime.settled_awaited hd))

theorem sound_binary (hleft : Sound R m (R.Value m) (ofExpr c .consumed left))
    (hright : Sound R m (R.Value m) (ofExpr c .consumed right)) :
    Sound R m (R.Used m use) (ofExpr c use (.binary span operator left right)) := by
  apply sound_recordedUse
  refine sound_bind hleft fun l hl => ?_
  split
  · exact sound_fork hright sound_nothing fun _ _ _ _ => Regime.Value.common hl
  · exact sound_map hright fun r _ =>
      .of_settled (R.settled_of_isSimple (isSimple_binary operator.kind l r))

theorem sound_assignment (hvalue : Sound R m (R.Value m) (ofExpr c .consumed right))
    (hcontents : Sound R m (R.Value m) (ofContents c right))
    (hbase : Sound R m (R.Value m) (ofBase c left))
    (htarget : Sound R m (R.Value m) (ofTarget c left)) :
    Sound R m (R.Used m use) (ofExpr c use (.assign span operator left right)) := by
  apply sound_recordedUse
  cases left with
  | hole => exact sound_nothing
  | array span elements | object span elements =>
      exact sound_destructured right _ hvalue hcontents (sound_andThen htarget sound_nothing)
  | _ =>
      have hresult := sound_map hvalue
        fun d (hd : R.Value m d) => Regime.Value.assigned hd operator.kind
      exact sound_andThen hbase (sound_bind hresult fun d hd =>
        sound_andThen (sound_assignName _ hd) (sound_give hd))

end

/-! ## Scripts -/

mutual

theorem sound_ofExpr (m : Bool) (around : Setting) (use : Use) (expr : Expr)
    (h : R.Admits (exprNodes around expr)) :
    Sound R m (R.Used m use) (Action.ofExpr c use expr) := by
  match expr with
  | .hole => exact sound_nothing.mono fun _ => .of_value
  | .literal span kind text =>
      have hsettled := R.settled_of_isSimple (isSimple_literal kind)
      exact sound_recordedUse (sound_give (.of_settled hsettled)) _ _
  | .template span parts =>
      exact sound_recordedUse (sound_thenPlain (sound_ofExprs m around.used parts h.tail) _) _ _
  | .tagged span tag parts =>
      obtain ⟨htag, hparts⟩ := h.tail.append
      exact sound_called (sound_ofExpr m around.used .consumed tag htag)
        (sound_ofExprs m around.used parts hparts) _
  | .name span name => exact sound_recordedUse (sound_lookOptional name) _ _
  | .thisValue span => exact sound_recordedUse sound_nothing _ _
  | .array span elements =>
      exact sound_recordedUse
        (sound_thenPlain (sound_ofElements m around.used elements h.tail) _) _ _
  | .object span members =>
      exact sound_recordedUse (sound_thenPlain (sound_ofMembers m around.used members h.tail) _) _ _
  | .spread span inner =>
      have hinner := sound_ofExpr m around.used .consumed inner h.tail
      exact sound_recordedUse (sound_andThen hinner sound_nothing) _ _
  | .function span name fn => exact sound_functionValue (sound_ofFunction m name fn h.append.2) _
  | .arrow span fn => exact sound_functionValue (sound_ofFunction m none fn h.append.2) _
  | .paren span inner =>
      exact sound_recorded (sound_ofExpr m around use inner h.tail) (fun _ => Regime.Used.raw) _ _
  | .member span object name optional =>
      exact sound_site (sound_bind (sound_ofExpr m around.used .consumed object h.tail)
        fun base _ => sound_memberOf base name) _ _
  | .index span object key =>
      obtain ⟨hobject, hkey⟩ := h.tail.append
      exact sound_site (sound_bind (sound_ofExpr m around.used .consumed object hobject)
        fun base _ => sound_andThen (sound_ofExpr m around.used .consumed key hkey)
          (sound_memberOf base _)) _ _
  | .call span callee arguments =>
      obtain ⟨hcallee, harguments⟩ := h.tail.append
      exact sound_called (sound_ofExpr m around.used .consumed callee hcallee)
        (sound_ofExprs m around.used arguments harguments) _
  | .construct span callee hasList arguments =>
      obtain ⟨hcallee, harguments⟩ := h.tail.append
      exact sound_site (sound_andThen (sound_andThen
        (sound_ofExpr m around.used .consumed callee hcallee)
        (sound_ofExprs m around.used arguments harguments)) (sound_give (R.raw R.unknown))) _ _
  | .unary span operator operand =>
      exact sound_unary (sound_ofExpr m around.used .consumed operand h.tail)
  | .await span operand =>
      exact sound_await (h _ List.mem_cons_self rfl)
        (sound_ofExpr m around.underAwait .awaited operand h.tail)
  | .update span operator operand =>
      have hoperand := sound_ofExpr m around.used .consumed operand h.tail
      exact sound_recordedUse
        (sound_thenPlain (sound_andThen hoperand (sound_stepTarget operand)) _) _ _
  | .binary span operator left right =>
      obtain ⟨hleft, hright⟩ := h.tail.append
      exact sound_binary (sound_ofExpr m around.used .consumed left hleft)
        (sound_ofExpr m around.used .consumed right hright)
  | .assign span operator target value =>
      obtain ⟨htarget, hvalue⟩ := h.tail.append
      exact sound_assignment (sound_ofExpr m around.used .consumed value hvalue)
        (sound_ofContents m around.used value hvalue) (sound_ofBase m around.used target htarget)
        (sound_ofTarget m around.used target htarget)
  | .cond span test consequent alternate =>
      obtain ⟨hfirst, halternate⟩ := h.tail.append
      obtain ⟨htest, hconsequent⟩ := hfirst.append
      exact sound_recordedUse (sound_andThen (sound_ofExpr m around.used .consumed test htest)
        (sound_fork (sound_ofExpr m around.used .consumed consequent hconsequent)
          (sound_ofExpr m around.used .consumed alternate halternate)
          fun _ _ ha _ => Regime.Value.common ha)) _ _
  | .sequence span parts =>
      exact sound_recordedUse (sound_ofExprs m around.used parts h.tail) _ _

theorem sound_ofExprs (m : Bool) (around : Setting) (exprs : List Expr)
    (h : R.Admits (exprNodesAll around exprs)) :
    Sound R m (R.Value m) (Action.ofExprs c exprs) := by
  match exprs with
  | [] => exact sound_nothing
  | [expr] => exact sound_ofExpr m around .consumed expr h.append.1
  | expr :: next :: more =>
      exact sound_andThen (sound_ofExpr m around .consumed expr h.append.1)
        (sound_ofExprs m around (next :: more) h.append.2)

theorem sound_ofElements (m : Bool) (around : Setting) (elements : List Expr)
    (h : R.Admits (exprNodesAll around elements)) :
    Sound R m (R.Value m) (Action.ofElements c elements) := by
  match elements with
  | [] => exact sound_nothing
  | expr :: more =>
      have hfirst := sound_ofExpr m around .consumed expr h.append.1
      have hrest := sound_ofElements m around more h.append.2
      cases expr with
      | spread span inner => exact sound_andThen hfirst hrest
      | _ =>
          exact sound_bind hfirst fun d hd =>
            sound_map hrest fun _ hother => Regime.Value.firstShape hd hother

theorem sound_ofMembers (m : Bool) (around : Setting) (members : List ObjectMember)
    (h : R.Admits (memberNodes around members)) :
    Sound R m (R.Value m) (Action.ofMembers c members) := by
  match members with
  | [] => exact sound_nothing
  | .property key value :: more =>
      obtain ⟨hfirst, hmore⟩ := h.append
      obtain ⟨hkey, hvalue⟩ := hfirst.append
      refine sound_andThen (sound_ofKey m around key hkey)
        (sound_bind (sound_ofExpr m around.used .consumed value hvalue) fun d hd => ?_)
      exact sound_map (sound_ofMembers m around more hmore)
        fun _ hother => Regime.Value.firstShape hd hother
  | .method key fn :: more =>
      obtain ⟨hfirst, hmore⟩ := h.tail.append
      obtain ⟨hkey, hfn⟩ := hfirst.append
      exact sound_andThen (sound_ofKey m around key hkey)
        (sound_andThen (sound_ofFunction m none fn hfn) (sound_ofMembers m around more hmore))
  | .spread inner :: more =>
      obtain ⟨hinner, hmore⟩ := h.append
      exact sound_andThen (sound_ofExpr m around.used .consumed inner hinner)
        (sound_ofMembers m around more hmore)

theorem sound_ofKey (m : Bool) (around : Setting) (key : Key) (h : R.Admits (keyNodes around key)) :
    Sound R m (R.Value m) (Action.ofKey c key) := by
  match key with
  | .hole | .name .. => exact sound_nothing
  | .computed span inner => exact sound_ofExpr m around.used .consumed inner h

theorem sound_ofContents (m : Bool) (around : Setting) (value : Expr)
    (h : R.Admits (exprNodes around value)) :
    Sound R m (R.Value m) (Action.ofContents c value) := by
  cases value with
  | array span elements => exact sound_ofElements m around.used elements h.tail
  | object span members => exact sound_ofMembers m around.used members h.tail
  | _ => exact sound_nothing

theorem sound_ofBase (m : Bool) (around : Setting) (target : Expr)
    (h : R.Admits (exprNodes around target)) :
    Sound R m (R.Value m) (Action.ofBase c target) := by
  cases target with
  | member span object name optional =>
      exact sound_andThen (sound_ofExpr m around.used .consumed object h.tail)
        (sound_recordedValue sound_nothing _ _)
  | index span object key =>
      obtain ⟨hobject, hkey⟩ := h.tail.append
      exact sound_andThen (sound_andThen (sound_ofExpr m around.used .consumed object hobject)
        (sound_ofExpr m around.used .consumed key hkey)) (sound_recordedValue sound_nothing _ _)
  | name span name => exact sound_recordedValue (sound_lookOptional name) _ _
  | paren span inner => exact sound_ofBase m around inner h.tail
  | _ => exact sound_nothing

theorem sound_ofTarget (m : Bool) (around : Setting) (target : Expr)
    (h : R.Admits (exprNodes around target)) :
    Sound R m (R.Value m) (Action.ofTarget c target) := by
  cases target with
  | name span name =>
      cases name with
      | some name => exact sound_assign Regime.value_unknown name
      | none => exact sound_nothing
  | paren span inner => exact sound_ofTarget m around inner h.tail
  | member span object name optional =>
      exact sound_andThen (sound_ofExpr m around.used .consumed object h.tail)
        (sound_recordedValue sound_nothing _ _)
  | index span object key =>
      obtain ⟨hobject, hkey⟩ := h.tail.append
      exact sound_andThen (sound_andThen (sound_ofExpr m around.used .consumed object hobject)
        (sound_ofExpr m around.used .consumed key hkey)) (sound_recordedValue sound_nothing _ _)
  | array span elements => exact sound_ofTargets m around.used elements h.tail
  | object span members => exact sound_ofTargetMembers m around.used members h.tail
  | spread span inner => exact sound_ofTarget m around.used inner h.tail
  | assign span operator inner value =>
      obtain ⟨hinner, hvalue⟩ := h.tail.append
      exact sound_andThen (sound_ofExpr m around.used .consumed value hvalue)
        (sound_ofTarget m around.used inner hinner)
  | _ => exact sound_nothing

theorem sound_ofTargets (m : Bool) (around : Setting) (targets : List Expr)
    (h : R.Admits (exprNodesAll around targets)) :
    Sound R m (R.Value m) (Action.ofTargets c targets) := by
  match targets with
  | [] => exact sound_nothing
  | target :: more =>
      exact sound_andThen (sound_ofTarget m around target h.append.1)
        (sound_ofTargets m around more h.append.2)

theorem sound_ofTargetMembers (m : Bool) (around : Setting) (members : List ObjectMember)
    (h : R.Admits (memberNodes around members)) :
    Sound R m (R.Value m) (Action.ofTargetMembers c members) := by
  match members with
  | [] => exact sound_nothing
  | .property key value :: more =>
      obtain ⟨hfirst, hmore⟩ := h.append
      obtain ⟨hkey, hvalue⟩ := hfirst.append
      exact sound_andThen (sound_ofKey m around key hkey)
        (sound_andThen (sound_ofTarget m around.used value hvalue)
          (sound_ofTargetMembers m around more hmore))
  | .method key fn :: more => exact sound_ofTargetMembers m around more h.tail.append.2
  | .spread inner :: more =>
      obtain ⟨hinner, hmore⟩ := h.append
      exact sound_andThen (sound_ofTarget m around.used inner hinner)
        (sound_ofTargetMembers m around more hmore)

theorem sound_ofFunction (m : Bool) (self : Option String) (fn : Function)
    (h : R.Admits (functionNodes fn)) :
    Sound R m R.Settled (Action.ofFunction c self fn) := by
  match fn with
  | .mk span isAsync params body =>
      obtain ⟨hparameters, hbody⟩ := h.append
      have hlist : Sound R false _ (Action.parameters (ofParameters c params)) :=
        sound_parameters (sound_ofParameters true (.parametersOf span) params hparameters)
      have hopening {inner : Action} (hinner : Sound R false R.Settled inner) :
          Sound R m R.Settled (.function span isAsync (.scoped
            ((declareAll self.toList).andThen
              ((Action.parameters (ofParameters c params)).andThen inner)))) :=
        sound_function (sound_scoped (sound_andThen (sound_declareAll _)
          (sound_andThen hlist hinner))) span isAsync
      cases body with
      | block _ stmts =>
          have hdeclared := sound_ofDeclared (.bodyOf span) stmts .done hbody True.intro
          have hstmts := sound_ofStmts (.bodyOf span) stmts hbody
          exact hopening (sound_andThen (sound_hoist hdeclared)
            (sound_andThen hstmts sound_returned))
      | expr _ value _ => exact hopening (sound_ofExpr false _ .consumed value hbody)
      | _ => exact hopening sound_returned

theorem sound_ofParameters (m : Bool) (around : Setting) (bindings : List Binding)
    (h : R.Admits (bindingNodes around bindings)) :
    Sound R m (R.Value m) (Action.ofParameters c bindings) := by
  match bindings with
  | [] => exact sound_nothing
  | .mk _ pattern value :: more =>
      obtain ⟨hfirst, hmore⟩ := h.append
      obtain ⟨hpattern, hvalue⟩ := hfirst.append
      exact sound_andThen (sound_ofExpr m around.used .consumed value hvalue)
        (sound_andThen (sound_andThen (sound_ofPattern m around pattern hpattern)
          (sound_declareAll _)) (sound_ofParameters m around more hmore))

theorem sound_ofDeclarators (around : Setting) (bindings : List Binding)
    (h : R.Admits (bindingNodes around bindings)) :
    Sound R false (R.Value false) (Action.ofDeclarators c bindings) := by
  match bindings with
  | [] => exact sound_nothing
  | .mk _ pattern value :: more =>
      obtain ⟨hfirst, hmore⟩ := h.append
      obtain ⟨hpattern, hvalue⟩ := hfirst.append
      have hwhole := sound_ofExpr false around.used .consumed value hvalue
      have hcontents := sound_ofContents false around.used value hvalue
      have htaken := sound_andThen (sound_ofPattern false around pattern hpattern)
        (sound_declareAll pattern.names)
      have hrest := sound_ofDeclarators around more hmore
      cases pattern with
      | hole => exact sound_andThen sound_nothing hrest
      | name span name =>
          refine sound_andThen (sound_bind hwhole (W := R.Value false) fun d hd => ?_) hrest
          cases name with
          | none => exact sound_nothing
          | some name => exact sound_declare hd name
      | _ => exact sound_andThen (sound_destructured value _ hwhole hcontents htaken) hrest

theorem sound_ofHead (m : Bool) (around : Setting) (bindings : List Binding)
    (h : R.Admits (bindingNodes around bindings)) :
    Sound R m (R.Value m) (Action.ofHead c bindings) := by
  match bindings with
  | [] => exact sound_nothing
  | .mk _ pattern value :: more =>
      obtain ⟨hfirst, hmore⟩ := h.append
      exact sound_andThen (sound_andThen (sound_ofPattern m around pattern hfirst.append.1)
        (sound_declareAll _)) (sound_ofHead m around more hmore)

theorem sound_ofPattern (m : Bool) (around : Setting) (pattern : Pattern)
    (h : R.Admits (patternNodes around pattern)) :
    Sound R m (R.Value m) (Action.ofPattern c pattern) := by
  match pattern with
  | .hole | .name .. => exact sound_nothing
  | .withDefault span inner value =>
      exact sound_andThen (sound_ofPattern m around inner h.append.1)
        (sound_ofExpr m around.used .consumed value h.append.2)
  | .rest span inner => exact sound_ofPattern m around inner h
  | .array span elements => exact sound_ofPatterns m around elements h
  | .object span entries => exact sound_ofEntries m around entries h

theorem sound_ofPatterns (m : Bool) (around : Setting) (patterns : List Pattern)
    (h : R.Admits (patternNodesAll around patterns)) :
    Sound R m (R.Value m) (Action.ofPatterns c patterns) := by
  match patterns with
  | [] => exact sound_nothing
  | pattern :: more =>
      exact sound_andThen (sound_ofPattern m around pattern h.append.1)
        (sound_ofPatterns m around more h.append.2)

theorem sound_ofEntries (m : Bool) (around : Setting) (entries : List Entry)
    (h : R.Admits (entryNodes around entries)) :
    Sound R m (R.Value m) (Action.ofEntries c entries) := by
  match entries with
  | [] => exact sound_nothing
  | .property key pattern :: more =>
      obtain ⟨hfirst, hmore⟩ := h.append
      obtain ⟨hkey, hpattern⟩ := hfirst.append
      exact sound_andThen (sound_ofKey m around key hkey)
        (sound_andThen (sound_ofPattern m around pattern hpattern)
          (sound_ofEntries m around more hmore))
  | .rest pattern :: more =>
      exact sound_andThen (sound_ofPattern m around pattern h.append.1)
        (sound_ofEntries m around more h.append.2)

theorem sound_ofLoopHead (around : Setting) (head : Stmt) :
    R.Admits (stmtNodes around head) → Sound R false (R.Value false)
      (match head with
        | .var _ _ declarators => ofHead c declarators
        | .expr _ target _ => ofTarget c target
        | _ => nothing) := by
  intro h
  cases head with
  | var _ kind declarators => exact sound_ofHead false around declarators h
  | expr _ target _ => exact sound_ofTarget false around.used target h
  | _ => exact sound_nothing

theorem sound_ofStmt (around : Setting) (stmt : Stmt) (h : R.Admits (stmtNodes around stmt)) :
    Sound R false (R.Value false) (Action.ofStmt c stmt) := by
  match stmt with
  | .hole | .empty _ | .breakOut _ | .continueOn _ => exact sound_nothing
  | .var _ kind declarators => exact sound_ofDeclarators around declarators h
  | .function _ name fn =>
      refine sound_bind (sound_ofFunction false none fn h.tail) fun d hd => ?_
      cases name with
      | none => exact sound_nothing
      | some name => exact sound_declare hd name
  | .block _ body =>
      exact sound_scoped (sound_andThen (sound_hoist (sound_ofDeclared around body .done h
        True.intro)) (sound_ofStmts around body h))
  | .expr _ value _ => exact sound_ofExpr false around.used .consumed value h
  | .ret _ value =>
      have hvalue := sound_ofExpr false around.used .consumed value h
      change Sound R false _ (if value.isHole then nothing else _)
      split
      · exact sound_nothing
      · exact sound_bind hvalue fun d hd => sound_returning hd
  | .throw _ value => exact sound_ofExpr false around.used .consumed value h
  | .cond _ test consequent alternate =>
      obtain ⟨hfirst, halternate⟩ := h.append
      obtain ⟨htest, hconsequent⟩ := hfirst.append
      exact sound_andThen (sound_ofExpr false around.used .consumed test htest)
        (sound_fork (sound_ofStmt around consequent hconsequent)
          (sound_ofStmt around alternate halternate) fun _ _ _ _ => Regime.value_unknown)
  | .while _ test body =>
      obtain ⟨htest, hbody⟩ := h.append
      exact sound_loop (sound_andThen (sound_ofExpr false around.used .consumed test htest)
        (sound_ofStmt around body hbody)) _
  | .doWhile _ body test =>
      obtain ⟨hbody, htest⟩ := h.append
      exact sound_loop (sound_andThen (sound_ofStmt around body hbody)
        (sound_ofExpr false around.used .consumed test htest)) _
  | .loop _ init test update body =>
      obtain ⟨hfirst, hbody⟩ := h.append
      obtain ⟨hsecond, hupdate⟩ := hfirst.append
      obtain ⟨hinit, htest⟩ := hsecond.append
      exact sound_scoped (sound_andThen (sound_ofStmt around init hinit)
        (sound_loop (sound_andThen (sound_andThen
          (sound_ofExpr false around.used .consumed test htest) (sound_ofStmt around body hbody))
          (sound_ofExpr false around.used .consumed update hupdate)) _))
  | .each _ isOf head iterable body =>
      obtain ⟨hfirst, hbody⟩ := h.append
      obtain ⟨hhead, hiterable⟩ := hfirst.append
      have hsource := sound_iterated isOf head iterable
        (sound_ofExpr false around.used .consumed iterable hiterable)
        (sound_ofContents false around.used iterable hiterable)
      have hloop := sound_loop (sound_andThen (sound_ofLoopHead around head hhead)
        (sound_ofStmt around body hbody)) (stmtNames head ++ stmtNames body)
      cases head <;> exact sound_scoped (sound_andThen hsource hloop)
  | .guarded _ body handler cleanup =>
      obtain ⟨hfirst, hcleanup⟩ := h.append
      obtain ⟨hbody, hhandler⟩ := hfirst.append
      exact sound_andThen (sound_fork (X := R.Value false) (sound_ofStmt around body hbody)
        (sound_ofHandler around handler hhandler) fun _ _ _ _ => Regime.value_unknown)
        (sound_ofStmt around cleanup hcleanup)
  | .switch _ value cases =>
      obtain ⟨hvalue, hcases⟩ := h.append
      exact sound_andThen (sound_ofExpr false around.used .consumed value hvalue)
        (sound_scoped (sound_andThen (sound_hoist (sound_ofDeclaredCases around cases hcases))
          (sound_choose (sound_ofCases around cases hcases) _)))

theorem sound_ofStmts (around : Setting) (stmts : List Stmt)
    (h : R.Admits (stmtNodesAll around stmts)) :
    Sound R false (R.Value false) (Action.ofStmts c stmts) := by
  match stmts with
  | [] => exact sound_nothing
  | stmt :: more =>
      exact sound_andThen (sound_ofStmt around stmt h.append.1)
        (sound_ofStmts around more h.append.2)

theorem sound_ofDeclared (around : Setting) (stmts : List Stmt) (others : Declarations)
    (h : R.Admits (stmtNodesAll around stmts)) (hothers : SoundDeclarations R false others) :
    SoundDeclarations R false (Action.ofDeclared c stmts others) := by
  match stmts with
  | [] => exact hothers
  | stmt :: more =>
      have hmore := sound_ofDeclared around more others h.append.2 hothers
      match stmt with
      | .function _ (some name) fn => exact ⟨sound_ofFunction false none fn h.append.1.tail, hmore⟩
      | .function _ none fn | .hole | .var .. | .block .. | .expr .. | .empty .. | .breakOut ..
      | .continueOn .. | .ret .. | .throw .. | .cond .. | .while .. | .doWhile .. | .loop ..
      | .each .. | .guarded .. | .switch .. => exact hmore

theorem sound_ofHandler (around : Setting) (handler : Handler)
    (h : R.Admits (handlerNodes around handler)) :
    Sound R false (R.Value false) (Action.ofHandler c handler) := by
  match handler with
  | .hole => exact sound_nothing
  | .clause parameter body =>
      obtain ⟨hparameter, hbody⟩ := h.append
      exact sound_scoped (sound_andThen (sound_andThen
        (sound_ofPattern false around parameter hparameter) (sound_declareAll _))
        (sound_andThen (sound_hoist (sound_ofDeclared around body .done hbody True.intro))
          (sound_ofStmts around body hbody)))

theorem sound_ofCases (around : Setting) (cases : List Case)
    (h : R.Admits (caseNodes around cases)) :
    SoundArms R false (Action.ofCases c cases) := by
  match cases with
  | [] => exact soundArms_done
  | .mk _ test body :: more =>
      obtain ⟨hfirst, hmore⟩ := h.append
      obtain ⟨htest, hbody⟩ := hfirst.append
      exact sound_arm (sound_ofExpr false around.used .consumed test htest)
        (sound_ofStmts around body hbody) (sound_ofCases around more hmore)

theorem sound_ofDeclaredCases (around : Setting) (cases : List Case)
    (h : R.Admits (caseNodes around cases)) :
    SoundDeclarations R false (Action.ofDeclaredCases c cases) := by
  match cases with
  | [] => exact True.intro
  | .mk _ test body :: more =>
      obtain ⟨hfirst, hmore⟩ := h.append
      exact sound_ofDeclared around body _ hfirst.append.2
        (sound_ofDeclaredCases around more hmore)

end

theorem sound_ofScript {script : List Stmt} (h : R.Admits (stmtNodesAll {} script)) :
    Sound R false (R.Value false) (Action.ofScript c script) :=
  sound_andThen (sound_hoist (sound_ofDeclared {} script .done h True.intro))
    (sound_ofStmts {} script h)

end ShellAwait.Analysis
