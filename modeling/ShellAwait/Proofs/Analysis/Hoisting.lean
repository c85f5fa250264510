import ShellAwait.Proofs.Analysis.Suspensions
import ShellAwait.Proofs.Bindings.Columns

/-! # Calls of declared functions

A function declaration is bound twice: ahead of all statements, with what hoisting makes of it
there, and again where it stands. A call of a name that nothing else writes sees the first binding
up to the end of the declaration and the second one behind it.
-/

namespace ShellAwait

namespace Bindings

variable {b : Bindings} {name : String} {value : Option Descriptor}

theorem atRoot_of_depth (h : b.depth = 1) (name : String) : AtRoot name (b.root.get? name) 0 b := by
  obtain ⟨root, inner, seeded⟩ := b
  have hinner : inner = [] := List.length_eq_zero_iff.mp (Nat.succ.inj h)
  rw [hinner]
  rfl

theorem AtRoot.add (h : AtRoot name value 0 b) (d : Descriptor) :
    AtRoot name (some d) 0 (b.add name d) := by
  obtain ⟨root, inner, seeded⟩ := b
  have hinner : inner = [] := List.length_eq_zero_iff.mp (Nat.succ.inj h.depth)
  subst hinner
  exact congrArg (· :: []) (Dictionary.get?_insert_self root name d)

end Bindings

namespace Analysis

open Text Script Analysis.Action Bindings

/-! ## Names that are not written -/

def Invariant.depth : Invariant where
  Holds k b := b.depth = k + 1
  Writes _ := True
  push {k b} h := by
    change (b.root :: (b.inner ++ [.empty])).length = _
    rw [List.length_cons, List.length_append]
    exact congrArg (· + 1) h
  pop {k b} h := by
    have hmore : 1 < b.depth := by
      rw [h]
      exact Nat.lt_of_sub_eq_succ rfl
    rw [Bindings.depth, levels_pop hmore, List.length_dropLast]
    exact congrArg (· - 1) h
  add d _ h := (depth_add _ _ d).trans h
  assign d _ h := (assign_eq _ _ d).1.trans h
  join h _ := (depth_join _ _).trans h

/-- A name is bound at the root, if at all, and keeps its descriptor. -/
def Invariant.atRoot (name : String) (value : Option Descriptor) : Invariant where
  Holds := AtRoot name value
  Writes other := other ≠ name
  push {k b} h := by
    unfold AtRoot at h ⊢
    rw [column_push, h, List.replicate_succ']
    rfl
  pop {k b} h := by
    have hmore : 1 < b.depth := by
      rw [h.depth]
      exact Nat.lt_of_sub_eq_succ rfl
    unfold AtRoot at h ⊢
    rw [column_pop hmore, h, List.replicate_succ', ← List.cons_append, List.dropLast_concat]
  add {k b other} d hne h := (column_add hne d b).trans h
  assign {k b other} d hne h := ((assign_eq b other d).2 name hne).trans h
  join h hbranches :=
    (column_join fun branch hbranch => (hbranches branch hbranch).trans h.symm).trans h

variable {c : Catalogue}

theorem result_of_explains {name : String} {value : Option Descriptor} {o : Occurrence}
    {d : Descriptor}
    (h : (Invariant.atRoot name value).Explains o d) (hcallee : o.callee = some name) :
    d = (value.getD .unknown).result := by
  obtain ⟨k, b, hholds, rfl⟩ := h name hcallee
  rw [AtRoot.lookup hholds]

theorem allows_atRoot {name : String} {names : List String} (h : name ∉ names)
    (value : Option Descriptor) :
    Allows (.atRoot name value) names := fun _ hother heq => h (heq ▸ hother)

theorem run_ofStmts_append {a b : List Stmt} {s t : State} {d : Descriptor}
    (h : (ofStmts c (a ++ b)).run s = (.ok d, t)) :
    ∃ v middle, (ofStmts c a).run s = (.ok v, middle) ∧ (ofStmts c b).run middle = (.ok d, t) := by
  induction a generalizing s with
  | nil => exact ⟨_, s, rfl, h⟩
  | cons stmt more ih =>
      obtain ⟨v, first, hfirst, hrest⟩ := run_bind h
      obtain ⟨w, middle, hmore, hb⟩ := ih hrest
      refine ⟨w, middle, ?_, hb⟩
      change (bind (ofStmt c stmt) fun _ => ofStmts c more).run s = _
      rw [Action.run, hfirst]
      exact hmore

/-! ## A script around a declaration -/

def hoisted (c : Catalogue) (script : List Stmt) : Bindings :=
  ((Action.hoist (ofDeclared c script .done)).run { bindings := .ofCatalogue c }).2.bindings

/-- The walk of a script up to the end of a declaration and the walk behind it: what calls of the
declared name are given in each. -/
structure Parts (before : List Stmt) (name : String) (fn : Function) (after : List Stmt)
    (first final : Descriptor) (earlier later : Trace) : Prop where
  placed : (earlier.append later).Placed none
  front : earlier.Uses (stmtNodesAll {} before ++
    functionNode {} .functionDecl fn.span fn :: functionNodes fn)
  back : later.Uses (stmtNodesAll {} after)
  declared : ∃ waits, (functionNode {} .functionDecl fn.span fn, waits) ∈ earlier.functions ∧
    (fn.isAsync = false → waits = true → final.result.isDeferred = true)
  early {o : Occurrence} {d : Descriptor} : (o, d) ∈ earlier.nodes → o.callee = some name →
    d = first.result
  late {o : Occurrence} {d : Descriptor} : (o, d) ∈ later.nodes → o.callee = some name →
    d = final.result

theorem tells_hoisted {script : List Stmt} {s : State} {d : Descriptor}
    (h : (Action.hoist (ofDeclared c script .done)).run { bindings := .ofCatalogue c } =
      (.ok d, s)) :
    s.bindings = hoisted c script ∧ s.bindings.depth = 1 ∧
      ∃ trace, Tells .depth none [] { bindings := .ofCatalogue c } s trace := by
  have htraced : Traced .depth none [] (.hoist (ofDeclared c script .done)) :=
    traced_hoist (kept_ofDeclared c script .done (fun _ _ => True.intro) True.intro)
  have hstart : Invariant.depth.Holds 0 (Bindings.ofCatalogue c) := rfl
  refine ⟨?_, htraced.keeps (s := { bindings := .ofCatalogue c }) hstart h,
    htraced.tells (s := { bindings := .ofCatalogue c }) hstart rfl rfl h⟩
  rw [hoisted, h]

theorem tells_declaration {I : Invariant} {fn : Function} {k : Nat} {s t : State} {d : Descriptor}
    (hwalk : Walks I fn (ofFunction c none fn)) (hholds : I.Holds k s.bindings)
    (hrecording : s.recording = true) (hrun : (ofFunction c none fn).run s = (.ok d, t)) :
    ∃ inner : Trace, Tells I none (functionNode {} .functionDecl fn.span fn :: functionNodes fn) s t
        (.function (functionNode {} .functionDecl fn.span fn) inner) ∧
      (fn.isAsync = false → inner.waits = true → d.result.isDeferred = true) := by
  obtain ⟨body, hfunction, hbody⟩ := hwalk
  rw [hfunction] at hrun
  obtain ⟨inner, hleads, hplaced, huses, hexplains, frame, value, rfl, hsuspends⟩ :=
    tells_function (o := functionNode {} .functionDecl fn.span fn) rfl hbody hholds hrecording hrun
  refine ⟨inner, ⟨hleads, hplaced, huses.function, hexplains⟩, fun hasync hwaits => ?_⟩
  have hsync : (functionNode {} .functionDecl fn.span fn).isAsync = false := hasync
  rw [functionDescriptor, hsync, hsuspends, hwaits]
  rfl

theorem exists_parts {before after : List Stmt} {span : Span} {name : String} {fn : Function}
    (hbefore : name ∉ stmtWritesAll before) (hfn : name ∉ functionWrites fn)
    (hafter : name ∉ stmtWritesAll after) {d : Descriptor} {s : State}
    (h : (ofScript c (before ++ .function span (some name) fn :: after)).run
      { bindings := .ofCatalogue c } = (.ok d, s)) :
    ∃ earlier later final, s.log = (earlier.append later).events ∧ Parts before name fn after
      ((hoisted c (before ++ .function span (some name) fn :: after)).lookup name) final
      earlier later := by
  have hwithin : State.Within { bindings := .ofCatalogue c } none := rfl
  obtain ⟨u, first, hhoist, hstmts⟩ := run_bind h
  obtain ⟨hbindings, hdepth, ahead, hahead⟩ := tells_hoisted hhoist
  have hfirst := alike_of_run hhoist
  have hroot := atRoot_of_depth hdepth name
  obtain ⟨v, second, hrunBefore, hrest⟩ := run_ofStmts_append hstmts
  have hsecond := hfirst.trans (alike_of_run hrunBefore)
  obtain ⟨w, fourth, hrunDeclared, hrunAfter⟩ := run_bind hrest
  obtain ⟨final, third, hrunFn, hdeclare⟩ := run_bind hrunDeclared
  cases hdeclare
  have hthird := hsecond.trans (alike_of_run hrunFn)
  -- up to the end of the declaration the name keeps what hoisting has bound it to
  have htracedBefore :=
    traced_ofStmts c none before (allows_atRoot hbefore (first.bindings.root.get? name))
  have hwalk := walks_ofFunction c none fn allows_none
    (allows_atRoot hfn (first.bindings.root.get? name))
  have hkept := htracedBefore.keeps hroot hrunBefore
  obtain ⟨front, hfront⟩ := htracedBefore.tells hroot (hfirst.recording.trans rfl)
    (hwithin.of_alike hfirst) hrunBefore
  obtain ⟨inner, hinner, hfinal⟩ :=
    tells_declaration hwalk hkept (hsecond.recording.trans rfl) hrunFn
  have hbound : AtRoot name (some final) 0 (third.bindings.add name final) :=
    AtRoot.add (hwalk.keeps.1 hkept hrunFn) final
  -- and behind it what the declaration has bound it to
  obtain ⟨later, hlater⟩ := (traced_ofStmts c none after (allows_atRoot hafter (some final))).tells
    (s := { third with bindings := third.bindings.add name final }) hbound
    (hthird.recording.trans rfl)
    ((hwithin.of_alike hthird).withBindings _) hrunAfter
  have hbehind : later.Leads third s := ⟨hlater.leads.log, hlater.leads.suspends⟩
  have hleads :=
    ((hahead.leads.trans hfront.leads hfirst).trans hinner.leads hsecond).trans hbehind hthird
  refine ⟨(ahead.append front).append (.function (functionNode {} .functionDecl fn.span fn) inner),
    later, final, ?_, ?_⟩
  · rw [hleads.log, List.append_nil]
  · refine ⟨⟨⟨⟨hahead.placed, hfront.placed⟩, hinner.placed⟩, hlater.placed⟩,
      (hahead.uses.append hfront.uses).append hinner.uses, hlater.uses,
      ⟨inner.waits, ?_, hfinal⟩, fun {o d} hp hcallee => ?_, fun {o d} hp hcallee => ?_⟩
    · exact List.mem_append_right _ List.mem_cons_self
    · have hnone : ahead.nodes = [] :=
        List.map_eq_nil_iff.mp (List.subperm_nil.mp hahead.uses.nodes)
      rw [← hbindings, hroot.lookup]
      simp only [Trace.nodes, hnone, List.nil_append, List.mem_append] at hp
      rcases hp with hp | hp
      · exact result_of_explains (hfront.explains (o, d) hp) hcallee
      · exact result_of_explains (hinner.explains (o, d) hp) hcallee
    · exact result_of_explains (hlater.explains (o, d) hp) hcallee

theorem isDeferred_result_iff {d : Descriptor} :
    d.result.isDeferred = true ↔ ∃ inner, d = .callable (.deferred inner) := by
  cases d with
  | callable result => cases result <;> simp [Descriptor.result, Descriptor.isDeferred]
  | _ => simp [Descriptor.result, Descriptor.isDeferred]

theorem not_mem_of_count_writes {before after : List Stmt} {span : Span} {name : String}
    {fn : Function}
    (h : (stmtWritesAll (before ++ .function span (some name) fn :: after)).count name = 1) :
    name ∉ stmtWritesAll before ∧ name ∉ functionWrites fn ∧ name ∉ stmtWritesAll after := by
  rw [stmtWritesAll_append, stmtWritesAll, stmtWrites] at h
  simp only [Option.toList, List.count_append, List.count_singleton_self] at h
  refine ⟨List.count_eq_zero.mp ?_, List.count_eq_zero.mp ?_, List.count_eq_zero.mp ?_⟩ <;> omega

theorem eq_of_mem_of_nodup_keys {listed : List (Occurrence × Bool)}
    (h : ((listed.map Prod.fst).map Occurrence.span).Nodup) {o : Occurrence} {a b : Bool}
    (ha : (o, a) ∈ listed) (hb : (o, b) ∈ listed) : a = b := by
  rw [List.map_map] at h
  exact congrArg Prod.snd (List.inj_on_of_nodup_map h ha hb rfl)

end Analysis

open Text Script Analysis

variable {catalogue : Catalogue} {source : List Char} {findings : Findings}

/-- The walk of a script that has been analysed, around a declaration of a name that nothing else
writes. -/
theorem exists_accounts_parts (h : (analyse catalogue (parse source)).1 = .ok findings)
    {before after : List Stmt} {span : Span} {name : String} {fn : Function}
    (hscript : Script.ofTree (parse source).tree = before ++ .function span (some name) fn :: after)
    (hwritten : (stmtWritesAll (Script.ofTree (parse source).tree)).count name = 1) :
    ∃ earlier later final, Accounts (earlier.append later) (parse source).tree findings ∧
      Parts before name fn after
        ((hoisted catalogue (Script.ofTree (parse source).tree)).lookup name) final earlier later ∧
      (stmtNodesAll {} before ++ functionNode {} .functionDecl fn.span fn :: functionNodes fn ++
        stmtNodesAll {} after).Subperm (parse source).tree.nodes := by
  obtain ⟨hfault, d, s, hrun, rfl⟩ := run_of_analyse h
  have hnodes := nodes_parse hfault
  rw [hscript] at hrun hnodes hwritten ⊢
  rw [stmtNodesAll_append, stmtNodesAll, ← List.append_assoc] at hnodes
  obtain ⟨hbefore, hfn, hafter⟩ := not_mem_of_count_writes hwritten
  obtain ⟨earlier, later, final, hlog, hparts⟩ := exists_parts hbefore hfn hafter hrun
  have huses := (hparts.front.append hparts.back).mono hnodes
  exact ⟨earlier, later, final, accounts_ofState hlog hparts.placed huses (distinct_parse hfault),
    hparts, hnodes⟩

theorem Analysis.Parts.isDeferred_final {before after : List Stmt} {name : String} {fn : Function}
    {first final : Descriptor} {earlier later : Trace} {tree : Tree}
    (h : Parts before name fn after first final earlier later)
    (haccounts : Accounts (earlier.append later) tree findings)
    (hpromoted : fn.span ∈ findings.promoted) : final.result.isDeferred = true := by
  obtain ⟨waits, hmem, hfinal⟩ := h.declared
  obtain ⟨⟨o, _⟩, hq, rfl, hasync, hspan⟩ := (haccounts.promoted fn.span).mp hpromoted
  have hown := List.mem_append_left later.functions hmem
  have hsame : o = functionNode {} .functionDecl fn.span fn :=
    haccounts.function_eq hq (haccounts.mem_functions hown) rfl hspan
  subst hsame
  have hnodup := haccounts.distinct.nodup haccounts.uses.functions
    fun o ho => isKeyed_of_mem_functions haccounts.placed ho
  exact hfinal hasync (eq_of_mem_of_nodup_keys hnodup hown hq)

/-- A call of a promoted function that nothing else binds or assigns, where it could be awaited:
it is a suspension site if and only if it has been walked and, unless it stands behind the
declaration, hoisting has already found that the function awaits. -/
theorem mem_suspensions_call_iff (h : (analyse catalogue (parse source)).1 = .ok findings)
    {before after : List Stmt} {span : Span} {name : String} {fn : Function}
    (hscript : Script.ofTree (parse source).tree = before ++ .function span (some name) fn :: after)
    (hwritten : (stmtWritesAll (Script.ofTree (parse source).tree)).count name = 1)
    (hpromoted : fn.span ∈ findings.promoted) {call : Occurrence}
    (hcall : call ∈ (parse source).tree.nodes) (hkind : call.kind = .callExpr)
    (hcallee : call.callee = some name) (hawaited : call.awaited = false)
    (hparameters : call.inParameters = false) :
    call.span ∈ findings.suspensions ↔ (findings.typeOf? call.span).isSome = true ∧
      (call ∈ stmtNodesAll {} after ∨
        ∃ result, (hoisted catalogue (Script.ofTree (parse source).tree)).lookup name =
          .callable (.deferred result)) := by
  obtain ⟨earlier, later, final, haccounts, hparts, hnodes⟩ :=
    exists_accounts_parts h hscript hwritten
  have hfinal := hparts.isDeferred_final haccounts hpromoted
  have hkeyed : call.kind.isKeyed = true := by rw [hkind]; rfl
  have hsuspended (d : Descriptor) : suspended call d = d.isDeferred := by
    simp [suspended, hkind, hawaited, hparameters, NodeKind.isSite]
  rw [haccounts.mem_suspensions hcall hkeyed]
  constructor
  · rintro ⟨d, hd, hdeferred⟩
    rw [hsuspended] at hdeferred
    have htyped := (haccounts.typed call.span d).mpr ⟨_, hd, rfl, rfl⟩
    refine ⟨by rw [htyped]; rfl, ?_⟩
    rcases List.mem_append.mp hd with hearly | hlate
    · rw [hparts.early hearly hcallee] at hdeferred
      exact .inr (isDeferred_result_iff.mp hdeferred)
    · exact .inl (hparts.back.nodes.subset (List.mem_map_of_mem hlate))
  · rintro ⟨htyped, hwhere⟩
    obtain ⟨d, hd⟩ := Option.isSome_iff_exists.mp htyped
    have hnoted := haccounts.mem_of_typeOf hcall hkeyed hd
    refine ⟨d, hnoted, ?_⟩
    rw [hsuspended]
    rcases List.mem_append.mp hnoted with hearly | hlate
    · rcases hwhere with hbehind | hhoisted
      · have hfront := hparts.front.nodes.subset (List.mem_map_of_mem hearly)
        exact absurd hbehind (haccounts.distinct.not_mem_both hnodes hkeyed hfront)
      · rw [hparts.early hearly hcallee]
        exact isDeferred_result_iff.mpr hhoisted
    · rw [hparts.late hlate hcallee]
      exact hfinal

theorem exists_declaration {script : List Stmt} {name : String} {span : Span}
    (h : script.any (fun
      | .function _ bound fn => bound = some name && fn.span = span
      | _ => false) = true) :
    ∃ before outer fn after, script = before ++ .function outer (some name) fn :: after ∧
      fn.span = span := by
  obtain ⟨stmt, hmem, hstmt⟩ := List.any_eq_true.mp h
  obtain ⟨before, after, hscript⟩ := List.append_of_mem hmem
  cases stmt with
  | function outer bound fn =>
      simp only [Bool.and_eq_true, decide_eq_true_eq] at hstmt
      exact ⟨before, outer, fn, after, by rw [hscript, hstmt.1], hstmt.2⟩
  | _ => cases hstmt

def lateLoad : List Char := "let c = load; f(); function f() { return c(); } f();".toList

/-- Hoisting walks the function before `c` is bound: of the calls of `f` only the one behind the
declaration is awaited. -/
theorem mem_suspensions_call_lateLoad : ∃ findings before span fn after call,
    (analyse loading (parse lateLoad)).1 = .ok findings ∧
      Script.ofTree (parse lateLoad).tree = before ++ .function span (some "f") fn :: after ∧
      (stmtWritesAll (Script.ofTree (parse lateLoad).tree)).count "f" = 1 ∧
      fn.span ∈ findings.promoted ∧ call ∈ (parse lateLoad).tree.nodes ∧ call.kind = .callExpr ∧
      call.callee = some "f" ∧ call.awaited = false ∧ call.inParameters = false ∧
      call.span = ⟨14, 17⟩ ∧ findings.suspensions = [⟨41, 44⟩, ⟨48, 51⟩] ∧
      ¬((findings.typeOf? call.span).isSome = true ∧ (call ∈ stmtNodesAll {} after ∨
        ∃ result, (hoisted loading (Script.ofTree (parse lateLoad).tree)).lookup "f" =
          .callable (.deferred result))) := by
  obtain ⟨findings, h, hmarks⟩ : ∃ findings, (analyse loading (parse lateLoad)).1 = .ok findings ∧
      findings.toMarks = ⟨[⟨41, 44⟩, ⟨48, 51⟩], [⟨19, 47⟩]⟩ :=
        exists_of_map_toOption (by decide +kernel)
  have hfacts : (stmtWritesAll (Script.ofTree (parse lateLoad).tree)).count "f" = 1 ∧
      (Script.ofTree (parse lateLoad).tree).any (fun
        | .function _ bound fn => bound = some "f" && fn.span = ⟨19, 47⟩
        | _ => false) = true ∧
      ∃ call ∈ (parse lateLoad).tree.nodes, call.kind = .callExpr ∧ call.callee = some "f" ∧
        call.awaited = false ∧ call.inParameters = false ∧ call.span = ⟨14, 17⟩ := by decide +kernel
  obtain ⟨hwritten, hdeclared, call, hcall, hkind, hcallee, hawaited, hparameters, hspan⟩ := hfacts
  obtain ⟨before, span, fn, after, hscript, hfn⟩ := exists_declaration hdeclared
  have hsuspensions : findings.suspensions = [⟨41, 44⟩, ⟨48, 51⟩] :=
    congrArg Marks.suspensions hmarks
  have hpromoted : fn.span ∈ findings.promoted := by
    rw [show findings.promoted = [⟨19, 47⟩] from congrArg Marks.promoted hmarks, hfn]
    exact List.mem_singleton_self _
  refine ⟨findings, before, span, fn, after, call, h, hscript, hwritten, hpromoted, hcall, hkind,
    hcallee, hawaited, hparameters, hspan, hsuspensions, fun hwalked => ?_⟩
  have hsite := (mem_suspensions_call_iff h hscript hwritten hpromoted hcall hkind hcallee hawaited
    hparameters).mpr hwalked
  rw [hspan, hsuspensions] at hsite
  simp at hsite

end ShellAwait
