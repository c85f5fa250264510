import Mathlib.Data.List.Nodup
import ShellAwait.Proofs.Analysis.OfScript
import ShellAwait.Proofs.Script.OfTree
import ShellAwait.Proofs.Tree.OfScript

/-! # The findings of a trace

The marks and descriptors that an analysis yields are those of the trace that its walk leaves, and
the nodes of that trace are nodes of the script's tree, each at most once.
-/

namespace ShellAwait

open Text

namespace Text.Span

theorem before_irrefl (a : Span) : a.before a = false := by
  simp [before]

theorem before_trans {a b c : Span} (hab : a.before b = true) (hbc : b.before c = true) :
    a.before c = true := by
  simp only [before, Bool.or_eq_true, decide_eq_true_eq, Bool.and_eq_true, beq_iff_eq] at *
  omega

theorem before_of_not {a b : Span} (hne : a ≠ b) (h : a.before b = false) : b.before a = true := by
  obtain ⟨start, stop⟩ := a
  obtain ⟨start', stop'⟩ := b
  simp only [ne_eq, mk.injEq, before, Bool.or_eq_false_iff, decide_eq_false_iff_not,
    Bool.and_eq_false_iff, beq_eq_false_iff_ne, Bool.or_eq_true, decide_eq_true_eq,
    Bool.and_eq_true, beq_iff_eq] at *
  omega

/-- Each span stands before all that follow it, so none is listed twice. -/
def InSourceOrder (spans : List Span) : Prop := spans.Pairwise fun a b => a.before b = true

theorem InSourceOrder.nodup {spans : List Span} (h : InSourceOrder spans) : spans.Nodup := by
  refine h.imp fun hbefore heq => ?_
  rw [heq, before_irrefl] at hbefore
  cases hbefore

theorem InSourceOrder.foundIn_iff {spans : List Span} (h : InSourceOrder spans) (span : Span) :
    span.foundIn spans = true ↔ span ∈ spans := by
  rw [foundIn, beq_iff_eq]
  constructor
  · exact List.mem_of_getElem?
  · intro hmem
    obtain ⟨front, back, rfl⟩ := List.append_of_mem hmem
    obtain ⟨-, hback, hacross⟩ := List.pairwise_append.mp h
    have hfront : ∀ x ∈ front, x.before span = true := fun x hx =>
      hacross x hx span List.mem_cons_self
    have hothers : ∀ x ∈ span :: back, x.before span = false := by
      intro x hx
      rcases List.mem_cons.mp hx with rfl | hx
      · exact before_irrefl x
      · have hafter := List.rel_of_pairwise_cons hback hx
        exact Bool.eq_false_iff.mpr fun hbefore =>
          absurd (before_trans hbefore hafter) (by rw [before_irrefl]; exact Bool.false_ne_true)
    rw [partitionPoint_append hfront hothers, List.getElem?_append_right (Nat.le_refl _),
      Nat.sub_self]
    rfl

end Text.Span

namespace Analysis

/-! ## Lists in source order -/

theorem mem_insertSpan {span x : Span} {spans : List Span} :
    x ∈ insertSpan span spans ↔ x = span ∨ x ∈ spans := by
  induction spans with
  | nil => simp [insertSpan]
  | cons first rest ih =>
      rw [insertSpan]
      split
      next h => simp [h]
      next =>
        split
        · simp
        · rw [List.mem_cons, ih, List.mem_cons]
          exact or_left_comm

theorem inSourceOrder_insertSpan {span : Span} {spans : List Span} (h : Span.InSourceOrder spans) :
    Span.InSourceOrder (insertSpan span spans) := by
  induction spans with
  | nil => exact List.pairwise_singleton _ _
  | cons first rest ih =>
      obtain ⟨hfirst, hrest⟩ := List.pairwise_cons.mp h
      rw [insertSpan]
      split
      next => exact h
      next hne =>
        split
        next hbefore =>
          refine List.pairwise_cons.mpr ⟨fun x hx => ?_, h⟩
          rcases List.mem_cons.mp hx with rfl | hx
          · exact hbefore
          · exact Span.before_trans hbefore (hfirst x hx)
        next hbefore =>
          refine List.pairwise_cons.mpr ⟨fun x hx => ?_, ih hrest⟩
          rcases mem_insertSpan.mp hx with rfl | hx
          · exact Span.before_of_not hne (Bool.not_eq_true _ ▸ hbefore)
          · exact hfirst x hx

theorem mem_foldr_insertSpan {x : Span} {spans : List Span} :
    x ∈ spans.foldr insertSpan [] ↔ x ∈ spans := by
  induction spans with
  | nil => rfl
  | cons span rest ih => rw [List.foldr_cons, mem_insertSpan, ih, List.mem_cons]

theorem inSourceOrder_foldr_insertSpan (spans : List Span) :
    Span.InSourceOrder (spans.foldr insertSpan []) := by
  induction spans with
  | nil => exact List.Pairwise.nil
  | cons span rest ih => exact inSourceOrder_insertSpan ih

theorem find?_insertTyped (span x : Span) (d : Descriptor) (typed : List (Span × Descriptor)) :
    (insertTyped span d typed).find? (·.1 = x) =
      if span = x then some (span, d) else typed.find? (·.1 = x) := by
  induction typed with
  | nil =>
      by_cases h : span = x <;> simp [insertTyped, h]
  | cons first rest ih =>
      rw [insertTyped]
      by_cases h : span = x
      · subst h
        by_cases hfirst : span = first.1
        · simp [hfirst]
        · have hskip : first.1 ≠ span := Ne.symm hfirst
          rw [if_neg hfirst]
          split
          · simp
          · rw [List.find?_cons_of_neg (by simpa using hskip), ih, if_pos rfl, if_pos rfl]
      · rw [if_neg h]
        by_cases hfirst : span = first.1
        · have hskip : first.1 ≠ x := hfirst ▸ h
          rw [if_pos hfirst, List.find?_cons_of_neg (by simpa using h),
            List.find?_cons_of_neg (by simpa using hskip)]
        · rw [if_neg hfirst]
          split
          · rw [List.find?_cons_of_neg (by simpa using h)]
          · rw [List.find?_cons, List.find?_cons, ih, if_neg h]

theorem find?_foldr_insertTyped (x : Span) (typed : List (Span × Descriptor)) :
    (typed.foldr (fun entry => insertTyped entry.1 entry.2) []).find? (·.1 = x) =
      typed.find? (·.1 = x) := by
  induction typed with
  | nil => rfl
  | cons first rest ih =>
      obtain ⟨span, d⟩ := first
      rw [List.foldr_cons, find?_insertTyped, ih]
      by_cases h : span = x <;> simp [h]

theorem find?_eq_some_iff_of_nodup {typed : List (Span × Descriptor)}
    (h : (typed.map Prod.fst).Nodup) {span : Span} {d : Descriptor} :
    (typed.find? (·.1 = span)).map Prod.snd = some d ↔ (span, d) ∈ typed := by
  induction typed with
  | nil => simp
  | cons first rest ih =>
      obtain ⟨hfirst, hrest⟩ := List.nodup_cons.mp h
      obtain ⟨start, e⟩ := first
      by_cases hspan : start = span
      · subst hspan
        have hnone : (start, d) ∉ rest := fun hmem => hfirst (List.mem_map.mpr ⟨_, hmem, rfl⟩)
        rw [List.find?_cons_of_pos (by simp), List.mem_cons]
        simp [hnone, eq_comm]
      · rw [List.find?_cons_of_neg (by simpa using hspan), ih hrest, List.mem_cons]
        simp [Ne.symm hspan]

/-! ## Nodes by their spans -/

/-- A span names at most one of the nodes that findings refer to. -/
def Distinct (listed : List Occurrence) : Prop :=
  ((listed.filter (·.kind.isKeyed)).map Occurrence.span).Nodup

theorem Distinct.eq {listed : List Occurrence} (h : Distinct listed) {a b : Occurrence}
    (ha : a ∈ listed) (hb : b ∈ listed) (hkeyed : a.kind.isKeyed = true)
    (hkeyed' : b.kind.isKeyed = true) (hspan : a.span = b.span) : a = b :=
  List.inj_on_of_nodup_map h (List.mem_filter.mpr ⟨ha, hkeyed⟩)
    (List.mem_filter.mpr ⟨hb, hkeyed'⟩) hspan

theorem Distinct.nodup {listed some : List Occurrence} (h : Distinct listed)
    (hsome : some.Subperm listed) (hkeyed : ∀ o ∈ some, o.kind.isKeyed = true) :
    (some.map Occurrence.span).Nodup := by
  have hfilter : some.filter (·.kind.isKeyed) = some := List.filter_eq_self.mpr hkeyed
  obtain ⟨picked, hperm, hsublist⟩ := hsome.filter (·.kind.isKeyed)
  rw [hfilter] at hperm
  exact ((hperm.map Occurrence.span).nodup_iff).mp ((hsublist.map Occurrence.span).nodup h)

theorem Distinct.not_mem_both {listed a b : List Occurrence} (h : Distinct listed)
    (hparts : (a ++ b).Subperm listed) {o : Occurrence} (hkeyed : o.kind.isKeyed = true)
    (ha : o ∈ a) :
    o ∉ b := by
  intro hb
  have htwice : ([o] ++ [o]).Subperm (a ++ b) :=
    (List.singleton_subperm_iff.mpr ha).append (List.singleton_subperm_iff.mpr hb)
  have hnodup := h.nodup (htwice.trans hparts) (by simpa using hkeyed)
  simp at hnodup

/-! ## Traces of findings -/

/-- The trace of the walk that yielded the findings for a tree. -/
structure Accounts (trace : Trace) (tree : Tree) (findings : Findings) : Prop where
  placed : trace.Placed none
  uses : trace.Uses tree.nodes
  distinct : Distinct tree.nodes
  suspended (span : Span) : span ∈ findings.suspensions ↔
    ∃ p ∈ trace.nodes, suspended p.1 p.2 = true ∧ p.1.span = span
  promoted (span : Span) : span ∈ findings.promoted ↔
    ∃ q ∈ trace.functions, q.2 = true ∧ q.1.isAsync = false ∧ q.1.span = span
  typed (span : Span) (d : Descriptor) : findings.typeOf? span = some d ↔
    ∃ p ∈ trace.nodes, p.1.span = span ∧ p.2 = d

theorem isKeyed_of_mem_nodes {trace : Trace} {region : Option Region} (h : trace.Placed region)
    {o : Occurrence} (ho : o ∈ trace.nodes.map Prod.fst) : o.kind.isKeyed = true := by
  obtain ⟨p, hp, rfl⟩ := List.mem_map.mp ho
  rw [NodeKind.isKeyed, trace.isExpression_of_mem h hp, Bool.true_or]

theorem isKeyed_of_mem_functions {trace : Trace} {region : Option Region} (h : trace.Placed region)
    {o : Occurrence} (ho : o ∈ trace.functions.map Prod.fst) : o.kind.isKeyed = true := by
  obtain ⟨q, hq, rfl⟩ := List.mem_map.mp ho
  exact NodeKind.isKeyed_of_isFunction (trace.isFunction_of_mem h hq)

theorem mem_loggedSites {log : List Event} {span : Span} :
    span ∈ loggedSites log ↔ .site span ∈ log := by
  rw [loggedSites, List.mem_filterMap]
  constructor
  · rintro ⟨event, hevent, h⟩
    cases event <;> cases h
    exact hevent
  · exact fun h => ⟨_, h, rfl⟩

theorem mem_loggedPromotions {log : List Event} {span : Span} :
    span ∈ loggedPromotions log ↔ .promoted span ∈ log := by
  rw [loggedPromotions, List.mem_filterMap]
  constructor
  · rintro ⟨event, hevent, h⟩
    cases event <;> cases h
    exact hevent
  · exact fun h => ⟨_, h, rfl⟩

theorem accounts_ofState {trace : Trace} {tree : Tree} {s : State} (hlog : s.log = trace.events)
    (hplaced : trace.Placed none) (huses : trace.Uses tree.nodes)
    (hdistinct : Distinct tree.nodes) :
    Accounts trace tree (Findings.ofState s) where
  placed := hplaced
  uses := huses
  distinct := hdistinct
  suspended span := by
    rw [Findings.ofState, mem_foldr_insertSpan, mem_loggedSites, hlog, Trace.mem_events_site]
  promoted span := by
    rw [Findings.ofState, mem_foldr_insertSpan, mem_loggedPromotions, hlog,
      Trace.mem_events_promoted]
  typed span d := by
    have hnodup := hdistinct.nodup huses.nodes fun o ho => isKeyed_of_mem_nodes hplaced ho
    have hspans : (trace.nodes.map fun p => (p.1.span, p.2)).map Prod.fst =
        (trace.nodes.map Prod.fst).map Occurrence.span := by simp
    rw [Findings.typeOf?, Findings.ofState, find?_foldr_insertTyped, hlog, Trace.loggedTypes_events,
      find?_eq_some_iff_of_nodup
        (by rw [List.map_reverse, hspans]; exact List.nodup_reverse.mpr hnodup),
      List.mem_reverse, List.mem_map]
    simp [Prod.ext_iff]

end Analysis

theorem run_of_analyse {catalogue : Catalogue} {source : List Char} {findings : Findings}
    (h : (analyse catalogue (parse source)).1 = .ok findings) :
    (parse source).fault = none ∧ ∃ d s, (Analysis.Action.ofScript catalogue
        (Script.ofTree (parse source).tree)).run { bindings := Bindings.ofCatalogue catalogue } =
      (.ok d, s) ∧ findings = Findings.ofState s := by
  unfold analyse at h
  split at h
  · cases h
  next hfault =>
    simp only at h
    split at h
    · cases h
    next d s hrun =>
      cases h
      exact ⟨hfault, d, s, hrun, rfl⟩

theorem inSourceOrder_marks {catalogue : Catalogue} {source : List Char} {findings : Findings}
    (h : (analyse catalogue (parse source)).1 = .ok findings) :
    Span.InSourceOrder findings.suspensions ∧ Span.InSourceOrder findings.promoted := by
  obtain ⟨-, d, s, -, rfl⟩ := run_of_analyse h
  exact ⟨Analysis.inSourceOrder_foldr_insertSpan _, Analysis.inSourceOrder_foldr_insertSpan _⟩

theorem distinct_parse {source : List Char} (h : (parse source).fault = none) :
    Analysis.Distinct (parse source).tree.nodes := (Tree.ordered_parse h).nodup

theorem nodes_parse {source : List Char} (h : (parse source).fault = none) :
    (Script.stmtNodesAll {} (Script.ofTree (parse source).tree)).Subperm
      (parse source).tree.nodes := by
  obtain ⟨children, htree, hshape⟩ := Tree.wellShaped_parse h
  rw [htree]
  exact Script.nodes_ofTree hshape

/-- The walk that yielded the findings of a text, with its trace. -/
theorem exists_trace {catalogue : Catalogue} {source : List Char} {findings : Findings}
    (h : (analyse catalogue (parse source)).1 = .ok findings) :
    ∃ d s, ∃ trace : Analysis.Trace, (Analysis.Action.ofScript catalogue
        (Script.ofTree (parse source).tree)).run { bindings := Bindings.ofCatalogue catalogue } =
          (.ok d, s) ∧
      s.log = trace.events ∧ Analysis.Accounts trace (parse source).tree findings := by
  obtain ⟨hfault, d, s, hrun, rfl⟩ := run_of_analyse h
  have htraced : Analysis.Traced .trivial none _
      (.ofScript catalogue (Script.ofTree (parse source).tree)) :=
    Analysis.traced_ofScript catalogue fun _ _ => True.intro
  obtain ⟨trace, htells⟩ := htraced.tells (k := 0)
    (s := { bindings := Bindings.ofCatalogue catalogue }) True.intro rfl rfl hrun
  have hlog : s.log = trace.events := by rw [htells.leads.log, List.append_nil]
  exact ⟨d, s, trace, hrun, hlog, Analysis.accounts_ofState hlog htells.placed
    (htells.uses.mono (nodes_parse hfault)) (distinct_parse hfault)⟩

theorem exists_accounts {catalogue : Catalogue} {source : List Char} {findings : Findings}
    (h : (analyse catalogue (parse source)).1 = .ok findings) :
    ∃ trace, Analysis.Accounts trace (parse source).tree findings := by
  obtain ⟨-, -, trace, -, -, haccounts⟩ := exists_trace h
  exact ⟨trace, haccounts⟩

end ShellAwait
