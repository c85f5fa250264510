import ShellAwait.Proofs.Analysis.Suspensions

/-! # Functions that await

A function that is not asynchronous in the text is promoted exactly if its own body waits for
something, so nothing is awaited where the result could not be written.
-/

namespace ShellAwait

open Text Analysis

variable {catalogue : Catalogue} {source : List Char} {findings : Findings}

namespace Analysis.Accounts

variable {trace : Trace} {tree : Tree}

theorem awaits_iff (h : Accounts trace tree findings) {node : Occurrence}
    (hnode : node ∈ tree.nodes) :
    (∃ d, (node, d) ∈ trace.nodes ∧ awaits node d = true) ↔
      node.kind.isSite = true ∧ node.span ∈ findings.suspensions ∨
        node.kind = .awaitExpr ∧ (findings.typeOf? node.span).isSome = true := by
  constructor
  · rintro ⟨d, hd, hawaits⟩
    have hkeyed := h.isKeyed_node hd
    rcases Bool.or_eq_true_iff.mp hawaits with hsuspended | hawait
    · exact .inl ⟨(suspended_iff.mp hsuspended).1,
        (h.mem_suspensions hnode hkeyed).mpr ⟨d, hd, hsuspended⟩⟩
    · have htyped := (h.typed node.span d).mpr ⟨_, hd, rfl, rfl⟩
      exact .inr ⟨of_decide_eq_true hawait, by rw [htyped]; rfl⟩
  · rintro (⟨hsite, hspan⟩ | ⟨hawait, htyped⟩)
    · obtain ⟨d, hd, hsuspended⟩ :=
        (h.mem_suspensions hnode (NodeKind.isKeyed_of_isSite hsite)).mp hspan
      exact ⟨d, hd, Bool.or_eq_true_iff.mpr (.inl hsuspended)⟩
    · obtain ⟨d, hd⟩ := Option.isSome_iff_exists.mp htyped
      have hkeyed : node.kind.isKeyed = true := by rw [hawait]; rfl
      exact ⟨d, h.mem_of_typeOf hnode hkeyed hd,
        Bool.or_eq_true_iff.mpr (.inr (decide_eq_true hawait))⟩

theorem function_waits_iff (h : Accounts trace tree findings) {fn : Occurrence}
    (hfn : fn ∈ tree.nodes)
    (hkind : fn.kind.isFunction = true) : (fn, true) ∈ trace.functions ↔
      ∃ node d, (node, d) ∈ trace.nodes ∧ awaits node d = true ∧
        node.region = some ⟨fn.span, false⟩ := by
  constructor
  · intro hmem
    obtain ⟨p, hp, hawaits, hregion⟩ := Trace.exists_of_function_waits h.placed hmem rfl
    exact ⟨p.1, p.2, hp, hawaits, hregion⟩
  · rintro ⟨node, d, hd, hawaits, hregion⟩
    rcases Trace.waits_of_mem h.placed hd hawaits hregion with ⟨hnone, -⟩ |
        ⟨⟨o, waits⟩, hq, hspan, rfl⟩
    · cases hnone
    · have hsame : o = fn := h.function_eq hq hfn hkind hspan
      rwa [← hsame]

theorem promoted_iff (h : Accounts trace tree findings) {fn : Occurrence} (hfn : fn ∈ tree.nodes)
    (hkind : fn.kind.isFunction = true) (hasync : fn.isAsync = false) :
    fn.span ∈ findings.promoted ↔ (fn, true) ∈ trace.functions := by
  rw [h.promoted]
  constructor
  · rintro ⟨⟨o, waits⟩, hq, rfl, -, hspan⟩
    have hsame : o = fn := h.function_eq hq hfn hkind hspan
    rwa [← hsame]
  · exact fun hmem => ⟨_, hmem, rfl, hasync, rfl⟩

theorem exists_function (h : Accounts trace tree findings) {p : Occurrence × Descriptor}
    (hp : p ∈ trace.nodes) (hsuspended : Analysis.suspended p.1 p.2 = true) :
    p.1.region = none ∨ ∃ fn ∈ tree.nodes, fn.kind.isFunction = true ∧
      p.1.region = some ⟨fn.span, false⟩ ∧ (fn.isAsync = true ∨ fn.span ∈ findings.promoted) := by
  cases hregion : p.1.region with
  | none => exact .inl rfl
  | some region =>
      obtain ⟨owner, inParameters⟩ := region
      have hbody : inParameters = false := by
        have houtside := (suspended_iff.mp hsuspended).2.2.2
        rwa [Setting.inParameters, hregion] at houtside
      subst hbody
      have hawaits : awaits p.1 p.2 = true := Bool.or_eq_true_iff.mpr (.inl hsuspended)
      rcases Trace.waits_of_mem h.placed hp hawaits hregion with ⟨hnone, -⟩ |
          ⟨⟨fn, waits⟩, hq, rfl, rfl⟩
      · cases hnone
      · have hkind := Trace.isFunction_of_mem h.placed hq
        refine .inr ⟨fn, h.mem_functions hq, hkind, rfl, ?_⟩
        cases hasync : fn.isAsync with
        | true => exact .inl rfl
        | false => exact .inr ((h.promoted_iff (h.mem_functions hq) hkind hasync).mpr hq)

end Analysis.Accounts

/-- Nothing is awaited in a parameter list; a function that is not asynchronous in the text is
promoted if and only if a suspension site or a walked `await` stands directly in its body; and
every suspension site stands outside of all functions or directly in the body of one that is
asynchronous or promoted. -/
theorem awaiting_contexts (h : (analyse catalogue (parse source)).1 = .ok findings) :
    (∀ node ∈ (parse source).tree.nodes, node.kind.isSite = true →
      node.span ∈ findings.suspensions → node.inParameters = false) ∧
    (∀ fn ∈ (parse source).tree.nodes, fn.kind.isFunction = true → fn.isAsync = false →
      (fn.span ∈ findings.promoted ↔ ∃ node ∈ (parse source).tree.nodes,
        node.region = some ⟨fn.span, false⟩ ∧
          (node.kind.isSite = true ∧ node.span ∈ findings.suspensions ∨
            node.kind = .awaitExpr ∧ (findings.typeOf? node.span).isSome = true))) ∧
    (∀ span ∈ findings.suspensions, ∃ node ∈ (parse source).tree.nodes, node.span = span ∧
      node.kind.isSite = true ∧ (node.region = none ∨ ∃ fn ∈ (parse source).tree.nodes,
        fn.kind.isFunction = true ∧ node.region = some ⟨fn.span, false⟩ ∧
          (fn.isAsync = true ∨ fn.span ∈ findings.promoted))) := by
  obtain ⟨trace, haccounts⟩ := exists_accounts h
  refine ⟨fun node hnode hsite hspan => ?_, fun fn hfn hkind hasync => ?_, fun span hspan => ?_⟩
  · obtain ⟨d, -, hsuspended⟩ :=
      (haccounts.mem_suspensions hnode (NodeKind.isKeyed_of_isSite hsite)).mp hspan
    exact (suspended_iff.mp hsuspended).2.2.2
  · rw [haccounts.promoted_iff hfn hkind hasync, haccounts.function_waits_iff hfn hkind]
    constructor
    · rintro ⟨node, d, hd, hawaits, hregion⟩
      have hnode := haccounts.mem_nodes hd
      exact ⟨node, hnode, hregion, (haccounts.awaits_iff hnode).mp ⟨d, hd, hawaits⟩⟩
    · rintro ⟨node, hnode, hregion, hwaits⟩
      obtain ⟨d, hd, hawaits⟩ := (haccounts.awaits_iff hnode).mpr hwaits
      exact ⟨node, d, hd, hawaits, hregion⟩
  · obtain ⟨p, hp, hsuspended, rfl⟩ := (haccounts.suspended span).mp hspan
    exact ⟨p.1, haccounts.mem_nodes hp, rfl, (suspended_iff.mp hsuspended).1,
      haccounts.exists_function hp hsuspended⟩

def loadingArrow : List Char := "function outer(a = load()) { return () => load(a); }".toList

/-- The site stands in the inner function, so the outer one is not promoted. -/
theorem awaiting_contexts_loadingArrow : ∃ findings,
    (analyse loading (parse loadingArrow)).1 = .ok findings ∧ findings.promoted = [⟨36, 49⟩] ∧
      (∃ node ∈ (parse loadingArrow).tree.nodes, node.region = some ⟨⟨36, 49⟩, false⟩ ∧
        (node.kind.isSite = true ∧ node.span ∈ findings.suspensions ∨
          node.kind = .awaitExpr ∧ (findings.typeOf? node.span).isSome = true)) ∧
      ∀ node ∈ (parse loadingArrow).tree.nodes, node.region = some ⟨⟨0, 52⟩, false⟩ →
        node.kind.isSite = true → node.span ∉ findings.suspensions := by
  obtain ⟨findings, h, hpromoted⟩ : ∃ findings,
      (analyse loading (parse loadingArrow)).1 = .ok findings ∧
      findings.promoted = [⟨36, 49⟩] := exists_of_map_toOption (by decide +kernel)
  obtain ⟨arrow, harrow, hkind, hasync, hspan⟩ : ∃ fn ∈ (parse loadingArrow).tree.nodes,
      fn.kind.isFunction = true ∧ fn.isAsync = false ∧ fn.span = ⟨36, 49⟩ := by decide +kernel
  obtain ⟨outer, houter, hkind', hasync', hspan'⟩ : ∃ fn ∈ (parse loadingArrow).tree.nodes,
      fn.kind.isFunction = true ∧ fn.isAsync = false ∧ fn.span = ⟨0, 52⟩ := by decide +kernel
  have hcontexts := (awaiting_contexts h).2.1
  refine ⟨findings, h, hpromoted, ?_, fun node hnode hregion hsite hsuspended => ?_⟩
  · rw [← hspan]
    exact (hcontexts arrow harrow hkind hasync).mp (by simp [hpromoted, hspan])
  · have houterPromoted : outer.span ∈ findings.promoted :=
      (hcontexts outer houter hkind' hasync').mpr
        ⟨node, hnode, hspan' ▸ hregion, .inl ⟨hsite, hsuspended⟩⟩
    simp [hpromoted, hspan'] at houterPromoted

end ShellAwait
