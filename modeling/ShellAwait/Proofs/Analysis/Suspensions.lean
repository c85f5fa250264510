import ShellAwait.Proofs.Analysis.Findings

/-! # Where something is awaited

The suspension sites of a script, said of its tree and its descriptors: which nodes they are, and
that each stands outside of all functions or in the body of a function that may await.
-/

namespace ShellAwait

open Text Analysis

variable {catalogue : Catalogue} {source : List Char} {findings : Findings}

namespace Analysis.Accounts

variable {trace : Trace} {tree : Tree}

theorem mem_nodes (h : Accounts trace tree findings) {p : Occurrence × Descriptor}
    (hp : p ∈ trace.nodes) : p.1 ∈ tree.nodes := h.uses.nodes.subset (List.mem_map_of_mem hp)

theorem mem_functions (h : Accounts trace tree findings) {q : Occurrence × Bool}
    (hq : q ∈ trace.functions) :
    q.1 ∈ tree.nodes := h.uses.functions.subset (List.mem_map_of_mem hq)

theorem isKeyed_node (h : Accounts trace tree findings) {p : Occurrence × Descriptor}
    (hp : p ∈ trace.nodes) : p.1.kind.isKeyed = true :=
  isKeyed_of_mem_nodes h.placed (List.mem_map_of_mem hp)

theorem isKeyed_function (h : Accounts trace tree findings) {q : Occurrence × Bool}
    (hq : q ∈ trace.functions) : q.1.kind.isKeyed = true :=
  isKeyed_of_mem_functions h.placed (List.mem_map_of_mem hq)

theorem node_eq (h : Accounts trace tree findings) {p : Occurrence × Descriptor}
    (hp : p ∈ trace.nodes) {node : Occurrence} (hnode : node ∈ tree.nodes)
    (hkeyed : node.kind.isKeyed = true) (hspan : p.1.span = node.span) : p.1 = node :=
  h.distinct.eq (h.mem_nodes hp) hnode (h.isKeyed_node hp) hkeyed hspan

theorem function_eq (h : Accounts trace tree findings) {q : Occurrence × Bool}
    (hq : q ∈ trace.functions) {fn : Occurrence} (hfn : fn ∈ tree.nodes)
    (hkind : fn.kind.isFunction = true) (hspan : q.1.span = fn.span) : q.1 = fn :=
  h.distinct.eq (h.mem_functions hq) hfn (h.isKeyed_function hq)
    (NodeKind.isKeyed_of_isFunction hkind) hspan

theorem mem_of_typeOf (h : Accounts trace tree findings) {node : Occurrence}
    (hnode : node ∈ tree.nodes)
    (hkeyed : node.kind.isKeyed = true) {d : Descriptor}
    (hd : findings.typeOf? node.span = some d) :
    (node, d) ∈ trace.nodes := by
  obtain ⟨p, hp, hspan, rfl⟩ := (h.typed node.span d).mp hd
  rwa [← h.node_eq hp hnode hkeyed hspan]

theorem mem_suspensions (h : Accounts trace tree findings) {node : Occurrence}
    (hnode : node ∈ tree.nodes)
    (hkeyed : node.kind.isKeyed = true) : node.span ∈ findings.suspensions ↔
      ∃ d, (node, d) ∈ trace.nodes ∧ Analysis.suspended node d = true := by
  rw [h.suspended]
  constructor
  · rintro ⟨p, hp, hsuspended, hspan⟩
    have hsame := h.node_eq hp hnode hkeyed hspan
    exact ⟨p.2, by rwa [← hsame], by rwa [← hsame]⟩
  · rintro ⟨d, hd, hsuspended⟩
    exact ⟨(node, d), hd, hsuspended, rfl⟩

end Analysis.Accounts

theorem Analysis.suspended_iff {o : Occurrence} {d : Descriptor} : suspended o d = true ↔
    o.kind.isSite = true ∧ (∃ inner, d = .deferred inner) ∧ o.awaited = false ∧
      o.inParameters = false := by
  have hdeferred : d.isDeferred = true ↔ ∃ inner, d = .deferred inner := by
    cases d <;> simp [Descriptor.isDeferred]
  simp only [suspended, Bool.and_eq_true, Bool.not_eq_true', hdeferred]
  constructor
  · rintro ⟨⟨⟨hsite, hawaited⟩, hinner⟩, hparameters⟩
    exact ⟨hsite, hinner, hawaited, hparameters⟩
  · rintro ⟨hsite, hinner, hawaited, hparameters⟩
    exact ⟨⟨⟨hsite, hawaited⟩, hinner⟩, hparameters⟩

/-- The suspension sites of a script are the accesses and calls whose value is deferred, unless
the text awaits them or they stand in a parameter list. -/
theorem mem_suspensions_iff (h : (analyse catalogue (parse source)).1 = .ok findings)
    (span : Span) :
    span ∈ findings.suspensions ↔ ∃ node ∈ (parse source).tree.nodes, node.span = span ∧
      node.kind.isSite = true ∧ (∃ inner, findings.typeOf? span = some (.deferred inner)) ∧
      node.awaited = false ∧ node.inParameters = false := by
  obtain ⟨trace, haccounts⟩ := exists_accounts h
  constructor
  · intro hspan
    obtain ⟨⟨node, d⟩, hp, hsuspended, rfl⟩ := (haccounts.suspended span).mp hspan
    obtain ⟨hsite, ⟨inner, rfl⟩, hawaited, hparameters⟩ := suspended_iff.mp hsuspended
    have htyped : findings.typeOf? node.span = some (.deferred inner) :=
      (haccounts.typed node.span (.deferred inner)).mpr ⟨_, hp, rfl, rfl⟩
    exact ⟨node, haccounts.mem_nodes hp, rfl, hsite, ⟨inner, htyped⟩, hawaited, hparameters⟩
  · rintro ⟨node, hnode, rfl, hsite, ⟨inner, htyped⟩, hawaited, hparameters⟩
    have hkeyed := NodeKind.isKeyed_of_isSite hsite
    have hnoted := haccounts.mem_of_typeOf hnode hkeyed htyped
    exact (haccounts.mem_suspensions hnode hkeyed).mpr
      ⟨_, hnoted, suspended_iff.mpr ⟨hsite, ⟨inner, rfl⟩, hawaited, hparameters⟩⟩

/-! A small catalogue: the only name is a function whose result has to be awaited. -/

def loading : Catalogue := ⟨⟨[("load", ⟨true, .callable (.deferred .unknown)⟩)]⟩, ⟨[]⟩⟩

theorem exists_of_map_toOption {ε α β : Type} {result : Except ε α} {f : α → β} {b : β}
    (h : result.toOption.map f = some b) : ∃ a, result = .ok a ∧ f a = b := by
  cases result with
  | error e => cases h
  | ok a => exact ⟨a, rfl, Option.some.inj h⟩

def nestedLoads : List Char := "function f(x = load()) { return await load(load(x)); }".toList

/-- Of three calls with a deferred value only the inner one in the body is a site. -/
theorem mem_suspensions_nestedLoads : ∃ findings,
    (analyse loading (parse nestedLoads)).1 = .ok findings ∧ findings.suspensions = [⟨43, 50⟩] ∧
      ∃ node ∈ (parse nestedLoads).tree.nodes, node.span = ⟨43, 50⟩ ∧ node.kind.isSite = true ∧
        (∃ inner, findings.typeOf? ⟨43, 50⟩ = some (.deferred inner)) ∧
        node.awaited = false ∧ node.inParameters = false := by
  obtain ⟨findings, h, hspans⟩ : ∃ findings,
      (analyse loading (parse nestedLoads)).1 = .ok findings ∧
      findings.suspensions = [⟨43, 50⟩] := exists_of_map_toOption (by decide +kernel)
  exact ⟨findings, h, hspans, (mem_suspensions_iff h ⟨43, 50⟩).mp (by simp [hspans])⟩

end ShellAwait
