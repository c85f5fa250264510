import Mathlib.Data.List.Perm.Subperm
import ShellAwait.Analysis.Findings
import ShellAwait.Proofs.Analysis.Discipline
import ShellAwait.Proofs.Tree.Occurrences

/-! # Traces

What a walk that is recorded goes through: the nodes it notes, nested in the functions and the
parameter lists it enters. The log of the walk, and what its functions wait for, can be read off
the trace.
-/

namespace ShellAwait.Analysis

open Text

variable {region : Option Region}

/-- A node with a deferred value that is used where it can be awaited. -/
def suspended (o : Occurrence) (d : Descriptor) : Bool :=
  o.kind.isSite && !o.awaited && d.isDeferred && !o.inParameters

def awaits (o : Occurrence) (d : Descriptor) : Bool := suspended o d || o.kind = .awaitExpr

inductive Trace where
  | nil
  | append (earlier later : Trace)
  | noted (o : Occurrence) (d : Descriptor)
  | remark (event : Event) (h : event.isRemark = true)
  | function (o : Occurrence) (inner : Trace)
  | parameters (inner : Trace)

namespace Trace

/-- Something is waited for, outside of the functions that the walk enters. -/
def waits : Trace → Bool
  | .nil => false
  | .append earlier later => earlier.waits || later.waits
  | .noted o d => awaits o d
  | .remark .. => false
  | .function .. => false
  | .parameters _ => false

def events : Trace → List Event
  | .nil => []
  | .append earlier later => later.events ++ earlier.events
  | .noted o d =>
      (if suspended o d then [.site o.span] else []) ++ [.descriptor o.kind o.span d]
  | .remark event _ => [event]
  | .function o inner =>
      (if !o.isAsync && inner.waits then [.promoted o.span] else []) ++ inner.events
  | .parameters inner => inner.events

def nodes : Trace → List (Occurrence × Descriptor)
  | .nil => []
  | .append earlier later => earlier.nodes ++ later.nodes
  | .noted o d => [(o, d)]
  | .remark .. => []
  | .function _ inner => inner.nodes
  | .parameters inner => inner.nodes

def functions : Trace → List (Occurrence × Bool)
  | .nil => []
  | .append earlier later => earlier.functions ++ later.functions
  | .noted .. => []
  | .remark .. => []
  | .function o inner => (o, inner.waits) :: inner.functions
  | .parameters inner => inner.functions

/-- Every node of the trace stands in the region that the walk is in. -/
def Placed (region : Option Region) : Trace → Prop
  | .nil => True
  | .append earlier later => earlier.Placed region ∧ later.Placed region
  | .noted o _ => o.region = region ∧ o.kind.isExpression = true
  | .remark .. => True
  | .function o inner =>
      o.region = region ∧ o.kind.isFunction = true ∧ inner.Placed (some ⟨o.span, false⟩)
  | .parameters inner =>
      ∃ owner, region = some ⟨owner, false⟩ ∧ inner.Placed (some ⟨owner, true⟩)

/-- No node is noted or entered more often than it is listed. -/
structure Uses (trace : Trace) (listed : List Occurrence) : Prop where
  nodes : (trace.nodes.map Prod.fst).Subperm listed
  functions : (trace.functions.map Prod.fst).Subperm listed

theorem Uses.mono {trace : Trace} {listed more : List Occurrence} (h : trace.Uses listed)
    (hmore : listed.Subperm more) : trace.Uses more :=
  ⟨h.nodes.trans hmore, h.functions.trans hmore⟩

theorem Uses.append {earlier later : Trace} {a b : List Occurrence} (ha : earlier.Uses a)
    (hb : later.Uses b) : (earlier.append later).Uses (a ++ b) := by
  constructor
  · simpa only [Trace.nodes, List.map_append] using ha.nodes.append hb.nodes
  · simpa only [Trace.functions, List.map_append] using ha.functions.append hb.functions

theorem exists_remarks {log later : List Event} (h : OnlyRemarks log later) :
    ∃ trace : Trace, later = trace.events ++ log ∧ trace.waits = false ∧ trace.nodes = [] ∧
      trace.functions = [] ∧ ∀ region, trace.Placed region := by
  obtain ⟨remarks, rfl, hremarks⟩ := h
  induction remarks with
  | nil => exact ⟨.nil, rfl, rfl, rfl, rfl, fun _ => trivial⟩
  | cons event more ih =>
      obtain ⟨hevent, hmore⟩ := List.forall_mem_cons.mp hremarks
      obtain ⟨trace, hlog, hwaits, hnodes, hfunctions, hplaced⟩ := ih hmore
      refine ⟨trace.append (.remark event hevent), ?_, ?_, ?_, ?_, fun region =>
        ⟨hplaced region, trivial⟩⟩
      · simp [events, hlog]
      · simp [waits, hwaits]
      · simp [nodes, hnodes]
      · simp [functions, hfunctions]

/-! ## The events of a trace -/

theorem mem_events_site {trace : Trace} {span : Span} :
    .site span ∈ trace.events ↔
      ∃ p ∈ trace.nodes, suspended p.1 p.2 = true ∧ p.1.span = span := by
  induction trace with
  | nil => simp [events, nodes]
  | append earlier later ihe ihl =>
      simp only [events, nodes, List.mem_append, ihe, ihl]
      constructor
      · rintro (⟨p, hp, h⟩ | ⟨p, hp, h⟩)
        · exact ⟨p, .inr hp, h⟩
        · exact ⟨p, .inl hp, h⟩
      · rintro ⟨p, hp | hp, h⟩
        · exact .inr ⟨p, hp, h⟩
        · exact .inl ⟨p, hp, h⟩
  | noted o d => by_cases h : suspended o d <;> simp [events, nodes, h, eq_comm (a := span)]
  | remark event h =>
      have hne : .site span ≠ event := by rintro rfl; cases h
      simp [events, nodes, hne]
  | function o inner ih =>
      by_cases h : (!o.isAsync && inner.waits) = true <;> simp [events, nodes, h, ih]
  | parameters inner ih => exact ih

theorem mem_events_descriptor {trace : Trace} {kind : NodeKind} {span : Span} {d : Descriptor} :
    .descriptor kind span d ∈ trace.events ↔
      ∃ p ∈ trace.nodes, p.1.kind = kind ∧ p.1.span = span ∧ p.2 = d := by
  induction trace with
  | nil => simp [events, nodes]
  | append earlier later ihe ihl =>
      simp only [events, nodes, List.mem_append, ihe, ihl, or_and_right, exists_or]
      exact or_comm
  | noted o e =>
      by_cases h : suspended o e <;>
        simp [events, nodes, h, eq_comm (a := kind), eq_comm (a := span), eq_comm (a := d)]
  | remark event h =>
      have hne : .descriptor kind span d ≠ event := by rintro rfl; cases h
      simp [events, nodes, hne]
  | function o inner ih =>
      by_cases h : (!o.isAsync && inner.waits) = true <;> simp [events, nodes, h, ih]
  | parameters inner ih => exact ih

theorem mem_events_promoted {trace : Trace} {span : Span} :
    .promoted span ∈ trace.events ↔
      ∃ p ∈ trace.functions, p.2 = true ∧ p.1.isAsync = false ∧ p.1.span = span := by
  induction trace with
  | nil => simp [events, functions]
  | append earlier later ihe ihl =>
      simp only [events, functions, List.mem_append, ihe, ihl]
      constructor
      · rintro (⟨p, hp, h⟩ | ⟨p, hp, h⟩)
        · exact ⟨p, .inr hp, h⟩
        · exact ⟨p, .inl hp, h⟩
      · rintro ⟨p, hp | hp, h⟩
        · exact .inr ⟨p, hp, h⟩
        · exact .inl ⟨p, hp, h⟩
  | noted o d => by_cases h : suspended o d <;> simp [events, functions, h]
  | remark event h =>
      have hne : .promoted span ≠ event := by rintro rfl; cases h
      simp [events, functions, hne]
  | function o inner ih =>
      rw [events, functions, List.mem_append, ih, List.exists_mem_cons_iff]
      refine or_congr ?_ Iff.rfl
      cases o.isAsync <;> cases inner.waits <;> simp [eq_comm (a := span)]
  | parameters inner ih => exact ih

theorem loggedTypes_append (a b : List Event) :
    loggedTypes (a ++ b) = loggedTypes a ++ loggedTypes b :=
  List.filterMap_append

theorem loggedTypes_events (trace : Trace) :
    loggedTypes trace.events = (trace.nodes.map fun p => (p.1.span, p.2)).reverse := by
  induction trace with
  | nil => rfl
  | append earlier later ihe ihl =>
      rw [events, nodes, loggedTypes_append, ihe, ihl, List.map_append, List.reverse_append]
  | noted o d => by_cases h : suspended o d <;> simp [events, nodes, h, loggedTypes]
  | remark event h => cases event <;> first | rfl | cases h
  | function o inner ih =>
      rw [events, nodes, loggedTypes_append, ih]
      split <;> rfl
  | parameters inner ih => exact ih

/-! ## What functions wait for -/

theorem exists_of_waits {trace : Trace} (hplaced : trace.Placed region) (h : trace.waits = true) :
    ∃ p ∈ trace.nodes, awaits p.1 p.2 = true ∧ p.1.region = region := by
  induction trace with
  | append earlier later ihe ihl =>
      rcases Bool.or_eq_true_iff.mp h with h | h
      · obtain ⟨p, hp, hawaits⟩ := ihe hplaced.1 h
        exact ⟨p, List.mem_append_left _ hp, hawaits⟩
      · obtain ⟨p, hp, hawaits⟩ := ihl hplaced.2 h
        exact ⟨p, List.mem_append_right _ hp, hawaits⟩
  | noted o d => exact ⟨(o, d), List.mem_singleton_self _, h, hplaced.1⟩
  | _ => cases h

/-- A function that waits has in its own body what it waits for. -/
theorem exists_of_function_waits {trace : Trace} (hplaced : trace.Placed region)
    {q : Occurrence × Bool} (hq : q ∈ trace.functions) (h : q.2 = true) :
    ∃ p ∈ trace.nodes, awaits p.1 p.2 = true ∧ p.1.region = some ⟨q.1.span, false⟩ := by
  induction trace generalizing region with
  | append earlier later ihe ihl =>
      rcases List.mem_append.mp hq with hq | hq
      · obtain ⟨p, hp, hawaits⟩ := ihe hplaced.1 hq
        exact ⟨p, List.mem_append_left _ hp, hawaits⟩
      · obtain ⟨p, hp, hawaits⟩ := ihl hplaced.2 hq
        exact ⟨p, List.mem_append_right _ hp, hawaits⟩
  | function o inner ih =>
      obtain ⟨-, -, hinner⟩ := hplaced
      rcases List.mem_cons.mp hq with rfl | hq
      · obtain ⟨p, hp, hawaits⟩ := exists_of_waits hinner h
        exact ⟨p, hp, hawaits⟩
      · exact ih hinner hq
  | parameters inner ih =>
      obtain ⟨owner, -, hinner⟩ := hplaced
      exact ih hinner hq
  | _ => exact absurd hq List.not_mem_nil

/-- A node in the body of a function is waited for by the function or, in that body, by the walk. -/
theorem waits_of_mem {trace : Trace} (hplaced : trace.Placed region) {p : Occurrence × Descriptor}
    (hp : p ∈ trace.nodes) (hawaits : awaits p.1 p.2 = true) {owner : Span}
    (howner : p.1.region = some ⟨owner, false⟩) :
    (region = some ⟨owner, false⟩ ∧ trace.waits = true) ∨
      ∃ q ∈ trace.functions, q.1.span = owner ∧ q.2 = true := by
  induction trace generalizing region with
  | append earlier later ihe ihl =>
      rcases List.mem_append.mp hp with hp | hp
      · rcases ihe hplaced.1 hp with ⟨hregion, h⟩ | ⟨q, hq, h⟩
        · exact .inl ⟨hregion, by simp [waits, h]⟩
        · exact .inr ⟨q, List.mem_append_left _ hq, h⟩
      · rcases ihl hplaced.2 hp with ⟨hregion, h⟩ | ⟨q, hq, h⟩
        · exact .inl ⟨hregion, by simp [waits, h]⟩
        · exact .inr ⟨q, List.mem_append_right _ hq, h⟩
  | noted o d =>
      obtain rfl := List.mem_singleton.mp hp
      exact .inl ⟨hplaced.1.symm.trans howner, hawaits⟩
  | function o inner ih =>
      obtain ⟨-, -, hinner⟩ := hplaced
      rcases ih hinner hp with ⟨hregion, h⟩ | ⟨q, hq, h⟩
      · have hspan : o.span = owner := by simpa using hregion
        exact .inr ⟨(o, inner.waits), List.mem_cons_self, hspan, h⟩
      · exact .inr ⟨q, List.mem_cons_of_mem _ hq, h⟩
  | parameters inner ih =>
      obtain ⟨function, -, hinner⟩ := hplaced
      rcases ih hinner hp with ⟨hregion, -⟩ | h
      · simp at hregion
      · exact .inr h
  | _ => exact absurd hp List.not_mem_nil

theorem isExpression_of_mem {trace : Trace} (hplaced : trace.Placed region)
    {p : Occurrence × Descriptor} (hp : p ∈ trace.nodes) : p.1.kind.isExpression = true := by
  induction trace generalizing region with
  | append earlier later ihe ihl =>
      rcases List.mem_append.mp hp with hp | hp
      · exact ihe hplaced.1 hp
      · exact ihl hplaced.2 hp
  | noted o d =>
      obtain rfl := List.mem_singleton.mp hp
      exact hplaced.2
  | function o inner ih => exact ih hplaced.2.2 hp
  | parameters inner ih => exact ih hplaced.choose_spec.2 hp
  | _ => exact absurd hp List.not_mem_nil

theorem isFunction_of_mem {trace : Trace} (hplaced : trace.Placed region) {q : Occurrence × Bool}
    (hq : q ∈ trace.functions) : q.1.kind.isFunction = true := by
  induction trace generalizing region with
  | append earlier later ihe ihl =>
      rcases List.mem_append.mp hq with hq | hq
      · exact ihe hplaced.1 hq
      · exact ihl hplaced.2 hq
  | function o inner ih =>
      rcases List.mem_cons.mp hq with rfl | hq
      · exact hplaced.2.1
      · exact ih hplaced.2.2 hq
  | parameters inner ih => exact ih hplaced.choose_spec.2 hq
  | _ => exact absurd hq List.not_mem_nil

end Trace

end ShellAwait.Analysis
