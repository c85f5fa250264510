import ShellAwait.Proofs.Analysis.Suspensions
import ShellAwait.Proofs.Analysis.Tallies.OfScript
import ShellAwait.Proofs.Grammar.Filled
import ShellAwait.Proofs.Script.Complete

/-! # The sites that have a descriptor

A text that is read without fault has all its accesses and calls in its script. The notes of one of
them and the places where it is missed add up to its occurrences, and a span names one node at most. So
it has a descriptor exactly if the walk of the script does not miss it.
-/

namespace ShellAwait

open Text Script

namespace Analysis

theorem notesOf_pos {span : Span} {log : List Event} :
    0 < notesOf span log ↔ ∃ kind d, kind.isSite = true ∧ .descriptor kind span d ∈ log := by
  rw [notesOf, List.countP_pos_iff]
  constructor
  · rintro ⟨event, hevent, h⟩
    cases event with
    | descriptor kind place d =>
        simp only [Event.notesSite, Bool.and_eq_true, decide_eq_true_eq] at h
        obtain ⟨hsite, rfl⟩ := h
        exact ⟨kind, d, hsite, hevent⟩
    | _ => cases h
  · rintro ⟨kind, d, hsite, hevent⟩
    exact ⟨_, hevent, by simp [Event.notesSite, hsite]⟩

theorem sitesAt_pos {span : Span} {listed : List Occurrence} :
    0 < sitesAt span listed ↔ ∃ o ∈ listed, o.kind.isSite = true ∧ o.span = span := by
  simp [sitesAt, List.countP_pos_iff]

theorem Distinct.sitesAt_le_one {listed : List Occurrence} (h : Distinct listed) (span : Span) :
    sitesAt span listed ≤ 1 := by
  have hcount := List.nodup_iff_count_le_one.mp h span
  rw [List.count, List.countP_map, List.countP_filter] at hcount
  refine Nat.le_trans (List.countP_mono_left fun o _ ho => ?_) hcount
  simp only [Bool.and_eq_true, decide_eq_true_eq] at ho
  simp [ho.2, NodeKind.isKeyed_of_isSite ho.1]

theorem Distinct.sitesAt_pos_iff {listed picked : List Occurrence} (h : Distinct listed)
    (hpicked : picked ⊆ listed) {o : Occurrence} (ho : o ∈ listed) (hsite : o.kind.isSite = true) :
    0 < sitesAt o.span picked ↔ o ∈ picked := by
  rw [sitesAt_pos]
  constructor
  · rintro ⟨p, hp, hother, hspan⟩
    have hsame : p = o := h.eq (hpicked hp) ho (NodeKind.isKeyed_of_isSite hother)
      (NodeKind.isKeyed_of_isSite hsite) hspan
    exact hsame ▸ hp
  · exact fun hp => ⟨o, hp, hsite, rfl⟩

theorem Accounts.notesOf_pos {trace : Trace} {tree : Tree} {findings : Findings}
    (h : Accounts trace tree findings) {o : Occurrence} (ho : o ∈ tree.nodes)
    (hsite : o.kind.isSite = true) :
    0 < notesOf o.span trace.events ↔ (findings.typeOf? o.span).isSome = true := by
  rw [Analysis.notesOf_pos, Option.isSome_iff_exists]
  constructor
  · rintro ⟨kind, d, -, hevent⟩
    obtain ⟨p, hp, -, hspan, hd⟩ := Trace.mem_events_descriptor.mp hevent
    exact ⟨d, (h.typed _ _).mpr ⟨p, hp, hspan, hd⟩⟩
  · rintro ⟨d, hd⟩
    obtain ⟨p, hp, hspan, hd⟩ := (h.typed _ _).mp hd
    have hsame : p.1 = o := h.distinct.eq (h.uses.nodes.subset (List.mem_map_of_mem hp)) ho
      (isKeyed_of_mem_nodes h.placed (List.mem_map_of_mem hp)) (NodeKind.isKeyed_of_isSite hsite)
      hspan
    exact ⟨o.kind, d, hsite,
      Trace.mem_events_descriptor.mpr ⟨p, hp, congrArg Occurrence.kind hsame, hspan, hd⟩⟩

end Analysis

open Analysis

theorem mem_nodes_parse {source : List Char} (hfault : (parse source).fault = none)
    {o : Occurrence} (ho : o ∈ (parse source).tree.nodes) (hsite : o.kind.isSite = true) :
    o ∈ stmtNodesAll {} (ofTree (parse source).tree) := by
  obtain ⟨children, htree, -⟩ := Tree.wellShaped_parse hfault
  have hfilled := Tree.filled_parse hfault
  rw [htree] at hfilled ho ⊢
  exact mem_nodes_ofTree hfilled hsite ho

/-- An access or a call of a text has a descriptor exactly if the walk of the script does not
miss it. -/
theorem typed_iff_not_missed {catalogue : Catalogue} {source : List Char} {findings : Findings}
    (h : (analyse catalogue (parse source)).1 = .ok findings) {o : Occurrence}
    (ho : o ∈ (parse source).tree.nodes) (hsite : o.kind.isSite = true) :
    (findings.typeOf? o.span).isSome = true ↔
      o ∉ stmtMissedAll {} (ofTree (parse source).tree) := by
  obtain ⟨hfault, -⟩ := run_of_analyse h
  obtain ⟨v, s, trace, hrun, hlog, haccounts⟩ := exists_trace h
  have hdistinct := distinct_parse hfault
  have hnodes := nodes_parse hfault
  have hlisted := mem_nodes_parse hfault ho hsite
  have htallies := tallies_ofScript catalogue (ofTree (parse source).tree)
  generalize ofTree (parse source).tree = script at *
  have hcount : notesOf o.span trace.events + sitesAt o.span (stmtMissedAll {} script) =
      sitesAt o.span (stmtNodesAll {} script) := by
    rw [← hlog]
    exact htallies.count o.span (s := { bindings := Bindings.ofCatalogue catalogue }) rfl hrun
  -- The script lists the site once, so it is either noted or missed.
  have honce : sitesAt o.span (stmtNodesAll {} script) ≤ 1 :=
    Nat.le_trans (hnodes.countP_le _) (hdistinct.sitesAt_le_one o.span)
  rw [← hdistinct.sitesAt_pos_iff hnodes.subset ho hsite] at hlisted
  rw [← haccounts.notesOf_pos ho hsite,
    ← hdistinct.sitesAt_pos_iff (List.Subset.trans htallies.subset hnodes.subset) ho hsite]
  omega

def headValue : List Char := "for (var x = f() in xs) { g(); }".toList

/-- The value in the head of the loop is missed, and the call in its body is not. -/
theorem typed_iff_not_missed_headValue : ∃ findings,
    (analyse loading (parse headValue)).1 = .ok findings ∧
      (∃ o ∈ (parse headValue).tree.nodes, o.kind = .callExpr ∧ o.span = ⟨13, 16⟩ ∧
        ¬(findings.typeOf? o.span).isSome = true) ∧
      ∃ o ∈ (parse headValue).tree.nodes, o.kind = .callExpr ∧ o.span = ⟨26, 29⟩ ∧
        (findings.typeOf? o.span).isSome = true := by
  obtain ⟨findings, h, -⟩ : ∃ findings, (analyse loading (parse headValue)).1 = .ok findings ∧
      findings.toMarks = ⟨[], []⟩ := exists_of_map_toOption (by decide +kernel)
  obtain ⟨⟨o, ho, hkind, hspan, hmissed⟩, p, hp, hpkind, hpspan, hpmissed⟩ :
      (∃ o ∈ (parse headValue).tree.nodes, o.kind = .callExpr ∧ o.span = ⟨13, 16⟩ ∧
        o ∈ stmtMissedAll {} (ofTree (parse headValue).tree)) ∧
      ∃ o ∈ (parse headValue).tree.nodes, o.kind = .callExpr ∧ o.span = ⟨26, 29⟩ ∧
        o ∉ stmtMissedAll {} (ofTree (parse headValue).tree) := by decide +kernel
  have hsite : o.kind.isSite = true := hkind ▸ rfl
  have hpsite : p.kind.isSite = true := hpkind ▸ rfl
  exact ⟨findings, h,
    ⟨o, ho, hkind, hspan, fun htyped => (typed_iff_not_missed h ho hsite).mp htyped hmissed⟩,
    p, hp, hpkind, hpspan, (typed_iff_not_missed h hp hpsite).mpr hpmissed⟩

end ShellAwait
