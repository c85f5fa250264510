import ShellAwait.Proofs.Grammar.Filled
import ShellAwait.Proofs.Tree.Spots

/-! # Ranges of nodes

A node begins with a significant token, because trivia stands in front of it as far out as it
starts. In a script without a problem it ends with one too, because no node ends with an empty one:
only the clauses of a loop head can be empty, and they never come last. So the range of a node is
that of its own text, and the nodes that findings refer to are told apart by it.
-/

namespace ShellAwait

namespace Token

def startsSignificant (tokens : List Token) : Bool := tokens.head?.any (!·.kind.isTrivia)

def endsSignificant (tokens : List Token) : Bool := tokens.getLast?.any (!·.kind.isTrivia)

theorem endsSignificant_append (a : List Token) {b : List Token} (h : endsSignificant b = true) :
    endsSignificant (a ++ b) = true := by
  unfold endsSignificant at h ⊢
  cases hlast : b.getLast? with
  | none => simp [hlast] at h
  | some t =>
      rw [hlast] at h
      rwa [List.getLast?_append, hlast]

end Token

/-! ## The last node in a node -/

namespace Slot

def wanted : Slot → SlotKind
  | .one wanted | .optional wanted | .many wanted => wanted

def mayBeEmpty : Slot → Bool
  | .one _ => false
  | .optional _ | .many _ => true

/-- What can come last in slots. -/
def lasts : List Slot → List SlotKind
  | [] => []
  | slot :: slots => if slots.all mayBeEmpty then slot.wanted :: lasts slots else lasts slots

theorem lasts_subset (slot : Slot) (slots : List Slot) : lasts slots ⊆ lasts (slot :: slots) := by
  rw [lasts]
  split
  · exact List.subset_cons_self ..
  · exact List.Subset.refl _

end Slot

open Slot

/-- What such a slot takes is not empty. -/
def SlotKind.isSolid : SlotKind → Bool
  | .part kind => !kind.mayBeEmpty
  | _ => true

theorem SlotKind.solid_of_suits {wanted : SlotKind} {kind : NodeKind}
    (hwanted : wanted.isSolid = true)
    (h : kind.suits wanted = true) : kind.mayBeEmpty = false := by
  cases hempty : kind.mayBeEmpty with
  | false => rfl
  | true =>
      cases wanted with
      | part other =>
          simp only [NodeKind.suits, Bool.and_eq_true, decide_eq_true_eq] at h
          simp [isSolid, ← h.2, hempty] at hwanted
      | _ => cases kind <;> cases hempty <;> cases h

theorem NodeKind.lasts_solid (kind : NodeKind) :
    ∀ wanted ∈ lasts kind.slots, wanted.isSolid = true := by
  cases kind <;> decide

theorem Fills.all_mayBeEmpty {α : Type} {suits : α → SlotKind → Bool} {slots : List Slot}
    (h : Fills suits slots []) : slots.all mayBeEmpty = true := by
  induction slots with
  | nil => rfl
  | cons slot slots ih =>
      cases h with
      | absent h | done h => exact ih h

theorem Fills.mem_lasts {α : Type} {suits : α → SlotKind → Bool} {slots : List Slot} {a : List α}
    {x : α} (h : Fills suits slots a) (hx : a.getLast? = some x) :
    ∃ wanted ∈ lasts slots, suits x wanted = true := by
  have hlater {slot : Slot} {slots : List Slot}
      (h : ∃ wanted ∈ lasts slots, suits x wanted = true) :
      ∃ wanted ∈ lasts (slot :: slots), suits x wanted = true := by
    obtain ⟨wanted, hwanted, hsuits⟩ := h
    exact ⟨wanted, lasts_subset _ _ hwanted, hsuits⟩
  have hhere {slot : Slot} {slots : List Slot} (h : slots.all mayBeEmpty = true) :
      slot.wanted ∈ lasts (slot :: slots) := by
    rw [lasts, if_pos h]
    exact List.mem_cons_self
  induction h with
  | nil => cases hx
  | absent _ ih | done _ ih => exact hlater (ih hx)
  | @one wanted _ a more hsuits hmore ih | @present wanted _ a more hsuits hmore ih =>
      cases more with
      | nil =>
          cases hx
          exact ⟨wanted, hhere hmore.all_mayBeEmpty, hsuits⟩
      | cons b more => exact hlater (ih (by rwa [List.getLast?_cons_cons] at hx))
  | @next wanted _ a more hsuits hmore ih =>
      cases more with
      | nil =>
          cases hx
          have hall := hmore.all_mayBeEmpty
          rw [List.all_cons, Bool.and_eq_true] at hall
          exact ⟨wanted, hhere hall.2, hsuits⟩
      | cons b more => exact ih (by rwa [List.getLast?_cons_cons] at hx)

namespace Tree

open Token

/-- What is known of the nodes in a script without a problem. -/
def Sturdy (tree : Tree) : Prop := tree.isNode = true → tree.Filled ∧ tree.WellShaped

theorem Sturdy.inner {kind : NodeKind} {children : List Tree} (h : (node kind children).Sturdy) :
    ∀ tree ∈ children, tree.Sturdy := by
  obtain ⟨hfilled, hshaped⟩ := h rfl
  exact fun tree htree _ => ⟨(filledAll_iff children).mp hfilled.2 tree htree,
    (wellShapedAll_iff children).mp hshaped.2 tree htree⟩

theorem Sturdy.last {kind : NodeKind} {children : List Tree} (h : (node kind children).Sturdy)
    {last : Tree} (hlast : children.getLast? = some last) : last.leaves ≠ [] := by
  cases last with
  | leaf token => exact List.cons_ne_nil _ _
  | node k inner =>
      obtain ⟨init, rfl⟩ := List.getLast?_eq_some_iff.mp hlast
      have hkinds : (kinds (init ++ [node k inner])).getLast? = some k := by
        rw [kinds_append]
        exact List.getLast?_concat
      obtain ⟨wanted, hwanted, hsuits⟩ := (h rfl).1.1.1.mem_lasts hkinds
      have hsolid := SlotKind.solid_of_suits (kind.lasts_solid wanted hwanted) hsuits
      have hshaped := (h.inner (node k inner) (by simp) rfl).2
      obtain ⟨t, ht, -⟩ := exists_leaf hsolid hshaped
      exact List.ne_nil_of_mem ht

/-! ## Laying -/

mutual

theorem endsSignificant_lay (tree : Tree) (tokens rest : List Token) (hsturdy : tree.Sturdy)
    (hleaves : tree.leaves ≠ []) (hfits : significantOnly tokens = tree.leaves ++ rest) :
    endsSignificant (leavesAll (tree.lay tokens).1) = true := by
  match tree with
  | .leaf token =>
      obtain ⟨after, hafter, -⟩ := afterTrivia_of_significant hfits
      rw [lay, hafter]
      simp [leavesAll, leaves, endsSignificant, isTrivia_of_afterTrivia hafter]
  | .node kind children =>
      have hne : children ≠ [] := by
        rintro rfl
        exact hleaves rfl
      rw [lay, leavesAll_append]
      refine endsSignificant_append _ ?_
      rw [leavesAll, leaves, leavesAll, List.append_nil]
      refine endsSignificant_layAll children (afterTrivia tokens) rest hne hsturdy.inner
        (fun last hlast => hsturdy.last hlast) ?_
      rw [significantOnly_afterTrivia, hfits, leaves]

theorem endsSignificant_layAll (trees : List Tree) (tokens rest : List Token) (hne : trees ≠ [])
    (hsturdy : ∀ tree ∈ trees, tree.Sturdy)
    (hlast : ∀ last, trees.getLast? = some last → last.leaves ≠ [])
    (hfits : significantOnly tokens = leavesAll trees ++ rest) :
    endsSignificant (leavesAll (layAll trees tokens).1) = true := by
  match trees with
  | [] => exact absurd rfl hne
  | [tree] =>
      rw [layAll, layAll, List.append_nil]
      exact endsSignificant_lay tree tokens rest (hsturdy tree List.mem_cons_self) (hlast tree rfl)
        (by rwa [leavesAll, leavesAll, List.append_nil] at hfits)
  | tree :: next :: more =>
      rw [leavesAll, List.append_assoc] at hfits
      rw [layAll, leavesAll_append]
      exact endsSignificant_append _ (endsSignificant_layAll (next :: more) (tree.lay tokens).2 rest
        (List.cons_ne_nil _ _) (fun t ht => hsturdy t (List.mem_cons_of_mem tree ht))
        (fun last h => hlast last (by rwa [List.getLast?_cons_cons]))
        (lays_lay tree tokens _ hfits).rest)

end

/-- Elements over a stream whose next significant tokens are theirs. -/
structure Over (trees : List Tree) (tokens : List Token) : Prop where
  fits : ∃ rest, significantOnly tokens = leavesAll trees ++ rest
  sturdy : ∀ tree ∈ trees, tree.Sturdy
  spelled : Spelled tokens

theorem Over.rest {tree : Tree} {trees : List Tree} {tokens : List Token}
    (h : Over (tree :: trees) tokens) : Over trees (tree.lay tokens).2 := by
  obtain ⟨rest, hfits⟩ := h.fits
  rw [leavesAll, List.append_assoc] at hfits
  have hspelled := h.spelled
  rw [← leavesAll_lay tree tokens] at hspelled
  exact ⟨⟨rest, (lays_lay tree tokens _ hfits).rest⟩,
    fun t ht => h.sturdy t (List.mem_cons_of_mem tree ht), hspelled.append.2⟩

theorem Over.inner {kind : NodeKind} {children trees : List Tree} {tokens : List Token}
    (h : Over (.node kind children :: trees) tokens) : Over children (afterTrivia tokens) := by
  obtain ⟨rest, hfits⟩ := h.fits
  rw [leavesAll, List.append_assoc] at hfits
  have hspelled := h.spelled
  rw [← leavesAll_leadingTrivia tokens] at hspelled
  exact ⟨⟨_, (significantOnly_afterTrivia tokens).trans hfits⟩,
    (h.sturdy _ List.mem_cons_self).inner, hspelled.append.2⟩

theorem descends_over : Descends fun _ => Over := ⟨Over.rest, Over.inner⟩

theorem over_read {source : List Char} (h : (parse source).fault = none) :
    Over (Grammar.read (significant (tokenize source))).done.reverse (tokenize source) := by
  obtain ⟨l, last, -, -, hreads, hread⟩ := reads_parse h
  have hsupplies : Grammar.Supplies [.many .statement] (l ++ [.leaf last]) :=
    hreads.supplies.snoc last
  have hfilled := hsupplies.filled
  rw [← hread, filledAll_iff] at hfilled
  refine ⟨⟨_, (map_token_significantFrom false (tokenize source)).symm.trans
    (Grammar.keeps_read (significant (tokenize source))).word.symm⟩, fun tree htree hnode => ?_,
    spelled_tokenize source⟩
  exact ⟨hfilled tree htree,
    Grammar.wellShaped_read ((parse_eq source).2 h) tree (List.mem_reverse.mp htree) hnode⟩

/-! ## Spots -/

/-- Trivia stands in front of a node, whether or not there is a problem. -/
theorem startsSignificant_spot {source : List Char} {spot : Spot}
    (hspot : spot ∈ (parse source).tree.spots) (htext : spot.text ≠ []) :
    startsSignificant spot.leaves = true := by
  have hany : Descends fun _ _ _ => True := ⟨fun _ => trivial, fun _ => trivial⟩
  obtain ⟨inner, -, tokens, -, hchildren, -⟩ := hany.laid_parse trivial spot hspot
  have hall := leavesAll_layAll inner (afterTrivia tokens)
  rw [← hchildren] at hall
  cases hleaves : spot.leaves with
  | nil => exact absurd (by rw [Spot.text, hleaves]; rfl) htext
  | cons t rest =>
      rw [Spot.leaves] at hleaves
      rw [hleaves, List.cons_append] at hall
      simp [startsSignificant, isTrivia_of_afterTrivia hall.symm]

theorem over_spot {source : List Char} (h : (parse source).fault = none) {spot : Spot}
    (hspot : spot ∈ (parse source).tree.spots) :
    ∃ inner tokens, (node spot.kind inner).Sturdy ∧ Over inner tokens ∧
      spot.children = (layAll inner tokens).1 := by
  obtain ⟨inner, trees, tokens, hover, hchildren, -⟩ :=
    descends_over.laid_parse (over_read h) spot hspot
  exact ⟨inner, afterTrivia tokens, hover.sturdy _ List.mem_cons_self, hover.inner, hchildren⟩

theorem endsSignificant_spot {source : List Char} (h : (parse source).fault = none) {spot : Spot}
    (hspot : spot ∈ (parse source).tree.spots) (htext : spot.text ≠ []) :
    endsSignificant spot.leaves = true := by
  obtain ⟨inner, tokens, hsturdy, hover, hchildren⟩ := over_spot h hspot
  obtain ⟨rest, hfits⟩ := hover.fits
  rw [Spot.leaves, hchildren]
  refine endsSignificant_layAll inner tokens rest ?_ hover.sturdy
    (fun last hlast => hsturdy.last hlast) hfits
  rintro rfl
  exact htext (by rw [Spot.text, Spot.leaves, hchildren]; rfl)

theorem text_ne_nil {spot : Spot} {t : Token} (ht : t ∈ spot.leaves) (htext : t.text ≠ []) :
    spot.text ≠ [] := fun hempty => htext (List.flatMap_eq_nil_iff.mp hempty t ht)

theorem mayBeEmpty_spot {source : List Char} (h : (parse source).fault = none) {spot : Spot}
    (hspot : spot ∈ (parse source).tree.spots) (htext : spot.text = []) :
    spot.kind.mayBeEmpty = true := by
  obtain ⟨inner, tokens, hsturdy, hover, hchildren⟩ := over_spot h hspot
  obtain ⟨rest, hfits⟩ := hover.fits
  have hstrip := (lays_layAll inner tokens rest hfits).strip
  have hall := leavesAll_layAll inner tokens
  rw [← hchildren] at hstrip hall
  have hspelled := hover.spelled
  rw [← hall] at hspelled
  have hshaped : (node spot.kind spot.children).WellShaped :=
    .of_strip (by rw [strip, hstrip]; exact (hsturdy rfl).2)
  cases hempty : spot.kind.mayBeEmpty with
  | true => rfl
  | false =>
      obtain ⟨t, ht, heof, herror⟩ := exists_leaf hempty hshaped
      refine absurd htext (text_ne_nil ht fun hnone => ?_)
      exact (hspelled.append.1 t ht hnone).elim herror heof

theorem nodup_spans {source : List Char} (h : (parse source).fault = none) {kinds : NodeKind → Bool}
    (hkinds : ∀ kind, kinds kind = true → kind.isKeyed = true) :
    (((parse source).tree.spots.filter (kinds ·.kind)).map Spot.span).Nodup := by
  obtain ⟨children, htree, -⟩ := wellShaped_parse h
  have hnodes := (ordered_parse h).nodup
  rw [htree, nodes, occurrences,
    List.filter_cons_of_neg (by exact Bool.eq_false_iff.mp rfl)] at hnodes
  have hpairs := map_spotsAmong children {} .script ⟨0, 0 + widthAll children⟩ 0 [] []
  have hspans : ((spotsAmong .script 0 [] [] children).filter (·.kind.isKeyed)).map Spot.span =
      ((occurrencesIn {} .script ⟨0, 0 + widthAll children⟩ 0 children).filter
        (·.kind.isKeyed)).map Occurrence.span := by
    have h := congrArg (fun pairs => (pairs.filter (·.1.isKeyed)).map Prod.snd) hpairs
    simpa only [List.filter_map, List.map_map, Function.comp_def] using h
  rw [← hspans] at hnodes
  rw [htree, spots]
  refine hnodes.sublist (List.Sublist.map _ (List.monotone_filter_right _ fun spot hspot => ?_))
  exact hkinds spot.kind hspot

/-- Every node but the root starts with a significant token, unless it is empty. Without a problem
it ends with one too, only clauses of loop heads are empty, and no two expressions, no two places of
a possible `await` and no two functions have the same range. -/
theorem ranges_tell_nodes_apart (source : List Char) :
    (∀ spot ∈ (parse source).tree.spots, spot.text ≠ [] → startsSignificant spot.leaves = true) ∧
    ((parse source).fault = none →
      (∀ spot ∈ (parse source).tree.spots,
        (spot.text ≠ [] → endsSignificant spot.leaves = true) ∧
        (spot.text = [] → spot.kind = .forInit ∨ spot.kind = .forTest ∨ spot.kind = .forUpdate)) ∧
      ∀ kinds ∈ [NodeKind.isExpression, NodeKind.isSite, NodeKind.isFunction],
        (((parse source).tree.spots.filter (kinds ·.kind)).map Spot.span).Nodup) := by
  refine ⟨fun spot hspot => startsSignificant_spot hspot, fun h => ⟨fun spot hspot => ⟨?_, ?_⟩, ?_⟩⟩
  · exact endsSignificant_spot h hspot
  · intro htext
    have hempty := mayBeEmpty_spot h hspot htext
    revert hempty
    cases spot.kind <;> decide
  · intro kinds hkinds
    refine nodup_spans h fun kind hkind => ?_
    simp only [List.mem_cons, List.not_mem_nil, or_false] at hkinds
    rcases hkinds with rfl | rfl | rfl
    · rw [NodeKind.isKeyed, hkind, Bool.true_or]
    · exact NodeKind.isKeyed_of_isSite hkind
    · exact NodeKind.isKeyed_of_isFunction hkind

/-- A loop with an empty head, and trivia at all its ends. -/
def openLoop : List Char := " for ( /* a */ ; ; ) { f ( x => x . y ) /* b */ }\n".toList

theorem ranges_tell_nodes_apart_openLoop :
    (parse openLoop).fault = none ∧
    ((parse openLoop).tree.spots.filter (·.text = [])).map Spot.kind =
      [.forInit, .forTest, .forUpdate] ∧
    (∃ spot ∈ (parse openLoop).tree.spots, spot.kind = .exprStmt ∧
      spot.text = "f ( x => x . y )".toList ∧
      startsSignificant spot.leaves = true ∧ endsSignificant spot.leaves = true) ∧
    ((parse openLoop).tree.spots.filter (·.kind.isExpression)).length = 5 ∧
    (((parse openLoop).tree.spots.filter (·.kind.isExpression)).map Spot.span).Nodup := by
  have hclean : (parse openLoop).fault = none := by decide +kernel
  have hcall : ∃ spot ∈ (parse openLoop).tree.spots, spot.kind = .exprStmt ∧
      spot.text = "f ( x => x . y )".toList := by decide +kernel
  obtain ⟨spot, hspot, hkind, htext⟩ := hcall
  have hne : spot.text ≠ [] := by
    rw [htext]
    decide
  obtain ⟨hstarts, hrest⟩ := ranges_tell_nodes_apart openLoop
  obtain ⟨hends, hapart⟩ := hrest hclean
  exact ⟨hclean, by decide +kernel,
    ⟨spot, hspot, hkind, htext, hstarts spot hspot hne, (hends spot hspot).1 hne⟩,
    by decide +kernel, hapart _ List.mem_cons_self⟩

end Tree

end ShellAwait
