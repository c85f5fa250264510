import ShellAwait.Proofs.Tree.Shape

/-! # Occurrences

The nodes of a tree in preorder, each with where it stands: the function whose body or parameter
list holds it, and whether it is the operand of an `await`. In a well-shaped tree the nodes that
findings refer to are strictly ordered by their spans, so a span names at most one of them.
-/

namespace ShellAwait

open Text

/-- A part of a function: its parameter list or its body. -/
structure Region where
  owner : Span
  inParameters : Bool
deriving DecidableEq, Repr

/-- Where a node stands. -/
structure Setting where
  /-- The innermost part of a function around the node. -/
  region : Option Region := none
  /-- The node is the operand of an `await`, through any parentheses. -/
  awaited : Bool := false
deriving DecidableEq, Repr

namespace Setting

/-- In a parameter list, with no function body in between. -/
def inParameters (around : Setting) : Bool := around.region.any Region.inParameters

/-- The setting of a child of a node. The key of a method stands outside of its function. -/
def inside (around : Setting) (kind : NodeKind) (span : Span) (child : Option NodeKind) :
    Setting where
  region :=
    if kind.isFunction then
      match child with
      | some .paramList => some ⟨span, true⟩
      | some .propName | some .computedName => around.region
      | _ => some ⟨span, false⟩
    else around.region
  awaited :=
    (kind = .awaitExpr || kind = .parenExpr && around.awaited) && child.any NodeKind.isExpression

end Setting

structure Occurrence extends Setting where
  kind : NodeKind
  span : Span
  isAsync : Bool := false
  callee : Option String := none
deriving DecidableEq, Repr

namespace Tree

/-- The first significant element is the word `async`. -/
def startsAsync (children : List Tree) : Bool :=
  match children.find? (!·.isTrivia) with
  | some (.leaf token) => token.kind == .ident && token.text == "async".toList
  | _ => false

def identifier? : List Tree → Option String
  | [] => none
  | .leaf token :: rest =>
      if token.kind = .ident then some (String.ofList token.text) else identifier? rest
  | .node .. :: rest => identifier? rest

/-- The name that the first expression among the elements is. -/
def calledName? : List Tree → Option String
  | [] => none
  | .leaf _ :: rest => calledName? rest
  | .node kind children :: rest =>
      if kind = .nameRef then identifier? children
      else if kind.isExpression then none
      else calledName? rest

def occurrence (around : Setting) (kind : NodeKind) (span : Span) (children : List Tree) :
    Occurrence where
  toSetting := around
  kind := kind
  span := span
  isAsync := kind.isFunction && startsAsync children
  callee := if kind = .callExpr then calledName? children else none

mutual

def occurrences (around : Setting) (offset : Nat) : Tree → List Occurrence
  | .leaf _ => []
  | .node kind children =>
      let span : Span := ⟨offset, offset + widthAll children⟩
      occurrence around kind span children :: occurrencesIn around kind span offset children

def occurrencesIn (around : Setting) (kind : NodeKind) (span : Span) (offset : Nat) :
    List Tree → List Occurrence
  | [] => []
  | tree :: rest =>
      tree.occurrences (around.inside kind span tree.nodeKind?) offset ++
        occurrencesIn around kind span (offset + tree.width) rest

end

def nodes (tree : Tree) : List Occurrence := tree.occurrences {} 0

/-! ## Order -/

/-- Of two nodes the first begins earlier, or begins with the second and ends later. -/
def Precedes (a b : Occurrence) : Prop := a.span.before b.span = true

theorem precedes_iff (a b : Occurrence) : Precedes a b ↔
    a.span.start < b.span.start ∨ a.span.start = b.span.start ∧ b.span.stop < a.span.stop := by
  simp [Precedes, Span.before]

/-- The nodes of a piece of text that findings refer to: ordered, not empty and inside the piece. -/
structure Ordered (occurrences : List Occurrence) (start stop : Nat) : Prop where
  pairwise : (occurrences.filter (·.kind.isKeyed)).Pairwise Precedes
  within : ∀ o ∈ occurrences, o.kind.isKeyed = true →
    start ≤ o.span.start ∧ o.span.start < o.span.stop ∧ o.span.stop ≤ stop

theorem ordered_nil (start stop : Nat) : Ordered [] start stop :=
  ⟨List.Pairwise.nil, fun _ h => absurd h List.not_mem_nil⟩

theorem Ordered.append {a b : List Occurrence} {start middle stop : Nat}
    (ha : Ordered a start middle)
    (hb : Ordered b middle stop) (hstart : start ≤ middle) (hstop : middle ≤ stop) :
    Ordered (a ++ b) start stop := by
  constructor
  · rw [List.filter_append, List.pairwise_append]
    refine ⟨ha.pairwise, hb.pairwise, ?_⟩
    intro x hx y hy
    rw [List.mem_filter] at hx hy
    have hleft := ha.within x hx.1 hx.2
    have hright := hb.within y hy.1 hy.2
    rw [precedes_iff]
    omega
  · intro o ho hkeyed
    rcases List.mem_append.mp ho with ho | ho
    · have hwithin := ha.within o ho hkeyed
      omega
    · have hwithin := hb.within o ho hkeyed
      omega

theorem Ordered.cons {o : Occurrence} {inner : List Occurrence} {start stop : Nat}
    (hinner : Ordered inner start stop) (hspan : o.span = ⟨start, stop⟩)
    (hkeyed : o.kind.isKeyed = true → start < stop ∧ ∀ i ∈ inner, i.kind.isKeyed = true →
      i.span.start = start → i.span.stop < stop) :
    Ordered (o :: inner) start stop := by
  constructor
  · rw [List.filter_cons]
    split
    · rename_i hkind
      refine List.pairwise_cons.mpr ⟨?_, hinner.pairwise⟩
      intro i hi
      rw [List.mem_filter] at hi
      have hwithin := hinner.within i hi.1 hi.2
      have hshorter := (hkeyed hkind).2 i hi.1 hi.2
      rw [precedes_iff, hspan]
      by_cases hstart : i.span.start = start
      · exact .inr ⟨hstart.symm, hshorter hstart⟩
      · exact .inl (Nat.lt_of_le_of_ne hwithin.1 (Ne.symm hstart))
    · exact hinner.pairwise
  · intro i hi hkind
    rcases List.mem_cons.mp hi with rfl | hi
    · rw [hspan]
      exact ⟨Nat.le_refl start, (hkeyed hkind).1, Nat.le_refl stop⟩
    · exact hinner.within i hi hkind

mutual

theorem ordered_occurrences (tree : Tree) (around : Setting) (offset : Nat)
    (hshape : tree.isNode = true → tree.WellShaped) (hspelled : Spelled tree.leaves) :
    Ordered (tree.occurrences around offset) offset (offset + tree.width) := by
  match tree with
  | .leaf token => exact ordered_nil _ _
  | .node kind children =>
      obtain ⟨hown, hchildren⟩ := hshape rfl
      obtain ⟨hinner, hplaced⟩ := ordered_occurrencesIn children around kind
        ⟨offset, offset + widthAll children⟩ offset
        (fun tree htree _ => (wellShapedAll_iff children).mp hchildren tree htree) hspelled
      refine hinner.cons rfl fun hkeyed => ?_
      have hbulk := Nat.le_trans (NodeKind.two_le_least hkeyed) hown.bulk
      have hpos := widthAll_pos hchildren hspelled (Nat.le_of_succ_le hbulk)
      refine ⟨by omega, fun i hi hkind hstart => ?_⟩
      obtain ⟨before, k, inner, after, rfl, hlower, hupper⟩ := hplaced i hi hkind
      have hshorter := width_lt_widthAll hchildren hspelled hbulk
      omega

theorem ordered_occurrencesIn (trees : List Tree) (around : Setting) (kind : NodeKind) (span : Span)
    (offset : Nat) (hshape : ∀ tree ∈ trees, tree.isNode = true → tree.WellShaped)
    (hspelled : Spelled (leavesAll trees)) :
    Ordered (occurrencesIn around kind span offset trees) offset (offset + widthAll trees) ∧
      ∀ o ∈ occurrencesIn around kind span offset trees, o.kind.isKeyed = true →
        ∃ before k inner after, trees = before ++ .node k inner :: after ∧
          offset + widthAll before ≤ o.span.start ∧
          o.span.stop ≤ offset + widthAll before + (node k inner).width := by
  match trees with
  | [] => exact ⟨ordered_nil _ _, fun _ h => absurd h List.not_mem_nil⟩
  | tree :: rest =>
      have hfirst := ordered_occurrences tree (around.inside kind span tree.nodeKind?) offset
        (hshape tree List.mem_cons_self) hspelled.append.1
      obtain ⟨hrest, hplaced⟩ := ordered_occurrencesIn rest around kind span (offset + tree.width)
        (fun t ht => hshape t (List.mem_cons_of_mem tree ht)) hspelled.append.2
      rw [Nat.add_assoc] at hrest
      refine ⟨hfirst.append hrest (by omega) (by simp only [widthAll]; omega), ?_⟩
      intro o ho hkeyed
      rcases List.mem_append.mp ho with ho | ho
      · have hwithin := hfirst.within o ho hkeyed
        cases tree with
        | leaf token => exact absurd ho List.not_mem_nil
        | node k inner =>
            exact ⟨[], k, inner, rest, rfl, by simp only [widthAll]; omega,
              by simp only [widthAll]; omega⟩
      · obtain ⟨before, k, inner, after, rfl, hlower, hupper⟩ := hplaced o ho hkeyed
        exact ⟨tree :: before, k, inner, after, rfl, by simp only [widthAll]; omega,
          by simp only [widthAll]; omega⟩

end

/-! ## Uniqueness -/

theorem Precedes.ne {a b : Occurrence} (h : Precedes a b) : a.span ≠ b.span := by
  intro hspan
  rw [precedes_iff, hspan] at h
  omega

theorem Ordered.nodup {occurrences : List Occurrence} {start stop : Nat}
    (h : Ordered occurrences start stop) :
    ((occurrences.filter (·.kind.isKeyed)).map Occurrence.span).Nodup :=
  List.pairwise_map.mpr (h.pairwise.imp Precedes.ne)

end Tree

end ShellAwait
