import ShellAwait.Proofs.Tree.OfScript

/-! # Spots

The nodes of a tree below its root, each with the kind of the node around it and with what follows
it. Trivia is put into a tree from the outside in, so what is known of elements that are laid
over a stream is passed on to the elements of the nodes among them, and thereby to every spot.
-/

namespace ShellAwait

open Text

/-- A node below the root of a tree. -/
structure Spot where
  around : NodeKind
  offset : Nat
  kind : NodeKind
  children : List Tree
  /-- The elements behind it in the node around it. -/
  later : List Tree
  after : List Token

namespace Spot

def span (spot : Spot) : Span := ⟨spot.offset, spot.offset + Tree.widthAll spot.children⟩

def leaves (spot : Spot) : List Token := Tree.leavesAll spot.children

def text (spot : Spot) : List Char := Token.textOf spot.leaves

end Spot

namespace Tree

mutual

def spotsAt (around : NodeKind) (offset : Nat) (later : List Tree) (after : List Token) :
    Tree → List Spot
  | .leaf _ => []
  | .node kind children =>
      ⟨around, offset, kind, children, later, after⟩ :: spotsAmong kind offset [] after children

def spotsAmong (around : NodeKind) (offset : Nat) (later : List Tree) (after : List Token) :
    List Tree → List Spot
  | [] => []
  | tree :: rest =>
      tree.spotsAt around offset (rest ++ later) (leavesAll rest ++ after) ++
        spotsAmong around (offset + tree.width) later after rest

end

def spots : Tree → List Spot
  | .leaf _ => []
  | .node kind children => spotsAmong kind 0 [] [] children

theorem spotsAmong_append (around : NodeKind) (offset : Nat) (later : List Tree)
    (after : List Token) (a b : List Tree) :
    spotsAmong around offset later after (a ++ b) =
      spotsAmong around offset (b ++ later) (leavesAll b ++ after) a ++
        spotsAmong around (offset + widthAll a) later after b := by
  induction a generalizing offset with
  | nil => rfl
  | cons tree rest ih =>
      simp only [List.cons_append, spotsAmong, leavesAll_append, List.append_assoc, ih, widthAll,
        Nat.add_assoc]

theorem spotsAmong_map_leaf (around : NodeKind) (offset : Nat) (later : List Tree)
    (after tokens : List Token) :
    spotsAmong around offset later after (tokens.map leaf) = [] := by
  induction tokens generalizing offset with
  | nil => rfl
  | cons token rest ih => exact ih _

/-! ## Spans -/

mutual

theorem map_spotsAt (tree : Tree) (setting : Setting) (around : NodeKind) (offset : Nat)
    (later : List Tree) (after : List Token) :
    (tree.spotsAt around offset later after).map (fun spot => (spot.kind, spot.span)) =
      (tree.occurrences setting offset).map fun node => (node.kind, node.span) := by
  match tree with
  | .leaf token => rfl
  | .node kind children =>
      have hinner := map_spotsAmong children setting kind ⟨offset, offset + widthAll children⟩
        offset [] after
      rw [spotsAt, occurrences, List.map_cons, List.map_cons, hinner]
      rfl

theorem map_spotsAmong (trees : List Tree) (setting : Setting) (kind : NodeKind) (span : Span)
    (offset : Nat) (later : List Tree) (after : List Token) :
    (spotsAmong kind offset later after trees).map (fun spot => (spot.kind, spot.span)) =
      (occurrencesIn setting kind span offset trees).map fun node => (node.kind, node.span) := by
  match trees with
  | [] => rfl
  | tree :: rest =>
      have hfirst := map_spotsAt tree (setting.inside kind span tree.nodeKind?) kind offset
        (rest ++ later) (leavesAll rest ++ after)
      have hrest := map_spotsAmong rest setting kind span (offset + tree.width) later after
      rw [spotsAmong, occurrencesIn, List.map_append, List.map_append, hfirst, hrest]

end

/-! ## Laying -/

mutual

theorem leavesAll_lay (tree : Tree) (tokens : List Token) :
    leavesAll (tree.lay tokens).1 ++ (tree.lay tokens).2 = tokens := by
  match tree with
  | .leaf token =>
      have hall := leavesAll_leadingTrivia tokens
      rw [lay]
      split
      · rename_i hafter
        rwa [hafter] at hall
      · rename_i next rest hafter
        rw [hafter] at hall
        simpa [leavesAll, leaves] using hall
  | .node kind children =>
      have hinner := leavesAll_layAll children (afterTrivia tokens)
      have hall := leavesAll_leadingTrivia tokens
      simp only [lay, leavesAll_append, leavesAll, leaves, List.append_nil, List.append_assoc,
        hinner]
      exact hall

theorem leavesAll_layAll (trees : List Tree) (tokens : List Token) :
    leavesAll (layAll trees tokens).1 ++ (layAll trees tokens).2 = tokens := by
  match trees with
  | [] => rfl
  | tree :: rest =>
      have hfirst := leavesAll_lay tree tokens
      have hrest := leavesAll_layAll rest (tree.lay tokens).2
      simp only [layAll, leavesAll_append, List.append_assoc, hrest]
      exact hfirst

end

/-- What holds of elements that are laid over a stream in a node of some kind, and is passed on from
there to the elements behind the first and to those in it. -/
structure Descends (P : NodeKind → List Tree → List Token → Prop) : Prop where
  rest : ∀ {around : NodeKind} {tree : Tree} {trees : List Tree} {tokens : List Token},
    P around (tree :: trees) tokens → P around trees (tree.lay tokens).2
  inner : ∀ {around kind : NodeKind} {children trees : List Tree} {tokens : List Token},
    P around (.node kind children :: trees) tokens → P kind children (afterTrivia tokens)

/-- A spot where elements are laid over a stream, with something that is known of them. -/
def LaidSpot (P : NodeKind → List Tree → List Token → Prop) (spot : Spot) : Prop :=
  ∃ inner trees tokens, P spot.around (.node spot.kind inner :: trees) tokens ∧
    spot.children = (layAll inner (afterTrivia tokens)).1 ∧
    spot.after = (layAll inner (afterTrivia tokens)).2 ∧ spot.later = (layAll trees spot.after).1

variable {P : NodeKind → List Tree → List Token → Prop}

mutual

theorem Descends.laid_lay (hP : Descends P) (tree : Tree) (trees : List Tree) (tokens : List Token)
    (around : NodeKind) (offset : Nat) (h : P around (tree :: trees) tokens) :
    ∀ spot ∈ spotsAmong around offset (layAll trees (tree.lay tokens).2).1 (tree.lay tokens).2
      (tree.lay tokens).1, LaidSpot P spot := by
  match tree with
  | .leaf token =>
      have hnone (later : List Tree) : spotsAmong around offset later ((leaf token).lay tokens).2
          ((leaf token).lay tokens).1 = [] := by
        rw [lay]
        split
        · exact spotsAmong_map_leaf ..
        · rw [leadingTrivia, ← List.map_singleton, ← List.map_append]
          exact spotsAmong_map_leaf ..
      rw [hnone]
      exact fun spot hspot => absurd hspot List.not_mem_nil
  | .node kind children =>
      have hinner := Descends.laid_layAll hP children (afterTrivia tokens) kind
        (offset + widthAll (leadingTrivia tokens)) (hP.inner h)
      rw [lay, spotsAmong_append, leadingTrivia, spotsAmong_map_leaf]
      intro spot hspot
      simp only [List.nil_append, spotsAmong, spotsAt, leavesAll, List.append_nil,
        List.mem_cons] at hspot
      rcases hspot with rfl | hspot
      · exact ⟨children, trees, tokens, h, rfl, rfl, rfl⟩
      · exact hinner spot hspot

theorem Descends.laid_layAll (hP : Descends P) (trees : List Tree) (tokens : List Token)
    (around : NodeKind) (offset : Nat) (h : P around trees tokens) :
    ∀ spot ∈ spotsAmong around offset [] (layAll trees tokens).2 (layAll trees tokens).1,
      LaidSpot P spot := by
  match trees with
  | [] => exact fun spot hspot => absurd hspot List.not_mem_nil
  | tree :: rest =>
      intro spot hspot
      rw [layAll, spotsAmong_append, leavesAll_layAll, List.append_nil] at hspot
      rcases List.mem_append.mp hspot with hspot | hspot
      · exact Descends.laid_lay hP tree rest tokens around offset h spot hspot
      · exact Descends.laid_layAll hP rest _ around _ (hP.rest h) spot hspot

end

theorem Descends.laid_parse (hP : Descends P) {source : List Char}
    (h : P .script (Grammar.read (Token.significant (Token.tokenize source))).done.reverse
      (Token.tokenize source)) :
    ∀ spot ∈ (parse source).tree.spots, LaidSpot P spot := by
  have hspots := hP.laid_layAll _ _ .script 0 h
  have hleaves := leaves_parse source
  have hall := leavesAll_layAll
    (Grammar.read (Token.significant (Token.tokenize source))).done.reverse (Token.tokenize source)
  rw [(parse_eq source).1, leaves] at hleaves
  rw [(parse_eq source).1, spots]
  -- All tokens are in the tree, so none is left over.
  rwa [List.append_right_eq_self.mp (hall.trans hleaves.symm)] at hspots

end Tree

end ShellAwait
