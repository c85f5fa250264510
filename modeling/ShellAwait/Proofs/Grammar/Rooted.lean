import ShellAwait.Proofs.Tree.Ranges
import ShellAwait.Proofs.Tree.Trivia

/-! # Phrases in phrases

What is read as one phrase consists of phrases: every node in it is itself read by the part of the
grammar that makes nodes of its kind, in front of the tokens that follow it. So whatever the grammar
says of a part is true of every node of a script without a problem, wherever it stands.
-/

namespace ShellAwait

namespace Grammar

open Phrase

/-- Some node comes among phrases. -/
def hasNode (l : List Phrase) : Bool := !(Tree.kinds (trees l)).isEmpty

theorem Supplies.hasNode {wanted : SlotKind} {v : Phrase} (h : Supplies [.one wanted] [v])
    (t : Lookahead) (l : List Phrase) : hasNode (.leaf t :: v :: l) = true := by
  obtain ⟨kind, children, htree, -⟩ := h.exists_node
  simp [Grammar.hasNode, htree, Phrase.tree, Tree.kinds, Tree.nodeKind?]

/-- Nodes that are only read as a piece of a larger phrase, or can be. -/
def isMinor : NodeKind → Bool
  | .param | .paramList | .identPat | .memberName | .nameRef | .declarator | .forInit | .forTest
  | .forUpdate | .switchCase => true
  | _ => false

namespace Part

/-- In the head of a loop. That of a loop over a value is no node, but the body comes after it. -/
def inHead (around : NodeKind) (later : List Phrase) : Bool :=
  around = .forInit || around = .forInStmt && hasNode later

/-- The parts that make nodes of a kind, in front of the elements `later` of the node around. -/
def Makes (around : NodeKind) (later : List Phrase) (part : Part) : NodeKind → Prop
  | .assignPat => part = .withDefault
  | .restPat => part = .item .patternElement ∨ part = .item .patternEntry
  | .patProp => part = .item .patternEntry
  | .spreadElement => part = .item .element ∨ part = .item .property
  | .property | .method => part = .item .property
  | .propName => part = .key
  | .literal | .thisExpr | .functionExpr => part = .category .primary
  | .newExpr => part = .category .newExpression
  | .memberExpr | .indexExpr | .callExpr | .taggedTemplate => ∃ calls, part = .chain calls
  | .awaitExpr | .prefixExpr | .postfixExpr => part = .category .unary
  | .binaryExpr => ∃ floor, part = .operands floor
  | .arrow | .condExpr | .assignExpr => part = .assignment
  | .sequenceExpr => part = .expression
  | .varDecl => part = .statement ∨ part = .headFirst ∧ inHead around later = true
  | .functionDecl | .exprStmt | .emptyStmt | .returnStmt | .ifStmt | .whileStmt | .doWhileStmt
  | .forStmt | .forInStmt | .breakStmt | .continueStmt | .throwStmt | .tryStmt | .switchStmt =>
      part = .statement
  | .elseClause => part = .otherwise
  | .catchClause => part = .catching
  | .finallyClause => part = .ending
  | kind => ∃ what, part = .group what ∧ what.kind? = some kind

theorem makes_group {around kind : NodeKind} {later : List Phrase} {what : Enclosure}
    (h : what.kind? = some kind) : Makes around later (.group what) kind := by
  cases what <;> cases h <;> exact ⟨_, rfl, rfl⟩

theorem makes_loop {around kind : NodeKind} {later l : List Phrase} {n : Bool}
    {rest : List Lookahead} (h : Reads (.head kind) n l rest) :
    Makes around later .statement kind := by
  cases h <;> rfl

theorem makes_jump {around kind : NodeKind} {later : List Phrase} {t : TokenKind}
    (h : jumpKind? t = some kind) : Makes around later .statement kind := by
  unfold jumpKind? at h
  split at h <;> cases h <;> rfl

/-- Where a part stands: the head of a loop is in the loop. -/
def stands (around : NodeKind) (later : List Phrase) : Part → Bool
  | .headFirst => inHead around later
  | .head kind => around = kind
  | _ => true

theorem stands_inner (around : NodeKind) (later : List Phrase) (what : Enclosure) :
    what.inner.stands around later = true := by
  cases what <;> rfl

end Part

/-- A node is read by the part that makes nodes of its kind. -/
def ReadAs (around : NodeKind) (later : List Phrase) (kind : NodeKind) (parts : List Phrase)
    (rest : List Lookahead) : Prop :=
  isMinor kind = true ∨
    ∃ part n, Part.Makes around later part kind ∧ Reads part n [.node kind parts] rest

namespace Phrase

mutual

/-- Every node in a phrase is read in front of what follows it. -/
def Rooted (around : NodeKind) (later : List Phrase) (rest : List Lookahead) : Phrase → Prop
  | .leaf _ => True
  | .node kind parts => ReadAs around later kind parts rest ∧ RootedAll kind [] rest parts

def RootedAll (around : NodeKind) (later : List Phrase) (rest : List Lookahead) :
    List Phrase → Prop
  | [] => True
  | p :: more =>
      p.Rooted around (more ++ later) (words more ++ rest) ∧ RootedAll around later rest more

end

namespace RootedAll

variable {around kind : NodeKind} {later : List Phrase} {rest : List Lookahead}
  {a b l : List Phrase} {p : Phrase}

theorem nil : RootedAll around later rest [] := True.intro

theorem leaf (t : Lookahead) (h : RootedAll around later rest l) :
    RootedAll around later rest (.leaf t :: l) := ⟨True.intro, h⟩

theorem cons (hp : RootedAll around (l ++ later) (words l ++ rest) [p])
    (h : RootedAll around later rest l) : RootedAll around later rest (p :: l) := ⟨hp.1, h⟩

theorem first {ahead : List Lookahead} (hp : RootedAll around (l ++ later) ahead [p])
    (hahead : ahead = words l ++ rest) (h : RootedAll around later rest l) :
    RootedAll around later rest (p :: l) := cons (hahead ▸ hp) h

theorem append (ha : RootedAll around (b ++ later) (words b ++ rest) a)
    (hb : RootedAll around later rest b) : RootedAll around later rest (a ++ b) := by
  induction a with
  | nil => exact hb
  | cons p a ih =>
      have hfirst := ha.1
      rw [← List.append_assoc, ← List.append_assoc, ← words_append] at hfirst
      exact ⟨hfirst, ih ha.2⟩

theorem snoc {t : Lookahead} (h : RootedAll around (.leaf t :: later) (t :: rest) l) :
    RootedAll around later rest (l ++ [.leaf t]) := h.append (nil.leaf t)

theorem minor (hkind : isMinor kind = true) (h : RootedAll kind [] rest l) :
    RootedAll around later rest [.node kind l] := ⟨⟨.inl hkind, h⟩, True.intro⟩

theorem node {part : Part} {n : Bool} (hread : Reads part n [.node kind l] rest)
    (hmakes : Part.Makes around later part kind) (h : RootedAll kind [] rest l) :
    RootedAll around later rest [.node kind l] :=
  ⟨⟨.inr ⟨part, n, hmakes, hread⟩, h⟩, True.intro⟩

theorem of_optional {kind : TokenKind} (h : Optional kind l) : RootedAll around later rest l := by
  rcases h with rfl | ⟨t, -, rfl⟩
  · exact nil
  · exact nil.leaf t

theorem of_modifier (h : Modifier l) : RootedAll around later rest l := of_optional h.optional

end RootedAll

end Phrase

theorem Reads.rooted {part : Part} {n : Bool} {l : List Phrase} {rest : List Lookahead}
    (h : Reads part n l rest) (around : NodeKind) (later : List Phrase)
    (hstands : part.stands around later = true) : RootedAll around later rest l := by
  -- A node is read in the way that it has been read here.
  have hread := h
  induction h generalizing around later with
  | enclosed _ _ _ hl ih => exact (ih _ _ (Part.stands_inner ..) hl).snoc.leaf _
  | group hkind hl ih => exact .node hread (Part.makes_group hkind) (ih _ _ rfl hl)
  -- Lists
  | noItem | noPart | noComma | noStatement | noDeclarator | noCase | noInitializer | noElse
  | noClause | ended => exact .nil
  | semicolon => exact .leaf _ .nil
  | hole _ hl ih | templateText _ hl ih | initializer _ hl ih => exact (ih _ _ rfl hl).leaf _
  | nextItem hp _ hl ihp ihl => exact (ihp _ _ rfl hp).cons ((ihl _ _ rfl hl).leaf _)
  | interpolation hp hl ihp ihl | statement hp hl ihp ihl | caughtEnding hp hl ihp ihl =>
      exact (ihp _ _ rfl hp).cons (ihl _ _ rfl hl)
  | comma _ hp hl ihp ihl => exact ((ihp _ _ rfl hp).cons (ihl _ _ rfl hl)).leaf _
  | function ha _ _ hm _ hp hb ihp ihb =>
      exact .append (.of_modifier ha) (.leaf _ (.append (.of_optional hm)
        ((ihp _ _ rfl hp).cons (ihb _ _ rfl hb))))
  -- Nodes that only stand in others
  | name | reference => exact .minor rfl (.leaf _ .nil)
  | arrowName => exact .minor rfl (.minor rfl (.minor rfl (.leaf _ .nil)))
  | parameter hd hp hi ihp ihi =>
      exact .minor rfl (.append (.of_optional hd) ((ihp _ _ rfl hp).cons (ihi _ _ rfl hi)))
  | declaration _ hp hi hl ihp ihi ihl | declarator _ hp hi hl ihp ihi ihl =>
      exact .leaf _
        (.cons (.minor rfl (.first (ihp _ _ rfl hp) (by simp) (ihi _ _ rfl hi))) (ihl _ _ rfl hl))
  | clauses _ hx _ hy ihx ihy =>
      exact .leaf _
        (.first (.minor rfl (ihx _ _ rfl hx)) (by simp) (.leaf _ (.minor rfl (ihy _ _ rfl hy))))
  | headOpen hl ih => exact .cons (.minor rfl .nil) (ih _ _ rfl hl)
  | headSet hp hl ihp ihl => exact .cons (.minor rfl (ihp _ _ rfl hp)) (ihl _ _ rfl hl)
  | headOf hp _ _ hv ihp ihv | headIn hp _ hv ihp ihv =>
      cases of_decide_eq_true hstands
      exact .cons (ihp _ _ (hv.supplies.hasNode _ _) hp) ((ihv _ _ rfl hv).leaf _)
  | case _ hv _ hl hm ihv ihl ihm =>
      exact .cons (.minor rfl (.leaf _ (.first (ihv _ _ rfl hv) (by simp)
        ((ihl _ _ rfl hl).leaf _)))) (ihm _ _ rfl hm)
  | defaultCase _ _ hl hm ihl ihm =>
      exact .cons (.minor rfl (.leaf _ ((ihl _ _ rfl hl).leaf _))) (ihm _ _ rfl hm)
  -- Nodes around one token or one part
  | plainKey | literal | this | empty => exact .node hread rfl (.leaf _ .nil)
  | shorthand => exact .node hread rfl (.minor rfl (.leaf _ .nil))
  | patternName hp _ _ ih | functionValue hp ih | functionStatement hp ih =>
      exact .node hread rfl (ih _ _ rfl hp)
  | headDeclaration hd ih => exact .node hread (.inr ⟨rfl, hstands⟩) (ih _ _ rfl hd)
  -- Nodes with a token in front
  | constructBare _ hp _ ih | await _ hp ih | lead _ hp ih | otherwise _ hp ih | noResult _ hp ih
  | catching _ hp ih | ending _ hp ih => exact .node hread rfl ((ih _ _ rfl hp).leaf _)
  | restElement hitem _ hp ih | spread hitem _ hp ih =>
      exact .node hread (hitem.imp (congrArg _) (congrArg _)) ((ih _ _ rfl hp).leaf _)
  | jump hkind he ih => exact .node hread (Part.makes_jump hkind) ((ih _ _ rfl he).leaf _)
  | construct _ hp hq ihp ihq | attempt _ hp hq ihp ihq | result _ hp _ hq ihp ihq
  | throw _ hp _ hq ihp ihq =>
      exact .node hread rfl (.leaf _ ((ihp _ _ rfl hp).cons (ihq _ _ rfl hq)))
  | whileLoop _ hp hq ihp ihq | catchingAs _ hp hq ihp ihq | switch _ hp hq ihp ihq =>
      exact .node hread rfl (.leaf _ ((ihp _ _ rfl hp).append (ihq _ _ rfl hq)))
  | choice _ hc hp he ihc ihp ihe =>
      exact .node hread rfl
        (.leaf _ ((ihc _ _ rfl hc).append ((ihp _ _ rfl hp).cons (ihe _ _ rfl he))))
  | doWhile _ hp _ hc he _ ihp ihc =>
      exact .node hread rfl
        (.leaf _ (.cons (ihp _ _ rfl hp) (.leaf _ ((ihc _ _ rfl hc).append (.of_optional he)))))
  | loop _ _ hh _ hp ihh ihp =>
      exact .node hread (Part.makes_loop hh)
        (.leaf _ (.leaf _ ((ihh _ _ (decide_eq_true rfl) hh).append ((ihp _ _ rfl hp).leaf _))))
  -- Nodes that begin with a part
  | default hp _ hq ihp ihq | patternKey hp _ hq ihp ihq | keyValue hp _ hq ihp ihq
  | assign hp _ _ hq ihp ihq =>
      exact .node hread rfl ((ihp _ _ rfl hp).cons ((ihq _ _ rfl hq).leaf _))
  | join hp _ _ hq ihp ihq =>
      exact .node hread ⟨_, rfl⟩ ((ihp _ _ rfl hp).cons ((ihq _ _ rfl hq).leaf _))
  | conditional hp _ _ ha _ hb ihp iha ihb =>
      exact .node hread rfl (.first (ihp _ _ rfl hp) (by simp)
        (.leaf _ ((iha _ _ rfl ha).cons ((ihb _ _ rfl hb).leaf _))))
  | tagged hp hq ihp ihq => exact .node hread ⟨_, rfl⟩ ((ihp _ _ rfl hp).cons (ihq _ _ rfl hq))
  | sequence hp _ hq ihp ihq | effect hp hq _ ihp ihq =>
      exact .node hread rfl ((ihp _ _ rfl hp).cons (ihq _ _ rfl hq))
  | variableStatement hp hq ihp ihq =>
      exact .node hread (.inl rfl) ((ihp _ _ rfl hp).append (ihq _ _ rfl hq))
  | trail hp _ _ ih => exact .node hread rfl ((ih _ _ rfl hp).cons (.leaf _ .nil))
  | member hp _ _ ih =>
      exact .node hread ⟨_, rfl⟩ ((ih _ _ rfl hp).cons (.leaf _ (.minor rfl (.leaf _ .nil))))
  | index hp hq _ hi ihp ihi | call hp hq hi ihp ihi =>
      exact .node hread ⟨_, rfl⟩
        ((ihp _ _ rfl hp).cons (.append (.of_optional hq) (ihi _ _ rfl hi)))
  | arrow ha _ hp _ hb ihp ihb =>
      exact .node hread rfl
        (.append (.of_modifier ha) ((ihp _ _ rfl hp).cons ((ihb _ _ rfl hb).leaf _)))
  | method ha _ hk hp hb ihk ihp ihb =>
      exact .node hread rfl (.append (.of_modifier ha)
        ((ihk _ _ rfl hk).cons ((ihp _ _ rfl hp).cons (ihb _ _ rfl hb))))
  -- What is read as another part
  | lastItem hp ih | patternGroup _ hp ih | noDefault hp _ ih | patternElement hp ih
  | computedKey hp ih | arrowList hp ih | arrowBlock hp ih | arrowValue hp _ ih | operand hp ih
  | value hp ih | operandGroup _ hp ih | created hp ih | linked hp _ _ ih | firstOperand hp ih
  | joined hp _ ih | unassigned hp _ _ _ ih | single hp _ ih | block hp ih | headExpression hp ih
  | clause hp ih | caught hp _ ih | onlyEnding hp ih => exact ih _ _ rfl hp

/-! ## Streams with trivia -/

namespace Phrase

mutual

theorem leaves_tree (p : Phrase) : p.tree.leaves = p.word.map Lookahead.token := by
  match p with
  | .leaf t => rfl
  | .node kind parts => exact leavesAll_trees parts

theorem leavesAll_trees (l : List Phrase) :
    Tree.leavesAll (trees l) = (words l).map Lookahead.token := by
  match l with
  | [] => rfl
  | p :: more =>
      rw [trees_cons, Tree.leavesAll, words_cons, List.map_append, leaves_tree p,
        leavesAll_trees more]

end

end Phrase

end Grammar

namespace Token

open ShellAwait.Tree

/-- Whether a line has ended since the last significant token. -/
def pending (broken : Bool) : List Token → Bool
  | [] => broken
  | t :: rest => pending (t.kind.isTrivia && (broken || t.endsLine)) rest

theorem significantFrom_append (broken : Bool) (a b : List Token) :
    significantFrom broken (a ++ b) =
      significantFrom broken a ++ significantFrom (pending broken a) b := by
  induction a generalizing broken with
  | nil => rfl
  | cons t rest ih =>
      rw [List.cons_append, significantFrom, significantFrom, pending]
      cases t.kind.isTrivia with
      | true => exact ih _
      | false => exact congrArg (List.cons _) (ih false)

theorem pending_of_endsSignificant (broken : Bool) {tokens : List Token}
    (h : endsSignificant tokens = true) : pending broken tokens = false := by
  induction tokens generalizing broken with
  | nil => cases h
  | cons t rest ih =>
      cases rest with
      | nil =>
          have hsolid : t.kind.isTrivia = false := by simpa [endsSignificant] using h
          rw [pending, hsolid]
          rfl
      | cons u rest => exact ih _ (by rwa [endsSignificant, List.getLast?_cons_cons] at h)

theorem significantFrom_afterTrivia (broken : Bool) (tokens : List Token) :
    ∃ broken', significantFrom broken' (afterTrivia tokens) = significantFrom broken tokens := by
  have hsplit : tokens.takeWhile (·.kind.isTrivia) ++ afterTrivia tokens = tokens :=
    List.takeWhile_append_dropWhile
  have hfrom := significantFrom_trivia broken
    (fun t ht => List.mem_takeWhile_imp (l := tokens) ht) (afterTrivia tokens)
  rw [hsplit] at hfrom
  exact ⟨_, hfrom.symm⟩

theorem significantFrom_laid {laid : List Tree × List Token} {tokens : List Token} {broken : Bool}
    {w r : List Lookahead} (hleaves : leavesAll laid.1 ++ laid.2 = tokens)
    (hrest : significantOnly laid.2 = r.map Lookahead.token)
    (h : significantFrom broken tokens = w ++ r) :
    significantFrom broken (leavesAll laid.1) = w ∧
      significantFrom (pending broken (leavesAll laid.1)) laid.2 = r := by
  rw [← hleaves, significantFrom_append] at h
  refine List.append_inj' h ?_
  have hlength := congrArg List.length hrest
  rwa [← map_token_significantFrom (pending broken (leavesAll laid.1)), List.length_map,
    List.length_map] at hlength

end Token

namespace Tree

open Grammar Phrase Token

/-- The trivia between the first two significant elements. -/
def gap (children : List Tree) : List Token :=
  leavesAll ((children.dropWhile isTrivia).tail.takeWhile isTrivia)

theorem isTrivia_of_mem_leadingTrivia {tree : Tree} {tokens : List Token}
    (h : tree ∈ leadingTrivia tokens) : tree.isTrivia = true := by
  obtain ⟨t, ht, rfl⟩ := List.mem_map.mp h
  exact List.mem_takeWhile_imp (p := fun t : Token => t.kind.isTrivia) ht

theorem exists_lay {tree : Tree} {tokens rest : List Token}
    (h : significantOnly tokens = tree.leaves ++ rest) :
    ∃ laid, (tree.lay tokens).1 = leadingTrivia tokens ++ [laid] ∧ laid.isTrivia = false := by
  cases tree with
  | leaf token =>
      obtain ⟨after, hafter, -⟩ := afterTrivia_of_significant h
      exact ⟨.leaf token, by rw [lay, hafter], isTrivia_of_afterTrivia hafter⟩
  | node kind children => exact ⟨_, rfl, rfl⟩

theorem gap_layAll {a b : Tree} {more : List Tree} {tokens rest : List Token}
    (h : significantOnly tokens = a.leaves ++ (b.leaves ++ rest)) :
    gap (layAll (a :: b :: more) tokens).1 = (a.lay tokens).2.takeWhile (·.kind.isTrivia) := by
  obtain ⟨x, hx, hxsolid⟩ := exists_lay h
  obtain ⟨y, hy, hysolid⟩ := exists_lay (lays_lay a tokens _ h).rest
  have hfirst (l : List Tree) :
      ((leadingTrivia tokens ++ [x] ++ l).dropWhile isTrivia).tail = l := by
    rw [List.append_assoc, List.dropWhile_append_of_pos fun _ => isTrivia_of_mem_leadingTrivia,
      List.singleton_append, List.dropWhile_cons_of_neg (by simp [hxsolid]), List.tail_cons]
  rw [layAll, layAll, hx, hy, gap, hfirst, List.append_assoc,
    List.takeWhile_append_of_pos fun _ => isTrivia_of_mem_leadingTrivia, List.singleton_append,
    List.takeWhile_cons_of_neg (by simp [hysolid]), List.append_nil]
  simp [leadingTrivia]

theorem any_endsLine_takeWhile {broken : Bool} {tokens : List Token} {ahead : List Lookahead}
    (h : significantFrom broken tokens = ahead) (hne : ahead ≠ [])
    (hbreak : (front ahead).breakBefore = false) :
    (tokens.takeWhile (·.kind.isTrivia)).any endsLine = false := by
  have hsplit : tokens.takeWhile (·.kind.isTrivia) ++ afterTrivia tokens = tokens :=
    List.takeWhile_append_dropWhile
  have hfrom := significantFrom_trivia broken
    (fun t ht => List.mem_takeWhile_imp (l := tokens) ht) (afterTrivia tokens)
  rw [hsplit, h] at hfrom
  cases hafter : afterTrivia tokens with
  | nil => exact absurd (by rw [hfrom, hafter]; rfl) hne
  | cons t rest =>
      rw [hafter, significantFrom, if_neg (by simp [isTrivia_of_afterTrivia hafter])] at hfrom
      rw [hfrom, front_cons] at hbreak
      exact (Bool.or_eq_false_iff.mp hbreak).2

/-! ## Spots -/

/-- Phrases of a node in front of the rest of a stream. Only a token can come last in it. -/
structure StandsIn (around : NodeKind) (tokens : List Token) (l : List Phrase)
    (rest : List Lookahead) (broken : Bool) : Prop where
  tokens : significantFrom broken tokens = words l ++ rest
  rooted : RootedAll around [] rest l
  follows : rest = [] → ∀ kind parts, l.getLast? ≠ some (.node kind parts)

namespace StandsIn

variable {around kind : NodeKind} {tokens : List Token} {p : Phrase} {l parts : List Phrase}
  {rest : List Lookahead} {broken : Bool}

theorem fits (h : StandsIn around tokens l rest broken) :
    significantOnly tokens = leavesAll (trees l) ++ rest.map Lookahead.token := by
  rw [leavesAll_trees, ← List.map_append, ← h.tokens, map_token_significantFrom]

theorem tail (h : StandsIn around tokens (p :: l) rest broken) :
    ∃ broken', StandsIn around (p.tree.lay tokens).2 l rest broken' := by
  have htokens := h.tokens
  rw [words_cons, List.append_assoc] at htokens
  have hfits := h.fits
  rw [trees_cons, leavesAll, List.append_assoc, leavesAll_trees, ← List.map_append] at hfits
  have hlays := lays_lay p.tree tokens _ hfits
  refine ⟨_, (significantFrom_laid hlays.leaves hlays.rest htokens).2, h.rooted.2, ?_⟩
  intro hrest kind parts hlast
  refine h.follows hrest kind parts ?_
  rw [List.getLast?_cons, hlast]
  rfl

theorem ne_nil (h : StandsIn around tokens (.node kind parts :: l) rest broken) :
    words l ++ rest ≠ [] := by
  intro hnil
  obtain ⟨hwords, hrest⟩ := List.append_eq_nil_iff.mp hnil
  cases hlast : l.getLast? with
  | none =>
      cases List.getLast?_eq_none_iff.mp hlast
      exact h.follows hrest kind parts rfl
  | some last =>
      cases last with
      | node k inner => exact h.follows hrest k inner (by rw [List.getLast?_cons, hlast]; rfl)
      | leaf t =>
          obtain ⟨init, rfl⟩ := List.getLast?_eq_some_iff.mp hlast
          simp at hwords

theorem inner (h : StandsIn around tokens (.node kind parts :: l) rest broken) :
    ∃ broken', StandsIn kind (afterTrivia tokens) parts (words l ++ rest) broken' := by
  obtain ⟨broken', hafter⟩ := significantFrom_afterTrivia broken tokens
  have htokens := hafter.trans h.tokens
  rw [words_cons, List.append_assoc] at htokens
  exact ⟨broken', htokens, h.rooted.1.2, fun hnil => absurd hnil h.ne_nil⟩

theorem gap {q : Phrase} (h : StandsIn around tokens (p :: q :: l) rest broken) (hrest : rest ≠ [])
    (hbreak : (front (words (q :: l) ++ rest)).breakBefore = false) :
    (gap (layAll (trees (p :: q :: l)) tokens).1).any endsLine = false := by
  have hfits := h.fits
  rw [trees_cons, trees_cons, leavesAll, leavesAll, List.append_assoc, List.append_assoc] at hfits
  rw [trees_cons, trees_cons, gap_layAll hfits]
  obtain ⟨broken', hlater⟩ := h.tail
  exact any_endsLine_takeWhile hlater.tokens (by simp [hrest]) hbreak

end StandsIn

/-- Elements of a node that are phrases. -/
def ReadFrom (around : NodeKind) (elements : List Tree) (tokens : List Token) : Prop :=
  ∃ l rest broken, elements = trees l ∧ StandsIn around tokens l rest broken

theorem ReadFrom.cons {around : NodeKind} {tree : Tree} {elements : List Tree} {tokens : List Token}
    (h : ReadFrom around (tree :: elements) tokens) :
    ∃ p l rest broken, tree = p.tree ∧ elements = trees l ∧
      StandsIn around tokens (p :: l) rest broken := by
  obtain ⟨l, rest, broken, htrees, hstands⟩ := h
  cases l with
  | nil => cases htrees
  | cons p l =>
      cases htrees
      exact ⟨p, l, rest, broken, rfl, rfl, hstands⟩

theorem ReadFrom.node {around kind : NodeKind} {children elements : List Tree} {tokens : List Token}
    (h : ReadFrom around (.node kind children :: elements) tokens) :
    ∃ parts l rest broken, children = trees parts ∧ elements = trees l ∧
      StandsIn around tokens (.node kind parts :: l) rest broken := by
  obtain ⟨p, l, rest, broken, htree, rfl, hstands⟩ := h.cons
  cases p with
  | leaf t => cases htree
  | node k parts =>
      cases htree
      exact ⟨parts, l, rest, broken, rfl, rfl, hstands⟩

theorem descends_readFrom : Descends ReadFrom := by
  refine ⟨fun h => ?_, fun h => ?_⟩
  · obtain ⟨p, l, rest, broken, rfl, rfl, hstands⟩ := h.cons
    obtain ⟨broken', hrest⟩ := hstands.tail
    exact ⟨l, rest, broken', rfl, hrest⟩
  · obtain ⟨parts, l, rest, broken, rfl, rfl, hstands⟩ := h.node
    obtain ⟨broken', hinner⟩ := hstands.inner
    exact ⟨parts, _, broken', rfl, hinner⟩

theorem readFrom_read {source : List Char} (h : (parse source).fault = none) :
    ReadFrom .script (read (significant (tokenize source))).done.reverse (tokenize source) := by
  obtain ⟨l, last, -, hsignificant, hreads, hread⟩ := reads_parse h
  refine ⟨l ++ [.leaf last], [], false, hread, ?_, (hreads.rooted .script _ rfl).snoc, ?_⟩
  · rw [← significant, hsignificant, words_append, List.append_nil]
    rfl
  · intro _ kind parts hlast
    rw [List.getLast?_concat] at hlast
    cases hlast

/-- The phrase that a node is, between the elements and the tokens that follow it. -/
structure IsPhrase (spot : Spot) (parts later : List Phrase) (rest : List Lookahead) : Prop where
  readAs : ReadAs spot.around later spot.kind parts rest
  children : stripAll spot.children = trees parts
  later : stripAll spot.later = trees later
  follows : rest ≠ []
  after : spot.kind.mayBeEmpty = false → significant spot.after = rest
  gap : ∀ p q l, parts = p :: q :: l → (front (words (q :: l) ++ rest)).breakBefore = false →
    (gap spot.children).any endsLine = false

/-- Every node of a script without a problem is a phrase of the grammar. -/
theorem isPhrase_spot {source : List Char} (h : (parse source).fault = none) {spot : Spot}
    (hspot : spot ∈ (parse source).tree.spots) :
    ∃ parts later rest, IsPhrase spot parts later rest := by
  obtain ⟨inner, trees, tokens, hread, hchildren, hafter, hlater⟩ :=
    descends_readFrom.laid_parse (readFrom_read h) spot hspot
  obtain ⟨parts, later, rest, broken, rfl, rfl, hstands⟩ := hread.node
  obtain ⟨broken', hinner⟩ := hstands.inner
  have hlays := lays_layAll _ _ _ hinner.fits
  have hrest := (significantFrom_laid hlays.leaves hlays.rest hinner.tokens).2
  have hbehind := hlays.rest
  rw [← hafter, List.map_append, ← leavesAll_trees] at hbehind
  refine ⟨parts, later, words later ++ rest, ?_, ?_, ?_, hstands.ne_nil, fun hsolid => ?_, ?_⟩
  · have hreadAs := hstands.rooted.1.1
    rwa [List.append_nil] at hreadAs
  · rw [hchildren, hlays.strip]
  · rw [hlater, (lays_layAll _ _ _ hbehind).strip]
  · have htext : spot.text ≠ [] := fun hempty =>
      absurd (mayBeEmpty_spot h hspot hempty) (by rw [hsolid]; exact Bool.false_ne_true)
    have hends := endsSignificant_spot h hspot htext
    rw [Spot.leaves, hchildren] at hends
    rwa [pending_of_endsSignificant broken' hends, ← hafter] at hrest
  · rintro p q l rfl hbreak
    rw [hchildren]
    exact hinner.gap hstands.ne_nil hbreak

end Tree

end ShellAwait
