import ShellAwait.Proofs.Grammar.Reading.Statements
import ShellAwait.Proofs.Tree.OfScript
import ShellAwait.Proofs.Tree.Slots

/-! # What is read fills the slots

Every part of the grammar stands for slots, and its phrases fill them. So do the nodes in each node
of a script without a problem.
-/

namespace ShellAwait

namespace Grammar

open Phrase

/-! ## The slots of parts -/

namespace Enclosure

/-- What stands between the two tokens. -/
def slots : Enclosure → List Slot
  | .block => [.many .statement]
  | .condition | .interpolation | .index | .parenthesis | .loopHead | .computedKey =>
      [.one .expression]
  | .catchBinding => [.one .pattern]
  | .switchBody => [.many (.part .switchCase)]
  | .argumentList | .array => [.many .expression]
  | .objectLiteral => [.many .member]
  | .parameterList => [.many .parameter]
  | .arrayPattern => [.many .pattern]
  | .objectPattern => [.many .entry]
  | .template => [.many (.part .interpolation)]

/-- What the node that an enclosure is stands for. -/
def slotKind : Enclosure → SlotKind
  | .block => .block
  | .argumentList => .part .argList
  | .computedKey => .key
  | .parameterList => .parameters
  | .arrayPattern | .objectPattern => .pattern
  | .template => .template
  | .interpolation => .part .interpolation
  | .array | .objectLiteral | .parenthesis | .condition | .loopHead | .catchBinding | .switchBody
  | .index => .expression

end Enclosure

def Item.slotKind : Item → SlotKind
  | .patternElement => .pattern
  | .patternEntry => .entry
  | .parameter => .parameter
  | .element => .expression
  | .property => .member

namespace Part

def slots : Part → List Slot
  | .category .statement => [.one .statement]
  | .category .pattern | .withDefault => [.one .pattern]
  | .category _ | .chain _ | .operands _ => [.one .expression]
  | .key => [.one .key]
  | .initializer | .clause => [.optional .expression]
  | .function _ => [.one .parameters, .one .block]
  | .arrowParameters => [.one .parameters]
  | .arrowBody => [.one .body]
  | .templateParts => [.many (.part .interpolation)]
  | .commas => [.many .expression]
  | .item what => [.one what.slotKind]
  | .items what _ => [.many what.slotKind]
  | .enclosed what => what.slots
  | .group what => [.one what.slotKind]
  | .statements => [.many .statement]
  | .terminator => []
  | .declaration | .declarators => [.many .declarator]
  | .otherwise => [.optional (.part .elseClause)]
  | .headFirst => [.one .target]
  | .clauses => [.one (.part .forTest), .one (.part .forUpdate)]
  | .head .forInStmt => [.one .target, .one .expression]
  | .head _ => [.one (.part .forInit), .one (.part .forTest), .one (.part .forUpdate)]
  | .catching => [.one (.part .catchClause)]
  | .ending => [.one (.part .finallyClause)]
  | .handlers => [.optional (.part .catchClause), .optional (.part .finallyClause)]
  | .switchCases => [.many (.part .switchCase)]

theorem slots_inner (what : Enclosure) : what.inner.slots = what.slots := by
  cases what <;> rfl

end Part

theorem Enclosure.slots_of_kind {what : Enclosure} {kind : NodeKind} (h : what.kind? = some kind) :
    kind.slots = what.slots ∧ kind.suits what.slotKind = true ∧ kind ≠ .forInStmt := by
  cases what <;> cases h <;> exact ⟨rfl, rfl, nofun⟩

theorem Enclosure.suits_pattern {what : Enclosure} (h : what.isPattern = true) (kind : NodeKind)
    (hkind : kind.suits what.slotKind = true) : kind.suits .pattern = true := by
  cases what <;> cases h <;> exact hkind

theorem suits_of_template {kind : NodeKind} (h : kind.suits .template = true) :
    kind.suits .expression = true := by
  rw [of_decide_eq_true h]
  rfl

theorem suits_of_block {kind : NodeKind} (h : kind.suits .block = true) :
    kind.suits .statement = true ∧ kind.suits .body = true := by
  rw [of_decide_eq_true h]
  exact ⟨rfl, rfl⟩

theorem Enclosure.suits_expression {what : Enclosure} (h : what.isOperand = true) (kind : NodeKind)
    (hkind : kind.suits what.slotKind = true) : kind.suits .expression = true := by
  cases what with
  | template => exact suits_of_template hkind
  | parenthesis | array | objectLiteral => exact hkind
  | _ => cases h

/-! ## Phrases that fill slots -/

/-- Phrases fill slots, and so do the phrases in them. -/
structure Supplies (slots : List Slot) (l : List Phrase) : Prop where
  fills : Fills NodeKind.suits slots (Tree.kinds (trees l))
  filled : Tree.FilledAll (trees l)

namespace Supplies

variable {r s : List Slot} {a b l : List Phrase} {p : Phrase} {wanted : SlotKind} {kind : NodeKind}

theorem nil : Supplies [] [] := ⟨.nil, True.intro⟩

theorem leaf (t : Lookahead) (h : Supplies s l) : Supplies s (.leaf t :: l) :=
  ⟨h.fills, True.intro, h.filled⟩

theorem append (ha : Supplies r a) (hb : Supplies s b) : Supplies (r ++ s) (a ++ b) := by
  refine ⟨?_, ?_⟩
  · rw [Phrase.trees_append, Tree.kinds_append]
    exact ha.fills.append hb.fills
  · rw [Phrase.trees_append, Tree.filledAll_iff]
    intro tree htree
    rcases List.mem_append.mp htree with htree | htree
    · exact (Tree.filledAll_iff _).mp ha.filled tree htree
    · exact (Tree.filledAll_iff _).mp hb.filled tree htree

theorem cons (hp : Supplies r [p]) (h : Supplies s l) : Supplies (r ++ s) (p :: l) := hp.append h

theorem snoc (h : Supplies s l) (t : Lookahead) : Supplies s (l ++ [.leaf t]) := by
  have hlast := h.append (nil.leaf t)
  rwa [List.append_nil] at hlast

theorem node (h : Supplies kind.slots l) (hkind : kind ≠ .forInStmt)
    (hwanted : kind.suits wanted = true) : Supplies [.one wanted] [.node kind l] :=
  ⟨.one hwanted .nil, ⟨⟨h.fills, fun heq => absurd heq hkind⟩, h.filled⟩, True.intro⟩

theorem exists_node (h : Supplies [.one wanted] [p]) :
    ∃ kind children, p.tree = .node kind children ∧ kind.suits wanted = true := by
  cases htree : p.tree with
  | leaf token =>
      have hfills := h.fills
      rw [trees_cons, htree] at hfills
      cases hfills
  | node kind children =>
      have hfills := h.fills
      rw [trees_cons, htree] at hfills
      cases hfills with
      | one hwanted _ => exact ⟨kind, children, rfl, hwanted⟩

theorem imp {other : SlotKind} (h : Supplies [.one wanted] [p])
    (himp : ∀ kind : NodeKind, kind.suits wanted = true → kind.suits other = true) :
    Supplies [.one other] [p] := by
  obtain ⟨kind, children, htree, hwanted⟩ := h.exists_node
  refine ⟨?_, h.filled⟩
  rw [trees_cons, htree]
  exact .one (himp kind hwanted) .nil

theorem absent : Supplies [.optional wanted] [] := ⟨.absent .nil, True.intro⟩

theorem present (h : Supplies [.one wanted] l) : Supplies [.optional wanted] l := by
  refine ⟨?_, h.filled⟩
  obtain ⟨kind, more, hkinds, hwanted, hmore⟩ := Fills.one_iff.mp h.fills
  rw [hkinds]
  exact .present hwanted hmore

theorem none : Supplies [.many wanted] [] := ⟨.done .nil, True.intro⟩

theorem next (hp : Supplies [.one wanted] [p]) (h : Supplies [.many wanted] l) :
    Supplies [.many wanted] (p :: l) := by
  obtain ⟨kind, children, htree, hwanted⟩ := hp.exists_node
  refine ⟨?_, hp.filled.1, h.filled⟩
  rw [trees_cons, htree]
  exact .next hwanted h.fills

theorem of_optional {kind : TokenKind} (h : Optional kind l) : Supplies [] l := by
  rcases h with rfl | ⟨t, -, rfl⟩
  · exact nil
  · exact nil.leaf t

theorem of_modifier (h : Modifier l) : Supplies [] l := by
  rcases h with rfl | ⟨t, -, rfl⟩
  · exact nil
  · exact nil.leaf t

/-! Nodes that only stand in others -/

theorem arrowName (t : Lookahead) :
    Supplies [.one .parameters] [.node .paramList [.node .param [.node .identPat [.leaf t]]]] := by
  have hname : Supplies [.one .pattern] [.node .identPat [.leaf t]] := .node (nil.leaf t) nofun rfl
  have hparameter : Supplies [.one .parameter] [.node .param [.node .identPat [.leaf t]]] :=
    .node (hname.append .absent) nofun rfl
  exact .node (hparameter.next .none) nofun rfl

theorem memberName (t : Lookahead) :
    Supplies [.one (.part .memberName)] [.node .memberName [.leaf t]] :=
  .node (nil.leaf t) nofun rfl

theorem nameRef (t : Lookahead) : Supplies [.one .expression] [.node .nameRef [.leaf t]] :=
  .node (nil.leaf t) nofun rfl

theorem declarator (hp : Supplies [.one .pattern] [p]) (ha : Supplies [.optional .expression] a) :
    Supplies [.one .declarator] [.node .declarator (p :: a)] := .node (hp.cons ha) nofun rfl

theorem clauses (t u : Lookahead) (ha : Supplies [.optional .expression] a)
    (hb : Supplies [.optional .expression] b) :
    Supplies [.one (.part .forTest), .one (.part .forUpdate)]
      [.leaf t, .node .forTest a, .leaf u, .node .forUpdate b] := by
  have htest : Supplies [.one (.part .forTest)] [.node .forTest a] := .node ha nofun rfl
  have hupdate : Supplies [.one (.part .forUpdate)] [.node .forUpdate b] := .node hb nofun rfl
  exact (htest.cons (hupdate.leaf u)).leaf t

theorem started (ha : Supplies [.optional .target] a) (h : Supplies s l) :
    Supplies (.one (.part .forInit) :: s) (.node .forInit a :: l) := by
  have hinit : Supplies [.one (.part .forInit)] [.node .forInit a] := .node ha nofun rfl
  exact hinit.cons h

theorem jump {t : TokenKind} (h : jumpKind? t = some kind) (u : Lookahead) (hl : Supplies [] l) :
    Supplies [.one .statement] [.node kind (.leaf u :: l)] := by
  unfold jumpKind? at h
  split at h <;> cases h <;> exact .node (hl.leaf u) nofun rfl

end Supplies

theorem Supplies.loopOver {t o u c : Lookahead} {p v b : Phrase} (ht : t.kind = .forKw)
    (ho : o.kind = .lParen) (hhead : Supplies [.one .target, .one .expression] [p, .leaf u, v])
    (hu : u.kind ≠ .rParen) (hc : c.kind = .rParen) (hb : Supplies [.one .statement] [b]) :
    Supplies [.one .statement]
      [.node .forInStmt [.leaf t, .leaf o, p, .leaf u, v, .leaf c, b]] := by
  have hall : Supplies (NodeKind.slots .forInStmt) [.leaf t, .leaf o, p, .leaf u, v, .leaf c, b] :=
    .leaf t (.leaf o (hhead.append (hb.leaf c)))
  refine ⟨.one rfl .nil, ⟨⟨hall.fills, fun _ => ?_⟩, hall.filled⟩, True.intro⟩
  obtain ⟨kind, children, htree, -⟩ := hb.exists_node
  have hbehind : Tree.behindHead (trees [.leaf t, .leaf o, p, .leaf u, v, .leaf c, b]) =
      [.leaf c.token, .node kind children] := by
    have hfills := hhead.fills
    cases hp : p.tree with
    | leaf token =>
        rw [trees_cons, trees_cons, hp] at hfills
        cases hv : v.tree with
        | leaf token' =>
            rw [trees_cons, hv] at hfills
            cases hfills
        | node kv cv =>
            rw [trees_cons, hv] at hfills
            cases hfills with
            | one _ hmore => cases hmore
    | node kp cp =>
        rw [trees_cons, trees_cons, hp] at hfills
        cases hv : v.tree with
        | leaf token' =>
            rw [trees_cons, hv] at hfills
            cases hfills with
            | one _ hmore => cases hmore
        | node kv cv =>
            simp [Phrase.tree, hp, hv, htree, Tree.behindHead, Tree.isLeafOf, Lookahead.token, ht,
              ho, hu, hc]
  rw [hbehind]
  rfl

theorem Supplies.loop {kind : NodeKind} {n : Bool} {t o c : Lookahead} {l : List Phrase}
    {b : Phrase} {rest : List Lookahead} (ht : t.kind = .forKw) (ho : o.kind = .lParen)
    (hhead : Reads (.head kind) n l rest) (hl : Supplies (Part.slots (.head kind)) l)
    (hc : c.kind = .rParen) (hb : Supplies [.one .statement] [b]) :
    Supplies [.one .statement] [.node kind (.leaf t :: .leaf o :: (l ++ [.leaf c, b]))] := by
  cases hhead with
  | headOpen | headSet => exact .node (.leaf _ (.leaf _ (hl.append (hb.leaf _)))) nofun rfl
  | headOf _ hu | headIn _ hu => exact .loopOver ht ho hl (by rw [hu]; decide) hc hb

/-- The phrases of every part fill its slots. -/
theorem Reads.supplies {part : Part} {n : Bool} {l : List Phrase} {rest : List Lookahead}
    (h : Reads part n l rest) : Supplies part.slots l := by
  induction h with
  | enclosed _ _ _ _ ih =>
      rw [Part.slots_inner] at ih
      exact (ih.snoc _).leaf _
  | group hkind _ ih =>
      obtain ⟨hslots, hwanted, hloop⟩ := Enclosure.slots_of_kind hkind
      exact .node (hslots ▸ ih) hloop hwanted
  -- Lists
  | noItem | noPart | noComma | noStatement | noDeclarator | noCase => exact .none
  | hole _ _ ih | templateText _ _ ih => exact ih.leaf _
  | lastItem _ ih => exact ih.next .none
  | nextItem _ _ _ ihp ihl => exact ihp.next (ihl.leaf _)
  | interpolation _ _ ihp ihl | statement _ _ ihp ihl => exact ihp.next ihl
  | comma _ _ _ ihv ihl => exact (ihv.next ihl).leaf _
  -- Patterns
  | name | plainKey | literal | reference | this | empty =>
      exact .node (Supplies.nil.leaf _) nofun rfl
  | patternGroup hwhat _ ih => exact ih.imp (Enclosure.suits_pattern hwhat)
  | default _ _ _ ihp ihv => exact .node (ihp.cons (ihv.leaf _)) nofun rfl
  | restElement hitem _ _ ih | spread hitem _ _ ih =>
      rcases hitem with rfl | rfl <;> exact .node (ih.leaf _) nofun rfl
  | patternName _ _ _ ih => exact .node (Supplies.absent.append ih) nofun rfl
  | patternKey _ _ _ ihk ihp => exact .node (ihk.present.cons (ihp.leaf _)) nofun rfl
  -- Functions
  | noInitializer | noElse | noClause => exact .absent
  | initializer _ _ ih => exact ih.present.leaf _
  | parameter hd _ _ ihp ihi =>
      exact .node ((Supplies.of_optional hd).append (ihp.cons ihi)) nofun rfl
  | function ha _ _ hm _ _ _ ihps ihb =>
      have hsignature := (Supplies.of_optional hm).append (ihps.cons ihb)
      exact (Supplies.of_modifier ha).append (hsignature.leaf _)
  | arrowName => exact .arrowName _
  | arrowBlock _ ih => exact ih.imp fun _ hkind => (suits_of_block hkind).2
  | arrowValue _ _ ih | headExpression _ ih =>
      exact ih.imp fun kind hkind => Bool.or_eq_true_iff.mpr (.inr hkind)
  | arrow ha _ _ _ _ ihps ihb =>
      exact .node ((Supplies.of_modifier ha).append (ihps.cons (ihb.leaf _))) nofun rfl
  -- Links
  | member _ _ _ ih => exact .node (ih.cons ((Supplies.memberName _).leaf _)) nofun rfl
  | index _ hq _ _ ihp ihi | call _ hq _ ihp ihi =>
      exact .node (ihp.cons ((Supplies.of_optional hq).append ihi)) nofun rfl
  | tagged _ _ ihp ihs => exact .node (ihp.cons ihs) nofun rfl
  -- Properties
  | method ha _ _ _ _ ihk ihps ihb =>
      exact .node ((Supplies.of_modifier ha).append (ihk.cons (ihps.cons ihb))) nofun rfl
  | shorthand => exact .node (Supplies.absent.append (.nameRef _)) nofun rfl
  | keyValue _ _ _ ihk ihv => exact .node (ihk.present.cons (ihv.leaf _)) nofun rfl
  -- Operands
  | functionValue _ ih | functionStatement _ ih => exact .node ih nofun rfl
  | operandGroup hwhat _ ih => exact ih.imp (Enclosure.suits_expression hwhat)
  | constructBare _ _ _ ih => exact .node ((ih.append .absent).leaf _) nofun rfl
  | construct _ _ _ ihp iha => exact .node ((ihp.cons iha.present).leaf _) nofun rfl
  -- Operators
  | await _ _ ih | lead _ _ ih => exact .node (ih.leaf _) nofun rfl
  | trail _ _ _ ih => exact .node (ih.snoc _) nofun rfl
  | join _ _ _ _ ihp ihq | assign _ _ _ _ ihp ihq => exact .node (ihp.cons (ihq.leaf _)) nofun rfl
  | conditional _ _ _ _ _ _ ihp iha ihb =>
      exact .node (ihp.cons (.leaf _ (iha.cons (ihb.leaf _)))) nofun rfl
  | sequence _ _ _ ihp ihl => exact .node (ihp.next ihl) nofun rfl
  -- Statements
  | semicolon => exact Supplies.nil.leaf _
  | ended => exact .nil
  | declaration _ _ _ _ ihp ihi ihl | declarator _ _ _ _ ihp ihi ihl =>
      exact ((Supplies.declarator ihp ihi).next ihl).leaf _
  | block _ ih => exact ih.imp fun _ hkind => (suits_of_block hkind).1
  | variableStatement _ _ ihd ihe => exact .node (ihd.append ihe) nofun rfl
  | choice _ _ _ _ ihc ihp ihe => exact .node ((ihc.append (ihp.cons ihe)).leaf _) nofun rfl
  | otherwise _ _ ih => exact .present (.node (ih.leaf _) nofun rfl)
  | whileLoop _ _ _ ihc ihp => exact .node ((ihc.append ihp).leaf _) nofun rfl
  | doWhile _ _ _ _ he _ ihp ihc =>
      have htest := ihc.append (Supplies.of_optional he)
      exact .node (.leaf _ (ihp.cons (htest.leaf _))) nofun rfl
  | loop ht ho hhead hc _ ihhead ihp => exact .loop ht ho hhead ihhead hc ihp
  | headDeclaration _ ih => exact .node ih nofun rfl
  | clause _ ih => exact ih.present
  | clauses _ _ _ _ ihx ihy => exact .clauses _ _ ihx ihy
  | headOpen _ ih => exact .started .absent ih
  | headSet _ _ ihp ihl => exact .started ihp.present ihl
  | headOf _ _ _ _ ihp ihv | headIn _ _ _ ihp ihv => exact ihp.cons (ihv.leaf _)
  | result _ _ _ _ ihv ihe => exact .node (.leaf _ (ihv.present.cons ihe)) nofun rfl
  | noResult _ _ ihe => exact .node (.leaf _ (Supplies.absent.append ihe)) nofun rfl
  | jump hkind _ ih => exact .jump hkind _ ih
  | throw _ _ _ _ ihv ihe => exact .node (.leaf _ (ihv.cons ihe)) nofun rfl
  | catching _ _ ih => exact .node (.leaf _ (Supplies.absent.append ih)) nofun rfl
  | catchingAs _ _ _ ihl ihb => exact .node (.leaf _ (ihl.present.append ihb)) nofun rfl
  | ending _ _ ih => exact .node (ih.leaf _) nofun rfl
  | caught _ _ ih => exact ih.present.append .absent
  | caughtEnding _ _ ihc ihf => exact ihc.present.cons ihf.present
  | onlyEnding _ ih => exact Supplies.absent.append ih.present
  | attempt _ _ _ ihb ihh => exact .node (.leaf _ (ihb.cons ihh)) nofun rfl
  | case _ _ _ _ _ ihv ihl ihm =>
      exact .next (.node (.leaf _ (ihv.present.cons (ihl.leaf _))) nofun rfl) ihm
  | defaultCase _ _ _ _ ihl ihm =>
      exact .next (.node (.leaf _ (.leaf _ (Supplies.absent.append ihl))) nofun rfl) ihm
  | switch _ _ _ ihc ihk => exact .node (.leaf _ (ihc.append ihk)) nofun rfl
  | effect _ _ _ ihv ihe => exact .node (ihv.cons ihe) nofun rfl
  -- What is read as another part
  | noDefault _ _ ih | patternElement _ ih | computedKey _ ih | arrowList _ ih | operand _ ih
  | value _ ih | created _ ih | linked _ _ _ ih | firstOperand _ ih | joined _ _ ih
  | unassigned _ _ _ _ ih | single _ _ ih => exact ih

end Grammar

open Grammar Phrase Token

theorem reads_parse {source : List Char} (h : (parse source).fault = none) :
    ∃ l last, last.kind = .eof ∧ significant (tokenize source) = words l ++ [last] ∧
      Reads .statements false l [last] ∧
      (read (significant (tokenize source))).done.reverse = trees (l ++ [.leaf last]) := by
  have hclean := (Tree.parse_eq source).2 h
  obtain ⟨body, hsplit, -, hbody⟩ := (tokenize_spells source).split
  obtain ⟨before, last, hsignificant, hlast, hbefore⟩ :=
    significantFrom_end false kind_endOfText fun t ht => (hbody t ht).1
  rw [← significant, ← hsplit] at hsignificant
  rw [hsignificant] at hclean
  obtain ⟨l, hwords, hreads, hdone⟩ := reads_read hlast hbefore hclean
  refine ⟨l, last, hlast, by rw [hsignificant, hwords], hreads, ?_⟩
  rw [hsignificant, hdone, Phrase.trees_append]
  rfl

theorem Tree.filled_parse {source : List Char} (h : (parse source).fault = none) :
    (parse source).tree.Filled := by
  obtain ⟨l, last, -, -, hreads, hread⟩ := reads_parse h
  have hsupplies : Supplies [.many .statement] (l ++ [.leaf last]) := hreads.supplies.snoc last
  have hlays := (lays_read source).strip.trans hread
  obtain ⟨hfills, hfilled⟩ := hsupplies
  rw [(parse_eq source).1]
  generalize (layAll (read (significant (tokenize source))).done.reverse (tokenize source)).1 =
    children at hlays
  rw [← hlays, kinds_stripAll] at hfills
  rw [← hlays] at hfilled
  exact ⟨⟨hfills, fun hkind => by cases hkind⟩, hfilled.of_strip⟩

end ShellAwait
