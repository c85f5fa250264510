import ShellAwait.Output.Place
import ShellAwait.Proofs.Grammar.Precedence
import ShellAwait.Proofs.Token.Lossless

/-! # Chains

A chain of calls and accesses is a node for every link, around the chain before it. In a script
without a problem such a node is that chain, and behind it the token that makes the link. Only the
parenthesis of a call stands deeper, in the list of arguments.
-/

namespace ShellAwait.Output

open ShellAwait.Tree

/-! ## Links of a chain -/

/-- The token is one of a link of the chain that ends at the tree. What is no call or access, as a
parenthesis, a tagged template or `new`, begins a chain. -/
inductive HoldsLink (token : Token) : Tree → Prop
  | last {kind : NodeKind} {children : List Tree} :
      isChain kind = true → .leaf token ∈ children → HoldsLink token (.node kind children)
  | earlier {kind : NodeKind} {children : List Tree} {base : Tree} :
      isChain kind = true → children.find? Tree.isNode = some base → HoldsLink token base →
      HoldsLink token (.node kind children)

theorem hasLeaf_iff (kind : TokenKind) (trees : List Tree) :
    hasLeaf kind trees = true ↔ ∃ token : Token, token.kind = kind ∧ .leaf token ∈ trees := by
  rw [hasLeaf, List.any_eq_true]
  constructor
  · rintro ⟨tree, htree, hkind⟩
    cases tree with
    | leaf token => exact ⟨token, of_decide_eq_true hkind, htree⟩
    | node => cases hkind
  · rintro ⟨token, hkind, htoken⟩
    exact ⟨.leaf token, htoken, decide_eq_true hkind⟩

theorem baseHasLink_eq (trees : List Tree) :
    baseHasLink trees = (trees.find? Tree.isNode).any hasOptionalLink := by
  induction trees with
  | nil => rfl
  | cons tree rest ih =>
      cases tree with
      | leaf token => exact ih
      | node kind children => rfl

theorem hasOptionalLink_iff (tree : Tree) :
    hasOptionalLink tree = true ↔
      ∃ token : Token, token.kind = .questionDot ∧ HoldsLink token tree := by
  constructor
  · intro h
    match tree with
    | .node kind children =>
        rw [hasOptionalLink, Bool.and_eq_true, Bool.or_eq_true, hasLeaf_iff, baseHasLink_eq] at h
        obtain ⟨hkind, ⟨token, htoken, hleaf⟩ | hbase⟩ := h
        · exact ⟨token, htoken, .last hkind hleaf⟩
        · obtain ⟨base, hfirst, hbase⟩ := (Option.any_eq_true _ _).mp hbase
          have hsmaller : sizeOf base < sizeOf children :=
            List.sizeOf_lt_of_mem (List.mem_of_find?_eq_some hfirst)
          obtain ⟨token, htoken, hholds⟩ := (hasOptionalLink_iff base).mp hbase
          exact ⟨token, htoken, .earlier hkind hfirst hholds⟩
  · rintro ⟨token, htoken, hholds⟩
    induction hholds with
    | last hkind hleaf =>
        rw [hasOptionalLink, hkind, (hasLeaf_iff _ _).mpr ⟨token, htoken, hleaf⟩]
        rfl
    | earlier hkind hfirst _ ih =>
        rw [hasOptionalLink, hkind, baseHasLink_eq, hfirst, Option.any_some, ih, Bool.or_true]
        rfl
termination_by sizeOf tree
decreasing_by
  simp only [node.sizeOf_spec]
  omega

/-! ## The token that makes a link -/

/-- The token that makes a link, or makes it optional. -/
def isLink : TokenKind → Bool
  | .dot | .questionDot | .lBracket | .lParen => true
  | _ => false

def linkSpelling : TokenKind → List Char
  | .dot => ['.']
  | .questionDot => ['?', '.']
  | .lBracket => ['[']
  | .lParen => ['(']
  | _ => []

/-- Past trivia, trees begin with the token. Where the first of them is a list of arguments it is
the list that begins with it. -/
inductive LedBy (token : Token) : List Tree → Prop
  | here {rest : List Tree} : LedBy token (.leaf token :: rest)
  | behind {trivia : Token} {rest : List Tree} :
      trivia.kind.isTrivia = true → LedBy token rest → LedBy token (.leaf trivia :: rest)
  | within {children rest : List Tree} :
      LedBy token children → LedBy token (.node .argList children :: rest)

/-- A chain, and behind it one more link. -/
def Continued (trees : List Tree) : Prop :=
  ∃ kind children link rest, trees = .node kind children :: rest ∧ isLink link.kind = true ∧
    LedBy link rest

theorem isTrivia_of_isLink {kind : TokenKind} (h : isLink kind = true) : kind.isTrivia = false := by
  cases kind with
  | dot | questionDot | lBracket | lParen => rfl
  | _ => cases h

theorem LedBy.append_trivia {token : Token} {trivia rest : List Tree}
    (htrivia : ∀ tree ∈ trivia, tree.isTrivia = true) (h : LedBy token rest) :
    LedBy token (trivia ++ rest) := by
  induction trivia with
  | nil => exact h
  | cons tree others ih =>
      obtain ⟨hfirst, hothers⟩ := List.forall_mem_cons.mp htrivia
      cases tree with
      | leaf t => exact .behind hfirst (ih hothers)
      | node => cases hfirst

theorem LedBy.leaves {token : Token} {trees : List Tree} (h : LedBy token trees) :
    ∃ trivia rest : List Token, (∀ t ∈ trivia, t.kind.isTrivia = true) ∧
      leavesAll trees = trivia ++ token :: rest := by
  induction h with
  | here => exact ⟨[], _, by simp, rfl⟩
  | @behind t others ht _ ih =>
      obtain ⟨trivia, rest, htrivia, hleaves⟩ := ih
      exact ⟨t :: trivia, rest, List.forall_mem_cons.mpr ⟨ht, htrivia⟩, congrArg (t :: ·) hleaves⟩
  | @within children others _ ih =>
      obtain ⟨trivia, rest, htrivia, hleaves⟩ := ih
      refine ⟨trivia, rest ++ leavesAll others, htrivia, ?_⟩
      rw [leavesAll, Tree.leaves, hleaves, List.append_assoc, List.cons_append]

theorem exists_of_stripAll {trees rest : List Tree} {first : Tree}
    (h : stripAll trees = first :: rest) :
    ∃ trivia tree others, trees = trivia ++ tree :: others ∧
      (∀ t ∈ trivia, t.isTrivia = true) ∧ tree.isTrivia = false ∧ tree.strip = first ∧
      stripAll others = rest := by
  rw [stripAll_eq_map] at h
  obtain ⟨tree, solid, hsolid, hfirst, hrest⟩ := List.map_eq_cons_iff.mp h
  obtain ⟨trivia, others, htrees, htrivia, htree, hothers⟩ := List.filter_eq_cons_iff.mp hsolid
  refine ⟨trivia, tree, others, htrees, ?_, ?_, hfirst, ?_⟩
  · intro t ht
    simpa using htrivia t ht
  · simpa using htree
  · rw [stripAll_eq_map, hothers, hrest]

theorem LedBy.of_stripAll {token : Token} {elements trees : List Tree}
    (h : LedBy token elements) (htrees : stripAll trees = elements) : LedBy token trees := by
  induction h generalizing trees with
  | here =>
      obtain ⟨trivia, tree, others, rfl, htrivia, -, hfirst, -⟩ := exists_of_stripAll htrees
      cases tree with
      | leaf t =>
          cases hfirst
          exact LedBy.here.append_trivia htrivia
      | node => cases hfirst
  | behind hkind _ _ =>
      obtain ⟨trivia, tree, others, rfl, -, hsolid, hfirst, -⟩ := exists_of_stripAll htrees
      cases tree with
      | leaf t =>
          cases hfirst
          exact absurd hkind (by simpa [Tree.isTrivia] using hsolid)
      | node => cases hfirst
  | within _ ih =>
      obtain ⟨trivia, tree, others, rfl, htrivia, -, hfirst, -⟩ := exists_of_stripAll htrees
      cases tree with
      | leaf => cases hfirst
      | node kind inner =>
          obtain ⟨rfl, hinner⟩ := Tree.node.inj hfirst
          exact (LedBy.within (ih hinner)).append_trivia htrivia

end ShellAwait.Output

namespace ShellAwait.Token

open Output

/-! ## How links are spelled -/

theorem scanPunctuation_link (text : List Char) (h : isLink (scanPunctuation text).kind = true) :
    (scanPunctuation text).text = linkSpelling (scanPunctuation text).kind := by
  have hentries : ∀ entry ∈ punctuation,
      isLink entry.2 = true → entry.1 = linkSpelling entry.2 := by decide
  unfold scanPunctuation at h ⊢
  split at h
  · split at h
    · cases h
    · rename_i hdigit
      simp only [if_neg hdigit]
      rfl
  · split at h
    · rename_i spelling kind found
      exact hentries _ (List.mem_of_find?_eq_some found) h
    · cases h

theorem Context.scanAt_link (context : Context) (c : Char) (rest : List Char) :
    isLink (context.scanAt c rest).kind = true →
      (context.scanAt c rest).text = linkSpelling (context.scanAt c rest).kind := by
  have hother {kind : TokenKind} {text : List Char} (hkind : isLink kind = false) :
      isLink kind = true → text = linkSpelling kind :=
    fun h => absurd h (by rw [hkind]; exact Bool.false_ne_true)
  have hcontent : ∀ kind ∈ contentKinds, isLink kind = false := by decide
  refine context.scanAt_cases_of_kind
    (P := fun lexeme => isLink lexeme.kind = true → lexeme.text = linkSpelling lexeme.kind) c rest
    (fun lexeme hkind => hother (hcontent lexeme.kind hkind)) (hother rfl) (hother rfl) ?_
    (hother (scanName_kind_of (P := fun kind => isLink kind = false) _ (by decide) rfl))
    (scanPunctuation_link _)
  unfold Context.closingBrace
  split <;> exact hother rfl

theorem Context.scan_link {context : Context} {text : List Char} {lexeme : Lexeme}
    (h : context.scan text = some lexeme) (hlink : isLink lexeme.kind = true) :
    lexeme.text = linkSpelling lexeme.kind := by
  rcases Context.scan_eq_some h with ⟨-, rfl⟩ | ⟨-, c, rest, rfl, rfl⟩
  · have hkinds : ∀ kind ∈ [TokenKind.templateContent, .interpolationStart, .templateEnd, .error],
        isLink kind = false := by decide
    rw [hkinds _ (scanTemplatePart_kind text)] at hlink
    cases hlink
  · exact context.scanAt_link c rest hlink

theorem Lexes.text_of_isLink {context : Context} {text : List Char} {tokens : List Token}
    (h : Lexes context text tokens) :
    ∀ t ∈ tokens, isLink t.kind = true → t.text = linkSpelling t.kind := by
  induction h with
  | finish _ =>
      intro t ht hlink
      cases List.mem_singleton.mp ht
      cases hlink
  | token hscan _ ih => exact List.forall_mem_cons.mpr ⟨Context.scan_link hscan, ih⟩

end ShellAwait.Token

namespace ShellAwait.Grammar

open Phrase Output

variable {kind : NodeKind} {rest : List Lookahead} {n : Bool}

theorem isChain_of_isOperand {what : Enclosure} (hwhat : what.isOperand = true)
    (hkind : what.kind? = some kind) : isChain kind = false := by
  cases what with
  | parenthesis | array | objectLiteral | template =>
      cases hkind
      rfl
  | _ => cases hwhat

theorem Reads.isChain_of_primary {parts : List Phrase}
    (h : Reads (.category .primary) n [.node kind parts] rest) : isChain kind = false := by
  cases h with
  | literal | reference | this | functionValue => rfl
  | operandGroup hwhat h =>
      cases h with
      | group hkind _ => exact isChain_of_isOperand hwhat hkind
  | created h => cases h <;> rfl

theorem Reads.ledBy_enclosed {what : Enclosure} {l : List Phrase}
    (h : Reads (.enclosed what) n l rest) :
    ∃ o : Token, o.kind = what.opener ∧ LedBy o (trees l) := by
  cases h with
  | @enclosed _ _ o _ _ _ _ hopener _ _ => exact ⟨o.token, hopener, .here⟩

theorem ledBy_optional {q : List Phrase} {trees : List Tree} {link : Token}
    (hq : Optional .questionDot q) (hlink : isLink link.kind = true) (h : LedBy link trees) :
    ∃ first, isLink first.kind = true ∧ LedBy first (Phrase.trees q ++ trees) := by
  rcases hq with rfl | ⟨t, ht, rfl⟩
  · exact ⟨link, hlink, h⟩
  · exact ⟨t.token, by rw [show t.token.kind = .questionDot from ht]; rfl, .here⟩

theorem Reads.exists_base {calls : Bool} {p : Phrase} (h : Reads (.chain calls) n [p] rest) :
    ∃ kind children, p.tree = .node kind children := by
  obtain ⟨kind, children, htree, -⟩ := h.supplies.exists_node
  exact ⟨kind, children, htree⟩

theorem Reads.continued {calls : Bool} {parts : List Phrase}
    (h : Reads (.chain calls) n [.node kind parts] rest) (hkind : isChain kind = true) :
    Continued (trees parts) := by
  cases h with
  | operand h =>
      rw [h.isChain_of_primary] at hkind
      cases hkind
  | @member _ _ p t _ _ hp ht _ =>
      obtain ⟨base, children, hbase⟩ := hp.exists_base
      refine ⟨base, children, t.token, _, by rw [trees_cons, hbase]; rfl, ?_, .here⟩
      rcases ht with ht | ⟨-, ht⟩
      · rw [show t.token.kind = .dot from ht]
        rfl
      · rw [show t.token.kind = .questionDot from ht]
        rfl
  | index hp hq _ hi =>
      obtain ⟨base, children, hbase⟩ := hp.exists_base
      obtain ⟨o, ho, hled⟩ := hi.ledBy_enclosed
      obtain ⟨link, hlink, hled⟩ := ledBy_optional hq (by rw [ho]; rfl) hled
      rw [← Phrase.trees_append] at hled
      exact ⟨base, children, link, _, by rw [trees_cons, hbase], hlink, hled⟩
  | call hp hq ha =>
      obtain ⟨base, children, hbase⟩ := hp.exists_base
      cases ha with
      | group hargs h =>
          cases hargs
          obtain ⟨o, ho, hled⟩ := h.ledBy_enclosed
          obtain ⟨link, hlink, hled⟩ :=
            ledBy_optional hq (by rw [ho]; rfl) (.within hled)
          refine ⟨base, children, link, _, by rw [trees_cons, hbase], hlink, ?_⟩
          rw [Phrase.trees_append]
          exact hled
  | tagged => cases hkind

end ShellAwait.Grammar

namespace ShellAwait.Output

open ShellAwait.Tree Grammar

theorem isChain_of_mayBeEmpty {kind : NodeKind} (h : kind.mayBeEmpty = true) :
    isChain kind = false := by
  cases kind with
  | callExpr | memberExpr | indexExpr => cases h
  | _ => rfl

/-- Every call and access of a script without a problem continues a chain. No trivia stands in
front of it. -/
theorem continued_spot {source : List Char} (h : (parse source).fault = none) {spot : Spot}
    (hspot : spot ∈ (parse source).tree.spots) (hkind : isChain spot.kind = true) :
    Continued spot.children := by
  obtain ⟨parts, later, rest, hphrase⟩ := isPhrase_spot h hspot
  have hread : ∃ calls n, Reads (.chain calls) n [.node spot.kind parts] rest := by
    have hreadAs := hphrase.readAs
    generalize spot.kind = kind at hreadAs hkind
    cases kind with
    | callExpr | memberExpr | indexExpr =>
        obtain ⟨_, n, ⟨calls, rfl⟩, hreads⟩ := hreadAs.resolve_left Bool.false_ne_true
        exact ⟨calls, n, hreads⟩
    | _ => cases hkind
  obtain ⟨calls, n, hread⟩ := hread
  obtain ⟨base, inner, link, others, hparts, hlink, hled⟩ := hread.continued hkind
  obtain ⟨trivia, tree, more, hchildren, htrivia, -, htree, hmore⟩ :=
    exists_of_stripAll (hphrase.children.trans hparts)
  have hnone : trivia = [] := by
    have htext : spot.text ≠ [] := by
      intro hempty
      rw [isChain_of_mayBeEmpty (mayBeEmpty_spot h hspot hempty)] at hkind
      cases hkind
    have hstarts := startsSignificant_spot hspot htext
    cases trivia with
    | nil => rfl
    | cons t ts =>
        cases t with
        | leaf token =>
            have hsolid := htrivia _ List.mem_cons_self
            rw [Spot.leaves, hchildren] at hstarts
            simp_all [Token.startsSignificant, leavesAll, leaves, Tree.isTrivia]
        | node =>
            have hsolid := htrivia _ List.mem_cons_self
            cases hsolid
  cases tree with
  | leaf => cases htree
  | node kind children =>
      rw [hnone] at hchildren
      exact ⟨kind, children, link, more, hchildren, hlink, hled.of_stripAll hmore⟩

end ShellAwait.Output
