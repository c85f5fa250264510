import ShellAwait.Proofs.Analysis.Derivation
import ShellAwait.Proofs.Output.Chains
import ShellAwait.Proofs.Output.Insertions

/-! # Links behind awaited chains

Parentheses end an optional chain: in `(await a?.b()).c` the last access is made even where `a` is
missing. So if an awaited chain holds an optional link, the link that continues it is made optional
as well. Whether it is has to be known from the end of the chain on, up to the token of the link,
past trivia and into a list of arguments. Where weaving stops knowing it, the link has been written.
-/

namespace ShellAwait.Output

open Text ShellAwait.Tree

/-! ## The token of a link -/

def linkMark : TokenKind → List Fragment
  | .dot => [.question]
  | .lBracket | .lParen => [.link]
  | _ => []

theorem weaveToken_of_isTrivia (pending : Pending) {token : Token}
    (h : token.kind.isTrivia = true) : weaveToken pending token = ([.source token], pending) := by
  rw [weaveToken, if_pos h]

theorem weaveToken_of_isLink (pending : Pending) {token : Token} (h : isLink token.kind = true) :
    weaveToken pending token =
      ((if pending.resumes then linkMark token.kind else []).map .inserted ++ [.source token],
        {}) := by
  obtain ⟨kind, text⟩ := token
  have hsolid := isTrivia_of_isLink h
  cases hresumes : pending.resumes with
  | false => simp [weaveToken, hsolid, hresumes]
  | true =>
      cases kind with
      | dot | questionDot | lBracket | lParen => simp [weaveToken, hsolid, hresumes, linkMark]
      | _ => cases h

theorem weaveTrees_cons (marks : Marks) (parent : NodeKind) (siblings : List Tree)
    (previous : Option Tree) (offset : Nat) (pending : Pending) (tree : Tree) (rest : List Tree) :
    weaveTrees marks parent siblings previous offset pending (tree :: rest) =
      let first := weaveTree marks (Place.under parent siblings previous) offset pending tree
      let others := weaveTrees marks parent siblings (if tree.isNode then some tree else previous)
        (offset + tree.width) first.2 rest
      (first.1 ++ others.1, others.2) := rfl

theorem weaveTree_argList (marks : Marks) (place : Place) (offset : Nat) (pending : Pending)
    (children : List Tree) :
    weaveTree marks place offset pending (.node .argList children) =
      weaveTrees marks .argList children none offset pending children := by
  simp [weaveTree, NodeKind.isSite, NodeKind.isFunction, opening]

theorem LedBy.woven {link : Token} {trees : List Tree} (h : LedBy link trees)
    (hlink : isLink link.kind = true) (marks : Marks) (parent : NodeKind) (siblings : List Tree)
    (previous : Option Tree) (offset : Nat) (isGlued : Bool) :
    ∃ (trivia : List Token) (behind : List Piece) (left : Pending),
      (∀ t ∈ trivia, t.kind.isTrivia = true) ∧ ∀ resumes,
      weaveTrees marks parent siblings previous offset ⟨isGlued, resumes⟩ trees =
        (trivia.map .source ++ ((if resumes then linkMark link.kind else []).map .inserted ++
          .source link :: behind), left) := by
  induction h generalizing parent siblings previous offset isGlued with
  | @here rest =>
      let others :=
        weaveTrees marks parent siblings previous (offset + byteLength link.text) {} rest
      refine ⟨[], others.1, others.2, by simp, fun resumes => ?_⟩
      rw [weaveTrees_cons, weaveTree, weaveToken_of_isLink _ hlink]
      simp only [List.append_assoc, List.cons_append, List.nil_append, List.map_nil]
      rfl
  | @behind t rest ht _ ih =>
      obtain ⟨trivia, behind, left, htrivia, hweave⟩ :=
        ih parent siblings previous (offset + byteLength t.text) isGlued
      refine ⟨t :: trivia, behind, left, List.forall_mem_cons.mpr ⟨ht, htrivia⟩, fun resumes => ?_⟩
      rw [weaveTrees_cons, weaveTree, weaveToken_of_isTrivia _ ht]
      simp only [Tree.isNode, Tree.nodeKind?, Option.isSome_none, Bool.false_eq_true, if_false,
        Tree.width, hweave resumes]
      rfl
  | @within children rest _ ih =>
      obtain ⟨trivia, behind, left, htrivia, hweave⟩ := ih .argList children none offset isGlued
      let others := weaveTrees marks parent siblings (some (.node .argList children))
        (offset + widthAll children) left rest
      refine ⟨trivia, behind ++ others.1, others.2, htrivia, fun resumes => ?_⟩
      simp only [weaveTrees_cons, weaveTree_argList, hweave resumes, List.append_assoc,
        List.cons_append]
      rfl

/-! ## Links that continue an awaited chain -/

/-- A node that starts at `offset` is awaited. -/
def isAwaited (marks : Marks) (offset : Nat) (kind : NodeKind) (children : List Tree) : Bool :=
  kind.isSite && marks.isSuspended ⟨offset, offset + widthAll children⟩

/-- A chain and the link that continues it. -/
structure Continuation where
  kind : NodeKind
  children : List Tree
  trivia : List Token
  link : Token
  tail : List Token

namespace Continuation

def base (c : Continuation) : Tree := .node c.kind c.children

/-- What is written in front of the link. -/
def mark (c : Continuation) : List Fragment :=
  if hasOptionalLink c.base then linkMark c.link.kind else []

theorem mark_eq_singleton (c : Continuation) {before behind : List Piece} {fragment : Fragment}
    (h : c.mark.map .inserted = before ++ .inserted fragment :: behind) :
    c.mark = [fragment] ∧ before = [] ∧ behind = [] := by
  have hone : c.mark.length ≤ 1 := by
    unfold mark linkMark
    split
    · split <;> simp
    · simp
  have hlength := congrArg List.length h
  rw [List.length_map, List.length_append, List.length_cons] at hlength
  have hbefore : before = [] := List.eq_nil_of_length_eq_zero (by omega)
  have hbehind : behind = [] := List.eq_nil_of_length_eq_zero (by omega)
  subst hbefore hbehind
  obtain ⟨other, hmark, hother⟩ := List.map_eq_singleton_iff.mp h
  exact ⟨by rw [hmark, Piece.inserted.inj hother], rfl, rfl⟩

/-- The node at a spot is an awaited chain with one more link. -/
structure IsAt (marks : Marks) (spot : Spot) (c : Continuation) : Prop where
  chain : isChain spot.kind = true
  children : ∃ rest, spot.children = c.base :: rest ∧ leavesAll rest = c.trivia ++ c.link :: c.tail
  awaited : isAwaited marks spot.offset c.kind c.children = true
  trivia : ∀ t ∈ c.trivia, t.kind.isTrivia = true
  link : isLink c.link.kind = true

/-- The link stands between pieces, right behind the parenthesis that closes its chain. The tokens
behind it are those of the spot and what comes after, so there is no other place for it. -/
structure Stands (c : Continuation) (spot : Spot) (after : List Token)
    (pieces before behind : List Piece) : Prop where
  pieces : pieces = before ++ (c.mark.map .inserted ++ .source c.link :: behind)
  closed : ∃ front, before = front ++ .inserted .close :: c.trivia.map .source
  behind : sourceTokens behind ++ after = c.tail ++ spot.after

theorem takeWhile_trivia {trivia tail : List Token} {link : Token}
    (htrivia : ∀ t ∈ trivia, t.kind.isTrivia = true) (hlink : isLink link.kind = true) :
    (trivia ++ link :: tail).takeWhile (·.kind.isTrivia) = trivia := by
  rw [List.takeWhile_append_of_pos htrivia, List.takeWhile_cons_of_neg, List.append_nil]
  simp [isTrivia_of_isLink hlink]

theorem IsAt.unique {marks : Marks} {spot : Spot} {c d : Continuation} (hc : c.IsAt marks spot)
    (hd : d.IsAt marks spot) : c = d := by
  obtain ⟨rest, hrest, hleaves⟩ := hc.children
  obtain ⟨rest', hrest', hleaves'⟩ := hd.children
  obtain ⟨hbase, rfl⟩ := List.cons.inj (hrest.symm.trans hrest')
  obtain ⟨hkind, hchildren⟩ := Tree.node.inj hbase
  have htokens := hleaves.symm.trans hleaves'
  have htrivia : c.trivia = d.trivia := by
    rw [← takeWhile_trivia hc.trivia hc.link, htokens, takeWhile_trivia hd.trivia hd.link]
  rw [htrivia] at htokens
  obtain ⟨hlink, htail⟩ := List.cons.inj (List.append_cancel_left htokens)
  cases c
  cases d
  simp_all

section Stands

variable {c : Continuation} {spot : Spot} {after : List Token} {pieces before behind : List Piece}

theorem Stands.append_left (h : c.Stands spot after pieces before behind) (front : List Piece) :
    c.Stands spot after (front ++ pieces) (front ++ before) behind := by
  obtain ⟨inner, hinner⟩ := h.closed
  refine ⟨by rw [h.pieces, List.append_assoc], ⟨front ++ inner, ?_⟩, h.behind⟩
  rw [hinner, List.append_assoc]

theorem Stands.append_right {later : List Piece}
    (h : c.Stands spot (sourceTokens later ++ after) pieces before behind) :
    c.Stands spot after (pieces ++ later) before (behind ++ later) := by
  refine ⟨?_, h.closed, ?_⟩
  · rw [h.pieces]
    simp only [List.append_assoc, List.cons_append]
  · rw [sourceTokens_append, List.append_assoc, h.behind]

end Stands

end Continuation

theorem sourceTokens_map_inserted (fragments : List Fragment) :
    sourceTokens (fragments.map .inserted) = [] := by
  simp [sourceTokens, Piece.token?]

theorem sourceTokens_map_source (tokens : List Token) :
    sourceTokens (tokens.map .source) = tokens := by
  induction tokens with
  | nil => rfl
  | cons t rest ih => exact congrArg (t :: ·) ih

theorem inserted_of_append {a b before behind : List Piece} {fragment : Fragment}
    (h : a ++ b = before ++ .inserted fragment :: behind) :
    (∃ inner, a = before ++ .inserted fragment :: inner ∧ behind = inner ++ b) ∨
      ∃ inner, before = a ++ inner ∧ b = inner ++ .inserted fragment :: behind := by
  rcases List.append_eq_append_iff.mp h with ⟨inner, hbefore, hb⟩ | ⟨inner, ha, hbehind⟩
  · exact .inr ⟨inner, hbefore, hb⟩
  · cases inner with
    | nil =>
        rw [List.append_nil] at ha
        exact .inr ⟨[], by rw [ha, List.append_nil], hbehind.symm⟩
    | cons piece inner =>
        obtain ⟨rfl, rfl⟩ := List.cons.inj hbehind
        exact .inl ⟨inner, ha, rfl⟩

theorem inserted_not_mem_map_source (fragment : Fragment) (tokens : List Token) :
    .inserted fragment ∉ tokens.map Piece.source := by
  intro h
  obtain ⟨t, -, ht⟩ := List.mem_map.mp h
  cases ht

theorem Continuation.Stands.drop_source {c : Continuation} {spot : Spot} {after tokens : List Token}
    {pieces before behind : List Piece}
    (h : c.Stands spot after (tokens.map .source ++ pieces) before behind) :
    ∃ inner, before = tokens.map .source ++ inner ∧ c.Stands spot after pieces inner behind := by
  obtain ⟨front, rfl⟩ := h.closed
  have hpieces := h.pieces
  rw [List.append_assoc, List.cons_append] at hpieces
  rcases inserted_of_append hpieces with ⟨inner, hsource, -⟩ | ⟨inner, rfl, hinner⟩
  · exact absurd (by rw [hsource]; simp) (inserted_not_mem_map_source .close tokens)
  · refine ⟨inner ++ .inserted .close :: c.trivia.map .source, ?_, ?_, ⟨inner, rfl⟩, h.behind⟩
    · rw [List.append_assoc]
    · rw [hinner, List.append_assoc, List.cons_append]

/-! ## Pieces with marked links -/

def Fragment.marksLink : Fragment → Bool
  | .question | .link => true
  | _ => false

def Unmarked (pieces : List Piece) : Prop :=
  ∀ fragment, .inserted fragment ∈ pieces → fragment.marksLink = false

/-- The links that continue awaited chains are marked, and nothing else is. -/
structure Marked (marks : Marks) (spots : List Spot) (after : List Token) (pieces : List Piece) :
    Prop where
  written : ∀ spot ∈ spots, ∀ c : Continuation, c.IsAt marks spot →
    ∃ before behind, c.Stands spot after pieces before behind
  explained : ∀ before fragment behind, pieces = before ++ .inserted fragment :: behind →
    fragment.marksLink = true → ∃ spot ∈ spots, ∃ (c : Continuation) (later : List Piece),
      c.IsAt marks spot ∧ c.mark = [fragment] ∧ behind = .source c.link :: later ∧
        c.Stands spot after pieces before later

namespace Marked

variable {marks : Marks} {spots first second : List Spot} {spot : Spot} {after : List Token}
  {pieces a b : List Piece}

theorem of_unmarked (after : List Token) (h : Unmarked pieces) :
    Marked marks [] after pieces := by
  refine ⟨fun spot hspot => absurd hspot List.not_mem_nil, ?_⟩
  intro before fragment behind hpieces hmarks
  rw [h fragment (by rw [hpieces]; simp)] at hmarks
  cases hmarks

theorem cons (h : Marked marks spots after pieces)
    (hspot : ∀ c : Continuation, ¬c.IsAt marks spot) :
    Marked marks (spot :: spots) after pieces := by
  refine ⟨fun other hother c hc => ?_, fun before fragment behind hpieces hmarks => ?_⟩
  · rcases List.mem_cons.mp hother with rfl | hother
    · exact absurd hc (hspot c)
    · exact h.written other hother c hc
  · obtain ⟨other, hother, hexplained⟩ := h.explained before fragment behind hpieces hmarks
    exact ⟨other, List.mem_cons_of_mem _ hother, hexplained⟩

theorem append (ha : Marked marks first (sourceTokens b ++ after) a)
    (hb : Marked marks second after b) : Marked marks (first ++ second) after (a ++ b) := by
  refine ⟨fun spot hspot c hc => ?_, fun before fragment behind hpieces hmarks => ?_⟩
  · rcases List.mem_append.mp hspot with hspot | hspot
    · obtain ⟨before, behind, hstands⟩ := ha.written spot hspot c hc
      exact ⟨before, behind ++ b, hstands.append_right⟩
    · obtain ⟨before, behind, hstands⟩ := hb.written spot hspot c hc
      exact ⟨a ++ before, behind, hstands.append_left a⟩
  · rcases inserted_of_append hpieces with ⟨inner, hfirst, rfl⟩ | ⟨inner, rfl, hsecond⟩
    · obtain ⟨spot, hspot, c, later, hc, hmark, rfl, hstands⟩ :=
        ha.explained before fragment inner hfirst hmarks
      exact ⟨spot, List.mem_append_left _ hspot, c, later ++ b, hc, hmark, rfl,
        hstands.append_right⟩
    · obtain ⟨spot, hspot, c, later, hc, hmark, rfl, hstands⟩ :=
        hb.explained inner fragment behind hsecond hmarks
      exact ⟨spot, List.mem_append_right _ hspot, c, later, hc, hmark, rfl, hstands.append_left a⟩

theorem surround {front back : List Piece} (h : Marked marks spots after pieces)
    (hfront : Unmarked front) (hback : Unmarked back) (hnone : sourceTokens back = []) :
    Marked marks spots after (front ++ pieces ++ back) := by
  have hleft : Marked marks spots after (front ++ pieces) := (of_unmarked _ hfront).append h
  have hboth := Marked.append (by rwa [hnone]) (of_unmarked after hback)
  rwa [List.append_nil] at hboth

theorem drop_source {tokens : List Token} (h : Marked marks spots after (tokens.map .source ++ b)) :
    Marked marks spots after b := by
  refine ⟨fun spot hspot c hc => ?_, fun before fragment behind hpieces hmarks => ?_⟩
  · obtain ⟨before, behind, hstands⟩ := h.written spot hspot c hc
    obtain ⟨inner, -, hinner⟩ := hstands.drop_source
    exact ⟨inner, behind, hinner⟩
  · obtain ⟨spot, hspot, c, later, hc, hmark, hbehind, hstands⟩ :=
      h.explained (tokens.map .source ++ before) fragment behind
        (by rw [hpieces, List.append_assoc]) hmarks
    obtain ⟨inner, hinner, hstands⟩ := hstands.drop_source
    obtain rfl := List.append_cancel_left hinner
    exact ⟨spot, hspot, c, later, hc, hmark, hbehind, hstands⟩

theorem link {c : Continuation} {front back : List Piece} (hc : c.IsAt marks spot)
    (ha : Marked marks first (sourceTokens (.source c.link :: back) ++ after)
      (front ++ .inserted .close :: c.trivia.map .source))
    (hb : Marked marks second after (.source c.link :: back))
    (htail : sourceTokens back ++ after = c.tail ++ spot.after) :
    Marked marks (spot :: (first ++ second)) after
      (front ++ .inserted .close :: c.trivia.map .source ++
        (c.mark.map .inserted ++ .source c.link :: back)) := by
  have hown : c.Stands spot after (front ++ .inserted .close :: c.trivia.map .source ++
      (c.mark.map .inserted ++ .source c.link :: back))
      (front ++ .inserted .close :: c.trivia.map .source) back :=
    ⟨rfl, ⟨front, rfl⟩, htail⟩
  have hmarked : sourceTokens (c.mark.map .inserted ++ .source c.link :: back) =
      sourceTokens (.source c.link :: back) := by
    rw [sourceTokens_append, sourceTokens_map_inserted, List.nil_append]
  rw [← hmarked] at ha
  refine ⟨fun other hother d hd => ?_, fun before fragment behind hpieces hmarks => ?_⟩
  · rcases List.mem_cons.mp hother with rfl | hother
    · obtain rfl := hc.unique hd
      exact ⟨_, _, hown⟩
    · rcases List.mem_append.mp hother with hother | hother
      · obtain ⟨before, behind, hstands⟩ := ha.written other hother d hd
        exact ⟨before, _, hstands.append_right⟩
      · obtain ⟨before, behind, hstands⟩ := hb.written other hother d hd
        exact ⟨_, behind, (hstands.append_left _).append_left _⟩
  · rcases inserted_of_append hpieces with ⟨inner, hfirst, rfl⟩ | ⟨inner, rfl, hlater⟩
    · obtain ⟨other, hother, d, later, hd, hmark, rfl, hstands⟩ :=
        ha.explained before fragment inner hfirst hmarks
      exact ⟨other, List.mem_cons_of_mem _ (List.mem_append_left _ hother), d, _, hd, hmark, rfl,
        hstands.append_right⟩
    · rcases inserted_of_append hlater with ⟨more, hmark, rfl⟩ | ⟨more, rfl, hsecond⟩
      · obtain ⟨hone, rfl, rfl⟩ := c.mark_eq_singleton hmark
        rw [List.append_nil]
        exact ⟨spot, List.mem_cons_self, c, back, hc, hone, rfl, hown⟩
      · obtain ⟨other, hother, d, later, hd, hmark, rfl, hstands⟩ :=
          hb.explained more fragment behind hsecond hmarks
        exact ⟨other, List.mem_cons_of_mem _ (List.mem_append_right _ hother), d, later, hd, hmark,
          rfl, (hstands.append_left _).append_left _⟩

end Marked

/-! ## Weaving -/

/-- What weaving some spots yields, and whether the link behind them is to be made optional. -/
structure Weaves (marks : Marks) (spots : List Spot) (after : List Token) (resumes : Bool)
    (woven : List Piece × Pending) : Prop where
  marked : Marked marks spots after woven.1
  resumes : woven.2.resumes = resumes

/-- Whether the link behind a tree is to be made optional. -/
def resumesBehind (marks : Marks) (place : Place) (offset : Nat) : Tree → Bool
  | .leaf _ => false
  | .node kind children =>
      isAwaited marks offset kind children && place.isBase &&
        (place.isLinkBase && hasOptionalLink (.node kind children))

theorem unmarked_map_source (tokens : List Token) : Unmarked (tokens.map .source) :=
  fun fragment h => absurd h (inserted_not_mem_map_source fragment tokens)

theorem unmarked_opening (isSite isWrapped isPromoted isGlued : Bool) :
    Unmarked (opening isSite isWrapped isPromoted isGlued) := by
  intro fragment h
  cases isSite <;> cases isWrapped <;> cases isPromoted <;> cases isGlued <;>
    simp [opening] at h <;> grind [Fragment.marksLink]

theorem weaves_node {marks : Marks} {place : Place} {offset : Nat} {pending : Pending}
    {kind : NodeKind} {children : List Tree} {spots : List Spot} {after : List Token}
    (h : ∀ isGlued, Weaves marks spots after false
      (weaveTrees marks kind children none offset ⟨isGlued, false⟩ children))
    (hpending : pending.resumes = false) :
    Weaves marks spots after (resumesBehind marks place offset (.node kind children))
      (weaveTree marks place offset pending (.node kind children)) := by
  obtain ⟨isGlued, resumes⟩ := pending
  obtain rfl : resumes = false := hpending
  simp only [weaveTree, resumesBehind, isAwaited]
  generalize (if kind = .exprStmt then place.isGlued else isGlued) = glued
  obtain ⟨hinner, hleft⟩ := h (glued &&
    !(kind.isSite && marks.isSuspended ⟨offset, offset + widthAll children⟩) &&
    !(kind.isFunction && marks.isPromoted ⟨offset, offset + widthAll children⟩))
  split
  next hwrapped =>
    have hclose : Unmarked [.inserted .close] := by simp [Unmarked, Fragment.marksLink]
    refine ⟨hinner.surround (unmarked_opening _ _ _ _) hclose rfl, ?_⟩
    rw [hwrapped, Bool.true_and]
  next hwrapped =>
    rw [Bool.not_eq_true] at hwrapped
    rw [hwrapped, Bool.false_and, ← List.append_nil (_ ++ _)]
    exact ⟨hinner.surround (unmarked_opening _ _ _ _) (by simp [Unmarked]) rfl, hleft⟩

theorem place_of_isChain {kind : NodeKind} (h : isChain kind = true) (siblings : List Tree) :
    (Place.under kind siblings none).isBase = true ∧
      (Place.under kind siblings none).isLinkBase = true := by
  cases kind with
  | callExpr | memberExpr | indexExpr => exact ⟨rfl, rfl⟩
  | _ => cases h

theorem closes_weaveTree {marks : Marks} {place : Place} {offset : Nat} {pending : Pending}
    {kind : NodeKind} {children : List Tree} (h : isAwaited marks offset kind children = true)
    (hplace : place.isBase = true) :
    ∃ front, (weaveTree marks place offset pending (.node kind children)).1 =
      front ++ [.inserted .close] := by
  obtain ⟨isGlued, entered, hpieces⟩ := pieces_weaveTree marks place offset pending kind children
  rw [isAwaited] at h
  rw [h, hplace, Bool.true_and, if_pos rfl] at hpieces
  exact ⟨_, hpieces⟩

/-- One more link of a chain. The chain before it and what stands behind it are marked on their own,
and the mark of the link is put between them. -/
theorem weaves_chain {marks : Marks} {spot : Spot} {kind : NodeKind} {children rest : List Tree}
    {link : Token} {inner behind : List Spot} {woven : List Piece × Pending}
    (hchain : isChain spot.kind = true) (hchildren : spot.children = .node kind children :: rest)
    (hlink : isLink link.kind = true) (hled : LedBy link rest)
    (hbase : Weaves marks inner (leavesAll rest ++ spot.after)
      (isAwaited marks spot.offset kind children && hasOptionalLink (.node kind children)) woven)
    (hcloses : isAwaited marks spot.offset kind children = true →
      ∃ front, woven.1 = front ++ [.inserted .close])
    {previous : Option Tree} {offset : Nat}
    (hrest : ∀ isGlued, Weaves marks behind spot.after false
      (weaveTrees marks spot.kind spot.children previous offset ⟨isGlued, false⟩ rest)) :
    let others := weaveTrees marks spot.kind spot.children previous offset woven.2 rest
    Weaves marks (spot :: (inner ++ behind)) spot.after false (woven.1 ++ others.1, others.2) := by
  obtain ⟨pieces, isGlued, resumes⟩ := woven
  obtain ⟨trivia, back, left, htrivia, hweave⟩ := hled.woven hlink marks spot.kind spot.children
    previous offset isGlued
  obtain ⟨hback, hleft⟩ := hrest isGlued
  obtain ⟨hmarked, hresumes⟩ := hbase
  have hleaves := sourceTokens_weaveTrees marks spot.kind spot.children previous offset
    ⟨isGlued, false⟩ rest
  rw [hweave false] at hback hleft hleaves
  simp only [hweave resumes]
  refine ⟨?_, hleft⟩
  have htokens : leavesAll rest = trivia ++ link :: sourceTokens back := by
    rw [← hleaves, sourceTokens_append, sourceTokens_map_source]
    rfl
  cases hawaited : isAwaited marks spot.offset kind children with
  | true =>
      obtain ⟨front, hfront⟩ := hcloses hawaited
      obtain rfl : pieces = front ++ [.inserted .close] := hfront
      rw [hawaited, Bool.true_and] at hresumes
      obtain rfl : resumes = hasOptionalLink (.node kind children) := hresumes
      have hc : Continuation.IsAt marks spot ⟨kind, children, trivia, link, sourceTokens back⟩ :=
        ⟨hchain, ⟨rest, hchildren, htokens⟩, hawaited, htrivia, hlink⟩
      have hfirst : Marked marks inner (sourceTokens (.source link :: back) ++ spot.after)
          (front ++ .inserted .close :: trivia.map .source) := by
        rw [htokens, List.append_assoc, ← sourceTokens_map_source trivia] at hmarked
        have hall := hmarked.append (Marked.of_unmarked _ (unmarked_map_source trivia))
        rwa [List.append_nil, List.append_assoc] at hall
      have hlinked := Marked.link hc hfirst hback.drop_source rfl
      rw [List.append_assoc] at hlinked ⊢
      exact hlinked
  | false =>
      rw [hawaited, Bool.false_and] at hresumes
      obtain rfl : resumes = false := hresumes
      refine Marked.cons (Marked.append ?_ hback) fun c hc => ?_
      · rw [hleaves]
        exact hmarked
      · obtain ⟨others, hothers, -⟩ := hc.children
        obtain ⟨hkind, hinner⟩ := Tree.node.inj (List.cons.inj (hchildren.symm.trans hothers)).1
        have hother := hc.awaited
        rw [← hkind, ← hinner, hawaited] at hother
        cases hother

theorem resumesBehind_of_not_isLinkBase {marks : Marks} {place : Place} {offset : Nat} {tree : Tree}
    (h : place.isLinkBase = false) : resumesBehind marks place offset tree = false := by
  cases tree with
  | leaf => rfl
  | node => rw [resumesBehind, h, Bool.false_and, Bool.and_false]

theorem Weaves.cons {marks : Marks} {parent : NodeKind} {siblings rest : List Tree}
    {previous : Option Tree} {offset : Nat} {spots others : List Spot} {after : List Token}
    {woven : List Piece × Pending} (h : Weaves marks spots (leavesAll rest ++ after) false woven)
    (hrest : Weaves marks others after false
      (weaveTrees marks parent siblings previous offset woven.2 rest)) :
    let behind := weaveTrees marks parent siblings previous offset woven.2 rest
    Weaves marks (spots ++ others) after false (woven.1 ++ behind.1, behind.2) := by
  refine ⟨Marked.append ?_ hrest.marked, hrest.resumes⟩
  rw [sourceTokens_weaveTrees]
  exact h.marked

theorem weaves_token (marks : Marks) (after : List Token) {pending : Pending} (token : Token)
    (h : pending.resumes = false) : Weaves marks [] after false (weaveToken pending token) := by
  have hplain : (weaveToken pending token).1 = [token].map .source := by
    unfold weaveToken
    split
    · rfl
    · simp [h]
  refine ⟨hplain ▸ .of_unmarked after (unmarked_map_source [token]), ?_⟩
  unfold weaveToken
  split
  · exact h
  · simp [h]

mutual

theorem weaves_tree (marks : Marks) (place : Place) (offset : Nat) (pending : Pending)
    (tree : Tree) (around : NodeKind) (later : List Tree) (after : List Token)
    (hspots : ∀ spot ∈ tree.spotsAt around offset later after,
      isChain spot.kind = true → Continued spot.children)
    (hpending : pending.resumes = false) :
    Weaves marks (tree.spotsAt around offset later after) after
      (resumesBehind marks place offset tree) (weaveTree marks place offset pending tree) := by
  match tree with
  | .leaf token => exact weaves_token marks after token hpending
  | .node kind [] =>
      have hown : isChain kind = false := by
        refine Bool.eq_false_iff.mpr fun hchain => ?_
        obtain ⟨base, children, link, rest, hnone, -⟩ := hspots _ List.mem_cons_self hchain
        cases hnone
      refine weaves_node (fun isGlued => ⟨(Marked.of_unmarked after ?_).cons fun c hc => ?_, rfl⟩)
        hpending
      · exact unmarked_map_source []
      · exact Bool.false_ne_true (hown.symm.trans hc.chain)
  | .node kind (first :: rest) =>
      obtain ⟨hown, hinner⟩ := List.forall_mem_cons.mp hspots
      rw [spotsAmong] at hinner
      obtain ⟨hfirst, hrest⟩ := List.forall_mem_append.mp hinner
      refine weaves_node (fun isGlued => ?_) hpending
      have hbase := weaves_tree marks (Place.under kind (first :: rest) none) offset
        ⟨isGlued, false⟩ first kind (rest ++ []) (leavesAll rest ++ after) hfirst rfl
      have hbehind pending := weaves_trees marks kind (first :: rest)
        (if first.isNode then some first else none) (offset + first.width) pending rest [] after
        hrest
      cases hchain : isChain kind with
      | true =>
          obtain ⟨base, children, link, others, hchildren, hlink, hled⟩ := hown hchain
          obtain ⟨rfl, rfl⟩ := List.cons.inj hchildren
          obtain ⟨hisBase, hisLinkBase⟩ := place_of_isChain hchain (.node base children :: rest)
          rw [resumesBehind, hisBase, hisLinkBase, Bool.and_true, Bool.true_and] at hbase
          exact weaves_chain hchain rfl hlink hled hbase (fun h => closes_weaveTree h hisBase)
            fun glued => hbehind ⟨glued, false⟩ (.inr rfl) rfl
      | false =>
          rw [resumesBehind_of_not_isLinkBase (by simp [Place.under, hchain])] at hbase
          obtain ⟨hmarked, hresumes⟩ := hbase.cons (hbehind _ (.inl hchain) hbase.resumes)
          refine ⟨hmarked.cons fun c hc => ?_, hresumes⟩
          exact Bool.false_ne_true (hchain.symm.trans hc.chain)

theorem weaves_trees (marks : Marks) (parent : NodeKind) (siblings : List Tree)
    (previous : Option Tree) (offset : Nat) (pending : Pending) (trees : List Tree)
    (later : List Tree) (after : List Token)
    (hspots : ∀ spot ∈ spotsAmong parent offset later after trees,
      isChain spot.kind = true → Continued spot.children)
    (hplace : isChain parent = false ∨ previous.isSome = true)
    (hpending : pending.resumes = false) :
    Weaves marks (spotsAmong parent offset later after trees) after false
      (weaveTrees marks parent siblings previous offset pending trees) := by
  match trees with
  | [] => exact ⟨.of_unmarked after (unmarked_map_source []), hpending⟩
  | tree :: rest =>
      rw [spotsAmong] at hspots ⊢
      obtain ⟨hfirst, hrest⟩ := List.forall_mem_append.mp hspots
      have htree := weaves_tree marks (Place.under parent siblings previous) offset pending tree
        parent (rest ++ later) (leavesAll rest ++ after) hfirst hpending
      have hnot : (Place.under parent siblings previous).isLinkBase = false := by
        rcases hplace with hplace | hplace
        · simp [Place.under, hplace]
        · simp [Place.under, Option.isNone_eq_false_iff.mpr hplace]
      have hbehind : isChain parent = false ∨
          (if tree.isNode then some tree else previous).isSome = true := by
        refine hplace.imp_right fun hsome => ?_
        split
        · rfl
        · exact hsome
      rw [resumesBehind_of_not_isLinkBase hnot] at htree
      exact htree.cons (weaves_trees marks parent siblings _ (offset + tree.width) _ rest later
        after hrest hbehind htree.resumes)

end

theorem marked_weave (marks : Marks) {tree : Tree} {children : List Tree}
    (htree : tree = .node .script children)
    (hspots : ∀ spot ∈ tree.spots, isChain spot.kind = true → Continued spot.children) :
    Marked marks tree.spots [] (weave marks tree) := by
  subst htree
  have hroot : Weaves marks (Tree.node .script children).spots []
      (resumesBehind marks {} 0 (.node .script children))
      (weaveTree marks {} 0 {} (.node .script children)) :=
    weaves_node (fun isGlued => weaves_trees marks .script children none 0 ⟨isGlued, false⟩ children
      [] [] hspots (.inl rfl) rfl) rfl
  exact hroot.marked

/-! ## Optional links -/

/-- The link is written as an optional one, or the chain before it holds one. -/
def Continuation.IsOptional (c : Continuation) : Prop :=
  c.link.kind = .questionDot ∨ ∃ token : Token, token.kind = .questionDot ∧ HoldsLink token c.base

def optionalSpelling : TokenKind → List Char
  | .lBracket => "?.[".toList
  | .lParen => "?.(".toList
  | _ => "?.".toList

def Continuation.text (c : Continuation) : List Char :=
  render (c.mark.map .inserted ++ [.source c.link])

theorem Continuation.text_eq {c : Continuation} (hlink : isLink c.link.kind = true)
    (htext : c.link.text = linkSpelling c.link.kind) :
    (c.IsOptional → c.text = optionalSpelling c.link.kind) ∧
      (¬c.IsOptional → c.text = linkSpelling c.link.kind) := by
  have hrender : c.text = c.mark.flatMap Fragment.text ++ linkSpelling c.link.kind := by
    rw [text, render, List.flatMap_append, List.flatMap_map, List.flatMap_singleton, Piece.text,
      htext]
    rfl
  rw [IsOptional, ← hasOptionalLink_iff, hrender, mark]
  generalize c.link.kind = kind at hlink
  cases hasOptionalLink c.base with
  | false =>
      refine ⟨fun hoptional => ?_, fun _ => rfl⟩
      obtain rfl := hoptional.resolve_right Bool.false_ne_true
      rfl
  | true =>
      refine ⟨fun _ => ?_, fun hplain => absurd (.inr rfl) hplain⟩
      cases kind with
      | dot | questionDot | lBracket | lParen => rfl
      | _ => cases hlink

end ShellAwait.Output

namespace ShellAwait

open Output ShellAwait.Tree

variable {catalogue : Catalogue} {source : List Char}

/-- Where an awaited chain of the tree is continued, the link behind it is optional if it was or if
the chain holds an optional link. No other link of the output is made optional. -/
structure Compiled.KeepsChains (compiled : Compiled) (tree : Tree) : Prop where
  continued : ∀ spot ∈ tree.spots, isChain spot.kind = true →
    ∃ kind children rest, spot.children = .node kind children :: rest ∧
      (isAwaited compiled.findings.toMarks spot.offset kind children = true →
        ∃ c : Continuation, c.IsAt compiled.findings.toMarks spot)
  marked : Marked compiled.findings.toMarks tree.spots [] compiled.pieces
  text : ∀ spot ∈ tree.spots, ∀ c : Continuation, c.IsAt compiled.findings.toMarks spot →
    (c.IsOptional → c.text = optionalSpelling c.link.kind) ∧
      (¬c.IsOptional → c.text = linkSpelling c.link.kind)

theorem keepsChains_weave {findings : Findings} {tree : Tree} {children : List Tree}
    (htree : tree = .node .script children)
    (hspots : ∀ spot ∈ tree.spots, isChain spot.kind = true → Continued spot.children)
    (hspelled : ∀ t ∈ tree.leaves, isLink t.kind = true → t.text = linkSpelling t.kind) :
    Compiled.KeepsChains ⟨findings, weave findings.toMarks tree⟩ tree := by
  have hmarked := marked_weave findings.toMarks htree hspots
  refine ⟨fun spot hspot hchain => ?_, hmarked, fun spot hspot c hc => ?_⟩
  · obtain ⟨kind, children, link, rest, hchildren, hlink, hled⟩ := hspots spot hspot hchain
    obtain ⟨trivia, tail, htrivia, hleaves⟩ := hled.leaves
    exact ⟨kind, children, rest, hchildren, fun hawaited => ⟨⟨kind, children, trivia, link, tail⟩,
      hchain, ⟨rest, hchildren, hleaves⟩, hawaited, htrivia, hlink⟩⟩
  · obtain ⟨before, behind, hstands⟩ := hmarked.written spot hspot c hc
    have hleaf : c.link ∈ tree.leaves := by
      rw [← sourceTokens_weave findings.toMarks, hstands.pieces]
      simp [sourceTokens, Piece.token?]
    exact Continuation.text_eq hc.link (hspelled c.link hleaf hc.link)

/-- Awaiting a part of an optional chain leaves the chain optional, in every script that is
compiled. -/
theorem awaited_chains_stay_optional {compiled : Compiled}
    (h : compile catalogue source = .ok compiled) :
    compiled.KeepsChains (parse source).tree := by
  obtain ⟨findings, hanalyse, rfl⟩ := compile_eq_ok h
  have hclean := (run_of_analyse hanalyse).1
  have hspelled := (Token.lexes_tokenize source).text_of_isLink
  rw [← leaves_parse] at hspelled
  exact keepsChains_weave (parse_eq source).1 (fun spot => continued_spot hclean) hspelled

def optionalCalls : List Char := "x = link?.() /* and then */ ();".toList

/-- The parenthesis of the second call stands in a list of arguments, behind a comment. -/
theorem awaited_chains_stay_optional_calls : ∃ compiled : Compiled,
    compile linking optionalCalls = .ok compiled ∧
      render compiled.pieces = "x = (await link?.()) /* and then */ ?.();".toList ∧
      compiled.KeepsChains (parse optionalCalls).tree ∧
      ∃ spot ∈ (parse optionalCalls).tree.spots, ∃ c : Continuation,
        c.IsAt compiled.findings.toMarks spot ∧ c.mark = [.link] := by
  obtain ⟨compiled, h, hpieces⟩ : ∃ compiled : Compiled,
      compile linking optionalCalls = .ok compiled ∧
        (render compiled.pieces, decide (.inserted .link ∈ compiled.pieces)) =
          ("x = (await link?.()) /* and then */ ?.();".toList, true) :=
    exists_of_map_toOption (by decide +kernel)
  obtain ⟨htext, hmem⟩ := Prod.mk.inj hpieces
  have hkeeps := awaited_chains_stay_optional h
  obtain ⟨before, behind, hsplit⟩ := List.append_of_mem (of_decide_eq_true hmem)
  obtain ⟨spot, hspot, c, -, hc, hmark, -⟩ := hkeeps.marked.explained before .link behind hsplit rfl
  exact ⟨compiled, h, htext, hkeeps, spot, hspot, c, hc, hmark⟩

end ShellAwait
