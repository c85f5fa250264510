import ShellAwait.Token.Significant
import ShellAwait.Tree.Layout

/-! # Laying a tree over its stream

Taking the trivia out again gives back the tree that was laid, and the leaves with the tokens that
are left are the stream.
-/

namespace ShellAwait

namespace Tree

mutual

/-- The tree without its trivia. -/
def strip : Tree → Tree
  | .leaf token => .leaf token
  | .node kind children => .node kind (stripAll children)

def stripAll : List Tree → List Tree
  | [] => []
  | tree :: rest => if tree.isTrivia then stripAll rest else tree.strip :: stripAll rest

end

theorem stripAll_append (a b : List Tree) : stripAll (a ++ b) = stripAll a ++ stripAll b := by
  induction a with
  | nil => rfl
  | cons tree rest ih =>
      simp only [List.cons_append, stripAll, ih]
      split <;> rfl

theorem stripAll_leadingTrivia (tokens : List Token) : stripAll (leadingTrivia tokens) = [] := by
  induction tokens with
  | nil => rfl
  | cons t rest ih =>
      by_cases h : t.kind.isTrivia
      · simpa [leadingTrivia, h, stripAll, isTrivia] using ih
      · simp [leadingTrivia, h, stripAll]

theorem leavesAll_leadingTrivia (tokens : List Token) :
    leavesAll (leadingTrivia tokens) ++ afterTrivia tokens = tokens := by
  simp [leadingTrivia, afterTrivia]

/-- The tokens that the grammar sees. -/
def significantOnly (tokens : List Token) : List Token := tokens.filter (!·.kind.isTrivia)

theorem significantOnly_afterTrivia (tokens : List Token) :
    significantOnly (afterTrivia tokens) = significantOnly tokens := by
  induction tokens with
  | nil => rfl
  | cons t rest ih =>
      by_cases h : t.kind.isTrivia
      · simpa [significantOnly, afterTrivia, h] using ih
      · simp [afterTrivia, h]

theorem isTrivia_of_afterTrivia {tokens after : List Token} {token : Token}
    (h : afterTrivia tokens = token :: after) : token.kind.isTrivia = false := by
  have hhead := List.head?_dropWhile_not (fun t : Token => t.kind.isTrivia) tokens
  rw [show tokens.dropWhile (fun t => t.kind.isTrivia) = token :: after from h] at hhead
  simpa using hhead

theorem afterTrivia_of_significant {tokens rest : List Token} {token : Token}
    (h : significantOnly tokens = token :: rest) :
    ∃ after, afterTrivia tokens = token :: after ∧ significantOnly after = rest := by
  rw [← significantOnly_afterTrivia] at h
  cases hafter : afterTrivia tokens with
  | nil => simp [hafter, significantOnly] at h
  | cons t after =>
      have ht : t.kind.isTrivia = false := isTrivia_of_afterTrivia hafter
      rw [hafter] at h
      simp only [significantOnly, List.filter_cons, ht, Bool.not_false, if_true,
        List.cons.injEq] at h
      exact ⟨after, by rw [h.1], h.2⟩

/-- What laying trees over a stream yields, if their leaves are the next significant tokens. -/
structure Lays (trees : List Tree) (rest : List Token) (laid : List Tree × List Token)
    (tokens : List Token) : Prop where
  strip : stripAll laid.1 = trees
  leaves : leavesAll laid.1 ++ laid.2 = tokens
  rest : significantOnly laid.2 = rest

mutual

theorem lays_lay (tree : Tree) (tokens rest : List Token)
    (h : significantOnly tokens = tree.leaves ++ rest) :
    Lays [tree] rest (tree.lay tokens) tokens := by
  match tree with
  | .leaf token =>
      obtain ⟨after, hafter, hrest⟩ := afterTrivia_of_significant h
      have hleaves := leavesAll_leadingTrivia tokens
      have hnot : token.kind.isTrivia = false := by
        have hmem : token ∈ significantOnly tokens := by simp [h, leaves]
        simpa [significantOnly] using (List.mem_filter.mp hmem).2
      rw [hafter] at hleaves
      rw [lay, hafter]
      refine ⟨?_, ?_, hrest⟩
      · simp [stripAll_append, stripAll_leadingTrivia, stripAll, isTrivia, hnot, strip]
      · simpa [leavesAll, leaves] using hleaves
  | .node kind children =>
      have hafter : significantOnly (afterTrivia tokens) = leavesAll children ++ rest := by
        rw [significantOnly_afterTrivia, h, leaves]
      have hlaid := lays_layAll children (afterTrivia tokens) rest hafter
      rw [lay]
      refine ⟨?_, ?_, hlaid.rest⟩
      · simp [stripAll_append, stripAll_leadingTrivia, stripAll, isTrivia, strip, hlaid.strip]
      · simp only [leavesAll_append, leavesAll, leaves, List.append_nil, List.append_assoc,
          hlaid.leaves]
        exact leavesAll_leadingTrivia tokens

theorem lays_layAll (trees : List Tree) (tokens rest : List Token)
    (h : significantOnly tokens = leavesAll trees ++ rest) :
    Lays trees rest (layAll trees tokens) tokens := by
  match trees with
  | [] => exact ⟨rfl, rfl, by simpa [layAll, leavesAll] using h⟩
  | tree :: more =>
      rw [leavesAll, List.append_assoc] at h
      have hfirst := lays_lay tree tokens _ h
      have hmore := lays_layAll more (tree.lay tokens).2 rest hfirst.rest
      rw [layAll]
      refine ⟨?_, ?_, hmore.rest⟩
      · simp [stripAll_append, hfirst.strip, hmore.strip]
      · simp only [leavesAll_append, List.append_assoc, hmore.leaves]
        exact hfirst.leaves

end

end Tree

/-! ## What the grammar sees -/

theorem Token.map_token_significantFrom (broken : Bool) (tokens : List Token) :
    (significantFrom broken tokens).map Lookahead.token = Tree.significantOnly tokens := by
  induction tokens generalizing broken with
  | nil => rfl
  | cons t rest ih =>
      by_cases h : t.kind.isTrivia
      · simpa [significantFrom, Tree.significantOnly, h] using ih _
      · simpa [significantFrom, Tree.significantOnly, h, Lookahead.token] using ih _

end ShellAwait
