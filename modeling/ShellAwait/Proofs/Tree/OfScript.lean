import ShellAwait.Proofs.Grammar.Sound
import ShellAwait.Proofs.Token.Lossless
import ShellAwait.Proofs.Tree.Occurrences

/-! # The tree of a script

Its leaves are the tokens of the script, all of them and in order. Without a problem its nodes are
well shaped, so that those which findings refer to are told apart by their spans.
-/

namespace ShellAwait

open Text

namespace Token

theorem kind_endOfText : endOfText.kind = .eof := rfl

theorem significantFrom_end (broken : Bool) {body : List Token} {ending : Token}
    (hending : ending.kind = .eof) (hbody : ∀ t ∈ body, t.kind ≠ .eof) :
    ∃ before last, significantFrom broken (body ++ [ending]) = before ++ [last] ∧
      last.kind = .eof ∧ ∀ t ∈ before, t.kind ≠ .eof := by
  induction body generalizing broken with
  | nil =>
      have hsolid : ending.kind.isTrivia = false := by rw [hending]; rfl
      exact ⟨[], ⟨ending.kind, ending.text, broken⟩, by simp [significantFrom, hsolid], hending,
        by simp⟩
  | cons t rest ih =>
      have hrest : ∀ t ∈ rest, t.kind ≠ .eof := fun u hu => hbody u (List.mem_cons_of_mem t hu)
      rw [List.cons_append, significantFrom]
      split
      · exact ih _ hrest
      · obtain ⟨before, last, heq, hlast, hbefore⟩ := ih false hrest
        refine ⟨⟨t.kind, t.text, broken⟩ :: before, last, by rw [heq, List.cons_append], hlast, ?_⟩
        intro u hu
        rcases List.mem_cons.mp hu with rfl | hu
        · exact hbody t List.mem_cons_self
        · exact hbefore u hu

end Token

namespace Tree

open Grammar Token

theorem strip_mem_stripAll {tree : Tree} {trees : List Tree} (h : tree ∈ trees)
    (htrivia : tree.isTrivia = false) : tree.strip ∈ stripAll trees := by
  induction trees with
  | nil => exact absurd h List.not_mem_nil
  | cons first rest ih =>
      rw [stripAll]
      rcases List.mem_cons.mp h with rfl | h
      · rw [if_neg (by simp [htrivia])]
        exact List.mem_cons_self
      · split
        · exact ih h
        · exact List.mem_cons_of_mem _ (ih h)

/-- The elements that are read lie over the whole stream. -/
theorem lays_parseTokens {body : List Token} {ending : Token} (hending : ending.kind = .eof)
    (hbody : ∀ t ∈ body, t.kind ≠ .eof) :
    Lays (read (significant (body ++ [ending]))).done.reverse []
      (layAll (read (significant (body ++ [ending]))).done.reverse (body ++ [ending]))
        (body ++ [ending]) := by
  obtain ⟨before, last, hsignificant, -, hbefore⟩ := significantFrom_end false hending hbody
  apply lays_layAll
  rw [significant, hsignificant, leavesAll_read hbefore, ← hsignificant, List.append_nil,
    map_token_significantFrom]

/-- No token is lost, doubled or moved, whether or not there is a problem. -/
theorem leaves_parseTokens {body : List Token} {ending : Token} (hending : ending.kind = .eof)
    (hbody : ∀ t ∈ body, t.kind ≠ .eof) :
    (parseTokens (body ++ [ending])).tree.leaves = body ++ [ending] := by
  have hlays := lays_parseTokens hending hbody
  have hleaves := hlays.leaves
  have hrest := hlays.rest
  change leavesAll (layAll _ (body ++ [ending])).1 = _
  generalize layAll (read (significant (body ++ [ending]))).done.reverse (body ++ [ending]) = laid
    at hleaves hrest
  -- What is left over would end with the mark of the end, which is no trivia.
  rcases List.eq_nil_or_concat laid.2 with hnil | ⟨front, last, hlast⟩
  · rw [← hleaves, hnil, List.append_nil]
  · rw [hlast, List.concat_eq_append, ← List.append_assoc] at hleaves
    have hend : last = ending := by simpa using (List.append_inj_right' hleaves rfl)
    simp [hlast, hend, significantOnly, hending, TokenKind.isTrivia] at hrest

theorem exists_body_tokenize (source : List Char) :
    ∃ body, tokenize source = body ++ [endOfText] ∧ ∀ t ∈ body, t.kind ≠ .eof := by
  obtain ⟨body, hsplit, -, hbody⟩ := (tokenize_spells source).split
  exact ⟨body, hsplit, fun t ht => (hbody t ht).1⟩

theorem lays_read (source : List Char) :
    Lays (read (significant (tokenize source))).done.reverse []
      (layAll (read (significant (tokenize source))).done.reverse (tokenize source))
        (tokenize source) := by
  obtain ⟨body, hsplit, hbody⟩ := exists_body_tokenize source
  rw [hsplit]
  exact lays_parseTokens kind_endOfText hbody

theorem leaves_parse (source : List Char) : (parse source).tree.leaves = tokenize source := by
  obtain ⟨body, hsplit, hbody⟩ := exists_body_tokenize source
  rw [parse, hsplit]
  exact leaves_parseTokens kind_endOfText hbody

theorem parse_eq (source : List Char) :
    (parse source).tree = .node .script
        (layAll (read (significant (tokenize source))).done.reverse (tokenize source)).1 ∧
      ((parse source).fault = none → (read (significant (tokenize source))).report = none) := by
  refine ⟨rfl, fun h => ?_⟩
  unfold parse parseTokens at h
  simpa using h

theorem wellShaped_parse {source : List Char} (h : (parse source).fault = none) :
    ∃ children, (parse source).tree = .node .script children ∧
      ∀ tree ∈ children, tree.isNode = true → tree.WellShaped := by
  refine ⟨_, rfl, fun tree htree hnode => ?_⟩
  have hclean := (parse_eq source).2 h
  cases tree with
  | leaf token => cases hnode
  | node kind children =>
      have hmem := strip_mem_stripAll htree rfl
      rw [(lays_read source).strip, List.mem_reverse] at hmem
      exact (wellShaped_read hclean _ hmem rfl).of_strip

theorem spelled_tokenize (source : List Char) : Spelled (tokenize source) := by
  obtain ⟨body, hsplit, -, hbody⟩ := (tokenize_spells source).split
  rw [hsplit]
  intro t ht hempty
  rcases List.mem_append.mp ht with ht | ht
  · exact .inl ((hbody t ht).2 hempty)
  · rw [List.mem_singleton.mp ht]
    exact .inr rfl

theorem ordered_parse {source : List Char} (h : (parse source).fault = none) :
    Ordered (parse source).tree.nodes 0 (parse source).tree.width := by
  obtain ⟨children, htree, hshape⟩ := wellShaped_parse h
  have hspelled : Spelled (leavesAll children) := by
    have hleaves := leaves_parse source
    rw [htree, leaves] at hleaves
    exact hleaves ▸ spelled_tokenize source
  have hinner := (ordered_occurrencesIn children {} .script ⟨0, 0 + widthAll children⟩ 0 hshape
    hspelled).1
  have hroot := hinner.cons (o := occurrence {} .script ⟨0, 0 + widthAll children⟩ children) rfl
    fun hkeyed => absurd (show NodeKind.script.isKeyed = true from hkeyed) (by decide)
  rw [htree, nodes, occurrences, width]
  simpa only [Nat.zero_add] using hroot

end Tree

end ShellAwait
