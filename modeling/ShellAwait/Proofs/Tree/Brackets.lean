import ShellAwait.Proofs.Grammar.Filled

/-! # Brackets

Every rule takes the token that closes what it has opened, or there is a problem. So the brackets of
a text without a problem are nested, whatever trivia stands between them, and nothing in its tree
tells of a part that could not be read.
-/

namespace ShellAwait

open Grammar Phrase Token

namespace Grammar.Bracketed

theorem of_plain {w : List TokenKind} (h : ∀ kind ∈ w, isBracket kind = false) : Bracketed w := by
  induction w with
  | nil => exact .nil
  | cons kind w ih =>
      exact .plain (h kind List.mem_cons_self) (ih fun k hk => h k (List.mem_cons_of_mem kind hk))

theorem of_filter {p : TokenKind → Bool} (hp : ∀ kind, p kind = false → isBracket kind = false)
    {w : List TokenKind} (h : Bracketed (w.filter p)) : Bracketed w := by
  have hplain : ∀ v : List TokenKind, (∀ kind ∈ v, ¬p kind = true) → Bracketed v := fun v hv =>
    of_plain fun kind hkind => hp kind (by simpa using hv kind hkind)
  generalize hkept : w.filter p = kept at h
  induction h generalizing w with
  | nil => exact hplain w (List.filter_eq_nil_iff.mp hkept)
  | plain hkind _ ih =>
      obtain ⟨before, after, rfl, hbefore, -, hafter⟩ := List.filter_eq_cons_iff.mp hkept
      exact (hplain before hbefore).append (.plain hkind (ih hafter))
  | enclosed hcloser _ _ ihv ihw =>
      obtain ⟨before, inside, rfl, hbefore, -, hinside⟩ := List.filter_eq_cons_iff.mp hkept
      obtain ⟨v, tail, rfl, hv, htail⟩ := List.filter_eq_append_iff.mp hinside
      obtain ⟨last, after, rfl, hlast, -, hafter⟩ := List.filter_eq_cons_iff.mp htail
      rw [← List.append_assoc]
      exact (hplain before hbefore).append
        (.enclosed hcloser ((ihv hv).append (hplain last hlast)) (ihw hafter))

end Grammar.Bracketed

namespace Tree

theorem suits_broken (wanted : SlotKind) : NodeKind.broken.suits wanted = false := by
  cases wanted <;> rfl

theorem ne_broken_of_fills {slots : List Slot} {kinds : List NodeKind}
    (h : Fills NodeKind.suits slots kinds) : .broken ∉ kinds := by
  induction h with
  | nil => exact List.not_mem_nil
  | absent _ ih | done _ ih => exact ih
  | one hsuits _ ih | present hsuits _ ih | next hsuits _ ih =>
      intro hmem
      rcases List.mem_cons.mp hmem with rfl | hmem
      · rw [suits_broken] at hsuits
        cases hsuits
      · exact ih hmem

mutual

theorem ne_broken_of_mem_occurrences {tree : Tree} (h : tree.Filled)
    (hroot : tree.nodeKind? ≠ some .broken) (around : Setting) (offset : Nat) :
    ∀ node ∈ tree.occurrences around offset, node.kind ≠ .broken := by
  match tree with
  | .leaf token => exact fun node hnode => absurd hnode List.not_mem_nil
  | .node kind children =>
      intro node hnode
      rcases List.mem_cons.mp hnode with rfl | hnode
      · exact fun hkind => hroot (congrArg some hkind)
      · exact ne_broken_of_mem_occurrencesIn h.2 (ne_broken_of_fills h.1.1) _ _ _ _ node hnode

theorem ne_broken_of_mem_occurrencesIn {trees : List Tree} (h : FilledAll trees)
    (hroots : .broken ∉ kinds trees) (around : Setting) (kind : NodeKind) (span : Text.Span)
    (offset : Nat) : ∀ node ∈ occurrencesIn around kind span offset trees, node.kind ≠ .broken := by
  match trees with
  | [] => exact fun node hnode => absurd hnode List.not_mem_nil
  | tree :: rest =>
      have hsplit (kind : NodeKind) :
          kind ∈ kinds (tree :: rest) ↔ tree.nodeKind? = some kind ∨ kind ∈ kinds rest := by
        simp [kinds, List.mem_filterMap]
      rw [hsplit, not_or] at hroots
      intro node hnode
      rcases List.mem_append.mp hnode with hnode | hnode
      · exact ne_broken_of_mem_occurrences h.1 hroots.1 _ _ node hnode
      · exact ne_broken_of_mem_occurrencesIn h.2 hroots.2 _ _ _ _ node hnode

end

end Tree

theorem filter_kinds_tokenize {source : List Char} {w : List Lookahead}
    (h : significant (tokenize source) = w) :
    ((tokenize source).map (·.kind)).filter (!·.isTrivia) = w.map (·.kind) := by
  have hsame := congrArg (List.map (·.kind)) (map_token_significantFrom false (tokenize source))
  rw [← significant, h, List.map_map] at hsame
  rw [List.filter_map]
  exact hsame.symm

/-- A text without a problem has no stray characters, its tree has no broken nodes, and its
brackets are nested, each closed by its own kind. -/
theorem bracketed_parse {source : List Char} (h : (parse source).fault = none) :
    (∀ t ∈ (parse source).tokens, t.kind ≠ .error) ∧
      (∀ node ∈ (parse source).tree.nodes, node.kind ≠ .broken) ∧
      Bracketed ((parse source).tokens.map (·.kind)) := by
  obtain ⟨l, last, hlast, hwords, hreads, -⟩ := reads_parse h
  have htidy := hreads.tidy
  have hkinds := filter_kinds_tokenize hwords
  refine ⟨fun t ht herror => ?_, ?_, ?_⟩
  · have hmem : t.kind ∈ ((tokenize source).map (·.kind)).filter (!·.isTrivia) := by
      rw [List.mem_filter]
      exact ⟨List.mem_map_of_mem ht, by rw [herror]; rfl⟩
    rw [hkinds, List.mem_map] at hmem
    obtain ⟨u, hu, hkind⟩ := hmem
    rcases List.mem_append.mp hu with hu | hu
    · exact (htidy.within u hu).2 (hkind.trans herror)
    · rw [List.mem_singleton.mp hu, hlast, herror] at hkind
      cases hkind
  · exact Tree.ne_broken_of_mem_occurrences (Tree.filled_parse h) nofun _ _
  · refine Bracketed.of_filter (p := (!·.isTrivia)) ?_ ?_
    · intro kind
      cases kind <;> decide
    · rw [show (parse source).tokens = tokenize source from rfl, hkinds, List.map_append]
      refine htidy.bracketed.append (.of_plain fun kind hkind => ?_)
      rw [List.map_singleton, List.mem_singleton, hlast] at hkind
      rw [hkind]
      rfl

/-- Brackets of every kind, with a comment and a line break between them. -/
def bracketedScript : List Char :=
  "f(`a ${ [ { b: 1 } /* ( */ ]
 } c`);".toList

theorem bracketed_parse_all : (parse bracketedScript).fault = none ∧
    Bracketed ((parse bracketedScript).tokens.map (·.kind)) :=
  have hclean : (parse bracketedScript).fault = none := by decide +kernel
  ⟨hclean, (bracketed_parse hclean).2.2⟩

end ShellAwait
