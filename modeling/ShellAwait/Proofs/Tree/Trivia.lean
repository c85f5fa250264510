import Mathlib.Data.List.TakeWhile
import ShellAwait.Proofs.Grammar.Termination
import ShellAwait.Proofs.Token.Tiling

/-! # Trivia

Of the trivia in front of a token only whether a line ends in it matters to the grammar. A tree
without its trivia is what was read of the significant tokens, and problems are found at these.
-/

namespace ShellAwait

open Text Grammar

namespace Token

open ShellAwait.Tree

/-! ## Line breaks in front of significant tokens -/

def triviaBefore : List Token → Nat → List Token
  | tokens, 0 => tokens.takeWhile (·.kind.isTrivia)
  | tokens, n + 1 => triviaBefore (afterTrivia tokens).tail n

/-- Whether a line ends between the significant token with this number and the one before it. -/
def breaksBefore (tokens : List Token) (n : Nat) : Bool := (triviaBefore tokens n).any endsLine

theorem significantFrom_trivia (broken : Bool) {trivia : List Token}
    (h : ∀ t ∈ trivia, t.kind.isTrivia = true) (rest : List Token) :
    significantFrom broken (trivia ++ rest) =
      significantFrom (broken || trivia.any endsLine) rest := by
  induction trivia generalizing broken with
  | nil => simp
  | cons t trivia ih =>
      rw [List.cons_append, significantFrom, if_pos (h t List.mem_cons_self),
        ih _ fun u hu => h u (List.mem_cons_of_mem t hu), List.any_cons, Bool.or_assoc]

theorem significant_of_afterTrivia {tokens after : List Token} {token : Token}
    (h : afterTrivia tokens = token :: after) :
    significant tokens = ⟨token.kind, token.text, breaksBefore tokens 0⟩ :: significant after := by
  have hsplit : tokens.takeWhile (·.kind.isTrivia) ++ token :: after = tokens :=
    h ▸ List.takeWhile_append_dropWhile
  have hfrom := significantFrom_trivia false
    (fun t ht => List.mem_takeWhile_imp (l := tokens) ht) (token :: after)
  rw [hsplit, significantFrom, isTrivia_of_afterTrivia h] at hfrom
  exact hfrom

theorem significant_eq_nil {tokens : List Token} (h : significantOnly tokens = []) :
    significant tokens = [] := by
  rw [← map_token_significantFrom false] at h
  exact List.map_eq_nil_iff.mp h

theorem getElem?_significant (tokens : List Token) (n : Nat) :
    (significant tokens)[n]? =
      (significantOnly tokens)[n]?.map fun t => ⟨t.kind, t.text, breaksBefore tokens n⟩ := by
  induction n generalizing tokens with
  | zero =>
      cases h : significantOnly tokens with
      | nil => simp [significant_eq_nil h]
      | cons t rest =>
          obtain ⟨after, hafter, -⟩ := afterTrivia_of_significant h
          simp [significant_of_afterTrivia hafter]
  | succ n ih =>
      cases h : significantOnly tokens with
      | nil => simp [significant_eq_nil h]
      | cons t rest =>
          obtain ⟨after, hafter, hrest⟩ := afterTrivia_of_significant h
          have hbreaks : breaksBefore tokens (n + 1) = breaksBefore after n := by
            rw [breaksBefore, triviaBefore, hafter, List.tail_cons, breaksBefore]
          rw [significant_of_afterTrivia hafter, List.getElem?_cons_succ, ih, hrest, hbreaks,
            List.getElem?_cons_succ]

/-- Streams with the same significant tokens, where a line ends in front of the same ones. -/
structure Alike (a b : List Token) : Prop where
  tokens : significantOnly a = significantOnly b
  breaks : ∀ n < (significantOnly a).length, breaksBefore a n = breaksBefore b n

instance (a b : List Token) : Decidable (Alike a b) :=
  decidable_of_iff (significantOnly a = significantOnly b ∧
      ∀ n < (significantOnly a).length, breaksBefore a n = breaksBefore b n)
    ⟨fun h => ⟨h.1, h.2⟩, fun h => ⟨h.tokens, h.breaks⟩⟩

theorem Alike.significant {a b : List Token} (h : Alike a b) :
    significant a = significant b := by
  apply List.ext_getElem?
  intro n
  rw [getElem?_significant, getElem?_significant, ← h.tokens]
  by_cases hn : n < (significantOnly a).length
  · rw [h.breaks n hn]
  · simp [List.getElem?_eq_none (Nat.not_lt.mp hn)]

end Token

/-! ## Trees -/

/-- Without trivia, the tree is what was read of the significant tokens. -/
theorem strip_parseTokens (tokens : List Token) :
    (parseTokens tokens).tree.strip =
      .node .script (read (Token.significant tokens)).done.reverse := by
  have hword := (keeps_read (Token.significant tokens)).word
  have hsignificant : Tree.significantOnly tokens = _ :=
    (Token.map_token_significantFrom false tokens).symm.trans hword.symm
  exact congrArg _ (Tree.lays_layAll _ tokens _ hsignificant).strip

/-! ## Problems -/

namespace Token

theorem length_significantSpans (tokens : List Token) :
    (significantSpans tokens).length = (significant tokens).length := by
  have hspans : (significantSpans tokens).length = (Tree.significantOnly tokens).length := by
    rw [significantSpans, List.length_map, Tree.significantOnly]
    conv_rhs => rw [← map_snd_placed 0 tokens, List.filter_map, List.length_map]
    rfl
  rw [hspans, ← map_token_significantFrom false, List.length_map, significant]

theorem exists_eof_significant {tokens : List Token}
    (h : tokens.getLast?.map Token.kind = some .eof) : ∃ t ∈ significant tokens, t.kind = .eof := by
  obtain ⟨last, hlast, hkind⟩ := Option.map_eq_some_iff.mp h
  have hmem : last ∈ Tree.significantOnly tokens :=
    List.mem_filter.mpr ⟨List.mem_of_getLast? hlast, by rw [hkind]; rfl⟩
  rw [← map_token_significantFrom false] at hmem
  obtain ⟨t, ht, rfl⟩ := List.mem_map.mp hmem
  exact ⟨t, ht, hkind⟩

end Token

/-- A reading that reaches the mark of the end reports problems at tokens of its own. -/
theorem Grammar.report_read_lt {tokens : List Lookahead} (hend : ∃ t ∈ tokens, t.kind = .eof)
    {report : Report} (h : (read tokens).report = some report) :
    report.token < tokens.length ∧
      ∀ opener, report.opener = some opener → opener < tokens.length := by
  obtain ⟨-, s, -, hfits, hreport⟩ := exists_runs_read tokens
  have hstart : (State.start tokens).Fits tokens.length := ⟨Nat.zero_add _, hend, nofun⟩
  exact (hfits _ hstart).report report (hreport ▸ h)

/-- The fault of a stream that points at the significant tokens with these numbers. -/
structure Fault.At (fault : Fault) (tokens : List Token) (problem : Problem) (number : Nat)
    (opener : Option Nat) : Prop where
  problem : fault.problem = problem
  span : (Token.significantSpans tokens)[number]? = some fault.span
  opener : opener.map ((Token.significantSpans tokens)[·]?) = fault.opener.map some

theorem Grammar.Report.locate_at {report : Report} {tokens : List Token}
    (htoken : report.token < (Token.significant tokens).length)
    (hopener : ∀ opener, report.opener = some opener → opener < (Token.significant tokens).length) :
    (report.locate tokens).At tokens report.problem report.token report.opener := by
  rw [← Token.length_significantSpans] at htoken hopener
  refine ⟨rfl, ?_, ?_⟩
  · simp [locate, List.getD, htoken]
  · cases hcase : report.opener with
    | none => simp [locate, hcase]
    | some opener => simp [locate, hcase, List.getD, hopener opener hcase]

theorem fault_parseTokens {tokens : List Token}
    (hend : tokens.getLast?.map Token.kind = some .eof) {report : Report}
    (h : (read (Token.significant tokens)).report = some report) :
    ∃ fault, (parseTokens tokens).fault = some fault ∧
      fault.At tokens report.problem report.token report.opener := by
  have hbounds := report_read_lt (Token.exists_eof_significant hend) h
  refine ⟨report.locate tokens, ?_, Report.locate_at hbounds.1 hbounds.2⟩
  rw [parseTokens, h, Option.map_some]

end ShellAwait
