import ShellAwait.Proofs.Grammar.Rooted
import ShellAwait.Proofs.Token.Terminators

/-! # Line breaks that the grammar sees

Between two significant tokens the grammar sees a line break if there is one among the tokens
between them, or a comment with a line feed in it. The other line terminators count on their own, but
not inside a comment.
-/

namespace ShellAwait

open Text Grammar ShellAwait.Tree

namespace Token

/-! ## Trivia -/

theorem spansLine_textOf {tokens : List Token} :
    spansLine (textOf tokens) = true ↔ ∃ t ∈ tokens, spansLine t.text = true := by
  simp only [spansLine, textOf, List.any_flatMap, List.any_eq_true]

theorem LineEnds.spansLine_newline {text : List Char} (h : LineEnds .newline text) :
    spansLine text = true := by
  obtain ⟨c, hc, rfl⟩ | rfl := h.newline rfl
  · simp [spansLine, hc]
  · decide

theorem spansLine_of_lineFeed {text : List Char} (h : '\n' ∈ text) : spansLine text = true :=
  List.any_eq_true.mpr ⟨'\n', h, by decide⟩

theorem endsLine_iff {t : Token} (htrivia : t.kind.isTrivia = true) (h : LineEnds t.kind t.text) :
    t.endsLine = true ↔ t.kind = .newline ∨ '\n' ∈ t.text := by
  obtain ⟨kind, text⟩ := t
  cases kind with
  | newline => simp [endsLine]
  | comment => simp [endsLine]
  | whitespace =>
      have hnone : '\n' ∉ text := fun hmem => h.duly (spansLine_of_lineFeed hmem) fun h => by cases h
      simp [endsLine, hnone]
  | _ => cases htrivia

theorem spansLine_of_endsLine {t : Token} (htrivia : t.kind.isTrivia = true)
    (h : LineEnds t.kind t.text) (hends : t.endsLine = true) : spansLine t.text = true := by
  obtain hkind | hfeed := (endsLine_iff htrivia h).mp hends
  · rw [hkind] at h
    exact h.spansLine_newline
  · exact spansLine_of_lineFeed hfeed

theorem kind_of_spansLine {t : Token} (htrivia : t.kind.isTrivia = true)
    (h : LineEnds t.kind t.text) (hspans : spansLine t.text = true) :
    t.kind = .newline ∨ t.kind = .comment ∧ ['/', '*'] <+: t.text := by
  obtain ⟨kind, text⟩ := t
  cases kind with
  | newline => exact .inl rfl
  | comment => exact .inr ⟨rfl, h.duly hspans fun h => by cases h⟩
  | whitespace => exact (h.duly hspans fun h => by cases h).elim
  | _ => cases htrivia

/-! ## Between two significant tokens -/

/-- Two significant tokens of a stream with nothing but trivia between them. -/
structure Consecutive (tokens front : List Token) (earlier : Token) (gap : List Token)
    (later : Token) (back : List Token) : Prop where
  split : tokens = front ++ [earlier] ++ gap ++ later :: back
  earlier : earlier.kind.isTrivia = false
  trivia : ∀ t ∈ gap, t.kind.isTrivia = true
  later : later.kind.isTrivia = false

namespace Consecutive

variable {tokens front gap back : List Token} {earlier later : Token}

theorem significant_eq (h : Consecutive tokens front earlier gap later back) :
    ∃ before after, before.length = (significantOnly front).length + 1 ∧
      significant tokens = before ++ ⟨later.kind, later.text, gap.any endsLine⟩ :: after := by
  have hends : endsSignificant (front ++ [earlier]) = true := by
    simp [endsSignificant, h.earlier]
  refine ⟨significant (front ++ [earlier]), significant back, ?_, ?_⟩
  · have hmap := congrArg List.length (map_token_significantFrom false (front ++ [earlier]))
    rw [List.length_map] at hmap
    rw [significant, hmap]
    simp [significantOnly, h.earlier]
  · rw [h.split, List.append_assoc, significant, significantFrom_append,
      pending_of_endsSignificant false hends, significantFrom_trivia false h.trivia,
      significantFrom, if_neg (by rw [h.later]; exact Bool.false_ne_true), Bool.false_or]
    rfl

theorem nth_view (h : Consecutive tokens front earlier gap later back) {v : View} {k n : Nat}
    (hview : v.ahead = (significant tokens).drop k)
    (hn : k + n = (significantOnly front).length + 1) :
    v.nth n = ⟨later.kind, later.text, gap.any endsLine⟩ := by
  obtain ⟨before, after, hlength, htokens⟩ := h.significant_eq
  rw [View.nth, hview, htokens, List.getD_eq_getElem?_getD, List.getElem?_drop, hn, ← hlength,
    List.getElem?_append_right (Nat.le_refl _), Nat.sub_self]
  rfl

theorem textOf_eq (h : Consecutive tokens front earlier gap later back) :
    textOf tokens = textOf (front ++ [earlier]) ++ textOf gap ++ textOf (later :: back) := by
  simp only [h.split, textOf, List.flatMap_append]

theorem mem_of_gap (h : Consecutive tokens front earlier gap later back) {t : Token}
    (ht : t ∈ gap) : t ∈ tokens := by
  rw [h.split]
  simp [ht]

end Consecutive

theorem any_endsLine_iff {gap : List Token} (htrivia : ∀ t ∈ gap, t.kind.isTrivia = true)
    (hends : ∀ t ∈ gap, LineEnds t.kind t.text) :
    gap.any endsLine = true ↔ '\n' ∈ textOf gap ∨ ∃ t ∈ gap, t.kind = .newline := by
  rw [List.any_eq_true]
  constructor
  · rintro ⟨t, ht, hline⟩
    obtain hkind | hfeed := (endsLine_iff (htrivia t ht) (hends t ht)).mp hline
    · exact .inr ⟨t, ht, hkind⟩
    · exact .inl (List.mem_flatMap.mpr ⟨t, ht, hfeed⟩)
  · rintro (hfeed | ⟨t, ht, hkind⟩)
    · obtain ⟨t, ht, hfeed⟩ := List.mem_flatMap.mp hfeed
      exact ⟨t, ht, (endsLine_iff (htrivia t ht) (hends t ht)).mpr (.inr hfeed)⟩
    · exact ⟨t, ht, (endsLine_iff (htrivia t ht) (hends t ht)).mpr (.inl hkind)⟩

/-- A line that ends unseen ends in comments only, and in none of them with a line feed. -/
theorem any_endsLine_eq_false_iff {gap : List Token} (htrivia : ∀ t ∈ gap, t.kind.isTrivia = true)
    (hends : ∀ t ∈ gap, LineEnds t.kind t.text) :
    gap.any endsLine = false ↔ ∀ t ∈ gap, spansLine t.text = true →
      t.kind = .comment ∧ ['/', '*'] <+: t.text ∧ '\n' ∉ t.text := by
  rw [List.any_eq_false]
  refine forall₂_congr fun t ht => ?_
  have hline := endsLine_iff (htrivia t ht) (hends t ht)
  constructor
  · intro hnone hspans
    rw [hline, not_or] at hnone
    obtain ⟨hcomment, hmark⟩ :=
      (kind_of_spansLine (htrivia t ht) (hends t ht) hspans).resolve_left hnone.1
    exact ⟨hcomment, hmark, hnone.2⟩
  · intro hcomments hbreak
    obtain ⟨hkind, -, hfeed⟩ :=
      hcomments (spansLine_of_endsLine (htrivia t ht) (hends t ht) hbreak)
    obtain hnewline | hmem := hline.mp hbreak
    · rw [hkind] at hnewline
      cases hnewline
    · exact hfeed hmem

/-- From wherever the grammar looks ahead at a token, it sees a line break in front of it if the text
since the token before holds a line feed, or a line terminator outside of comments. So it misses a
line terminator exactly where all of them stand in comments and none is a line feed. -/
theorem breakAt_iff_between {source : List Char} {front gap back : List Token}
    {earlier later : Token} (h : Consecutive (tokenize source) front earlier gap later back)
    (v : View) (k n : Nat) (hview : v.ahead = (significant (tokenize source)).drop k)
    (hn : k + n = (significantOnly front).length + 1) :
    source = textOf (front ++ [earlier]) ++ textOf gap ++ textOf (later :: back) ∧
    (v.nth n).token = later ∧
    (v.breakAt n = true ↔ '\n' ∈ textOf gap ∨ ∃ t ∈ gap, t.kind = .newline) ∧
    (¬(v.breakAt n = true ↔ spansLine (textOf gap) = true) ↔
      spansLine (textOf gap) = true ∧ ∀ t ∈ gap, spansLine t.text = true →
        t.kind = .comment ∧ ['/', '*'] <+: t.text ∧ '\n' ∉ t.text) := by
  have hends : ∀ t ∈ gap, LineEnds t.kind t.text := fun t ht => lineEnds_of_mem (h.mem_of_gap ht)
  have hbreak : v.breakAt n = gap.any endsLine := by rw [View.breakAt, h.nth_view hview hn]
  have hspans : v.breakAt n = true → spansLine (textOf gap) = true := by
    rw [hbreak, List.any_eq_true, spansLine_textOf]
    rintro ⟨t, ht, hline⟩
    exact ⟨t, ht, spansLine_of_endsLine (h.trivia t ht) (hends t ht) hline⟩
  refine ⟨h.textOf_eq ▸ (textOf_tokenize source).symm, ?_, ?_, ?_⟩
  · rw [h.nth_view hview hn]
    rfl
  · rw [hbreak]
    exact any_endsLine_iff h.trivia hends
  · rw [← any_endsLine_eq_false_iff h.trivia hends, ← hbreak, ← Bool.not_eq_true]
    tauto

/-- A comment in which a line ends with a carriage return. -/
def commentOverLines : List Token :=
  [⟨.whitespace, [' ']⟩, ⟨.comment, "/* a\r b */".toList⟩, ⟨.whitespace, [' ']⟩]

/-- Two statements on lines of their own, with the comment between them. -/
def statementsApart : List Char := "f() /* a\r b */ g".toList

theorem breakAt_iff_between_statementsApart :
    Consecutive (tokenize statementsApart) [⟨.ident, ['f']⟩, ⟨.lParen, ['(']⟩] ⟨.rParen, [')']⟩
      commentOverLines ⟨.ident, ['g']⟩ [endOfText] ∧
    spansLine (textOf commentOverLines) = true ∧
    ¬((View.mk ((significant (tokenize statementsApart)).drop 1) false false).breakAt 2 = true ↔
      spansLine (textOf commentOverLines) = true) := by
  have hpair : Consecutive (tokenize statementsApart) [⟨.ident, ['f']⟩, ⟨.lParen, ['(']⟩]
      ⟨.rParen, [')']⟩ commentOverLines ⟨.ident, ['g']⟩ [endOfText] :=
    ⟨by decide +kernel, rfl, by decide +kernel, rfl⟩
  obtain ⟨-, -, -, hmissed⟩ := breakAt_iff_between hpair
    ⟨(significant (tokenize statementsApart)).drop 1, false, false⟩ 1 2 rfl rfl
  have hspans : spansLine (textOf commentOverLines) = true := by decide +kernel
  exact ⟨hpair, hspans, hmissed.mpr ⟨hspans, by decide +kernel⟩⟩

end Token

end ShellAwait
