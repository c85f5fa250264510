import ShellAwait.Proofs.Token.Tiling

/-! # Templates in a stream

Templates and interpolations stand in each other like brackets, with the braces of an interpolation
counted. The tokens of a script can be read with a stack that refuses every token which is out of
place.
-/

namespace ShellAwait.Token

open Text

variable {context : Context} {text : List Char}

/-! ## The stack -/

/-- The stack behind a token, innermost first, if the token may stand there. -/
def nest? (stack : List Mode) (kind : TokenKind) : Option (List Mode) :=
  match kind, stack with
  | .templateContent, .template :: _ => some stack
  | .interpolationStart, .template :: _ => some (.interpolation 0 :: stack)
  | .templateEnd, .template :: outer => some outer
  | .error, .template :: outer => some outer
  | _, .template :: _ => none
  | .templateStart, _ => some (.template :: stack)
  | .lBrace, .interpolation depth :: outer => some (.interpolation (depth + 1) :: outer)
  | .rBrace, .interpolation 0 :: _ => none
  | .rBrace, .interpolation (depth + 1) :: outer => some (.interpolation depth :: outer)
  | .interpolationEnd, .interpolation 0 :: outer => some outer
  | .interpolationEnd, _ => none
  | .templateContent, _ => none
  | .interpolationStart, _ => none
  | .templateEnd, _ => none
  | _, _ => some stack

/-- What is true of a token in front of others, at a place in this stack. -/
structure Stands (stack : List Mode) (t : Token) (after : List Token) : Prop where
  /-- Counted from the bottom, templates and interpolations take turns, a template first. -/
  alternates : ∀ i mode, stack.reverse[i]? = some mode → (mode = .template ↔ i % 2 = 0)
  /-- An error in a template is the end of the stream. -/
  final : stack.head? = some .template → t.kind = .error → after = [endOfText]
  content : t.kind = .templateContent → t.text ≠ [] ∧ ∃ next rest, after = next :: rest ∧
    (next.kind = .interpolationStart ∨ next.kind = .templateEnd)

/-- Tokens that can be read with the stack to their end. -/
def Nests : List Mode → List Token → Prop
  | _, [] => True
  | stack, t :: after =>
      Stands stack t after ∧ ∃ next, nest? stack t.kind = some next ∧ Nests next after

/-! ## Turns -/

theorem Alternating.eq_template_iff {mode : Mode} {outer : List Mode}
    (h : Alternating (mode :: outer)) : mode = .template ↔ outer.length % 2 = 0 := by
  induction outer generalizing mode with
  | nil =>
      cases mode with
      | template => simp
      | interpolation depth => cases h.1
  | cons next outer ih =>
      have hnext := ih h.tail
      rw [List.length_cons]
      cases mode with
      | template =>
          have hne : next ≠ .template := fun heq => h.1 (congrArg some heq)
          have hodd : outer.length % 2 ≠ 0 := fun heven => hne (hnext.mpr heven)
          exact iff_of_true rfl (by omega)
      | interpolation depth =>
          have heven : outer.length % 2 = 0 := hnext.mp (Option.some.inj h.1)
          refine iff_of_false (fun heq => by cases heq) ?_
          omega

theorem Alternating.turns {stack : List Mode} (h : Alternating stack) :
    ∀ i mode, stack.reverse[i]? = some mode → (mode = .template ↔ i % 2 = 0) := by
  induction stack with
  | nil => exact fun i mode hmode => by cases hmode
  | cons first outer ih =>
      intro i mode hmode
      rw [List.reverse_cons] at hmode
      by_cases hi : i < outer.reverse.length
      · rw [List.getElem?_append_left hi] at hmode
        exact ih h.tail i mode hmode
      · rw [List.getElem?_append_right (Nat.le_of_not_lt hi), List.getElem?_singleton] at hmode
        split at hmode
        · rw [List.length_reverse] at hi
          rename_i hlast
          rw [List.length_reverse] at hlast
          cases hmode
          rw [show i = outer.length by omega]
          exact h.eq_template_iff
        · cases hmode

/-! ## Steps -/

theorem Context.scanAt_rBrace (context : Context) (c : Char) (rest : List Char) :
    (context.scanAt c rest).kind = .rBrace → context.modes.head? ≠ some (.interpolation 0) := by
  have hcontent : ∀ kind ∈ contentKinds, kind ≠ .rBrace := by decide
  refine context.scanAt_cases_of_kind (P := fun lexeme =>
    lexeme.kind = .rBrace → context.modes.head? ≠ some (.interpolation 0)) c rest
    (fun lexeme hkind hbrace => absurd hbrace (hcontent lexeme.kind hkind)) nofun nofun ?_
    (fun hbrace => absurd hbrace
      (scanName_kind_of (P := (· ≠ .rBrace)) _ (by decide) (by decide)))
    fun hbrace => absurd hbrace
      (scanPunctuation_kind_of (P := (· ≠ .rBrace)) _ (by decide) (by decide) (by decide))
  intro hkind hmode
  obtain ⟨outer, houter⟩ := List.head?_eq_some_iff.mp hmode
  simp [Context.closingBrace, houter] at hkind

theorem nest?_eq_modesAfter {modes : List Mode} {kind : TokenKind}
    (hout : modes.head? ≠ some .template) (hkind : kind ∉ templateKinds)
    (hclose : kind = .interpolationEnd → modes.head? = some (.interpolation 0))
    (hbrace : kind = .rBrace → modes.head? ≠ some (.interpolation 0)) :
    nest? modes kind = some (modesAfter modes kind) := by
  by_cases hinner : kind = .interpolationEnd
  · obtain ⟨outer, rfl⟩ := List.head?_eq_some_iff.mp (hclose hinner)
    rw [hinner]
    rfl
  by_cases hright : kind = .rBrace
  · rw [hright]
    match modes, hout, hbrace hright with
    | [], _, _ => rfl
    | .template :: outer, hout, _ => exact absurd rfl hout
    | .interpolation 0 :: outer, _, hdepth => exact absurd rfl hdepth
    | .interpolation (depth + 1) :: outer, _, _ => rfl
  by_cases hopens : kind = .templateStart ∨ kind = .lBrace
  · match modes, hout with
    | [], _ => rcases hopens with rfl | rfl <;> rfl
    | .template :: outer, hout => exact absurd rfl hout
    | .interpolation depth :: outer, _ => rcases hopens with rfl | rfl <;> rfl
  · have hstays : modesAfter modes kind = modes := by
      unfold modesAfter
      split <;> simp_all [templateKinds]
    rw [hstays]
    unfold nest?
    split <;> simp_all [templateKinds]

/-- A token that is scanned may stand where it is scanned, and the modes behind it are the stack. -/
theorem Context.nest?_scan {lexeme : Lexeme} (h : context.scan text = some lexeme) :
    nest? context.modes lexeme.kind = some (context.after lexeme.kind).modes := by
  rcases Context.scan_eq_some h with ⟨hmode, rfl⟩ | ⟨hmode, c, rest, rfl, rfl⟩
  · obtain ⟨outer, houter⟩ := List.head?_eq_some_iff.mp hmode
    have hkind := scanTemplatePart_kind text
    simp only [List.mem_cons, List.not_mem_nil, or_false] at hkind
    rcases hkind with hkind | hkind | hkind | hkind <;> rw [hkind, after, houter] <;> rfl
  · exact nest?_eq_modesAfter hmode (context.scanAt_kind c rest)
      (fun hkind => ((context.scanAt_marks c rest).2 hkind).2) (context.scanAt_rBrace c rest)

theorem templateText_rest (text : List Char) :
    if (templateText text).closed then
      (scanTemplatePart (templateText text).cut.rest).kind = .interpolationStart ∨
        (scanTemplatePart (templateText text).cut.rest).kind = .templateEnd
    else (templateText text).cut.rest = [] := by
  fun_induction templateText text with
  | case1 => rfl
  | case2 => exact Or.inr rfl
  | case3 => exact Or.inl rfl
  | case4 c rest ih => exact ih
  | case5 c rest _ _ _ ih => exact ih

theorem scanTemplatePart_error (h : (scanTemplatePart text).kind = .error) :
    (scanTemplatePart text).rest = [] := by
  have hrest := templateText_rest text
  unfold scanTemplatePart at h ⊢
  split
  · simp at h
  · simp at h
  · simp only [Lexeme.ofLiteral] at h ⊢
    cases hclosed : (templateText text).closed with
    | true => simp [hclosed] at h
    | false => simpa [hclosed] using hrest

theorem scanTemplatePart_content (h : (scanTemplatePart text).kind = .templateContent) :
    (scanTemplatePart (scanTemplatePart text).rest).kind = .interpolationStart ∨
      (scanTemplatePart (scanTemplatePart text).rest).kind = .templateEnd := by
  have hrest := templateText_rest text
  unfold scanTemplatePart at h
  split at h
  · simp at h
  · simp at h
  · rename_i hend hopen
    simp only [Lexeme.ofLiteral] at h
    cases hclosed : (templateText text).closed with
    | true =>
        rw [scanTemplatePart.eq_3 text hend hopen]
        simpa only [hclosed, if_true, Lexeme.ofLiteral] using hrest
    | false => simp [hclosed] at h

/-! ## Streams -/

theorem Lexes.head_of_template {tokens : List Token} (h : Lexes context text tokens)
    (hin : context.inTemplate = true) :
    ∃ next rest, tokens = next :: rest ∧ next.kind = (scanTemplatePart text).kind := by
  cases h with
  | finish hscan => simp [Context.scan, hin] at hscan
  | token hscan =>
      simp only [Context.scan, hin, if_true, Option.some.injEq] at hscan
      exact ⟨_, _, rfl, hscan ▸ rfl⟩

theorem Context.stands_of_scan {lexeme : Lexeme} {after : List Token}
    (h : context.scan text = some lexeme) (halternate : Alternating context.modes)
    (hafter : Lexes (context.after lexeme.kind) lexeme.rest after) :
    Stands context.modes ⟨lexeme.kind, lexeme.text⟩ after := by
  obtain ⟨-, -, hnext, hempty⟩ := Context.scan_spec h halternate
  rcases Context.scan_eq_some h with ⟨hmode, rfl⟩ | ⟨hmode, c, rest, rfl, rfl⟩
  · obtain ⟨outer, houter⟩ := List.head?_eq_some_iff.mp hmode
    refine ⟨halternate.turns, fun _ (herror : (scanTemplatePart text).kind = .error) => ?_,
      fun (hcontent : (scanTemplatePart text).kind = .templateContent) =>
        ⟨fun hnone => ?_, ?_⟩⟩
    -- The error pops the template, and what is below it is an interpolation or nothing.
    · rw [houter] at halternate
      have hleft : (context.after (scanTemplatePart text).kind).inTemplate = false := by
        rw [herror]
        simpa [inTemplate, Context.after, houter, modesAfter] using halternate.1
      rw [scanTemplatePart_error herror] at hafter
      exact hafter.eq_endOfText hleft
    · simp [(hempty hnone).2.1] at hcontent
    · have hstill : (context.after (scanTemplatePart text).kind).inTemplate = true := by
        rw [hcontent]
        simpa [inTemplate, Context.after, modesAfter] using hmode
      obtain ⟨next, rest, rfl, hkind⟩ := hafter.head_of_template hstill
      exact ⟨next, rest, rfl, hkind ▸ scanTemplatePart_content hcontent⟩
  · refine ⟨halternate.turns, fun htop => absurd htop hmode,
      fun (hcontent : (context.scanAt c rest).kind = .templateContent) => ?_⟩
    have hkind := context.scanAt_kind c rest
    rw [hcontent] at hkind
    exact absurd (by decide) hkind

theorem nest?_endOfText {stack : List Mode} (h : stack.head? ≠ some .template) :
    nest? stack endOfText.kind = some stack := by
  cases stack with
  | nil => rfl
  | cons mode outer =>
      cases mode with
      | template => exact absurd rfl h
      | interpolation depth => rfl

theorem Lexes.nests {tokens : List Token} (h : Lexes context text tokens)
    (halternate : Alternating context.modes) : Nests context.modes tokens := by
  induction h with
  | @finish context text hscan =>
      obtain ⟨-, hout⟩ := Context.scan_eq_none hscan
      have hmode : context.modes.head? ≠ some .template := by simpa [Context.inTemplate] using hout
      exact ⟨⟨halternate.turns, fun htop => absurd htop hmode, fun hkind => by cases hkind⟩,
        context.modes, nest?_endOfText hmode, trivial⟩
  | token hscan hrest ih =>
      obtain ⟨-, -, hnext, -⟩ := Context.scan_spec hscan halternate
      exact ⟨Context.stands_of_scan hscan halternate hrest, _, Context.nest?_scan hscan, ih hnext⟩

/-- The tokens of every script hold all of it and can be read to their end with a stack of
templates and interpolations. An interpolation is closed only where its braces are; in a template
stand its text, interpolations and its end, or an error that ends the stream. -/
theorem tokenize_nests (source : List Char) :
    textOf (tokenize source) = source ∧ Nests [] (tokenize source) :=
  ⟨textOf_tokenize source, (lexes_tokenize source).nests trivial⟩

example : (tokenize ['`', 'a', '$', '{', '{', '}', '`', '`', '}', '$', '`']).map Token.kind =
    [.templateStart, .templateContent, .interpolationStart, .lBrace, .rBrace, .templateStart,
      .templateEnd, .interpolationEnd, .templateContent, .templateEnd, .eof] := by decide +kernel

end ShellAwait.Token
