import ShellAwait.Token.Stream

/-! # Nothing of a text is lost in its tokens

Every scanner divides the text that it is given into what it takes and what it leaves. A token
takes at least one character; the one exception reports a template that the end of the text cuts
off. So the texts of the tokens, one after the other, are the script, and the fuel of the
tokenizer lasts to its end.
-/

namespace ShellAwait.Token

open Text

/-! ## Scanners divide a text -/

theorem of_fraction (text : List Char) : (fraction text).Of text := by
  unfold fraction
  split
  · exact Cut.of_push (Cut.of_run isDigitOrSeparator _)
  · exact Cut.of_nothing _

theorem of_exponent (text : List Char) : (exponent text).Of text := by
  unfold exponent
  split
  · exact Cut.of_nothing _
  · split
    · exact Cut.of_push (Cut.of_follow (Cut.of_one _ _) (Cut.of_run isDigitOrSeparator _))
    · exact Cut.of_nothing _

theorem of_decimal (text : List Char) : (decimal text).Of text :=
  Cut.of_follow (Cut.of_follow (Cut.of_run _ _) (of_fraction _)) (of_exponent _)

theorem of_magnitude (text : List Char) : (magnitude text).Of text := by
  unfold magnitude
  split
  · split
    · exact Cut.of_push (Cut.of_push (Cut.of_run isHexDigitOrSeparator _))
    · exact of_decimal _
  · exact of_decimal _

theorem of_number (text : List Char) : (number text).Of text :=
  Cut.of_follow (of_magnitude text) (Cut.of_one _ _)

theorem of_stringBody (quote : Char) (text : List Char) : (stringBody quote text).cut.Of text := by
  fun_induction stringBody quote text with
  | case1 => rfl
  | case2 rest ih => exact Cut.of_push (Cut.of_push (Cut.of_push ih))
  | case3 c rest _ ih => exact Cut.of_push (Cut.of_push ih)
  | case4 => rfl
  | case5 rest _ _ _ ih => exact Cut.of_push ih
  | case6 => rfl
  | case7 c rest _ _ _ _ _ ih => exact Cut.of_push ih

theorem of_templateText (text : List Char) : (templateText text).cut.Of text := by
  fun_induction templateText text with
  | case1 => rfl
  | case2 => rfl
  | case3 => rfl
  | case4 c rest ih => exact Cut.of_push (Cut.of_push ih)
  | case5 c rest _ _ _ ih => exact Cut.of_push ih

theorem of_regexBody (inClass : Bool) (text : List Char) :
    (regexBody inClass text).cut.Of text := by
  fun_induction regexBody inClass text with
  | case1 => rfl
  | case2 inClass c rest ih => exact Cut.of_push (Cut.of_push ih)
  | case3 => rfl
  | case4 _ _ _ _ ih => exact Cut.of_push ih
  | case5 _ _ _ _ _ ih => exact Cut.of_push ih
  | case6 => rfl
  | case7 _ _ _ _ _ _ _ _ ih => exact Cut.of_push ih

theorem of_commentBody (text : List Char) : (commentBody text).cut.Of text := by
  fun_induction commentBody text with
  | case1 => rfl
  | case2 => rfl
  | case3 c rest _ ih => exact Cut.of_push ih

theorem of_lineBreak (text : List Char) : (lineBreak text).Of text := by
  unfold lineBreak
  split <;> rfl

/-! ## Single tokens -/

/-- The lexeme divides this text. -/
def Lexeme.Of (lexeme : Lexeme) (text : List Char) : Prop := lexeme.text ++ lexeme.rest = text

theorem scanPunctuation_of (text : List Char) : (scanPunctuation text).Of text := by
  unfold scanPunctuation
  split
  · split <;> rfl
  · split
    · rename_i spelling kind found
      have hprefix := List.find?_some found
      obtain ⟨rest, rfl⟩ := List.isPrefixOf_iff_prefix.mp hprefix
      simp [Lexeme.Of]
    · exact List.take_append_drop 1 text

theorem scanName_of (text : List Char) : (scanName text).Of text := Cut.of_run _ _

theorem scanString_of (quote : Char) (rest : List Char) :
    (scanString quote rest).Of (quote :: rest) :=
  Cut.of_push (of_stringBody quote rest)

theorem scanRegex_of (rest : List Char) : (scanRegex rest).Of ('/' :: rest) := by
  have hbody : ((regexBody false rest).push '/').cut.Of ('/' :: rest) :=
    Cut.of_push (of_regexBody false rest)
  unfold scanRegex
  simp only
  split
  · exact Cut.of_follow hbody (Cut.of_run _ _)
  · exact hbody

theorem scanTemplatePart_of (text : List Char) : (scanTemplatePart text).Of text := by
  unfold scanTemplatePart
  split
  · rfl
  · rfl
  · exact of_templateText text

/-- What holds of the result of every scanner that may be chosen holds of the token that is
scanned. -/
theorem Context.scanAt_cases {P : Lexeme → Prop} (context : Context) (c : Char) (rest : List Char)
    (newline : isLineTerminator c → P (.of .newline (lineBreak (c :: rest))))
    (blank : isBlank c → ¬isLineTerminator c →
      P (.of .whitespace (Cut.run (fun b => isBlank b && !isLineTerminator b) (c :: rest))))
    (line : ¬isLineTerminator c → P (.of .comment (toEndOfLine (c :: rest))))
    (comment : ∀ tail, c = '/' → rest = '*' :: tail →
      P (.ofLiteral .comment (((commentBody tail).push '*').push '/')))
    (numeral : c.isDigit ∨ c = '.' → P (.of .number (number (c :: rest))))
    (string : c = '"' ∨ c = '\'' → P (scanString c rest))
    (template : c = '`' → P ⟨.templateStart, [c], rest⟩)
    (regex : c = '/' → P (scanRegex rest))
    (openBrace : c = '{' → P ⟨.lBrace, [c], rest⟩)
    (closeBrace : c = '}' → P ⟨context.closingBrace, [c], rest⟩)
    (name : startsName c → P (scanName (c :: rest)))
    (other : P (scanPunctuation (c :: rest))) : P (context.scanAt c rest) := by
  have choose {p : Prop} [Decidable p] {a b : Lexeme} (ha : p → P a) (hb : ¬p → P b) :
      P (if p then a else b) := by
    by_cases h : p
    · rw [if_pos h]
      exact ha h
    · rw [if_neg h]
      exact hb h
  unfold Context.scanAt
  refine choose newline fun hline => ?_
  refine choose (fun h => blank h hline) fun _ => ?_
  refine choose (fun _ => line hline) fun _ => ?_
  refine choose (fun _ => line hline) fun _ => ?_
  refine choose (fun h => ?_) fun _ => ?_
  · simp only [Bool.and_eq_true, decide_eq_true_eq, beq_iff_eq] at h
    obtain ⟨tail, rfl⟩ := List.head?_eq_some_iff.mp h.2
    exact comment tail h.1 rfl
  refine choose (fun h => numeral ?_) fun _ => ?_
  · simp only [Bool.or_eq_true, Bool.and_eq_true, decide_eq_true_eq] at h
    exact h.imp id And.left
  refine choose (fun h => string ?_) fun _ => ?_
  · simpa only [Bool.or_eq_true, decide_eq_true_eq] using h
  refine choose template fun _ => ?_
  refine choose (fun h => regex ?_) fun _ => ?_
  · simp only [Bool.and_eq_true, decide_eq_true_eq] at h
    exact h.1
  refine choose openBrace fun _ => ?_
  refine choose closeBrace fun _ => ?_
  exact choose name fun _ => other

theorem Context.scanAt_of (context : Context) (c : Char) (rest : List Char) :
    (context.scanAt c rest).Of (c :: rest) := by
  apply context.scanAt_cases (P := fun lexeme => lexeme.Of (c :: rest)) c rest
  case newline => exact fun _ => of_lineBreak _
  case blank => exact fun _ _ => Cut.of_run _ _
  case line => exact fun _ => Cut.of_run _ _
  case comment =>
    rintro tail rfl rfl
    exact Cut.of_push (Cut.of_push (of_commentBody tail))
  case numeral => exact fun _ => of_number _
  case string => exact fun _ => scanString_of c rest
  case template => exact fun _ => rfl
  case regex =>
    rintro rfl
    exact scanRegex_of rest
  case openBrace => exact fun _ => rfl
  case closeBrace => exact fun _ => rfl
  case name => exact fun _ => scanName_of _
  case other => exact scanPunctuation_of _

/-! ## Tokens take something -/

theorem number_taken_ne_nil {c : Char} (rest : List Char) (h : c.isDigit ∨ c = '.') :
    (number (c :: rest)).taken ≠ [] := by
  have hdecimal : (decimal (c :: rest)).taken ≠ [] := by
    rcases h with h | rfl
    · simp [decimal, Cut.follow, Cut.run, isDigitOrSeparator, h]
    · simp [decimal, Cut.follow, Cut.run, isDigitOrSeparator, fraction, Cut.push]
  have hmagnitude : (magnitude (c :: rest)).taken ≠ [] := by
    unfold magnitude
    split
    · split
      · simp [Cut.push]
      · rename_i hsplit _
        rw [← hsplit]
        exact hdecimal
    · exact hdecimal
  simp [number, Cut.follow, hmagnitude]

theorem scanPunctuation_text_ne_nil (c : Char) (rest : List Char) :
    (scanPunctuation (c :: rest)).text ≠ [] := by
  have hspelling : ∀ entry ∈ punctuation, entry.1 ≠ [] := by decide
  unfold scanPunctuation
  split
  · split <;> simp
  · split
    · rename_i spelling kind found
      exact hspelling _ (List.mem_of_find?_eq_some found)
    · simp

theorem Context.scanAt_text_ne_nil (context : Context) (c : Char) (rest : List Char) :
    (context.scanAt c rest).text ≠ [] := by
  apply context.scanAt_cases (P := fun lexeme => lexeme.text ≠ []) c rest
  case newline =>
    intro _
    simp only [Lexeme.of, lineBreak]
    split <;> simp_all
  case blank =>
    intro hblank hline
    simp [Lexeme.of, Cut.run, hblank, hline]
  case line =>
    intro hline
    simp [Lexeme.of, toEndOfLine, Cut.run, hline]
  case comment =>
    intro tail _ _
    simp [Lexeme.ofLiteral, Literal.push, Cut.push]
  case numeral => exact number_taken_ne_nil rest
  case string => simp [scanString, Lexeme.ofLiteral, Literal.push, Cut.push]
  case template => simp
  case regex =>
    intro _
    unfold scanRegex
    simp only
    split <;> simp [Lexeme.of, Literal.push, Cut.push, Cut.follow]
  case openBrace => simp
  case closeBrace => simp
  case name =>
    intro hname
    have hcontinues : continuesName c := by
      simp only [startsName, continuesName, Bool.or_eq_true] at hname ⊢
      exact hname.imp (fun h => h.imp Or.inl id) id
    simp [scanName, Lexeme.of, Cut.run, hcontinues]
  case other => exact scanPunctuation_text_ne_nil c rest

theorem scanTemplatePart_text_ne_nil (c : Char) (rest : List Char) :
    (scanTemplatePart (c :: rest)).text ≠ [] := by
  unfold scanTemplatePart
  split
  · simp
  · simp
  · rename_i hquote hopen
    unfold templateText
    split <;> simp_all [Lexeme.ofLiteral, Literal.push, Cut.push]

/-! ## Kinds and contexts -/

/-- Kinds that no token outside template text has. -/
def templateKinds : List TokenKind := [.templateContent, .interpolationStart, .templateEnd, .eof]

/-- Kinds that no name and no punctuation has. -/
def markKinds : List TokenKind := .templateStart :: .interpolationEnd :: templateKinds

theorem templateKinds_subset : templateKinds ⊆ markKinds := fun _ h =>
  List.mem_cons_of_mem _ (List.mem_cons_of_mem _ h)

theorem scanPunctuation_kind_of {P : TokenKind → Prop} (text : List Char)
    (hentries : ∀ entry ∈ punctuation, P entry.2) (hlink : P .questionDot) (herror : P .error) :
    P (scanPunctuation text).kind := by
  unfold scanPunctuation
  split
  · split
    · exact hentries (['?'], .question) (by decide)
    · exact hlink
  · split
    · rename_i spelling kind found
      exact hentries _ (List.mem_of_find?_eq_some found)
    · exact herror

theorem scanPunctuation_kind (text : List Char) : (scanPunctuation text).kind ∉ markKinds :=
  scanPunctuation_kind_of (P := (· ∉ markKinds)) text (by decide) (by decide) (by decide)

theorem scanName_kind_of {P : TokenKind → Prop} (text : List Char)
    (hwords : ∀ entry ∈ reservedWords, P entry.2) (hident : P .ident) :
    P (scanName text).kind := by
  simp only [scanName, Lexeme.of, reservedKind?]
  cases hword : reservedWords.lookup (String.ofList (Cut.run continuesName text).taken) with
  | none => exact hident
  | some kind =>
      obtain ⟨before, after, hsplit, _⟩ := List.lookup_eq_some_iff.mp hword
      have hmem : (String.ofList (Cut.run continuesName text).taken, kind) ∈ reservedWords := by
        rw [hsplit]
        simp
      exact hwords _ hmem

theorem scanName_kind (text : List Char) : (scanName text).kind ∉ markKinds :=
  scanName_kind_of (P := (· ∉ markKinds)) text (by decide) (by decide)

/-- Kinds of blanks, comments and literals, closed or not. -/
def contentKinds : List TokenKind :=
  [.newline, .whitespace, .comment, .number, .string, .regex, .error]

theorem Context.scanAt_cases_of_kind {P : Lexeme → Prop} (context : Context) (c : Char)
    (rest : List Char) (content : ∀ lexeme : Lexeme, lexeme.kind ∈ contentKinds → P lexeme)
    (template : P ⟨.templateStart, ['`'], rest⟩) (openBrace : P ⟨.lBrace, ['{'], rest⟩)
    (closeBrace : P ⟨context.closingBrace, ['}'], rest⟩) (name : P (scanName (c :: rest)))
    (other : P (scanPunctuation (c :: rest))) : P (context.scanAt c rest) := by
  have hliteral {kind : TokenKind} (literal : Literal) (h : kind ∈ contentKinds) :
      (Lexeme.ofLiteral kind literal).kind ∈ contentKinds := by
    simp only [Lexeme.ofLiteral]
    split
    · exact h
    · decide
  apply context.scanAt_cases (P := P) c rest
  case newline => exact fun _ => content _ (by simp [Lexeme.of, contentKinds])
  case blank => exact fun _ _ => content _ (by simp [Lexeme.of, contentKinds])
  case line => exact fun _ => content _ (by simp [Lexeme.of, contentKinds])
  case comment => exact fun tail _ _ => content _ (hliteral _ (by decide))
  case numeral => exact fun _ => content _ (by simp [Lexeme.of, contentKinds])
  case string => exact fun _ => content _ (hliteral _ (by decide))
  case template => rintro rfl; exact template
  case regex =>
    intro _
    unfold scanRegex
    simp only
    split <;> exact content _ (by simp [Lexeme.of, contentKinds])
  case openBrace => rintro rfl; exact openBrace
  case closeBrace => rintro rfl; exact closeBrace
  case name => exact fun _ => name
  case other => exact other

theorem Context.scanAt_kind (context : Context) (c : Char) (rest : List Char) :
    (context.scanAt c rest).kind ∉ templateKinds := by
  have hcontent : ∀ kind ∈ contentKinds, kind ∉ templateKinds := by decide
  refine context.scanAt_cases_of_kind (P := fun lexeme => lexeme.kind ∉ templateKinds) c rest
    (fun lexeme => hcontent lexeme.kind) (by simp [templateKinds]) (by simp [templateKinds]) ?_
    (fun h => scanName_kind _ (templateKinds_subset h))
    fun h => scanPunctuation_kind _ (templateKinds_subset h)
  simp only [Context.closingBrace]
  split <;> decide

theorem scanTemplatePart_kind (text : List Char) :
    (scanTemplatePart text).kind ∈
      [.templateContent, .interpolationStart, .templateEnd, .error] := by
  unfold scanTemplatePart
  split
  · simp
  · simp
  · simp only [Lexeme.ofLiteral]
    split <;> simp

/-- Templates stand inside interpolations or at the bottom, and interpolations inside templates. -/
def Alternating : List Mode → Prop
  | [] => True
  | .template :: outer => outer.head? ≠ some .template ∧ Alternating outer
  | .interpolation _ :: outer => outer.head? = some .template ∧ Alternating outer

theorem Alternating.tail {mode : Mode} {outer : List Mode} (h : Alternating (mode :: outer)) :
    Alternating outer := by
  cases mode <;> exact h.2

theorem Alternating.modesAfter {modes : List Mode} {kind : TokenKind} (h : Alternating modes)
    (hopen : kind = .templateStart → modes.head? ≠ some .template)
    (hinner : kind = .interpolationStart → modes.head? = some .template) :
    Alternating (modesAfter modes kind) := by
  unfold Token.modesAfter
  split
  · exact ⟨hopen rfl, h⟩
  · exact ⟨hinner rfl, h⟩
  · exact h.tail
  · exact h.tail
  · exact h.tail
  · exact h
  · exact h
  · exact h

theorem Context.scan_eq_some {context : Context} {text : List Char} {lexeme : Lexeme}
    (h : context.scan text = some lexeme) :
    context.modes.head? = some .template ∧ lexeme = scanTemplatePart text ∨
      context.modes.head? ≠ some .template ∧
        ∃ c rest, text = c :: rest ∧ lexeme = context.scanAt c rest := by
  unfold Context.scan at h
  split at h
  · rename_i hin
    cases h
    exact .inl ⟨by simpa [inTemplate] using hin, rfl⟩
  · rename_i hin
    cases text with
    | nil => cases h
    | cons c rest =>
        cases h
        exact .inr ⟨by simpa [inTemplate] using hin, c, rest, rfl, rfl⟩

/-- All that one step of the tokenizer does: it divides the text, never yields the mark of the
end, keeps modes alternating, and takes nothing only where the text ends inside a template, which
it then leaves. -/
theorem Context.scan_spec {context : Context} {text : List Char} {lexeme : Lexeme}
    (h : context.scan text = some lexeme) (halternate : Alternating context.modes) :
    lexeme.Of text ∧ lexeme.kind ≠ .eof ∧ Alternating (context.after lexeme.kind).modes ∧
      (lexeme.text = [] →
        text = [] ∧ lexeme.kind = .error ∧ (context.after lexeme.kind).inTemplate = false) := by
  rcases Context.scan_eq_some h with ⟨hmode, rfl⟩ | ⟨hmode, c, rest, rfl, rfl⟩
  · have hkind := scanTemplatePart_kind text
    refine ⟨scanTemplatePart_of text, ?_, ?_, ?_⟩
    · intro heof
      rw [heof] at hkind
      simp at hkind
    · refine halternate.modesAfter (fun hstart => ?_) fun _ => hmode
      rw [hstart] at hkind
      simp at hkind
    · intro hempty
      cases text with
      | cons c rest => exact absurd hempty (scanTemplatePart_text_ne_nil c rest)
      | nil =>
          obtain ⟨outer, houter⟩ := List.head?_eq_some_iff.mp hmode
          rw [houter] at halternate
          refine ⟨rfl, rfl, ?_⟩
          have hne : outer.head? ≠ some .template := halternate.1
          simpa [inTemplate, after, houter, modesAfter, scanTemplatePart, templateText,
            Lexeme.ofLiteral] using hne
  · have hkind := context.scanAt_kind c rest
    simp only [templateKinds, List.mem_cons, List.not_mem_nil, or_false, not_or] at hkind
    refine ⟨context.scanAt_of c rest, hkind.2.2.2, ?_, ?_⟩
    · exact halternate.modesAfter (fun _ => hmode) fun hstart => absurd hstart hkind.2.1
    · exact fun hempty => absurd hempty (context.scanAt_text_ne_nil c rest)

/-! ## All tokens -/

/-- The steps of the tokenizer from a context to the end of the text, however many there are. -/
inductive Lexes : Context → List Char → List Token → Prop
  | finish {context : Context} {text : List Char} :
      context.scan text = none → Lexes context text [endOfText]
  | token {context : Context} {text : List Char} {lexeme : Lexeme} {tokens : List Token} :
      context.scan text = some lexeme →
      Lexes (context.after lexeme.kind) lexeme.rest tokens →
      Lexes context text (⟨lexeme.kind, lexeme.text⟩ :: tokens)

theorem Context.scan_eq_none {context : Context} {text : List Char} (h : context.scan text = none) :
    text = [] ∧ context.inTemplate = false := by
  unfold Context.scan at h
  split at h
  · cases h
  · rename_i hout
    cases text with
    | nil => exact ⟨rfl, Bool.eq_false_iff.mpr hout⟩
    | cons c rest => cases h

theorem lexes_tokensFrom (fuel : Nat) (context : Context) (text : List Char)
    (halternate : Alternating context.modes)
    (henough : text.length + 2 ≤ fuel ∨ 1 ≤ fuel ∧ text = [] ∧ context.inTemplate = false) :
    Lexes context text (tokensFrom fuel context text) := by
  induction fuel generalizing context text with
  | zero => omega
  | succ fuel ih =>
      unfold tokensFrom
      cases hscan : context.scan text with
      | none => exact .finish hscan
      | some lexeme =>
          obtain ⟨hof, -, hnext, hempty⟩ := Context.scan_spec hscan halternate
          have hlength : lexeme.text.length + lexeme.rest.length = text.length := by
            rw [← hof, List.length_append]
          refine .token hscan (ih (context.after lexeme.kind) lexeme.rest hnext ?_)
          -- Either the token took a character, or the text is over and its template has been left.
          by_cases htaken : lexeme.text = []
          · obtain ⟨rfl, -, hleft⟩ := hempty htaken
            rcases henough with henough | ⟨-, -, hout⟩
            · have hrest : lexeme.rest = [] := by simpa [htaken] using hlength
              simp only [List.length_nil] at henough
              exact Or.inr ⟨by omega, hrest, hleft⟩
            · simp [Context.scan, hout] at hscan
          · have hpositive : 0 < lexeme.text.length := List.length_pos_iff.mpr htaken
            rcases henough with henough | ⟨-, rfl, -⟩
            · exact Or.inl (by omega)
            · simp only [List.length_nil] at hlength
              omega

theorem lexes_tokenize (source : List Char) : Lexes .start source (tokenize source) :=
  lexes_tokensFrom _ _ _ trivial (Or.inl (Nat.le_refl _))

/-- The tokens of a script: those before the mark of its end spell it, and only an error may be
empty. -/
structure Spells (tokens : List Token) (source : List Char) : Prop where
  split : ∃ body, tokens = body ++ [endOfText] ∧ textOf body = source ∧
    ∀ t ∈ body, t.kind ≠ .eof ∧ (t.text = [] → t.kind = .error)

theorem Spells.cons {t : Token} {tokens : List Token} {source : List Char}
    (h : Spells tokens source)
    (hend : t.kind ≠ .eof) (hempty : t.text = [] → t.kind = .error) :
    Spells (t :: tokens) (t.text ++ source) := by
  obtain ⟨body, rfl, rfl, hbody⟩ := h.split
  refine ⟨t :: body, rfl, rfl, ?_⟩
  intro u hu
  rcases List.mem_cons.mp hu with rfl | hu
  · exact ⟨hend, hempty⟩
  · exact hbody u hu

theorem Lexes.spells {context : Context} {text : List Char} {tokens : List Token}
    (h : Lexes context text tokens) (halternate : Alternating context.modes) :
    Spells tokens text := by
  induction h with
  | finish hscan =>
      obtain ⟨rfl, -⟩ := Context.scan_eq_none hscan
      exact ⟨[], rfl, rfl, by simp⟩
  | token hscan hrest ih =>
      obtain ⟨hof, hend, hnext, hempty⟩ := Context.scan_spec hscan halternate
      rw [← hof]
      exact (ih hnext).cons hend fun h => (hempty h).2.1

theorem tokenize_spells (source : List Char) : Spells (tokenize source) source :=
  (lexes_tokenize source).spells trivial

theorem Spells.textOf_eq {tokens : List Token} {source : List Char} (h : Spells tokens source) :
    textOf tokens = source := by
  obtain ⟨body, rfl, rfl, -⟩ := h.split
  simp [textOf, endOfText]

theorem textOf_tokenize (source : List Char) : textOf (tokenize source) = source :=
  (tokenize_spells source).textOf_eq

end ShellAwait.Token
