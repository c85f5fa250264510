import Mathlib.Data.List.TakeWhile
import ShellAwait.Proofs.Token.Lossless

/-! # Line terminators in tokens

Which tokens a line may end in. Names, numbers, punctuation, blanks and comments up to the end of a
line hold no line terminator; a string or a regular expression holds one only where it is escaped.
-/

namespace ShellAwait.Token

open Text

variable {c : Char}

/-- A line ends in the text. -/
def spansLine (text : List Char) : Bool := text.any isLineTerminator

/-! ## Characters that end no line -/

def lineTerminators : List Char := ['\n', '\r', '\u2028', '\u2029']

theorem inLine_of_class {p : Char → Bool} (h : lineTerminators.any p = false) (hc : p c = true) :
    isLineTerminator c = false := by
  rw [Bool.eq_false_iff]
  intro hends
  have hmem : c ∈ lineTerminators := by
    simpa [lineTerminators, isLineTerminator, or_assoc] using hends
  exact List.any_eq_false.mp h c hmem hc

theorem any_continuesName : lineTerminators.any continuesName = false := by decide +kernel

namespace Cut

/-- No line ends in what is taken. -/
def InLine (cut : Cut) : Prop := spansLine cut.taken = false

theorem inLine_nothing (text : List Char) : (nothing text).InLine := rfl

theorem InLine.push {cut : Cut} (h : cut.InLine) (hc : isLineTerminator c = false) :
    (cut.push c).InLine := by
  rw [InLine, spansLine, Cut.push, List.any_cons, hc]
  exact h

theorem InLine.follow {cut : Cut} {next : List Char → Cut} (h : cut.InLine)
    (hnext : (next cut.rest).InLine) : (cut.follow next).InLine := by
  rw [InLine, spansLine] at *
  rw [Cut.follow, List.any_append, h, hnext]
  rfl

theorem inLine_run {p : Char → Bool} (h : lineTerminators.any p = false) (text : List Char) :
    (run p text).InLine := by
  refine List.any_eq_false.mpr fun c hc => ?_
  rw [inLine_of_class h (List.mem_takeWhile_imp hc)]
  exact Bool.false_ne_true

theorem inLine_one {p : Char → Bool} (h : lineTerminators.any p = false) (text : List Char) :
    (one p text).InLine := by
  cases text with
  | nil => rfl
  | cons c rest =>
      rw [one]
      split
      next hc => simp [InLine, spansLine, inLine_of_class h hc]
      next => rfl

end Cut

theorem inLine_digits (text : List Char) : (Cut.run isDigitOrSeparator text).InLine :=
  Cut.inLine_run (by decide) text

theorem inLine_fraction (text : List Char) : (fraction text).InLine := by
  unfold fraction
  split
  · exact (inLine_digits _).push (by decide)
  · exact Cut.inLine_nothing _

theorem inLine_exponent (text : List Char) : (exponent text).InLine := by
  unfold exponent
  split
  · exact Cut.inLine_nothing _
  · split
    next hmark =>
      have hmark : isLineTerminator _ = false :=
        inLine_of_class (p := fun c => c = 'e' || c = 'E') (by decide) hmark
      exact ((Cut.inLine_one (by decide) _).follow (inLine_digits _)).push hmark
    next => exact Cut.inLine_nothing _

theorem inLine_decimal (text : List Char) : (decimal text).InLine :=
  ((inLine_digits text).follow (inLine_fraction _)).follow (inLine_exponent _)

theorem inLine_magnitude (text : List Char) : (magnitude text).InLine := by
  unfold magnitude
  split
  · split
    next hmark =>
      exact ((Cut.inLine_run (by decide) _).push (inLine_of_class (by decide) hmark)).push
        (by decide)
    next => exact inLine_decimal _
  · exact inLine_decimal _

theorem inLine_number (text : List Char) : (number text).InLine :=
  (inLine_magnitude text).follow (Cut.inLine_one (by decide) _)

theorem inLine_scanPunctuation {text : List Char} (h : (scanPunctuation text).kind ≠ .error) :
    spansLine (scanPunctuation text).text = false := by
  have hspellings : ∀ entry ∈ punctuation, spansLine entry.1 = false := by decide
  unfold scanPunctuation at h ⊢
  split at h
  · split <;> rfl
  · split at h
    next found =>
      exact hspellings _ (List.mem_of_find?_eq_some found)
    next => exact absurd rfl h

/-! ## Escapes -/

/-- Whether the last character of a text is a backslash that no other backslash escapes. -/
def endsInEscape (text : List Char) : Bool :=
  text.foldl (fun escaping c => c = '\\' && !escaping) false

theorem endsInEscape_concat (text : List Char) (c : Char) :
    endsInEscape (text ++ [c]) = (decide (c = '\\') && !endsInEscape text) := by
  rw [endsInEscape, List.foldl_append]
  rfl

theorem endsInEscape_of_ne (hc : c ≠ '\\') (text : List Char) :
    endsInEscape (text ++ [c]) = false := by
  rw [endsInEscape_concat, decide_eq_false hc, Bool.false_and]

theorem endsInEscape_backslash {text : List Char} (h : endsInEscape text = false) :
    endsInEscape (text ++ ['\\']) = true := by
  rw [endsInEscape_concat, h]
  rfl

theorem endsInEscape_escaped {text : List Char} (h : endsInEscape text = true) (c : Char) :
    endsInEscape (text ++ [c]) = false := by
  rw [endsInEscape_concat, h, Bool.not_true, Bool.and_false]

/-- A character behind a text is escaped. Where pairs count as one, so is the line feed behind an
escaped carriage return. -/
def EscapedBehind (pairs : Bool) (before : List Char) (c : Char) : Prop :=
  endsInEscape before = true ∨
    pairs = true ∧ c = '\n' ∧ ∃ front, before = front ++ ['\r'] ∧ endsInEscape front = true

/-- All line terminators in a text that stands behind `front` are escaped. -/
def LineEndsEscaped (pairs : Bool) (front text : List Char) : Prop :=
  ∀ before c after, text = before ++ c :: after → isLineTerminator c = true →
    EscapedBehind pairs (front ++ before) c

namespace LineEndsEscaped

variable {pairs : Bool} {front text : List Char}

theorem nil : LineEndsEscaped pairs front [] := by
  intro before c after h
  simp at h

theorem cons (h : LineEndsEscaped pairs (front ++ [c]) text)
    (hc : isLineTerminator c = true → EscapedBehind pairs front c) :
    LineEndsEscaped pairs front (c :: text) := by
  intro before d after heq hd
  cases before with
  | nil =>
      obtain ⟨rfl, -⟩ := List.cons.inj heq
      rw [List.append_nil]
      exact hc hd
  | cons b before =>
      obtain ⟨rfl, htext⟩ := List.cons.inj heq
      have hbehind := h before d after htext hd
      rwa [List.append_assoc] at hbehind

theorem plain (h : LineEndsEscaped pairs (front ++ [c]) text) (hc : isLineTerminator c = false) :
    LineEndsEscaped pairs front (c :: text) :=
  h.cons fun hends => absurd hends (by rw [hc]; exact Bool.false_ne_true)

theorem escape (h : LineEndsEscaped pairs (front ++ ['\\'] ++ [c]) text)
    (hfront : endsInEscape front = false) : LineEndsEscaped pairs front ('\\' :: c :: text) :=
  (h.cons fun _ => .inl (endsInEscape_backslash hfront)).plain (by decide)

theorem append_inLine {more : List Char} (h : LineEndsEscaped pairs front text)
    (hmore : spansLine more = false) : LineEndsEscaped pairs front (text ++ more) := by
  intro before c after heq hc
  have hnot : c ∉ more := fun hmem => List.any_eq_false.mp hmore c hmem hc
  obtain ⟨others, hbefore, hothers⟩ | ⟨others, htext, hothers⟩ := List.append_eq_append_iff.mp heq
  · exact absurd (by simp [hothers]) hnot
  · cases others with
    | nil =>
        rw [List.nil_append] at hothers
        exact absurd (by simp [← hothers]) hnot
    | cons first others =>
        obtain ⟨rfl, -⟩ := List.cons.inj hothers
        exact h before c others htext hc

end LineEndsEscaped

theorem lineEndsEscaped_stringBody (quote : Char) (text : List Char) {front : List Char}
    (hfront : endsInEscape front = false) (h : (stringBody quote text).closed = true) :
    LineEndsEscaped true front (stringBody quote text).cut.taken := by
  fun_induction stringBody quote text generalizing front with
  | case1 => cases h
  | case2 rest ih =>
      have hescape := endsInEscape_backslash hfront
      have hpair : endsInEscape (front ++ ['\\'] ++ ['\r'] ++ ['\n']) = false :=
        endsInEscape_of_ne (by decide) _
      exact ((ih hpair h).cons fun _ => .inr ⟨rfl, rfl, _, rfl, hescape⟩).escape hfront
  | case3 c rest _ ih =>
      have hescape := endsInEscape_backslash hfront
      exact (ih (endsInEscape_escaped hescape c) h).escape hfront
  | case4 => cases h
  | case5 rest _ hnext _ ih =>
      -- Nothing stands behind the backslash, so the string has no end.
      cases rest with
      | nil => cases h
      | cons c rest => exact absurd rfl (hnext c rest rfl)
  | case6 rest _ _ hline _ => exact LineEndsEscaped.nil.plain (Bool.eq_false_iff.mpr hline)
  | case7 c rest _ _ hline hplain _ ih =>
      exact (ih (endsInEscape_of_ne hplain front) h).plain (Bool.eq_false_iff.mpr hline)

theorem lineEndsEscaped_regexBody (inClass : Bool) (text : List Char) {front : List Char}
    (hfront : endsInEscape front = false) (h : (regexBody inClass text).closed = true) :
    LineEndsEscaped false front (regexBody inClass text).cut.taken := by
  fun_induction regexBody inClass text generalizing front with
  | case1 => cases h
  | case2 inClass c rest ih =>
      have hescape := endsInEscape_backslash hfront
      exact (ih (endsInEscape_escaped hescape c) h).escape hfront
  | case3 => cases h
  | case4 inClass rest _ _ ih =>
      exact (ih (endsInEscape_of_ne (by decide) front) h).plain (by decide)
  | case5 inClass rest _ _ _ ih =>
      exact (ih (endsInEscape_of_ne (by decide) front) h).plain (by decide)
  | case6 inClass c rest _ hline => exact LineEndsEscaped.nil.plain (Bool.eq_false_iff.mpr hline)
  | case7 inClass c rest hnext hline _ _ _ ih =>
      have hplain : c ≠ '\\' := by
        rintro rfl
        cases rest with
        | nil => cases h
        | cons next rest => exact hnext next rest rfl rfl
      exact (ih (endsInEscape_of_ne hplain front) h).plain (Bool.eq_false_iff.mpr hline)

/-! ## Single tokens -/

/-- Tokens in which a line may end: line breaks, comments between marks, the text of templates,
strings with line continuations, and errors. -/
def MayEndLine (kind : TokenKind) (text : List Char) : Prop :=
  match kind with
  | .newline | .templateContent | .error => True
  | .comment => ['/', '*'] <+: text
  | .string => LineEndsEscaped true [] text
  | _ => False

/-- The line terminators in a token. -/
structure LineEnds (kind : TokenKind) (text : List Char) : Prop where
  duly : spansLine text = true → kind ≠ .regex → MayEndLine kind text
  regex : kind = .regex → LineEndsEscaped false [] text
  newline : kind = .newline →
    (∃ c, isLineTerminator c = true ∧ text = [c]) ∨ text = ['\r', '\n']

namespace LineEnds

variable {kind : TokenKind} {text : List Char}

theorem of_inLine (h : spansLine text = false) (hkind : kind ≠ .newline) : LineEnds kind text where
  duly hspans := absurd hspans (Bool.eq_false_iff.mp h)
  regex _ := LineEndsEscaped.nil.append_inLine h
  newline heq := absurd heq hkind

theorem of_mayEndLine (h : MayEndLine kind text) (hkind : kind ≠ .newline) (hregex : kind ≠ .regex) :
    LineEnds kind text :=
  ⟨fun _ _ => h, fun heq => absurd heq hregex, fun heq => absurd heq hkind⟩

theorem of_error (text : List Char) : LineEnds .error text :=
  of_mayEndLine trivial (by decide) (by decide)

end LineEnds

theorem lineEnds_ofLiteral {kind : TokenKind} {literal : Literal}
    (h : literal.closed = true → LineEnds kind literal.cut.taken) :
    LineEnds (Lexeme.ofLiteral kind literal).kind (Lexeme.ofLiteral kind literal).text := by
  simp only [Lexeme.ofLiteral]
  split
  next hclosed => exact h hclosed
  next => exact .of_error _

theorem lineEnds_newline (h : isLineTerminator c = true) (rest : List Char) :
    LineEnds .newline (lineBreak (c :: rest)).taken where
  duly _ _ := trivial
  regex h := by cases h
  newline _ := by
    unfold lineBreak
    split
    next => exact .inr rfl
    next heq =>
      cases heq
      exact .inl ⟨c, h, rfl⟩
    next heq => cases heq

theorem lineEnds_comment (tail : List Char) :
    LineEnds .comment (((commentBody tail).push '*').push '/').cut.taken :=
  .of_mayEndLine ⟨(commentBody tail).cut.taken, rfl⟩ (by decide) (by decide)

theorem lineEnds_string {quote : Char} (h : quote = '"' ∨ quote = '\'') (rest : List Char) :
    LineEnds (scanString quote rest).kind (scanString quote rest).text := by
  have hquote : isLineTerminator quote = false ∧ endsInEscape [quote] = false := by
    rcases h with rfl | rfl <;> decide
  refine lineEnds_ofLiteral fun hclosed => .of_mayEndLine ?_ (by decide) (by decide)
  have hbody : LineEndsEscaped true [quote] (stringBody quote rest).cut.taken :=
    lineEndsEscaped_stringBody quote rest hquote.2 hclosed
  exact LineEndsEscaped.plain hbody hquote.1

theorem lineEnds_regex (rest : List Char) :
    LineEnds (scanRegex rest).kind (scanRegex rest).text := by
  unfold scanRegex
  simp only
  split
  next hclosed =>
    have hbody : LineEndsEscaped false [] ('/' :: (regexBody false rest).cut.taken) :=
      (lineEndsEscaped_regexBody false rest (by decide) hclosed).plain (by decide)
    have hflags := Cut.inLine_run any_continuesName ((regexBody false rest).push '/').cut.rest
    exact ⟨fun _ hkind => absurd rfl hkind, fun _ => hbody.append_inLine hflags,
      fun h => by cases h⟩
  next => exact .of_error _

theorem lineEnds_punctuation (text : List Char) :
    LineEnds (scanPunctuation text).kind (scanPunctuation text).text := by
  by_cases h : (scanPunctuation text).kind = .error
  · rw [h]
    exact .of_error _
  · exact .of_inLine (inLine_scanPunctuation h)
      (scanPunctuation_kind_of (P := (· ≠ .newline)) text (by decide) (by decide) (by decide))

theorem Context.lineEnds_scanAt (context : Context) (c : Char) (rest : List Char) :
    LineEnds (context.scanAt c rest).kind (context.scanAt c rest).text := by
  apply context.scanAt_cases (P := fun lexeme => LineEnds lexeme.kind lexeme.text) c rest
  case newline => exact fun hline => lineEnds_newline hline rest
  case blank => exact fun _ _ => .of_inLine (Cut.inLine_run (by decide) _) fun h => by cases h
  case line => exact fun _ => .of_inLine (Cut.inLine_run (by decide) _) fun h => by cases h
  case comment => exact fun tail _ _ => lineEnds_ofLiteral fun _ => lineEnds_comment tail
  case numeral => exact fun _ => .of_inLine (inLine_number _) fun h => by cases h
  case string => exact fun hquote => lineEnds_string hquote rest
  case template =>
    rintro rfl
    exact .of_inLine rfl fun h => by cases h
  case regex => exact fun _ => lineEnds_regex rest
  case openBrace =>
    rintro rfl
    exact .of_inLine rfl fun h => by cases h
  case closeBrace =>
    rintro rfl
    refine .of_inLine rfl ?_
    simp only [Context.closingBrace]
    split <;> decide
  case name =>
    exact fun _ => .of_inLine (Cut.inLine_run any_continuesName _)
      (scanName_kind_of (P := (· ≠ .newline)) _ (by decide) (by decide))
  case other => exact lineEnds_punctuation _

theorem lineEnds_templatePart (text : List Char) :
    LineEnds (scanTemplatePart text).kind (scanTemplatePart text).text := by
  unfold scanTemplatePart
  split
  · exact .of_inLine rfl fun h => by cases h
  · exact .of_inLine rfl fun h => by cases h
  · exact lineEnds_ofLiteral fun _ => .of_mayEndLine trivial (by decide) (by decide)

theorem Context.lineEnds_scan {context : Context} {text : List Char} {lexeme : Lexeme}
    (h : context.scan text = some lexeme) : LineEnds lexeme.kind lexeme.text := by
  rcases Context.scan_eq_some h with ⟨-, rfl⟩ | ⟨-, c, rest, rfl, rfl⟩
  · exact lineEnds_templatePart text
  · exact context.lineEnds_scanAt c rest

/-! ## All tokens of a script -/

theorem Lexes.lineEnds {context : Context} {text : List Char} {tokens : List Token}
    (h : Lexes context text tokens) : ∀ t ∈ tokens, LineEnds t.kind t.text := by
  induction h with
  | finish _ =>
      rw [List.forall_mem_singleton]
      exact .of_inLine rfl (by decide)
  | token hscan _ ih => exact List.forall_mem_cons.mpr ⟨Context.lineEnds_scan hscan, ih⟩

theorem lineEnds_of_mem {source : List Char} {t : Token} (ht : t ∈ tokenize source) :
    LineEnds t.kind t.text :=
  (lexes_tokenize source).lineEnds t ht

/-- A line ends only in line breaks, comments between marks, the text of templates, continued
strings and errors, and in regular expressions, where each terminator stands behind a backslash. A
line break is one terminator, or a carriage return with its line feed. -/
theorem line_ends_in_tokens (source : List Char) (t : Token) (ht : t ∈ tokenize source) :
    (spansLine t.text = true →
      (MayEndLine t.kind t.text ↔ t.kind ≠ .regex) ∧
      (t.kind = .regex → LineEndsEscaped false [] t.text)) ∧
    (t.kind = .newline →
      (∃ c, isLineTerminator c = true ∧ t.text = [c]) ∨ t.text = ['\r', '\n']) := by
  have hends := lineEnds_of_mem ht
  refine ⟨fun hspans => ⟨⟨?_, hends.duly hspans⟩, hends.regex⟩, hends.newline⟩
  intro hmay hregex
  rw [hregex] at hmay
  exact hmay

/-- A regular expression over two lines. -/
def splitPattern : Token := ⟨.regex, "/[,\\\n]/g".toList⟩

theorem line_ends_in_tokens_splitPattern :
    splitPattern ∈ tokenize ("a.split(".toList ++ splitPattern.text ++ ")\r\n".toList) ∧
    spansLine splitPattern.text = true ∧ ¬MayEndLine splitPattern.kind splitPattern.text ∧
    LineEndsEscaped false [] splitPattern.text := by
  have hmem : splitPattern ∈
      tokenize ("a.split(".toList ++ splitPattern.text ++ ")\r\n".toList) := by decide +kernel
  have hspans : spansLine splitPattern.text = true := by decide +kernel
  obtain ⟨hends, -⟩ := line_ends_in_tokens _ _ hmem
  obtain ⟨hmay, hescaped⟩ := hends hspans
  exact ⟨hmem, hspans, fun h => hmay.mp h rfl, hescaped rfl⟩

end ShellAwait.Token
