import ShellAwait.Proofs.Grammar.Rooted

/-! # The parameters of arrow functions

Whether a parenthesis opens the parameters of an arrow function is seen before they are read, by one
count of open brackets that does not tell their kinds apart. Where brackets are nested, the count is
back at zero at the parenthesis that closes and nowhere before. The mark of the end keeps the scan
within the stream.
-/

namespace ShellAwait.Grammar

open Token ShellAwait.Tree

variable {depth : Nat} {word : List TokenKind}

/-! ## The count -/

/-- The count of open brackets behind a token. It does not fall below zero. -/
def countAfter (depth : Nat) : TokenKind → Nat
  | .lParen | .lBracket | .lBrace | .interpolationStart => depth + 1
  | .rParen | .rBracket | .rBrace | .interpolationEnd => depth - 1
  | _ => depth

def countBehind (depth : Nat) (word : List TokenKind) : Nat := word.foldl countAfter depth

/-- The closers behind which the count is compared with zero. The end of an interpolation lowers it
without that. -/
def mayEndScan : TokenKind → Bool
  | .rParen | .rBracket | .rBrace => true
  | _ => false

/-- Where `depth` brackets are open, the scan ends at a token of this kind. -/
def endsScan (depth : Nat) (kind : TokenKind) : Bool :=
  mayEndScan kind && countAfter depth kind == 0

/-- No closer in a word brings the count to zero. -/
def StaysOpen (depth : Nat) (word : List TokenKind) : Prop :=
  ∀ before kind after, word = before ++ kind :: after → mayEndScan kind = true →
    countBehind depth (before ++ [kind]) ≠ 0

@[simp] theorem countBehind_nil (depth : Nat) : countBehind depth [] = depth := rfl

@[simp] theorem countBehind_cons (depth : Nat) (kind : TokenKind) (word : List TokenKind) :
    countBehind depth (kind :: word) = countBehind (countAfter depth kind) word := rfl

@[simp] theorem countBehind_append (depth : Nat) (v w : List TokenKind) :
    countBehind depth (v ++ w) = countBehind (countBehind depth v) w := List.foldl_append

theorem staysOpen_nil (depth : Nat) : StaysOpen depth [] := by
  intro before kind after h
  simp at h

theorem staysOpen_cons {kind : TokenKind} :
    StaysOpen depth (kind :: word) ↔
      endsScan depth kind = false ∧ StaysOpen (countAfter depth kind) word := by
  have hhead : endsScan depth kind = false ↔
      (mayEndScan kind = true → countAfter depth kind ≠ 0) := by
    simp [endsScan]
  rw [hhead]
  constructor
  · intro h
    refine ⟨h [] kind word rfl, fun before closer after hword => ?_⟩
    exact h (kind :: before) closer after (congrArg (List.cons kind) hword)
  · rintro ⟨hkind, hword⟩ before closer after heq
    cases before with
    | nil =>
        obtain ⟨rfl, -⟩ := List.cons.inj heq
        exact hkind
    | cons first before =>
        obtain ⟨rfl, hrest⟩ := List.cons.inj heq
        exact hword before closer after hrest

theorem staysOpen_append {v w : List TokenKind} (hv : StaysOpen depth v)
    (hw : StaysOpen (countBehind depth v) w) : StaysOpen depth (v ++ w) := by
  induction v generalizing depth with
  | nil => exact hw
  | cons kind v ih =>
      obtain ⟨hkind, hv⟩ := staysOpen_cons.mp hv
      exact staysOpen_cons.mpr ⟨hkind, ih hv hw⟩

theorem StaysOpen.of_append {v w : List TokenKind} (h : StaysOpen depth (v ++ w)) :
    StaysOpen depth v := by
  intro before kind after hv
  exact h before kind (after ++ w) (by rw [hv, List.append_assoc, List.cons_append])

instance decidableStaysOpen : (depth : Nat) → (word : List TokenKind) →
    Decidable (StaysOpen depth word)
  | depth, [] => isTrue (staysOpen_nil depth)
  | depth, kind :: word =>
      have := decidableStaysOpen (countAfter depth kind) word
      decidable_of_iff _ staysOpen_cons.symm

/-! ## Nested words -/

def isTemplateMark (kind : TokenKind) : Bool := kind == .templateStart || kind == .templateEnd

theorem countAfter_of_uncounted {kind : TokenKind}
    (h : isBracket kind = false ∨ isTemplateMark kind = true) (depth : Nat) :
    countAfter depth kind = depth ∧ endsScan depth kind = false := by
  cases kind <;> first | exact ⟨rfl, rfl⟩ | exact absurd h (by decide)

theorem countAfter_closer {opener closer : TokenKind} (h : closer? opener = some closer)
    (depth : Nat) : endsScan depth opener = false ∧ depth ≤ countAfter depth opener ∧
      countAfter (countAfter depth opener) closer = depth := by
  cases opener <;> cases h <;> exact ⟨rfl, by simp [countAfter], by simp [countAfter]⟩

theorem Bracketed.countBehind_eq (h : Bracketed word) (depth : Nat) :
    countBehind depth word = depth := by
  induction h generalizing depth with
  | nil => rfl
  | plain hplain _ ih =>
      rw [countBehind_cons, (countAfter_of_uncounted (.inl hplain) depth).1, ih]
  | enclosed hcloser _ _ ihv ihw =>
      rw [countBehind_cons, countBehind_append, ihv, countBehind_cons,
        (countAfter_closer hcloser depth).2.2, ihw]

theorem Bracketed.staysOpen (h : Bracketed word) (hdepth : 0 < depth) : StaysOpen depth word := by
  induction h generalizing depth with
  | nil => exact staysOpen_nil depth
  | plain hplain _ ih =>
      obtain ⟨hcount, hends⟩ := countAfter_of_uncounted (.inl hplain) depth
      exact staysOpen_cons.mpr ⟨hends, hcount.symm ▸ ih hdepth⟩
  | @enclosed opener closer v w hcloser hv _ ihv ihw =>
      obtain ⟨hends, hle, hcount⟩ := countAfter_closer hcloser depth
      -- Behind the closer the count is `depth` again: the bracket around the word is still open.
      have hclose : endsScan (countAfter depth opener) closer = false := by
        have hne : (depth == 0) = false := by simpa using Nat.ne_of_gt hdepth
        rw [endsScan, hcount, hne, Bool.and_false]
      refine staysOpen_cons.mpr ⟨hends, staysOpen_append (ihv (Nat.lt_of_lt_of_le hdepth hle)) ?_⟩
      rw [hv.countBehind_eq, staysOpen_cons, hcount]
      exact ⟨hclose, ihw hdepth⟩

/-- Parentheses, brackets, braces and interpolations are closed by their own kind, the last one
first. Templates are left to the tokenizer. -/
def NestedWord (word : List TokenKind) : Prop := Bracketed (word.filter (!isTemplateMark ·))

theorem countBehind_templates (depth : Nat) (word : List TokenKind) :
    countBehind depth (word.filter (!isTemplateMark ·)) = countBehind depth word := by
  induction word generalizing depth with
  | nil => rfl
  | cons kind word ih =>
      cases hmark : isTemplateMark kind with
      | true => simp [hmark, ih, countAfter_of_uncounted (.inr hmark)]
      | false => simp [hmark, ih]

theorem staysOpen_templates (h : StaysOpen depth (word.filter (!isTemplateMark ·))) :
    StaysOpen depth word := by
  induction word generalizing depth with
  | nil => exact h
  | cons kind word ih =>
      cases hmark : isTemplateMark kind with
      | true =>
          obtain ⟨hcount, hends⟩ := countAfter_of_uncounted (.inr hmark) depth
          rw [List.filter_cons_of_neg (by simp [hmark])] at h
          exact staysOpen_cons.mpr ⟨hends, hcount.symm ▸ ih h⟩
      | false =>
          rw [List.filter_cons_of_pos (by simp [hmark]), staysOpen_cons] at h
          exact staysOpen_cons.mpr ⟨h.1, ih h.2⟩

theorem NestedWord.countBehind_eq (h : NestedWord word) (depth : Nat) :
    countBehind depth word = depth :=
  (countBehind_templates depth word).symm.trans (Bracketed.countBehind_eq h depth)

theorem NestedWord.staysOpen (h : NestedWord word) (hdepth : 0 < depth) : StaysOpen depth word :=
  staysOpen_templates (Bracketed.staysOpen h hdepth)

/-! ## The scan -/

theorem closesBeforeArrow_cons (depth : Nat) (t : Lookahead) (rest : List Lookahead) :
    closesBeforeArrow depth (t :: rest) =
      if t.kind = .eof then false
      else if endsScan depth t.kind then rest.head?.any (·.kind == .fatArrow)
      else closesBeforeArrow (countAfter depth t.kind) rest := by
  have hzero : (depth - 1 == 0) = decide (depth ≤ 1) := by
    rw [Bool.eq_iff_iff, beq_iff_eq, decide_eq_true_iff]
    omega
  rw [closesBeforeArrow]
  cases t.kind <;> simp [endsScan, mayEndScan, countAfter, hzero]

theorem closesBeforeArrow_significantFrom (depth : Nat) (broken : Bool) (tokens : List Token) :
    closesBeforeArrow depth (significantFrom broken tokens) =
      closesBeforeArrow depth (significant tokens) := by
  induction tokens generalizing broken with
  | nil => rfl
  | cons t rest ih =>
      rw [significant, significantFrom, significantFrom]
      split
      · rw [ih, ih]
      · rw [closesBeforeArrow_cons, closesBeforeArrow_cons]

theorem head?_significant_any (tokens : List Token) (p : TokenKind → Bool) :
    (significant tokens).head?.any (fun t => p t.kind) =
      (significantOnly tokens).head?.any (fun t => p t.kind) := by
  rw [← map_token_significantFrom false, List.head?_map, Option.any_map]
  rfl

theorem closesBeforeArrow_significant_cons (depth : Nat) (t : Token) (rest : List Token) :
    closesBeforeArrow depth (significant (t :: rest)) =
      if t.kind = .eof then false
      else if endsScan depth t.kind then (significantOnly rest).head?.any (·.kind == .fatArrow)
      else closesBeforeArrow (countAfter depth t.kind) (significant rest) := by
  rw [significant, significantFrom]
  cases htrivia : t.kind.isTrivia with
  | true =>
      have hend : t.kind ≠ .eof := fun h => by rw [h] at htrivia; cases htrivia
      have hplain : isBracket t.kind = false := by
        generalize t.kind = kind at htrivia
        cases kind <;> first | rfl | cases htrivia
      obtain ⟨hcount, hends⟩ := countAfter_of_uncounted (.inl hplain) depth
      rw [if_pos rfl, closesBeforeArrow_significantFrom, if_neg hend, hends, hcount]
      rfl
  | false =>
      rw [if_neg Bool.false_ne_true, closesBeforeArrow_cons,
        ← head?_significant_any rest (· == .fatArrow)]
      rfl

theorem closesBeforeArrow_append {word : List Token} (hopen : StaysOpen depth (word.map Token.kind))
    (hword : ∀ t ∈ word, t.kind ≠ .eof) (rest : List Token) :
    closesBeforeArrow depth (significant (word ++ rest)) =
      closesBeforeArrow (countBehind depth (word.map Token.kind)) (significant rest) := by
  induction word generalizing depth with
  | nil => rfl
  | cons t word ih =>
      obtain ⟨hends, hopen⟩ := staysOpen_cons.mp hopen
      rw [List.cons_append, closesBeforeArrow_significant_cons,
        if_neg (hword t List.mem_cons_self), hends, if_neg Bool.false_ne_true,
        ih hopen fun u hu => hword u (List.mem_cons_of_mem t hu)]
      rfl

theorem closesBeforeArrow_nested {paren close : Token} {inside : List Token}
    (hparen : paren.kind = .lParen) (hclose : close.kind = .rParen)
    (hnested : NestedWord (inside.map Token.kind))
    (hinside : ∀ t ∈ paren :: inside, t.kind ≠ .eof) (rest : List Token) :
    closesBeforeArrow 0 (significant (paren :: inside ++ close :: rest)) =
      (significantOnly rest).head?.any (·.kind == .fatArrow) := by
  have hcount : countBehind 0 ((paren :: inside).map Token.kind) = 1 := by
    rw [List.map_cons, countBehind_cons, hparen]
    exact hnested.countBehind_eq 1
  have hopen : StaysOpen 0 ((paren :: inside).map Token.kind) := by
    rw [List.map_cons, hparen]
    exact staysOpen_cons.mpr ⟨rfl, hnested.staysOpen Nat.one_pos⟩
  rw [closesBeforeArrow_append hopen hinside, hcount, closesBeforeArrow_significant_cons, hclose]
  rfl

theorem closesBeforeArrow_open_end {word : List Token}
    (hopen : StaysOpen depth ((word ++ [endOfText]).map Token.kind))
    (hword : ∀ t ∈ word, t.kind ≠ .eof) :
    closesBeforeArrow depth (significant (word ++ [endOfText])) = false := by
  rw [List.map_append] at hopen
  rw [closesBeforeArrow_append hopen.of_append hword]
  rfl

/-! ## Places in a stream -/

/-- The scan by places in a stream, from `place` on with `depth` brackets open. Past the last token
it has no answer. -/
def arrowFrom? (tokens : List Token) (depth place : Nat) : Option Bool :=
  if _h : place < tokens.length then
    let kind := tokens[place].kind
    if kind = .eof then some false
    else if endsScan depth kind then
      some ((tokens.drop (place + 1)).find? (!·.kind.isTrivia) |>.any (·.kind == .fatArrow))
    else arrowFrom? tokens (countAfter depth kind) (place + 1)
  else none
termination_by tokens.length - place
decreasing_by exact Nat.sub_lt_sub_left _h (Nat.lt_succ_self place)

theorem arrowFrom?_eq {tokens : List Token} {place : Nat}
    (hend : ∃ t ∈ tokens.drop place, t.kind = .eof) :
    arrowFrom? tokens depth place =
      some (closesBeforeArrow depth (significant (tokens.drop place))) := by
  fun_induction arrowFrom? tokens depth place with
  | case1 depth place h kind heof =>
      rw [List.drop_eq_getElem_cons h, closesBeforeArrow_significant_cons, if_pos heof]
  | case2 depth place h kind heof hends =>
      rw [List.drop_eq_getElem_cons h, closesBeforeArrow_significant_cons, if_neg heof,
        if_pos hends, significantOnly, List.head?_filter]
  | case3 depth place h kind heof hends ih =>
      -- The token at `place` is not the mark of the end, so the mark is still ahead.
      rw [List.drop_eq_getElem_cons h] at hend ⊢
      rw [closesBeforeArrow_significant_cons, if_neg heof, if_neg hends]
      obtain ⟨t, ht, hkind⟩ := hend
      rcases List.mem_cons.mp ht with rfl | ht
      · exact absurd hkind heof
      · exact ih ⟨t, ht, hkind⟩
  | case4 depth place h =>
      rw [List.drop_eq_nil_of_le (Nat.le_of_not_lt h)] at hend
      simp at hend

/-- What comes behind the mark of the end has no say in the scan. -/
theorem closesBeforeArrow_past_end {ahead : List Lookahead} (hend : ∃ t ∈ ahead, t.kind = .eof)
    (depth : Nat) (more : List Lookahead) :
    closesBeforeArrow depth (ahead ++ more) = closesBeforeArrow depth ahead := by
  induction ahead generalizing depth with
  | nil => simp at hend
  | cons t rest ih =>
      rw [List.cons_append, closesBeforeArrow_cons, closesBeforeArrow_cons]
      by_cases hkind : t.kind = .eof
      · rw [if_pos hkind, if_pos hkind]
      · have hrest : ∃ t ∈ rest, t.kind = .eof := by simpa [hkind] using hend
        have hne : rest ≠ [] := by
          rintro rfl
          simp at hrest
        rw [if_neg hkind, if_neg hkind, ih hrest, List.head?_append_of_ne_nil _ hne]

/-! ## Views of a script -/

theorem exists_end_tokenize {source : List Char} {front rest : List Token}
    (hsplit : tokenize source = front ++ rest) (hrest : rest ≠ []) :
    ∃ word, rest = word ++ [endOfText] ∧ ∀ t ∈ front ++ word, t.kind ≠ .eof := by
  obtain ⟨body, hbody, -, hkinds⟩ := (tokenize_spells source).split
  obtain ⟨word, last, rfl⟩ := (List.eq_nil_or_concat' rest).resolve_left hrest
  rw [hbody, ← List.append_assoc] at hsplit
  obtain ⟨rfl, hlast⟩ := List.append_inj' hsplit rfl
  exact ⟨word, by rw [hlast], fun t ht => (hkinds t ht).1⟩

theorem exists_eof_significantFrom {tokens : List Token} (hend : ∃ t ∈ tokens, t.kind = .eof)
    (broken : Bool) : ∃ t ∈ significantFrom broken tokens, t.kind = .eof := by
  obtain ⟨t, ht, hkind⟩ := hend
  have hmem : t ∈ significantOnly tokens := List.mem_filter.mpr ⟨ht, by rw [hkind]; rfl⟩
  rw [← map_token_significantFrom broken] at hmem
  obtain ⟨u, hu, rfl⟩ := List.mem_map.mp hmem
  exact ⟨u, hu, hkind⟩

section

variable {tokens front after : List Token} {paren : Token} {v : View} {k n : Nat}

theorem drop_ahead (hsplit : tokens = front ++ after)
    (hview : v.ahead = (significant tokens).drop k) (hn : k + n = (significantOnly front).length) :
    ∃ broken, v.ahead.drop n = significantFrom broken after := by
  have hlength : (significantFrom false front).length = k + n := by
    rw [hn, ← map_token_significantFrom false, List.length_map]
  refine ⟨pending false front, ?_⟩
  rw [hview, List.drop_drop, hsplit, significant, significantFrom_append, ← hlength, List.drop_left]

theorem parametersAt_eq (hsplit : tokens = front ++ paren :: after) (hparen : paren.kind = .lParen)
    (hview : v.ahead = (significant tokens).drop k) (hn : k + n = (significantOnly front).length) :
    v.parametersAt n = closesBeforeArrow 0 (significant (paren :: after)) := by
  obtain ⟨broken, hahead⟩ := drop_ahead hsplit hview hn
  have hkind : v.kindAt n = .lParen := by
    rw [View.kindAt, View.nth, List.getD_eq_getElem?_getD, ← List.head?_drop, hahead,
      significantFrom, if_neg (by rw [hparen]; exact Bool.false_ne_true)]
    exact hparen
  rw [View.parametersAt, hkind, hahead, closesBeforeArrow_significantFrom]
  rfl

/-- A view in which the end of the stream is ahead need not show what comes behind it. -/
theorem parametersAt_append (hend : ∃ t ∈ v.ahead.drop n, t.kind = .eof) (more : List Lookahead) :
    View.parametersAt { v with ahead := v.ahead ++ more } n = v.parametersAt n := by
  have hlength : n < v.ahead.length := by
    obtain ⟨t, ht, -⟩ := hend
    have hpos := List.length_pos_of_mem ht
    rw [List.length_drop] at hpos
    omega
  have hkind : View.kindAt { v with ahead := v.ahead ++ more } n = v.kindAt n := by
    simp [View.kindAt, View.nth, List.getElem?_append_left hlength]
  rw [View.parametersAt, View.parametersAt, hkind,
    List.drop_append_of_le_length (Nat.le_of_lt hlength), closesBeforeArrow_past_end hend]

end

/-- From wherever the grammar looks ahead at a parenthesis that opens, it never looks past the end
of the stream. If all is nested up to a parenthesis that closes, it sees the parameters of an arrow
function if and only if an arrow comes next. If no closer brings the count back to zero, it sees
none. -/
theorem arrow_seen_behind_parameters {source : List Char} {front after : List Token} {paren : Token}
    (hsplit : tokenize source = front ++ paren :: after) (hparen : paren.kind = .lParen)
    (v : View) (k n : Nat) (hview : v.ahead = (significant (tokenize source)).drop k)
    (hn : k + n = (significantOnly front).length) :
    (arrowFrom? (tokenize source) 0 front.length = some (v.parametersAt n) ∧
      ∀ more, View.parametersAt { v with ahead := v.ahead ++ more } n = v.parametersAt n) ∧
    (∀ inside close rest, after = inside ++ close :: rest →
      NestedWord (inside.map Token.kind) → close.kind = .rParen →
      (v.parametersAt n = true ↔
        (significantOnly rest).head?.map Token.kind = some .fatArrow)) ∧
    (StaysOpen 0 ((paren :: after).map Token.kind) → v.parametersAt n = false) := by
  have hscan := parametersAt_eq hsplit hparen hview hn
  obtain ⟨word, hword, hkinds⟩ := exists_end_tokenize hsplit (List.cons_ne_nil paren after)
  have hend : ∃ t ∈ paren :: after, t.kind = .eof := ⟨endOfText, by simp [hword], rfl⟩
  refine ⟨⟨?_, ?_⟩, ?_, ?_⟩
  · have hdrop : (tokenize source).drop front.length = paren :: after := by
      rw [hsplit, List.drop_left]
    rw [arrowFrom?_eq (hdrop.symm ▸ hend), hdrop, hscan]
  · obtain ⟨broken, hahead⟩ := drop_ahead hsplit hview hn
    exact parametersAt_append (hahead.symm ▸ exists_eof_significantFrom hend broken)
  · rintro inside close rest rfl hnested hclose
    -- The mark of the end is the last token, so it is not among those in front of `close`.
    obtain ⟨last, -, hfront⟩ := exists_end_tokenize
      (hsplit.trans (List.append_assoc front (paren :: inside) (close :: rest)).symm)
      (List.cons_ne_nil close rest)
    have hinside : ∀ t ∈ paren :: inside, t.kind ≠ .eof := fun t ht =>
      hfront t (List.mem_append_left _ (List.mem_append_right _ ht))
    rw [hscan, ← List.cons_append, closesBeforeArrow_nested hparen hclose hnested hinside]
    cases (significantOnly rest).head? <;> simp
  · intro hopen
    rw [hword] at hopen hscan
    have hbefore : ∀ t ∈ word, t.kind ≠ .eof := fun t ht =>
      hkinds t (List.mem_append_right front ht)
    rw [hscan, closesBeforeArrow_open_end hopen hbefore]

def templateDefault : List Char := "async (a = `${[b]}`, c) /* ) */ => a".toList

def templateDefaultInside : List Token := ((tokenize templateDefault).drop 3).take 14

/-- A parenthesis that is open where the script ends: the last one closes a bracket in its place. -/
def openParameters : List Char := "(a, `${(b)}`, [c) => a".toList

theorem arrow_seen_behind_parameters_templateDefault :
    (NestedWord (templateDefaultInside.map Token.kind) ∧
      arrowFrom? (tokenize templateDefault) 0 2 = some true ∧
      (State.start (significant (tokenize templateDefault))).view.parametersAt 1 = true) ∧
    (StaysOpen 0 ((tokenize openParameters).map Token.kind) ∧
      arrowFrom? (tokenize openParameters) 0 0 = some false ∧
      (State.start (significant (tokenize openParameters))).view.parametersAt 0 = false) := by
  obtain ⟨hdefault, hkinds, harrow⟩ : tokenize templateDefault =
        [⟨.ident, "async".toList⟩, ⟨.whitespace, [' ']⟩] ++ ⟨.lParen, ['(']⟩ ::
          (templateDefaultInside ++ ⟨.rParen, [')']⟩ :: (tokenize templateDefault).drop 18) ∧
      (templateDefaultInside.map Token.kind).filter (!isTemplateMark ·) =
        [.ident, .whitespace, .eq, .whitespace, .interpolationStart, .lBracket, .ident, .rBracket,
          .interpolationEnd, .comma, .whitespace, .ident] ∧
      (significantOnly ((tokenize templateDefault).drop 18)).head?.map Token.kind =
        some .fatArrow := by decide +kernel
  obtain ⟨hparameters, hopen⟩ : tokenize openParameters =
        [] ++ ⟨.lParen, ['(']⟩ :: (tokenize openParameters).drop 1 ∧
      StaysOpen 0 ((tokenize openParameters).map Token.kind) := by decide +kernel
  have hnested : NestedWord (templateDefaultInside.map Token.kind) := by
    have hbrackets : Bracketed [.lBracket, .ident, .rBracket] :=
      .enclosed (v := [.ident]) rfl (.plain rfl .nil) .nil
    have hlater : Bracketed [.comma, .whitespace, .ident] :=
      .plain rfl (.plain rfl (.plain rfl .nil))
    rw [NestedWord, hkinds]
    exact .plain rfl (.plain rfl (.plain rfl (.plain rfl (.enclosed rfl hbrackets hlater))))
  obtain ⟨⟨hplace, -⟩, hseen, -⟩ := arrow_seen_behind_parameters hdefault rfl
    (State.start (significant (tokenize templateDefault))).view 0 1 rfl rfl
  obtain ⟨⟨hplaceOpen, -⟩, -, hunseen⟩ := arrow_seen_behind_parameters hparameters rfl
    (State.start (significant (tokenize openParameters))).view 0 0 rfl rfl
  have htrue := (hseen _ _ _ rfl hnested rfl).mpr harrow
  have hfalse := hunseen (by rwa [hparameters] at hopen)
  exact ⟨⟨hnested, htrue ▸ hplace, htrue⟩, hopen, hfalse ▸ hplaceOpen, hfalse⟩

end ShellAwait.Grammar
