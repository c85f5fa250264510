import ShellAwait.Proofs.Grammar.Reading.Expressions
import ShellAwait.Proofs.Grammar.Sound

/-! # Scripts that are read are in the grammar

Every statement, run without a problem, finds a phrase of the grammar. With that the named parts do,
at any depth of references that is left, and so a script that is read without a problem is a list of
statements of the grammar.
-/

namespace ShellAwait.Grammar

open Phrase Rule Category

variable {n : Bool} {d : Draft} {ahead : List Lookahead} {outcome : Outcome}

namespace Knows

open Reader

variable {r : Reader} {m rank : Nat}

theorem gives_terminator {k : Nat} : r.Gives k terminator .terminator := by
  intro n d ahead outcome hlen h
  refine finds_look ?_
  rw [next_viewOf]
  split
  · rename_i hnext
    refine finds_next (beq_iff_eq.mp hnext) nofun ?_
    rintro t rest rfl ht
    exact h [.leaf t] rest rfl (.semicolon ht)
  · rename_i hother
    split
    · refine finds_skip ?_
      rw [← d.add_nil]
      exact h [] ahead rfl (.ended ‹_› (by simpa using hother))
    · exact finds_report

section

variable (knows : Knows r m rank) {k : Nat} (hk : k < m)

include knows hk

theorem finds_declarator (hlen : ahead.length ≤ k)
    (h : ∀ p i rest, ahead = words (p :: i) ++ rest → Reads .pattern n [p] (words i ++ rest) → Reads
      .initializer n i rest → outcome true (d.add [.node .declarator (p :: i)]) rest) :
    r.Finds declarator n d ahead outcome := by
  refine finds_node (finds_seq (knows.deep .pattern nofun k hk n _ ahead _ hlen ?_))
  rintro l rest rfl hpattern
  obtain ⟨p, rfl⟩ := hpattern.single_category
  refine knows.gives_initializer hk n _ rest _ (by simp at hlen; omega) ?_
  rintro i rest rfl hvalue
  exact h p i rest (by simp) hpattern hvalue

theorem gives_declarators :
    r.Gives k (many (fun v => !v.failed && v.next .comma) (eat .comma ++ declarator)) .declarators := by
  intro n d ahead outcome hlen h
  have hlimit := knows.limit
  refine finds_list (Reads .declarators n) (by omega) (fun e rest hgo hle => ?_)
    (fun rest hstop => .noDeclarator (by simpa using hstop)) h
  refine finds_seq (finds_next (by simpa using hgo) nofun ?_)
  rintro t more rfl ht
  refine knows.finds_declarator hk (by simp at hle; omega) ?_
  rintro p i more rfl hpattern hvalue
  refine ⟨[.leaf t, .node .declarator (p :: i)], by simp, by simp, .inl ⟨rfl, by simp; omega, ?_⟩⟩
  rintro l after rfl hl
  exact .declarator ht (by simpa using hpattern) hvalue hl

theorem gives_condition : r.Gives k condition (.enclosed .condition) :=
  gives_enclosed .condition nofun fun j hj => (knows.deep .expression nofun j (by omega)).succeed

theorem gives_clause {kind : NodeKind} {stop : TokenKind} (hlen : ahead.length ≤ k)
    (h : ∀ l rest, ahead = words l ++ rest → Reads .clause n l rest → outcome true (d.add [.node
      kind l]) rest) :
    r.Finds (node kind (look fun v => if v.next stop || v.failed then skip else call .expression))
      n d ahead outcome := by
  refine finds_node (finds_look ?_)
  split
  · exact finds_skip (h [] ahead rfl .noClause)
  · refine knows.deep .expression nofun k hk n _ ahead _ hlen ?_
    rintro l rest hahead hread
    obtain ⟨p, rfl⟩ := hread.single_category
    exact h [p] rest hahead (.clause hread)

theorem gives_loopClauses : r.Gives k loopClauses .clauses := by
  intro n d ahead outcome hlen h
  refine finds_seq (finds_seq (finds_seq (finds_expect nofun ?_)))
  rintro s rest rfl hs
  refine knows.gives_clause hk (by simp at hlen; omega) ?_
  rintro x rest rfl hx
  refine finds_expect nofun ?_
  rintro t rest rfl ht
  refine knows.gives_clause hk (by simp at hlen; omega) ?_
  rintro y rest rfl hy
  simpa using h [.leaf s, .node .forTest x, .leaf t, .node .forUpdate y] rest (by simp)
    (.clauses hs hx ht hy)

theorem gives_catchClause : r.GivesAt k .catchKw catchClause .catching := by
  intro n d ahead outcome hlen hnext h
  refine finds_node (finds_seq (finds_seq (finds_next hnext nofun ?_)))
  rintro t rest rfl ht
  refine finds_whenNext (fun _ => ?_) fun _ => ?_
  · refine gives_enclosed .catchBinding nofun (fun j hj =>
      (knows.deep .pattern nofun j (Nat.lt_trans hj hk)).succeed) n _ rest _ (by simp at hlen; omega) ?_
    rintro l rest rfl hbinding
    refine knows.gives_block (Nat.le_of_lt hk) n _ rest _ (by simp at hlen; omega) ?_
    rintro l' rest rfl hblock
    obtain ⟨b, rfl⟩ := hblock.single_group
    simpa using h (.node .catchClause (.leaf t :: (l ++ [b]))) rest (by simp)
      (.catchingAs ht hbinding hblock)
  · refine knows.gives_block (Nat.le_of_lt hk) n _ rest _ (by simp at hlen; omega) ?_
    rintro l rest rfl hblock
    obtain ⟨b, rfl⟩ := hblock.single_group
    exact h (.node .catchClause [.leaf t, b]) rest (by simp) (.catching ht hblock)

theorem gives_finallyClause : r.GivesAt k .finallyKw finallyClause .ending := by
  intro n d ahead outcome hlen hnext h
  refine finds_node (finds_seq (finds_next hnext nofun ?_))
  rintro t rest rfl ht
  refine knows.gives_block (Nat.le_of_lt hk) n _ rest _ (by simp at hlen; omega) ?_
  rintro l rest rfl hblock
  obtain ⟨b, rfl⟩ := hblock.single_group
  exact h (.node .finallyClause [.leaf t, b]) rest (by simp) (.ending ht hblock)

theorem finds_caseBody (hlen : ahead.length ≤ k)
    (h : ∀ c l rest, ahead = c :: (words l ++ rest) → c.kind = .colon → Reads .statements n l rest →
      outcome true (d.add (.leaf c :: l)) rest) : r.Finds caseBody n d ahead outcome := by
  refine finds_seq (finds_expect nofun ?_)
  rintro c rest rfl hc
  have hlimit := knows.limit
  refine gives_statements (by omega) (knows.deep .statement nofun k hk) n _ rest _
    (by simp at hlen; omega) ?_
  rintro l rest rfl hl
  simpa using h c l rest rfl hc hl

theorem gives_switchCases :
    r.Gives k (many (·.within .rBrace) switchCase) .switchCases := by
  intro n d ahead outcome hlen h
  have hlimit := knows.limit
  refine finds_list (Reads .switchCases n) (by omega) (fun e rest _ hle => ?_) (fun _ _ => .noCase) h
  refine finds_node (finds_look ?_)
  rw [next_viewOf, next_viewOf]
  split
  · rename_i hnext
    refine finds_seq (finds_seq (finds_next (beq_iff_eq.mp hnext) nofun ?_))
    rintro t more rfl ht
    refine knows.deep .expression nofun k hk n _ more _ (by simp at hle; omega) ?_
    rintro l more rfl hvalue
    obtain ⟨v, rfl⟩ := hvalue.single_category
    refine knows.finds_caseBody hk (by simp at hle; omega) ?_
    rintro c l more rfl hc hl
    refine ⟨[.node .switchCase (.leaf t :: v :: .leaf c :: l)], rfl, by simp,
      .inl ⟨rfl, by simp; omega, ?_⟩⟩
    rintro l' after rfl hl'
    exact .case ht (by simpa using hvalue) hc hl hl'
  · split
    · rename_i hnext
      refine finds_seq (finds_next (beq_iff_eq.mp hnext) nofun ?_)
      rintro t more rfl ht
      refine knows.finds_caseBody hk (by simp at hle; omega) ?_
      rintro c l more rfl hc hl
      refine ⟨[.node .switchCase (.leaf t :: .leaf c :: l)], rfl, by simp,
        .inl ⟨rfl, by simp; omega, ?_⟩⟩
      rintro l' after rfl hl'
      exact .defaultCase ht hc hl hl'
    · exact finds_report

end

section

variable (knows : Knows r m rank)

include knows

theorem finds_declaration (hlen : ahead.length ≤ m) (hnext : isDeclarer (front ahead).kind = true)
    (h : ∀ l rest, ahead = words l ++ rest → Reads .declaration n l rest → outcome true (d.add l)
      rest) : r.Finds declaration n d ahead outcome := by
  refine finds_seq (finds_seq (finds_takeAny ?_ ?_))
  · intro heof
    rw [heof] at hnext
    cases hnext
  · rintro t rest rfl
    have hrest : rest.length < m := hlen
    refine knows.finds_declarator hrest (Nat.le_refl _) ?_
    rintro p i rest rfl hpattern hvalue
    refine knows.gives_declarators hrest n _ rest _ (by simp; omega) ?_
    rintro l rest rfl hl
    simpa using h (.leaf t :: .node .declarator (p :: i) :: l) rest (by simp)
      (.declaration hnext (by simpa using hpattern) hvalue hl)

theorem finds_loopHead {ps : List Phrase} (hlen : ahead.length < m)
    (h : ∀ kind l rest, ahead = words l ++ rest → Reads (.head kind) n l rest → outcome true ⟨kind,
      ps ++ l⟩ rest) : r.Finds loopHead n ⟨.forStmt, ps⟩ ahead outcome := by
  refine finds_look ?_
  split
  · refine finds_seq (finds_node (finds_skip (finds_succeed ?_)))
    refine knows.gives_loopClauses hlen n _ ahead _ (Nat.le_refl _) fun l rest hahead hread => ?_
    simpa [Draft.add] using h .forStmt (.node .forInit [] :: l) rest (by simpa using hahead) (.headOpen hread)
  · -- What stands first decides the kind of the loop.
    have hfirst (p : Phrase) (rest : List Lookahead) (hahead : ahead = words [p] ++ rest)
        (hp : Reads .headFirst true [p] rest) :
        r.Finds (look fun v =>
          if v.failed then fail
          else if v.nextWord "of" then
            become .forInStmt ++ eat .ident ++ succeed (call .assignment)
          else if v.next .inKw then
            become .forInStmt ++ eat .inKw ++ succeed (call .expression)
          else wrap .forInit skip ++ succeed loopClauses) n ⟨.forStmt, ps ++ [p]⟩ rest outcome := by
      subst hahead
      simp only [List.length_append] at hlen
      refine finds_look ?_
      rw [failed_viewOf, if_neg Bool.false_ne_true]
      split
      · rename_i hof
        have hident : (front rest).kind = .ident := by
          have hkind := (Bool.and_eq_true _ _ ▸ hof : _ ∧ _).1
          simpa using hkind
        refine finds_seq (finds_seq (finds_become (finds_next hident (by decide) ?_)))
        rintro t rest rfl ht
        simp only [nextWord_cons, Bool.and_eq_true, beq_iff_eq] at hof
        refine finds_succeed (knows.deep .assignment (by decide) rest.length (by simp at hlen; omega) n _
          rest _ (Nat.le_refl _) ?_)
        rintro l rest rfl hvalue
        obtain ⟨v, rfl⟩ := hvalue.single_category
        simpa [Draft.add] using h .forInStmt [p, .leaf t, v] rest (by simp) (.headOf hp ht hof.2 hvalue)
      · split
        · rename_i hin
          refine finds_seq (finds_seq (finds_become (finds_next (by simpa using hin) (by decide) ?_)))
          rintro t rest rfl ht
          refine finds_succeed (knows.deep .expression (by decide) rest.length (by simp at hlen; omega) n _
            rest _ (Nat.le_refl _) ?_)
          rintro l rest rfl hvalue
          obtain ⟨v, rfl⟩ := hvalue.single_category
          simpa [Draft.add] using h .forInStmt [p, .leaf t, v] rest (by simp) (.headIn hp ht hvalue)
        · refine finds_seq (finds_wrap (finds_skip (finds_succeed ?_)))
          refine knows.gives_loopClauses (by omega) n _ rest _ (Nat.le_refl _) ?_
          rintro l rest rfl hread
          simpa [Draft.add] using h .forStmt (.node .forInit [p] :: l) rest (by simp) (.headSet hp hread)
    refine finds_andThen (finds_withNoIn (finds_look ?_))
    split
    · rename_i hnext
      refine finds_node (knows.finds_declaration (Nat.le_of_lt hlen) ?_ fun l rest hahead hread => ?_)
      · rw [nextIn_viewOf] at hnext
        revert hnext
        cases (front ahead).kind <;> decide
      · exact ⟨rfl, hfirst (.node .varDecl l) rest (by simpa using hahead) (.headDeclaration hread)⟩
    · refine knows.deep .expression (by decide) ahead.length hlen true _ ahead _ (Nat.le_refl _) ?_
      intro l rest hahead hread
      obtain ⟨p, rfl⟩ := hread.single_category
      exact ⟨rfl, hfirst p rest hahead (.headExpression hread)⟩

/-! ### Statements that begin with a word of their own -/

theorem gives_ifStatement : r.GivesAt m .ifKw ifStatement .statement := by
  intro n d ahead outcome hlen hnext h
  refine finds_node (finds_seq (finds_seq (finds_seq (finds_next hnext nofun ?_))))
  rintro t rest rfl ht
  have hrest : rest.length < m := hlen
  refine knows.gives_condition hrest n _ rest _ (Nat.le_refl _) ?_
  rintro c rest rfl hc
  refine knows.deep .statement nofun rest.length (by simp at hrest; omega) n _ rest _ (Nat.le_refl _) ?_
  rintro l rest rfl hp
  obtain ⟨p, rfl⟩ := hp.single_category
  refine finds_look ?_
  rw [next_viewOf, failed_viewOf]
  split
  · rename_i helse
    refine finds_node (finds_seq (finds_next (by simpa using helse) nofun ?_))
    rintro e rest rfl he
    refine knows.deep .statement nofun rest.length (by simp at hrest; omega) n _ rest _ (Nat.le_refl _) ?_
    rintro l rest rfl hq
    obtain ⟨q, rfl⟩ := hq.single_category
    have hchoice : Reads .statement n
        [.node .ifStmt (.leaf t :: (c ++ p :: [.node .elseClause [.leaf e, q]]))] rest :=
      .choice ht (by simpa using hc) (by simpa using hp) (.otherwise he hq)
    simpa using h _ rest (by simp) hchoice
  · rename_i helse
    have hchoice : Reads .statement n [.node .ifStmt (.leaf t :: (c ++ p :: []))] rest :=
      .choice ht hc hp (.noElse (by simpa using helse))
    exact finds_skip (by simpa using h _ rest (by simp) hchoice)

theorem gives_whileStatement : r.GivesAt m .whileKw whileStatement .statement := by
  intro n d ahead outcome hlen hnext h
  refine finds_node (finds_seq (finds_seq (finds_next hnext nofun ?_)))
  rintro t rest rfl ht
  have hrest : rest.length < m := hlen
  refine knows.gives_condition hrest n _ rest _ (Nat.le_refl _) ?_
  rintro c rest rfl hc
  refine finds_unlessFailed (knows.deep .statement nofun rest.length (by simp at hrest; omega) n _ rest _
    (Nat.le_refl _) ?_)
  rintro l rest rfl hp
  obtain ⟨p, rfl⟩ := hp.single_category
  simpa using h (.node .whileStmt (.leaf t :: (c ++ [p]))) rest (by simp) (.whileLoop ht hc hp)

theorem gives_doWhileStatement : r.GivesAt m .doKw doWhileStatement .statement := by
  intro n d ahead outcome hlen hnext h
  refine finds_node (finds_seq (finds_seq (finds_seq (finds_seq (finds_next hnext nofun ?_)))))
  rintro t rest rfl ht
  have hrest : rest.length < m := hlen
  refine knows.deep .statement nofun rest.length hrest n _ rest _ (Nat.le_refl _) ?_
  rintro l rest rfl hp
  obtain ⟨p, rfl⟩ := hp.single_category
  refine finds_expect nofun ?_
  rintro w rest rfl hw
  refine knows.gives_condition hrest n _ rest _ (by simp; omega) ?_
  rintro c rest rfl hc
  refine finds_optional ?_
  rintro _ e rest rfl he hend
  have hloop : Reads .statement n [.node .doWhileStmt (.leaf t :: p :: .leaf w :: (c ++ e))] rest :=
    .doWhile ht (by simpa using hp) hw hc he fun hnil => (hend hnil).resolve_left nofun
  simpa using h _ rest (by simp) hloop

theorem gives_forStatement : r.GivesAt m .forKw forStatement .statement := by
  intro n d ahead outcome hlen hnext h
  refine finds_node (finds_seq (finds_next hnext nofun ?_))
  rintro t rest rfl ht
  refine finds_look ?_
  split
  · exact finds_report
  · refine finds_seq (finds_bracket ?_)
    rintro o rest rfl ho
    refine knows.finds_loopHead (by simp at hlen; omega) ?_
    rintro kind l rest rfl hhead
    refine ⟨rfl, ?_⟩
    rintro c rest rfl hc
    refine finds_unlessFailed (knows.deep .statement nofun rest.length (by simp at hlen; omega) n _ rest _
      (Nat.le_refl _) ?_)
    rintro l' rest rfl hp
    obtain ⟨p, rfl⟩ := hp.single_category
    simpa [Draft.add] using h (.node kind (.leaf t :: .leaf o :: (l ++ [.leaf c, p]))) rest (by simp)
      (.loop ht ho hhead hc hp)

theorem gives_returnStatement : r.GivesAt m .returnKw returnStatement .statement := by
  intro n d ahead outcome hlen hnext h
  refine finds_node (finds_seq (finds_seq (finds_next hnext nofun ?_)))
  rintro t rest rfl ht
  refine finds_look ?_
  split
  · refine finds_skip (gives_terminator n _ rest _ (Nat.le_refl _) ?_)
    rintro e rest rfl he
    exact h (.node .returnStmt (.leaf t :: e)) rest (by simp) (.noResult ht he)
  · rename_i hvalue
    have hbreak : (front rest).breakBefore = false := by
      simp only [View.endsStatement, Bool.or_eq_true, not_or, breakAt_viewOf] at hvalue
      simpa using hvalue.2
    refine knows.deep .expression nofun rest.length hlen n _ rest _ (Nat.le_refl _) ?_
    rintro l rest rfl hv
    obtain ⟨v, rfl⟩ := hv.single_category
    refine gives_terminator n _ rest _ (Nat.le_refl _) ?_
    rintro e rest rfl he
    exact h (.node .returnStmt (.leaf t :: v :: e)) rest (by simp)
      (.result ht hv (by simpa using hbreak) he)

theorem gives_throwStatement : r.GivesAt m .throwKw throwStatement .statement := by
  intro n d ahead outcome hlen hnext h
  refine finds_node (finds_seq (finds_next hnext nofun ?_))
  rintro t rest rfl ht
  refine finds_look ?_
  rw [breakAt_viewOf]
  split
  · exact finds_report
  · rename_i hbreak
    refine finds_seq (knows.deep .expression nofun rest.length hlen n _ rest _ (Nat.le_refl _) ?_)
    rintro l rest rfl hv
    obtain ⟨v, rfl⟩ := hv.single_category
    refine gives_terminator n _ rest _ (Nat.le_refl _) ?_
    rintro e rest rfl he
    exact h (.node .throwStmt (.leaf t :: v :: e)) rest (by simp)
      (.throw ht hv (by simpa using hbreak) he)

theorem gives_tryStatement : r.GivesAt m .tryKw tryStatement .statement := by
  intro n d ahead outcome hlen hnext h
  refine finds_node (finds_seq (finds_seq (finds_next hnext nofun ?_)))
  rintro t rest rfl ht
  have hrest : rest.length < m := hlen
  refine knows.gives_block (Nat.le_of_lt hrest) n _ rest _ (Nat.le_refl _) ?_
  rintro l rest rfl hb
  obtain ⟨b, rfl⟩ := hb.single_group
  refine finds_look ?_
  simp only [next_viewOf, failed_viewOf, Bool.not_false, Bool.and_true]
  split
  · rename_i hcatch
    refine finds_seq (knows.gives_catchClause hrest n _ _ _ (by simp) (beq_iff_eq.mp hcatch) ?_)
    rintro c rest rfl hc
    refine finds_look ?_
    simp only [next_viewOf, failed_viewOf, Bool.not_false, Bool.and_true]
    split
    · rename_i hfinally
      refine knows.gives_finallyClause hrest n _ _ _ (by simp; omega) (beq_iff_eq.mp hfinally) ?_
      rintro f rest rfl hf
      refine h (.node .tryStmt (.leaf t :: b :: [c, f])) rest (by simp) (.attempt ht ?_ (.caughtEnding hc hf))
      simpa using hb
    · rename_i hfinally
      exact finds_skip (h (.node .tryStmt (.leaf t :: b :: [c])) rest (by simp)
        (.attempt ht hb (.caught hc (by simpa using hfinally))))
  · split
    · rename_i hfinally
      refine knows.gives_finallyClause hrest n _ _ _ (by simp) (beq_iff_eq.mp hfinally) ?_
      rintro f rest rfl hf
      exact h (.node .tryStmt (.leaf t :: b :: [f])) rest (by simp) (.attempt ht hb (.onlyEnding hf))
    · exact finds_report

theorem gives_switchStatement : r.GivesAt m .switchKw switchStatement .statement := by
  intro n d ahead outcome hlen hnext h
  refine finds_node (finds_seq (finds_seq (finds_next hnext nofun ?_)))
  rintro t rest rfl ht
  have hrest : rest.length < m := hlen
  refine knows.gives_condition hrest n _ rest _ (Nat.le_refl _) ?_
  rintro c rest rfl hc
  refine gives_enclosed .switchBody nofun (fun j hj => knows.gives_switchCases (Nat.lt_trans hj hrest)) n _
    rest _ (by simp) ?_
  rintro b rest rfl hb
  simpa using h (.node .switchStmt (.leaf t :: (c ++ b))) rest (by simp) (.switch ht hc hb)

end

theorem finds_jumpStatement {kind : NodeKind} (hnext : jumpKind? (front ahead).kind = some kind)
    (h : ∀ p rest, ahead = words [p] ++ rest → Reads .statement n [p] rest → outcome true (d.add
      [p]) rest) : r.Finds (jumpStatement kind) n d ahead outcome := by
  refine finds_node (finds_seq (finds_seq (finds_takeAny ?_ ?_)))
  · intro heof
    rw [heof] at hnext
    cases hnext
  · rintro t rest rfl
    refine finds_look ?_
    split
    · exact finds_report
    · refine finds_skip (gives_terminator n _ rest _ (Nat.le_refl _) ?_)
      rintro e rest rfl he
      exact h (.node kind (.leaf t :: e)) rest (by simp) (.jump hnext he)

theorem gives_statement (knows : Knows r m Category.statement.rank) :
    r.Gives m statement .statement := by
  intro n d ahead outcome hlen hall
  have h (p : Phrase) (rest : List Lookahead) (hahead : ahead = words [p] ++ rest)
      (hread : Reads .statement n [p] rest) : outcome true (d.add [p]) rest := hall [p] rest hahead hread
  have hdeclaration (hnext : isDeclarer (front ahead).kind = true) :
      r.Finds (node .varDecl (declaration ++ terminator)) n d ahead outcome := by
    refine finds_node (finds_seq (knows.finds_declaration hlen hnext ?_))
    rintro l rest rfl hread
    refine gives_terminator n _ rest _ (Nat.le_refl _) ?_
    rintro e rest rfl he
    exact h (.node .varDecl (l ++ e)) rest (by simp) (.variableStatement hread he)
  have hfunction (hstart : (front ahead).kind = .functionKw ∨
      (viewOf n ahead).startsAsyncFunction = true) : r.Finds functionDecl n d ahead outcome := by
    refine finds_node (knows.finds_functionTail (Nat.le_refl m) hlen hstart fun l rest hahead hread => ?_)
    exact h (.node .functionDecl l) rest (by simpa using hahead) (.functionStatement hread)
  have hexpression (hstart : (viewOf n ahead).startsValue = true) :
      r.Finds expressionStatement n d ahead outcome := by
    refine finds_node (finds_andThen (knows.low .expression nofun (by decide) n _ ahead _ hlen ?_))
    rintro l rest rfl hv
    obtain ⟨v, rfl⟩ := hv.single_category
    refine ⟨rfl, gives_terminator n _ rest _ (Nat.le_refl _) ?_⟩
    rintro e rest rfl he
    exact h (.node .exprStmt (v :: e)) rest (by simp) (.effect hv he (by simpa using hstart))
  refine finds_look ?_
  rw [kind_viewOf]
  split
  · refine knows.gives_block (Nat.le_refl m) n d ahead _ hlen fun l rest hahead hread => ?_
    obtain ⟨b, rfl⟩ := hread.single_group
    exact h b rest hahead (.block hread)
  · rename_i hkind
    exact hdeclaration (by rw [hkind]; rfl)
  · rename_i hkind
    exact hdeclaration (by rw [hkind]; rfl)
  · rename_i hkind
    exact hdeclaration (by rw [hkind]; rfl)
  · exact hfunction (.inl ‹_›)
  · exact knows.gives_ifStatement n d ahead outcome hlen ‹_› h
  · exact knows.gives_whileStatement n d ahead outcome hlen ‹_› h
  · exact knows.gives_doWhileStatement n d ahead outcome hlen ‹_› h
  · exact knows.gives_forStatement n d ahead outcome hlen ‹_› h
  · exact knows.gives_returnStatement n d ahead outcome hlen ‹_› h
  · rename_i hkind
    exact finds_jumpStatement (by rw [hkind]; rfl) h
  · rename_i hkind
    exact finds_jumpStatement (by rw [hkind]; rfl) h
  · exact knows.gives_throwStatement n d ahead outcome hlen ‹_› h
  · exact knows.gives_tryStatement n d ahead outcome hlen ‹_› h
  · exact knows.gives_switchStatement n d ahead outcome hlen ‹_› h
  · rename_i hkind
    refine finds_node (finds_next hkind nofun ?_)
    rintro t rest rfl ht
    exact h (.node .emptyStmt [.leaf t]) rest rfl (.empty ht)
  iterate 3 exact finds_report
  · rename_i hkind
    split
    · exact hfunction (.inr ‹_›)
    · split
      · exact finds_report
      · rename_i hasync hlabel
        refine hexpression ?_
        simp_all [View.startsValue]
  · refine hexpression ?_
    have hasync : (viewOf n ahead).startsAsyncFunction = false := by
      simp_all [View.startsAsyncFunction, View.nextWord]
    simp_all [View.startsValue]

end Knows

/-! ## Depth -/

theorem rank_lt (category : Category) : category.rank < 8 := by
  cases category <;> simp [Category.rank]

theorem gives_table {r : Reader} {m : Nat} (category : Category) (hnew : category ≠ .newExpression)
    (knows : Knows r m category.rank) : r.Gives m (table category) (.category category) := by
  cases category with
  | statement => exact knows.gives_statement
  | expression => exact knows.gives_expression
  | assignment => exact knows.gives_assignment
  | unary => exact knows.gives_unary
  | primary => exact knows.gives_primary
  | newExpression => exact absurd rfl hnew
  | pattern => exact knows.gives_pattern (Nat.le_refl m)
  | binary floor => exact knows.gives_binary floor

/-- What the table gives, a reference to it gives. -/
theorem Reader.Finds.call {limit depth : Nat} (hlimit : 0 < limit) {category : Category}
    (h : (reader limit depth hlimit).Finds (table category) n d ahead outcome) :
    (reader limit (depth + 1) hlimit).Finds (call category) n d ahead outcome :=
  fun s t below b hs hrun hclean => h s t below b hs hrun hclean

/-- Eight references for every token ahead are enough for all that is read. -/
theorem knows_reader {limit depth m rank : Nat} (hlimit : m < limit) (hrank : rank ≤ 8)
    (hdepth : 8 * m + rank ≤ depth) :
    Knows (reader limit depth (Nat.zero_lt_of_lt hlimit)) m rank := by
  induction depth generalizing m rank with
  | zero =>
      have hm : m = 0 := by omega
      have hr : rank = 0 := by omega
      subst hm hr
      exact ⟨hlimit, fun _ _ h => absurd h (Nat.not_lt_zero _), fun _ _ _ h => absurd h (Nat.not_lt_zero _),
        fun h => absurd h (Nat.not_lt_zero _), fun _ h => absurd h (Nat.not_lt_zero _)⟩
  | succ depth ih =>
      have hknown (category : Category) (k : Nat) (hk : k ≤ m) (h : 8 * k + category.rank ≤ depth) :
          Knows (reader limit depth (Nat.zero_lt_of_lt hlimit)) k category.rank :=
        ih (by omega) (Nat.le_of_lt (rank_lt category)) h
      refine ⟨hlimit, fun category hnew hlow n d ahead outcome hlen h => ?_,
        fun category hnew k hk n d ahead outcome hlen h => ?_,
        fun hlow n d ahead outcome hlen hnext h => ?_,
        fun k hk n d ahead outcome hlen hnext h => ?_⟩
      · refine Reader.Finds.call _ (gives_table category hnew (hknown category m (Nat.le_refl m) ?_) n d ahead _
          hlen h)
        omega
      · have hless := rank_lt category
        refine Reader.Finds.call _ (gives_table category hnew (hknown category k (Nat.le_of_lt hk) ?_) n d ahead _
          hlen h)
        omega
      · refine Reader.Finds.call _ ((hknown .newExpression m (Nat.le_refl m) ?_).gives_newExpression
          (Nat.le_refl m) n d ahead _ hlen hnext h)
        omega
      · refine Reader.Finds.call _ ((hknown .newExpression k (Nat.le_of_lt hk) ?_).gives_newExpression
          (Nat.le_refl k) n d ahead _ hlen hnext h)
        have hless := rank_lt .newExpression
        omega

/-! ## Scripts -/

theorem eof_notMem_of_nested {w : List Lookahead} (h : Nested w) : ∀ t ∈ w, t.kind ≠ .eof := by
  intro t ht heof
  obtain ⟨u, v, rfl⟩ := List.append_of_mem ht
  have hnest := h []
  rw [nest_append] at hnest
  cases hu : nest [] u with
  | none => simp [hu] at hnest
  | some stack => simp [hu, nest, heof] at hnest

/-- The first token of this kind is the last of all. -/
theorem append_eof_inj {v w rest : List Lookahead} {last : Lookahead} (hlast : last.kind = .eof)
    (hw : ∀ t ∈ w, t.kind ≠ .eof) (hv : ∀ t ∈ v, t.kind ≠ .eof) (hrest : (front rest).kind = .eof)
    (h : w ++ [last] = v ++ rest) : w = v ∧ rest = [last] := by
  induction w generalizing v with
  | nil =>
      cases v with
      | nil => exact ⟨rfl, h.symm⟩
      | cons t v =>
          obtain ⟨rfl, -⟩ := List.cons.inj h
          exact absurd hlast (hv last (List.mem_cons_self ..))
  | cons u w ih =>
      cases v with
      | nil =>
          rw [← show u :: (w ++ [last]) = rest from h] at hrest
          exact absurd hrest (hw u (List.mem_cons_self ..))
      | cons t v =>
          obtain ⟨rfl, htail⟩ := List.cons.inj h
          obtain ⟨rfl, hend⟩ := ih (fun t ht => hw t (List.mem_cons_of_mem _ ht))
            (fun t ht => hv t (List.mem_cons_of_mem _ ht)) htail
          exact ⟨rfl, hend⟩

/-- A script that is read without a problem is a list of statements before the end of the text. -/
theorem reads_read {w : List Lookahead} {last : Lookahead} (hlast : last.kind = .eof)
    (hw : ∀ t ∈ w, t.kind ≠ .eof) (hclean : (read (w ++ [last])).report = none) :
    ∃ l, w = words l ∧ Reads .statements false l [last] ∧
      (read (w ++ [last])).done.reverse = trees l ++ [.leaf last.token] := by
  let r := reader ((w ++ [last]).length + 1) (depthFor (w ++ [last])) (Nat.succ_pos _)
  have knows : Knows r (w ++ [last]).length 8 :=
    knows_reader (Nat.lt_succ_self _) (Nat.le_refl 8) (by simp [depthFor]; omega)
  -- The statements stop at the end of the text, so nothing is left but the last token.
  have hfinds : r.Finds script false ⟨.script, []⟩ (w ++ [last]) fun _ d _ =>
      ∃ l, w = words l ∧ Reads .statements false l [last] ∧ d.parts = l ++ [.leaf last] := by
    refine Reader.finds_seq (Reader.finds_seq (Reader.finds_statements (Nat.lt_succ_self _)
      (knows.low .statement (by decide) (by decide)) (Nat.le_refl _) ?_))
    intro l rest hahead hl hstop
    obtain ⟨hwords, rfl⟩ := append_eof_inj hlast hw (eof_notMem_of_nested hl.nested)
      (by simpa using hstop) hahead
    refine Reader.finds_many (fun d rest => d = ⟨.script, l⟩ ∧ rest = [last]) (by simp [r, reader])
      ⟨rfl, rfl⟩ ?_ ?_
    · rintro d rest ⟨-, rfl⟩ hgo
      simp [hlast] at hgo
    · rintro d rest ⟨rfl, rfl⟩ -
      refine Reader.finds_look (Reader.finds_eat ?_ fun hother => absurd rfl (hother last [] rfl))
      rintro t rest ht -
      obtain ⟨rfl, rfl⟩ := List.cons.inj ht
      exact ⟨l, hwords, hl, rfl⟩
  obtain ⟨d, rest, hholds, l, hwords, hl, hparts⟩ := hfinds (State.start (w ++ [last])) _ [] _
    ⟨rfl, rfl, rfl, rfl⟩ rfl hclean
  refine ⟨l, hwords, hl, ?_⟩
  have hdone : (read (w ++ [last])).done = (trees d.parts).reverse ++ [] := hholds.done
  rw [hdone, hparts]
  simp [tree]

end ShellAwait.Grammar
