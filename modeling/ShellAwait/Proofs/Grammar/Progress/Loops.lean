import ShellAwait.Proofs.Grammar.Progress.Rules

/-! # Repetitions

The depth of references that a reading starts with is enough for every part, with or without
problems. So all repetitions that stand in the rules end wherever they begin, with at most one round
for every token ahead.
-/

namespace ShellAwait.Grammar

open Rule Reader

/-! ## Depth -/

theorem ends_table {r : Reader} {n : Nat} (category : Category) (able : Able r n category.rank)
    {s : State} (hs : s.ahead.length ≤ n) (hstarts : category.Starts s.view) :
    r.Ends (table category) s .progress := by
  cases category with
  | statement => exact able.ends_statement hs
  | expression => exact able.ends_expression hs
  | assignment => exact able.ends_assignment hs
  | unary => exact able.ends_unary hs
  | primary => exact able.ends_primary hs
  | newExpression => exact able.ends_newExpression hs (hstarts rfl)
  | pattern => exact able.below_pattern s (Nat.lt_succ_of_le hs)
  | binary floor => exact able.ends_binary floor hs

/-- Eight references for every token ahead are enough, problems or not. -/
theorem ends_call {limit depth : Nat} (hlimit : 0 < limit) (category : Category) (s : State)
    (hs : s.ahead.length < limit) (hdepth : 8 * s.ahead.length + category.rank < depth)
    (hstarts : category.Starts s.view) :
    (reader limit depth hlimit).Ends (call category) s .progress := by
  induction depth generalizing category s with
  | zero => omega
  | succ depth ih =>
      have able : Able (reader limit depth hlimit) s.ahead.length category.rank := by
        refine ⟨hs, fun lower u hrank hu => ih lower u (by omega) (by omega),
          fun other u hu => ih other u (by omega) ?_⟩
        have hrank : other.rank < 8 := by cases other <;> simp [Category.rank]
        omega
      obtain ⟨b, t, hrun, hruns, h⟩ := ends_table category able (Nat.le_refl _) hstarts
      exact ⟨b, t, hrun, .call hruns, h⟩

theorem able_reader {limit depth n : Nat} (hlimit : n < limit) (hdepth : 8 * (n + 1) ≤ depth) :
    Able (reader limit depth (Nat.zero_lt_of_lt hlimit)) n 8 := by
  refine ⟨hlimit, fun category s _ hs => ends_call _ category s (by omega) ?_,
    fun category s hs => ends_call _ category s (by omega) ?_⟩
  all_goals
    have hrank : category.rank < 8 := by cases category <;> simp [Category.rank]
    omega

/-- There is a reading that comes to the end of every part with so many tokens ahead. -/
theorem exists_able (n : Nat) : ∃ r, Able r n 8 :=
  ⟨_, able_reader (Nat.lt_succ_self n) (Nat.le_refl _)⟩

/-! ## Repetitions -/

theorem Reader.Brief.of_le {r : Reader} {m n : Nat} {goOn : View → Bool} {round : Rule}
    (h : r.Brief m goOn round) (hle : n ≤ m) : r.Brief n goOn round :=
  ⟨h.ahead, fun u hu => h.tires u (Nat.lt_of_lt_of_le hu hle)⟩

theorem bounded_of_brief {goOn : View → Bool} {round : Rule}
    (h : ∀ r n, Able r n 8 → r.Brief n goOn round) : Bounded goOn round := by
  intro s
  obtain ⟨r, able⟩ := exists_able (s.ahead.length + 1)
  obtain ⟨k, t, -, hturns, hk, -⟩ := (h r _ able).turns (Nat.lt_succ_self _) (Nat.le_refl _)
  exact ⟨⟨k, t, hturns⟩, fun m u hu => (hturns.unique hu) ▸ hk⟩

section

variable {P : (View → Bool) → Rule → Prop}

theorem loops_ite {c : Prop} [Decidable c] {a b : Rule} (ha : a.Loops P) (hb : b.Loops P) :
    (if c then a else b).Loops P := by
  split
  · exact ha
  · exact hb

theorem loops_expect {kind : TokenKind} : (expect kind).Loops P :=
  .look fun _ => loops_ite .eat .report

theorem loops_succeed {rule : Rule} (h : rule.Loops P) : (succeed rule).Loops P := .seq h .skip

theorem loops_whenNext {kind : TokenKind} {rule : Rule} (h : rule.Loops P) :
    (whenNext kind rule).Loops P := .look fun _ => loops_ite h .skip

theorem loops_unlessFailed {rule : Rule} (h : rule.Loops P) : (unlessFailed rule).Loops P :=
  .look fun _ => loops_ite .skip h

theorem loops_separator {closer : TokenKind} : (separator closer).Loops P :=
  .look fun _ => loops_ite .skip loops_expect

theorem loops_separated {closer : TokenKind} {element : Rule}
    (hbounded : P (·.within closer) (element ++ separator closer)) (h : element.Loops P) :
    (separated closer element).Loops P := .many hbounded (.seq h loops_separator)

theorem loops_separatedWithHoles {closer : TokenKind} {element : Rule}
    (hbounded : P (·.within closer)
      (look fun v => if v.next .comma then eat .comma else element ++ separator closer))
    (h : element.Loops P) : (separatedWithHoles closer element).Loops P :=
  .many hbounded (.look fun _ => loops_ite .eat (.seq h loops_separator))

theorem loops_propertyKey : propertyKey.Loops P :=
  .look fun _ => loops_ite (.node (.bracket (loops_succeed .call))) (loops_ite (.node .eat) .report)

theorem loops_patternWithDefault : patternWithDefault.Loops P :=
  .andThen .call (loops_whenNext (.wrap (.seq .eat .call)))

theorem loops_restPattern : restPattern.Loops P := .node (.seq .eat .call)

theorem loops_patternProperty : patternProperty.Loops P :=
  .node (.look fun _ => loops_ite loops_patternWithDefault
    (.seq (.seq loops_propertyKey loops_expect) loops_patternWithDefault))

theorem loops_initializer : initializer.Loops P := loops_whenNext (.seq .eat .call)

theorem loops_spread : spread.Loops P := .node (.seq .eat .call)

theorem loops_element : element.Loops P := .look fun _ => loops_ite loops_spread .call

theorem loops_memberName : memberName.Loops P := .node (.look fun _ => loops_ite .eat .report)

theorem loops_indexTail : indexTail.Loops P := .bracket (.withNoIn (loops_succeed .call))

theorem loops_terminator : terminator.Loops P :=
  .look fun _ => loops_ite .eat (loops_ite .skip .report)

theorem loops_declarator : declarator.Loops P := .node (.seq .call loops_initializer)

theorem loops_condition : condition.Loops P := .bracket (loops_succeed .call)

theorem loops_loopClauses : loopClauses.Loops P :=
  have hclause (kind : NodeKind) (stop : TokenKind) : (Rule.node kind (look fun v =>
      if v.next stop || v.failed then skip else call .expression)).Loops P :=
    .node (.look fun _ => loops_ite .skip .call)
  .seq (.seq (.seq loops_expect (hclause ..)) loops_expect) (hclause ..)

end

/-! Each repetition in the rules is bounded, because it is brief. -/

theorem loops_pattern : pattern.Loops Bounded := by
  refine .look fun v => ?_
  split
  · exact .node .eat
  · exact .node (.bracket (loops_separatedWithHoles
      (bounded_of_brief fun _ _ able => brief_separatedWithHoles able.below_patternElement)
      (.look fun _ => loops_ite loops_restPattern loops_patternWithDefault)))
  · exact .node (.bracket (loops_separated
      (bounded_of_brief fun _ _ able => brief_separated able.below_patternEntry)
      (.look fun _ => loops_ite loops_restPattern loops_patternProperty)))
  · exact .report

theorem loops_block : block.Loops Bounded :=
  .node (.look fun _ => loops_ite
    (.bracket (.many (bounded_of_brief fun _ _ able => able.brief_statements within_ahead) .call))
    (.seq .report .eat))

theorem loops_parameterList : parameterList.Loops Bounded :=
  .node (.bracket (loops_separated
    (bounded_of_brief fun _ _ able => brief_separated able.below_parameter)
    (.node (.seq (.seq .eat .call) loops_initializer))))

theorem loops_functionTail (needsName : Bool) : (functionTail needsName).Loops Bounded :=
  have hrest : (parameterList ++ unlessFailed block).Loops Bounded :=
    .seq loops_parameterList (loops_unlessFailed loops_block)
  .seq (.seq (.look fun _ => loops_ite .eat .skip) loops_expect) (.look fun _ => loops_ite .report
    (loops_ite (.seq .eat hrest) (loops_ite .report hrest)))

theorem loops_arrow : arrow.Loops Bounded :=
  have hname : (Rule.node .paramList (.node .param (.node .identPat (eat .ident)))).Loops Bounded :=
    .node (.node (.node .eat))
  .node (.seq (.seq (.seq (.look fun _ => loops_ite .eat .skip)
    (.look fun _ => loops_ite hname loops_parameterList)) loops_expect)
    (.look fun _ => loops_ite loops_block .call))

theorem loops_argumentList : argumentList.Loops Bounded :=
  .node (.bracket (.withNoIn (.many (bounded_of_brief fun _ _ able => able.brief_arguments)
    (.seq loops_element .eat))))

theorem loops_template : template.Loops Bounded :=
  have hpart : (look fun v => if v.next .templateContent then eat .templateContent
      else .node .interpolation (bracket .interpolation (succeed (call .expression)))).Loops
        Bounded :=
    .look fun _ => loops_ite .eat (.node (.bracket (loops_succeed .call)))
  .node (.bracket (.look fun _ => loops_ite
    (.seq (.seq hpart (.many (bounded_of_brief fun _ _ able => able.brief_templateParts)
      (loops_succeed hpart))) (.look fun _ => loops_ite .fail .skip)) .skip))

theorem loops_link : link.Loops Bounded := by
  refine .look fun v => ?_
  split
  · exact .wrap (.seq .eat loops_memberName)
  · split
    · exact .wrap (.seq .eat loops_argumentList)
    · exact .wrap (.seq .eat loops_indexTail)
    · exact .wrap (.seq .eat loops_memberName)
  · exact .wrap loops_indexTail
  · exact .wrap loops_argumentList
  · exact .wrap loops_template
  · exact .fail

theorem loops_property : property.Loops Bounded :=
  .look fun _ => loops_ite loops_spread (loops_ite (.node .report) (loops_ite (.node .report)
    (loops_ite (.node (.seq (.seq (.seq .eat loops_propertyKey) loops_parameterList) loops_block))
      (loops_ite (.node (.node .eat)) (.node (.seq loops_propertyKey (.look fun _ => loops_ite
        (.seq (.seq .become loops_parameterList) loops_block) (.seq loops_expect .call))))))))

theorem loops_newExpression : newExpression.Loops Bounded :=
  have hlinks : Bounded (fun v => !v.failed && v.nextIn [.dot, .lBracket]) link :=
    bounded_of_brief fun _ n able => (able.brief_links (by decide)).of_le (Nat.le_succ n)
  .node (.seq .eat (.andThen (.look fun _ => loops_ite .call .call)
    (.seq (.many hlinks loops_link) (loops_whenNext loops_argumentList))))

theorem loops_primary : primary.Loops Bounded := by
  refine .look fun v => ?_
  split
  iterate 6 exact .node .eat
  · exact loops_ite (.node (loops_functionTail false)) (.node .eat)
  · exact .node .eat
  · exact .node (.bracket (.withNoIn (loops_succeed .call)))
  · exact .node (.bracket (.withNoIn (loops_separatedWithHoles
      (bounded_of_brief fun _ _ able => brief_separatedWithHoles able.below_element)
      loops_element)))
  · exact .node (.bracket (.withNoIn (loops_separated
      (bounded_of_brief fun _ _ able => brief_separated able.below_property) loops_property)))
  · exact loops_template
  · exact .call
  · exact .node (loops_functionTail false)
  iterate 3 exact .report

theorem loops_unary : unary.Loops Bounded :=
  have hlinks : Bounded (fun v => !v.failed && v.nextIn linkKinds) link :=
    bounded_of_brief fun _ n able =>
      (able.brief_links (List.Subset.refl _)).of_le (Nat.le_succ n)
  .look fun _ => loops_ite (.node (.seq .eat .call)) (loops_ite (.node (.seq .eat .call))
    (.andThen (.andThen .call (.many hlinks loops_link))
      (.look fun _ => loops_ite (.wrap .eat) .skip)))

theorem loops_binary (floor : Nat) : (binary floor).Loops Bounded := by
  refine .andThen .call (.many (bounded_of_brief fun _ n able =>
    (able.brief_binary floor).of_le (Nat.le_succ n)) (.look fun v => ?_))
  split
  · exact .wrap (.seq .eat .call)
  · exact .fail

theorem loops_assignment : assignment.Loops Bounded :=
  have hchoice : (wrap .condExpr (eat .question ++ withNoIn false (call .assignment) ++
      expect .colon ++ call .assignment)).Loops Bounded :=
    .wrap (.seq (.seq (.seq .eat (.withNoIn .call)) loops_expect) .call)
  .look fun _ => loops_ite loops_arrow (loops_ite .report (.andThen .call
    (.look fun _ => loops_ite hchoice (loops_ite (.wrap (.seq .eat .call)) .skip))))

theorem loops_expression : expression.Loops Bounded :=
  .andThen .call (loops_whenNext (.wrap (.many
    (bounded_of_brief fun _ n able => able.brief_commas.of_le (Nat.le_succ n))
    (.seq .eat .call))))

theorem loops_declaration : declaration.Loops Bounded :=
  .seq (.seq (.look fun _ => .eat) loops_declarator)
    (.many (bounded_of_brief fun _ _ able => able.brief_declarators) (.seq .eat loops_declarator))

theorem loops_loopHead : loopHead.Loops Bounded :=
  have htarget : (withNoIn true (look fun v =>
      if v.nextIn [.varKw, .letKw, .constKw] then .node .varDecl declaration
      else call .expression)).Loops Bounded :=
    .withNoIn (.look fun _ => loops_ite (.node loops_declaration) .call)
  have hclauses := loops_succeed loops_loopClauses
  .look fun _ => loops_ite (loops_ite .fail (.seq (.node .skip) hclauses))
    (.andThen htarget (.look fun _ => loops_ite .fail
      (loops_ite (.seq (.seq .become .eat) (loops_succeed .call))
        (loops_ite (.seq (.seq .become .eat) (loops_succeed .call))
          (.seq (.wrap .skip) hclauses)))))

theorem loops_catchClause : catchClause.Loops Bounded :=
  .node (.seq (.seq .eat (loops_whenNext (.bracket (loops_succeed .call)))) loops_block)

theorem loops_finallyClause : finallyClause.Loops Bounded := .node (.seq .eat loops_block)

theorem loops_tryStatement : tryStatement.Loops Bounded :=
  .node (.seq (.seq .eat loops_block) (.look fun _ => loops_ite
    (.seq loops_catchClause (.look fun _ => loops_ite loops_finallyClause .skip))
    (loops_ite loops_finallyClause .report)))

theorem loops_switchStatement : switchStatement.Loops Bounded :=
  have hbody : caseBody.Loops Bounded :=
    .seq loops_expect (.many (bounded_of_brief fun _ _ able => able.brief_caseStatements) .call)
  have hcase : switchCase.Loops Bounded :=
    .node (.look fun _ => loops_ite (.seq (.seq .eat .call) hbody)
      (loops_ite (.seq .eat hbody) .report))
  .node (.seq (.seq .eat loops_condition)
    (.bracket (.many (bounded_of_brief fun _ _ able => able.brief_switchCases) hcase)))

theorem loops_jumpStatement {kind : NodeKind} : (jumpStatement kind).Loops Bounded :=
  .node (.seq (.seq (.look fun _ => .eat) (.look fun _ => loops_ite .report .skip))
    loops_terminator)

theorem loops_statement : statement.Loops Bounded := by
  have hdeclaration : (Rule.node .varDecl (declaration ++ terminator)).Loops Bounded :=
    .node (.seq loops_declaration loops_terminator)
  have hexpression : expressionStatement.Loops Bounded := .node (.andThen .call loops_terminator)
  refine .look fun v => ?_
  split
  · exact loops_block
  · exact hdeclaration
  · exact hdeclaration
  · exact hdeclaration
  · exact .node (loops_functionTail true)
  · exact .node (.seq (.seq (.seq .eat loops_condition) .call)
      (.look fun _ => loops_ite (.node (.seq .eat .call)) .skip))
  · exact .node (.seq (.seq .eat loops_condition) (loops_unlessFailed .call))
  · exact .node (.seq (.seq (.seq (.seq .eat .call) loops_expect) loops_condition) .eat)
  · exact .node (.seq .eat (.look fun _ => loops_ite .report
      (.seq (.bracket loops_loopHead) (loops_unlessFailed .call))))
  · exact .node (.seq (.seq .eat (.look fun _ => loops_ite .skip .call)) loops_terminator)
  · exact loops_jumpStatement
  · exact loops_jumpStatement
  · exact .node (.seq .eat (.look fun _ => loops_ite .report (.seq .call loops_terminator)))
  · exact loops_tryStatement
  · exact loops_switchStatement
  · exact .node .eat
  iterate 3 exact .report
  · exact loops_ite (.node (loops_functionTail true)) (loops_ite .report hexpression)
  · exact hexpression

theorem loops_table (category : Category) : (table category).Loops Bounded := by
  cases category with
  | statement => exact loops_statement
  | expression => exact loops_expression
  | assignment => exact loops_assignment
  | unary => exact loops_unary
  | primary => exact loops_primary
  | newExpression => exact loops_newExpression
  | pattern => exact loops_pattern
  | binary floor => exact loops_binary floor

end ShellAwait.Grammar
