import ShellAwait.Proofs.Grammar.Phrases

/-! # Rules and the setting for `in`

The rules of the grammar do not look at whether `in` is an operator, except where operators join
operands. What stands between brackets is the same rule wherever an enclosure of that kind is read.
-/

namespace ShellAwait.Grammar

open Rule

/-- The rule between the delimiters of an enclosure. -/
def Enclosure.contents : Enclosure → Rule
  | .block => many (·.within .rBrace) (call .statement)
  | .condition | .interpolation => succeed (call .expression)
  | .index | .parenthesis => withNoIn false (succeed (call .expression))
  | .loopHead => Grammar.loopHead
  | .catchBinding => succeed (call .pattern)
  | .switchBody => many (·.within .rBrace) switchCase
  | .argumentList => withNoIn false (many (·.within .rParen) (element ++ eat .comma))
  | .array => withNoIn false (separatedWithHoles .rBracket element)
  | .objectLiteral => withNoIn false (separated .rBrace property)
  | .computedKey => succeed (call .assignment)
  | .parameterList => separated .rParen parameter
  | .arrayPattern => separatedWithHoles .rBracket
      (look fun v => if v.next .dotDotDot then restPattern else patternWithDefault)
  | .objectPattern => separated .rBrace
      (look fun v => if v.next .dotDotDot then restPattern else patternProperty)
  | .template => templateParts

/-- An operator and what stands to the right of it. -/
def operation : Rule :=
  look fun v =>
    match v.power? with
    | some power => wrap .binaryExpr (eat v.kind ++ call (.binary power.right))
    | none => fail

/-- All operators behind an operand. -/
def operations (floor : Nat) : Rule := many (fun v => !v.failed && v.joins floor) operation

/-- A rule that decides in the same way under either setting, but for the operators between
operands, and whose brackets are those of the enclosures. -/
inductive Rule.Impartial : Rule → Prop
  | skip : Impartial .skip
  | fail : Impartial .fail
  | eat {kind : TokenKind} : Impartial (.eat kind)
  | report {problem : Problem} : Impartial (.report problem)
  | become {kind : NodeKind} : Impartial (.become kind)
  | call {category : Category} : Impartial (.call category)
  | look {choose : View → Rule} : (∀ v noIn, choose { v with noIn := noIn } = choose v) →
      (∀ v, Impartial (choose v)) → Impartial (.look choose)
  | seq {first second : Rule} : Impartial first → Impartial second → Impartial (.seq first second)
  | andThen {first second : Rule} :
      Impartial first → Impartial second → Impartial (.andThen first second)
  | many {goOn : View → Bool} {round : Rule} :
      (∀ v noIn, goOn { v with noIn := noIn } = goOn v) → Impartial round →
      Impartial (.many goOn round)
  | operations {floor : Nat} : Impartial (operations floor)
  | node {kind : NodeKind} {body : Rule} : Impartial body → Impartial (.node kind body)
  | wrap {kind : NodeKind} {body : Rule} : Impartial body → Impartial (.wrap kind body)
  | bracket {what : Enclosure} :
      Impartial what.contents → Impartial (.bracket what what.contents)
  | withNoIn {noIn : Bool} {body : Rule} : Impartial body → Impartial (.withNoIn noIn body)

/-- A rule stands somewhere in another. -/
inductive Rule.Within (part : Rule) : Rule → Prop
  | here : Within part part
  | look {choose : View → Rule} {v : View} : Within part (choose v) → Within part (.look choose)
  | first {first second : Rule} : Within part first → Within part (.seq first second)
  | second {first second : Rule} : Within part second → Within part (.seq first second)
  | condition {first second : Rule} : Within part first → Within part (.andThen first second)
  | sequel {first second : Rule} : Within part second → Within part (.andThen first second)
  | many {goOn : View → Bool} {round : Rule} : Within part round → Within part (.many goOn round)
  | node {kind : NodeKind} {body : Rule} : Within part body → Within part (.node kind body)
  | wrap {kind : NodeKind} {body : Rule} : Within part body → Within part (.wrap kind body)
  | bracket {what : Enclosure} {body : Rule} : Within part body → Within part (.bracket what body)
  | withNoIn {noIn : Bool} {body : Rule} : Within part body → Within part (.withNoIn noIn body)

/-! ## The rules of the grammar -/

theorem impartial_ite {c : Prop} [Decidable c] {a b : Rule} (ha : a.Impartial)
    (hb : b.Impartial) : (if c then a else b).Impartial := by
  split
  · exact ha
  · exact hb

theorem impartial_expect {kind : TokenKind} : (expect kind).Impartial :=
  .look (fun _ _ => rfl) fun _ => impartial_ite .eat .report

theorem impartial_succeed {rule : Rule} (h : rule.Impartial) : (succeed rule).Impartial :=
  .seq h .skip

theorem impartial_whenNext {kind : TokenKind} {rule : Rule} (h : rule.Impartial) :
    (whenNext kind rule).Impartial := .look (fun _ _ => rfl) fun _ => impartial_ite h .skip

theorem impartial_unlessFailed {rule : Rule} (h : rule.Impartial) :
    (unlessFailed rule).Impartial := .look (fun _ _ => rfl) fun _ => impartial_ite .skip h

theorem impartial_separator {closer : TokenKind} : (separator closer).Impartial :=
  .look (fun _ _ => rfl) fun _ => impartial_ite .skip impartial_expect

theorem impartial_separated {closer : TokenKind} {element : Rule} (h : element.Impartial) :
    (separated closer element).Impartial := .many (fun _ _ => rfl) (.seq h impartial_separator)

theorem impartial_separatedWithHoles {closer : TokenKind} {element : Rule}
    (h : element.Impartial) : (separatedWithHoles closer element).Impartial :=
  .many (fun _ _ => rfl)
    (.look (fun _ _ => rfl) fun _ => impartial_ite .eat (.seq h impartial_separator))

/-! Patterns and functions -/

theorem impartial_propertyKey : propertyKey.Impartial :=
  .look (fun _ _ => rfl) fun _ => impartial_ite
    (.node (@Impartial.bracket .computedKey (impartial_succeed .call)))
    (impartial_ite (.node .eat) .report)

theorem impartial_patternWithDefault : patternWithDefault.Impartial :=
  .andThen .call (impartial_whenNext (.wrap (.seq .eat .call)))

theorem impartial_restPattern : restPattern.Impartial := .node (.seq .eat .call)

theorem impartial_patternProperty : patternProperty.Impartial :=
  .node (.look (fun _ _ => rfl) fun _ => impartial_ite impartial_patternWithDefault
    (.seq (.seq impartial_propertyKey impartial_expect) impartial_patternWithDefault))

theorem impartial_pattern : pattern.Impartial := by
  refine .look (fun _ _ => rfl) fun v => ?_
  split
  · exact .node .eat
  · exact .node (@Impartial.bracket .arrayPattern (impartial_separatedWithHoles
      (.look (fun _ _ => rfl) fun _ =>
        impartial_ite impartial_restPattern impartial_patternWithDefault)))
  · exact .node (@Impartial.bracket .objectPattern (impartial_separated
      (.look (fun _ _ => rfl) fun _ =>
        impartial_ite impartial_restPattern impartial_patternProperty)))
  · exact .report

theorem impartial_initializer : initializer.Impartial := impartial_whenNext (.seq .eat .call)

theorem impartial_block : block.Impartial :=
  .node (.look (fun _ _ => rfl) fun _ => impartial_ite
    (@Impartial.bracket .block (.many (fun _ _ => rfl) .call)) (.seq .report .eat))

theorem impartial_parameterList : parameterList.Impartial :=
  .node (@Impartial.bracket .parameterList (impartial_separated
    (.node (.seq (.seq .eat .call) impartial_initializer))))

theorem impartial_functionTail (needsName : Bool) : (functionTail needsName).Impartial :=
  have hrest : (parameterList ++ unlessFailed block).Impartial :=
    .seq impartial_parameterList (impartial_unlessFailed impartial_block)
  .seq (.seq (.look (fun _ _ => rfl) fun _ => impartial_ite .eat .skip) impartial_expect)
    (.look (fun _ _ => rfl) fun _ => impartial_ite .report
      (impartial_ite (.seq .eat hrest) (impartial_ite .report hrest)))

theorem impartial_arrow : arrow.Impartial :=
  have hname : (Rule.node .paramList (.node .param (.node .identPat (eat .ident)))).Impartial :=
    .node (.node (.node .eat))
  .node (.seq (.seq (.seq (.look (fun _ _ => rfl) fun _ => impartial_ite .eat .skip)
    (.look (fun _ _ => rfl) fun _ => impartial_ite hname impartial_parameterList))
    impartial_expect) (.look (fun _ _ => rfl) fun _ => impartial_ite impartial_block .call))

/-! Expressions -/

theorem impartial_memberName : memberName.Impartial :=
  .node (.look (fun _ _ => rfl) fun _ => impartial_ite .eat .report)

theorem impartial_indexTail : indexTail.Impartial :=
  @Impartial.bracket .index (.withNoIn (impartial_succeed .call))

theorem impartial_spread : spread.Impartial := .node (.seq .eat .call)

theorem impartial_element : element.Impartial :=
  .look (fun _ _ => rfl) fun _ => impartial_ite impartial_spread .call

theorem impartial_argumentList : argumentList.Impartial :=
  .node (@Impartial.bracket .argumentList
    (.withNoIn (.many (fun _ _ => rfl) (.seq impartial_element .eat))))

theorem impartial_template : template.Impartial :=
  have hpart : (look fun v => if v.next .templateContent then eat .templateContent
      else .node .interpolation
        (bracket .interpolation (succeed (call .expression)))).Impartial :=
    .look (fun _ _ => rfl) fun _ => impartial_ite .eat
      (.node (@Impartial.bracket .interpolation (impartial_succeed .call)))
  .node (@Impartial.bracket .template (.look (fun _ _ => rfl) fun _ => impartial_ite
    (.seq (.seq hpart (.many (fun _ _ => rfl) (impartial_succeed hpart)))
      (.look (fun _ _ => rfl) fun _ => impartial_ite .fail .skip)) .skip))

theorem impartial_link : link.Impartial := by
  refine .look (fun _ _ => rfl) fun v => ?_
  split
  · exact .wrap (.seq .eat impartial_memberName)
  · split
    · exact .wrap (.seq .eat impartial_argumentList)
    · exact .wrap (.seq .eat impartial_indexTail)
    · exact .wrap (.seq .eat impartial_memberName)
  · exact .wrap impartial_indexTail
  · exact .wrap impartial_argumentList
  · exact .wrap impartial_template
  · exact .fail

theorem impartial_property : property.Impartial :=
  have hkeyed : (propertyKey ++ look fun v =>
      if v.next .lParen then become .method ++ parameterList ++ block
      else expect .colon ++ call .assignment).Impartial :=
    .seq impartial_propertyKey (.look (fun _ _ => rfl) fun _ => impartial_ite
      (.seq (.seq .become impartial_parameterList) impartial_block) (.seq impartial_expect .call))
  .look (fun _ _ => rfl) fun _ => impartial_ite impartial_spread
    (impartial_ite (.node .report) (impartial_ite (.node .report) (impartial_ite
      (.node (.seq (.seq (.seq .eat impartial_propertyKey) impartial_parameterList)
        impartial_block)) (impartial_ite (.node (.node .eat)) (.node hkeyed)))))

theorem impartial_newExpression : newExpression.Impartial :=
  .node (.seq .eat (.andThen (.look (fun _ _ => rfl) fun _ => impartial_ite .call .call)
    (.seq (.many (fun _ _ => rfl) impartial_link) (impartial_whenNext impartial_argumentList))))

theorem impartial_primary : primary.Impartial := by
  refine .look (fun _ _ => rfl) fun v => ?_
  split
  iterate 6 exact .node .eat
  · exact impartial_ite (.node (impartial_functionTail false)) (.node .eat)
  · exact .node .eat
  · exact .node (@Impartial.bracket .parenthesis (.withNoIn (impartial_succeed .call)))
  · exact .node (@Impartial.bracket .array
      (.withNoIn (impartial_separatedWithHoles impartial_element)))
  · exact .node (@Impartial.bracket .objectLiteral
      (.withNoIn (impartial_separated impartial_property)))
  · exact impartial_template
  · exact .call
  · exact .node (impartial_functionTail false)
  iterate 3 exact .report

theorem impartial_unary : unary.Impartial :=
  .look (fun _ _ => rfl) fun _ => impartial_ite (.node (.seq .eat .call))
    (impartial_ite (.node (.seq .eat .call))
      (.andThen (.andThen .call (.many (fun _ _ => rfl) impartial_link))
        (.look (fun _ _ => rfl) fun _ => impartial_ite (.wrap .eat) .skip)))

theorem impartial_binary (floor : Nat) : (binary floor).Impartial :=
  .andThen .call .operations

theorem impartial_assignment : assignment.Impartial :=
  have hchoice : (wrap .condExpr (eat .question ++ withNoIn false (call .assignment) ++
      expect .colon ++ call .assignment)).Impartial :=
    .wrap (.seq (.seq (.seq .eat (.withNoIn .call)) impartial_expect) .call)
  .look (fun _ _ => rfl) fun _ => impartial_ite impartial_arrow (impartial_ite .report
    (.andThen .call (.look (fun _ _ => rfl) fun _ => impartial_ite hchoice
      (impartial_ite (.wrap (.seq .eat .call)) .skip))))

theorem impartial_expression : expression.Impartial :=
  .andThen .call (impartial_whenNext (.wrap (.many (fun _ _ => rfl) (.seq .eat .call))))

/-! Statements -/

theorem impartial_terminator : terminator.Impartial :=
  .look (fun _ _ => rfl) fun _ => impartial_ite .eat (impartial_ite .skip .report)

theorem impartial_declaration : declaration.Impartial :=
  have hdeclarator : declarator.Impartial := .node (.seq .call impartial_initializer)
  .seq (.seq (.look (fun _ _ => rfl) fun _ => .eat) hdeclarator)
    (.many (fun _ _ => rfl) (.seq .eat hdeclarator))

theorem impartial_condition : condition.Impartial :=
  @Impartial.bracket .condition (impartial_succeed .call)

theorem impartial_loopClauses : loopClauses.Impartial :=
  have hclause (kind : NodeKind) (stop : TokenKind) : (Rule.node kind (look fun v =>
      if v.next stop || v.failed then skip else call .expression)).Impartial :=
    .node (.look (fun _ _ => rfl) fun _ => impartial_ite .skip .call)
  .seq (.seq (.seq impartial_expect (hclause ..)) impartial_expect) (hclause ..)

theorem impartial_loopHead : loopHead.Impartial :=
  have htarget : (withNoIn true (look fun v =>
      if v.nextIn [.varKw, .letKw, .constKw] then .node .varDecl declaration
      else call .expression)).Impartial :=
    .withNoIn (.look (fun _ _ => rfl) fun _ => impartial_ite (.node impartial_declaration) .call)
  have hclauses := impartial_succeed impartial_loopClauses
  .look (fun _ _ => rfl) fun _ => impartial_ite (impartial_ite .fail (.seq (.node .skip) hclauses))
    (.andThen htarget (.look (fun _ _ => rfl) fun _ => impartial_ite .fail
      (impartial_ite (.seq (.seq .become .eat) (impartial_succeed .call))
        (impartial_ite (.seq (.seq .become .eat) (impartial_succeed .call))
          (.seq (.wrap .skip) hclauses)))))

theorem impartial_tryStatement : tryStatement.Impartial :=
  have hcatch : catchClause.Impartial :=
    .node (.seq (.seq .eat (impartial_whenNext
      (@Impartial.bracket .catchBinding (impartial_succeed .call)))) impartial_block)
  have hfinally : finallyClause.Impartial := .node (.seq .eat impartial_block)
  .node (.seq (.seq .eat impartial_block) (.look (fun _ _ => rfl) fun _ => impartial_ite
    (.seq hcatch (.look (fun _ _ => rfl) fun _ => impartial_ite hfinally .skip))
    (impartial_ite hfinally .report)))

theorem impartial_switchStatement : switchStatement.Impartial :=
  have hbody : caseBody.Impartial := .seq impartial_expect (.many (fun _ _ => rfl) .call)
  have hcase : switchCase.Impartial :=
    .node (.look (fun _ _ => rfl) fun _ => impartial_ite (.seq (.seq .eat .call) hbody)
      (impartial_ite (.seq .eat hbody) .report))
  .node (.seq (.seq .eat impartial_condition)
    (@Impartial.bracket .switchBody (.many (fun _ _ => rfl) hcase)))

theorem impartial_jumpStatement {kind : NodeKind} : (jumpStatement kind).Impartial :=
  .node (.seq (.seq (.look (fun _ _ => rfl) fun _ => .eat)
    (.look (fun _ _ => rfl) fun _ => impartial_ite .report .skip)) impartial_terminator)

theorem impartial_statement : statement.Impartial := by
  have hdeclaration : (Rule.node .varDecl (declaration ++ terminator)).Impartial :=
    .node (.seq impartial_declaration impartial_terminator)
  have hexpression : expressionStatement.Impartial := .node (.andThen .call impartial_terminator)
  refine .look (fun _ _ => rfl) fun v => ?_
  split
  · exact impartial_block
  · exact hdeclaration
  · exact hdeclaration
  · exact hdeclaration
  · exact .node (impartial_functionTail true)
  · exact .node (.seq (.seq (.seq .eat impartial_condition) .call)
      (.look (fun _ _ => rfl) fun _ => impartial_ite (.node (.seq .eat .call)) .skip))
  · exact .node (.seq (.seq .eat impartial_condition) (impartial_unlessFailed .call))
  · exact .node (.seq (.seq (.seq (.seq .eat .call) impartial_expect) impartial_condition) .eat)
  · exact .node (.seq .eat (.look (fun _ _ => rfl) fun _ => impartial_ite .report
      (.seq (@Impartial.bracket .loopHead impartial_loopHead) (impartial_unlessFailed .call))))
  · exact .node (.seq (.seq .eat (.look (fun _ _ => rfl) fun _ => impartial_ite .skip .call))
      impartial_terminator)
  · exact impartial_jumpStatement
  · exact impartial_jumpStatement
  · exact .node (.seq .eat (.look (fun _ _ => rfl) fun _ =>
      impartial_ite .report (.seq .call impartial_terminator)))
  · exact impartial_tryStatement
  · exact impartial_switchStatement
  · exact .node .eat
  iterate 3 exact .report
  · exact impartial_ite (.node (impartial_functionTail true)) (impartial_ite .report hexpression)
  · exact hexpression

theorem impartial_table (category : Category) : (table category).Impartial := by
  cases category with
  | statement => exact impartial_statement
  | expression => exact impartial_expression
  | assignment => exact impartial_assignment
  | unary => exact impartial_unary
  | primary => exact impartial_primary
  | newExpression => exact impartial_newExpression
  | pattern => exact impartial_pattern
  | binary floor => exact impartial_binary floor

/-! ## Brackets -/

theorem not_within_operation {what : Enclosure} {body : Rule} :
    ¬(Rule.bracket what body).Within operation := by
  intro h
  cases h with
  | @look _ v h =>
      dsimp only at h
      split at h
      · cases h with
        | wrap h =>
            cases h with
            | first h => cases h
            | second h => cases h
      · cases h

theorem Rule.Impartial.bracket_eq {what : Enclosure} {body rule : Rule} (h : rule.Impartial)
    (hwithin : (Rule.bracket what body).Within rule) :
    body = what.contents ∧ body.Impartial := by
  induction hwithin with
  | here =>
      cases h with
      | bracket h => exact ⟨rfl, h⟩
  | @look _ v _ ih =>
      cases h with
      | look _ h => exact ih (h v)
  | first _ ih =>
      cases h with
      | seq h _ => exact ih h
  | second _ ih =>
      cases h with
      | seq _ h => exact ih h
  | condition _ ih =>
      cases h with
      | andThen h _ => exact ih h
  | sequel _ ih =>
      cases h with
      | andThen _ h => exact ih h
  | many hround ih =>
      cases h with
      | many _ h => exact ih h
      | operations => exact absurd hround not_within_operation
  | node _ ih =>
      cases h with
      | node h => exact ih h
  | wrap _ ih =>
      cases h with
      | wrap h => exact ih h
  | bracket _ ih =>
      cases h with
      | bracket h => exact ih h
  | withNoIn _ ih =>
      cases h with
      | withNoIn h => exact ih h

end ShellAwait.Grammar
