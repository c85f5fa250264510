import ShellAwait.Proofs.Grammar.Events

/-! # The grammar puts nodes around finished nodes

Operands, members and patterns are nodes, so that the rules which put a node around what they have
just read find one there, also where the text goes wrong.
-/

namespace ShellAwait.Grammar

open Rule

variable {rule body : Rule}

/-- Nothing is assumed and nothing can be relied on. -/
def Unmarked (rule : Rule) : Prop := Wraps false rule false false

theorem Wraps.unmarked {s f : Bool} (h : Wraps false rule s f) : Unmarked rule :=
  .weaken h nofun nofun

/-! ## Shapes of rules -/

theorem unmarked_look {choose : View → Rule} (h : ∀ v, Unmarked (choose v)) :
    Unmarked (look choose) := .look h

theorem unmarked_ite {p : Prop} [Decidable p] {a b : Rule} (ha : Unmarked a) (hb : Unmarked b) :
    Unmarked (if p then a else b) := by
  split
  · exact ha
  · exact hb

theorem wraps_ite {assumed success failure : Bool} {p : Prop} [Decidable p] {a b : Rule}
    (ha : Wraps assumed a success failure) (hb : Wraps assumed b success failure) :
    Wraps assumed (if p then a else b) success failure := by
  split
  · exact ha
  · exact hb

theorem Unmarked.seq {a b : Rule} (ha : Unmarked a) (hb : Unmarked b) : Unmarked (a ++ b) :=
  Wraps.seq ha hb

theorem unmarked_skip : Unmarked skip := .skip

theorem unmarked_fail : Unmarked fail := .fail

theorem unmarked_eat (kind : TokenKind) : Unmarked (eat kind) := .eat kind

theorem unmarked_report (problem : Problem) : Unmarked (report problem) := .report problem

theorem unmarked_call (category : Category) : Unmarked (call category) :=
  Wraps.unmarked (.call category)

theorem unmarked_expect (kind : TokenKind) : Unmarked (expect kind) :=
  unmarked_look fun _ => unmarked_ite (unmarked_eat kind) (unmarked_report _)

theorem unmarked_takeAny : Unmarked takeAny := unmarked_look fun v => unmarked_eat v.kind

theorem Unmarked.succeed (h : Unmarked rule) : Unmarked (succeed rule) :=
  h.seq unmarked_skip

theorem Unmarked.whenNext (h : Unmarked rule) (kind : TokenKind) : Unmarked (whenNext kind rule) :=
  unmarked_look fun _ => unmarked_ite h unmarked_skip

theorem Unmarked.unlessFailed (h : Unmarked rule) : Unmarked (unlessFailed rule) :=
  unmarked_look fun _ => unmarked_ite unmarked_skip h

theorem Unmarked.many {round : Rule} (h : Unmarked round) (goOn : View → Bool) :
    Unmarked (many goOn round) := Wraps.many h

theorem Unmarked.withNoIn (h : Unmarked body) (noIn : Bool) : Unmarked (withNoIn noIn body) :=
  Wraps.withNoIn h

theorem Unmarked.bracket (h : Unmarked body) (what : Enclosure) : Unmarked (bracket what body) :=
  Wraps.bracket h

theorem unmarked_separator (closer : TokenKind) : Unmarked (separator closer) :=
  unmarked_look fun _ => unmarked_ite unmarked_skip (unmarked_expect .comma)

theorem Unmarked.separated (h : Unmarked rule) (closer : TokenKind) :
    Unmarked (separated closer rule) := (h.seq (unmarked_separator closer)).many _

theorem Unmarked.separatedWithHoles (h : Unmarked rule) (closer : TokenKind) :
    Unmarked (separatedWithHoles closer rule) :=
  (unmarked_look fun _ =>
    unmarked_ite (unmarked_eat .comma) (h.seq (unmarked_separator closer))).many _

theorem Unmarked.node (h : Unmarked body) (kind : NodeKind) (assumed failure : Bool) :
    Wraps assumed (node kind body) true failure := Wraps.node h

theorem Unmarked.wrap (h : Unmarked body) (kind : NodeKind) (failure : Bool) :
    Wraps true (wrap kind body) true failure := Wraps.wrap h

/-- A node has just been made if the rule succeeds. -/
def Marked (rule : Rule) : Prop := Wraps false rule true false

theorem Unmarked.marked (h : Unmarked body) (kind : NodeKind) : Marked (.node kind body) :=
  h.node kind false false

theorem marked_look {choose : View → Rule} (h : ∀ v, Marked (choose v)) : Marked (look choose) :=
  .look h

theorem marked_report (problem : Problem) : Marked (report problem) := .report problem

theorem marked_call {category : Category} (h : category.makesNode = true) :
    Marked (call category) := by
  have hcall : Wraps false (call category) category.makesNode false := .call category
  rwa [h] at hcall

theorem Marked.andThen {first second : Rule} (hfirst : Marked first)
    (hsecond : Wraps true second true false) : Marked (andThen first second) :=
  Wraps.andThen hfirst hsecond

theorem Marked.unmarked (h : Marked rule) : Unmarked rule := Wraps.unmarked h

/-! ## Patterns and functions -/

theorem marked_propertyKey : Marked propertyKey := by
  refine marked_look fun v => wraps_ite ?_ (wraps_ite ?_ (marked_report _))
  · exact ((unmarked_call .assignment).succeed.bracket .computedKey).marked .computedName
  · exact (unmarked_eat v.kind).marked .propName

theorem marked_patternWithDefault : Marked patternWithDefault := by
  refine (marked_call rfl).andThen (.look fun v => wraps_ite ?_ .skip)
  exact ((unmarked_eat .eq).seq (unmarked_call .assignment)).wrap .assignPat false

theorem unmarked_restPattern : Unmarked restPattern :=
  (((unmarked_eat .dotDotDot).seq (unmarked_call .pattern)).marked .restPat).unmarked

theorem marked_pattern : Marked pattern := by
  refine marked_look fun v => ?_
  have helement : Unmarked (look fun v =>
      if v.next .dotDotDot then restPattern else patternWithDefault) :=
    unmarked_look fun _ => unmarked_ite unmarked_restPattern marked_patternWithDefault.unmarked
  have hproperty : Unmarked patternProperty := by
    refine Marked.unmarked (Unmarked.marked (unmarked_look fun v => unmarked_ite ?_ ?_) .patProp)
    · exact marked_patternWithDefault.unmarked
    · exact (marked_propertyKey.unmarked.seq (unmarked_expect .colon)).seq
        marked_patternWithDefault.unmarked
  have hentry : Unmarked (look fun v =>
      if v.next .dotDotDot then restPattern else patternProperty) :=
    unmarked_look fun _ => unmarked_ite unmarked_restPattern hproperty
  split
  · exact (unmarked_eat .ident).marked .identPat
  · exact ((helement.separatedWithHoles .rBracket).bracket .arrayPattern).marked .arrayPat
  · exact ((hentry.separated .rBrace).bracket .objectPattern).marked .objectPat
  · exact marked_report _

theorem unmarked_block : Unmarked block := by
  refine Marked.unmarked (Unmarked.marked (unmarked_look fun v => unmarked_ite ?_ ?_) .block)
  · exact ((unmarked_call .statement).many _).bracket .block
  · exact (unmarked_report _).seq (unmarked_eat .rBrace)

theorem unmarked_initializer : Unmarked initializer :=
  ((unmarked_eat .eq).seq (unmarked_call .assignment)).whenNext .eq

theorem unmarked_parameterList : Unmarked parameterList := by
  have hparameter : Unmarked parameter :=
    (((((unmarked_eat .dotDotDot).seq (unmarked_call .pattern)).seq
      unmarked_initializer)).marked .param).unmarked
  exact (((hparameter.separated .rParen).bracket .parameterList).marked .paramList).unmarked

theorem unmarked_functionTail (needsName : Bool) : Unmarked (functionTail needsName) := by
  have hrest : Unmarked (parameterList ++ unlessFailed block) :=
    unmarked_parameterList.seq unmarked_block.unlessFailed
  have hmodifier : Unmarked (look fun v => if v.nextWord "async" then eat .ident else skip) :=
    unmarked_look fun _ => unmarked_ite (unmarked_eat .ident) unmarked_skip
  refine (hmodifier.seq (unmarked_expect .functionKw)).seq (unmarked_look fun v => ?_)
  exact unmarked_ite (unmarked_report _) (unmarked_ite ((unmarked_eat .ident).seq hrest)
    (unmarked_ite (unmarked_report _) hrest))

theorem marked_functionExpr : Marked functionExpr := (unmarked_functionTail false).marked _

theorem marked_functionDecl : Marked functionDecl := (unmarked_functionTail true).marked _

theorem marked_arrow : Marked arrow := by
  have hmodifier : Unmarked (look fun v =>
      if v.nextWord "async" && v.kindAt 1 != .fatArrow then eat .ident else skip) :=
    unmarked_look fun _ => unmarked_ite (unmarked_eat .ident) unmarked_skip
  have hparameters : Unmarked (look fun v =>
      if v.next .ident then node .paramList (node .param (node .identPat (eat .ident)))
      else parameterList) := by
    refine unmarked_look fun _ => unmarked_ite ?_ unmarked_parameterList
    have hname := ((unmarked_eat .ident).marked .identPat).unmarked
    exact ((hname.marked .param).unmarked.marked .paramList).unmarked
  have hbody : Unmarked (look fun v => if v.next .lBrace then block else call .assignment) :=
    unmarked_look fun _ => unmarked_ite unmarked_block (unmarked_call .assignment)
  exact (((hmodifier.seq hparameters).seq (unmarked_expect .fatArrow)).seq hbody).marked .arrow

/-! ## Expressions -/

theorem unmarked_memberName : Unmarked memberName := by
  refine Marked.unmarked (Unmarked.marked (unmarked_look fun v => ?_) .memberName)
  exact unmarked_ite (unmarked_eat v.kind) (unmarked_report _)

theorem unmarked_indexTail : Unmarked indexTail :=
  ((unmarked_call .expression).succeed.withNoIn false).bracket .index

theorem unmarked_spread : Unmarked spread :=
  (((unmarked_eat .dotDotDot).seq (unmarked_call .assignment)).marked .spreadElement).unmarked

theorem unmarked_element : Unmarked element :=
  unmarked_look fun _ => unmarked_ite unmarked_spread (unmarked_call .assignment)

theorem unmarked_argumentList : Unmarked argumentList := by
  have helements := (unmarked_element.seq (unmarked_eat .comma)).many (·.within .rParen)
  exact (((helements.withNoIn false).bracket .argumentList).marked .argList).unmarked

theorem marked_template : Marked template := by
  have hinterpolation :=
    (((unmarked_call .expression).succeed.bracket .interpolation).marked .interpolation).unmarked
  have hpart : Unmarked (look fun v => if v.next .templateContent then eat .templateContent
      else node .interpolation (bracket .interpolation (succeed (call .expression)))) :=
    unmarked_look fun _ => unmarked_ite (unmarked_eat .templateContent) hinterpolation
  have hend : Unmarked (look fun v => if v.failed then fail else skip) :=
    unmarked_look fun _ => unmarked_ite unmarked_fail unmarked_skip
  have hparts : Unmarked templateParts :=
    unmarked_look fun _ => unmarked_ite ((hpart.seq (hpart.succeed.many _)).seq hend) unmarked_skip
  exact (hparts.bracket .template).marked .template

/-- A link goes around the operand in front of it, or is none. -/
theorem wraps_link : Wraps true link true true := by
  refine .look fun v => ?_
  have hmember (kind : TokenKind) := (unmarked_eat kind).seq unmarked_memberName
  split
  · exact (hmember .dot).wrap .memberExpr true
  · split
    · exact ((unmarked_eat .questionDot).seq unmarked_argumentList).wrap .callExpr true
    · exact ((unmarked_eat .questionDot).seq unmarked_indexTail).wrap .indexExpr true
    · exact (hmember .questionDot).wrap .memberExpr true
  · exact unmarked_indexTail.wrap .indexExpr true
  · exact unmarked_argumentList.wrap .callExpr true
  · exact marked_template.unmarked.wrap .taggedTemplate true
  · exact .fail

theorem unmarked_property : Unmarked property := by
  have hmethod : Unmarked (parameterList ++ block) := unmarked_parameterList.seq unmarked_block
  have hkey := marked_propertyKey.unmarked
  refine unmarked_look fun v => unmarked_ite unmarked_spread ?_
  refine unmarked_ite (((unmarked_report _).marked .broken).unmarked) ?_
  refine unmarked_ite (((unmarked_report _).marked .broken).unmarked) ?_
  refine unmarked_ite (Unmarked.marked ?_ .method).unmarked ?_
  · exact (((unmarked_eat .ident).seq hkey).seq unmarked_parameterList).seq unmarked_block
  refine unmarked_ite (Unmarked.marked ?_ .property).unmarked ?_
  · exact ((unmarked_eat .ident).marked .nameRef).unmarked
  refine (Unmarked.marked (hkey.seq (unmarked_look fun v => unmarked_ite ?_ ?_)) .property).unmarked
  · have hbecome : Unmarked (become .method) := Wraps.become .method
    exact (hbecome.seq unmarked_parameterList).seq unmarked_block
  · exact (unmarked_expect .colon).seq (unmarked_call .assignment)

theorem marked_newExpression : Marked newExpression := by
  have hcallee : Marked (look fun v => if v.next .newKw then call .newExpression
      else call .primary) :=
    marked_look fun _ => wraps_ite (marked_call rfl) (marked_call rfl)
  have hlinks : Wraps true (many (fun v => !v.failed && v.nextIn [.dot, .lBracket]) link)
      true false := .many wraps_link
  have hchain : Wraps false (andThen (look fun v => if v.next .newKw then call .newExpression
      else call .primary) (many (fun v => !v.failed && v.nextIn [.dot, .lBracket]) link ++
        whenNext .lParen argumentList)) false false :=
    Wraps.andThen hcallee (Wraps.seq hlinks (unmarked_argumentList.whenNext .lParen))
  exact ((unmarked_eat .newKw).seq hchain).marked .newExpr

theorem marked_primary : Marked primary := by
  refine marked_look fun v => ?_
  have helements := (unmarked_element.separatedWithHoles .rBracket).withNoIn false
  have hproperties := (unmarked_property.separated .rBrace).withNoIn false
  have hinner := (unmarked_call .expression).succeed.withNoIn false
  split
  iterate 6 exact (unmarked_eat v.kind).marked .literal
  · exact wraps_ite marked_functionExpr ((unmarked_eat .ident).marked .nameRef)
  · exact (unmarked_eat .thisKw).marked .thisExpr
  · exact (hinner.bracket .parenthesis).marked .parenExpr
  · exact (helements.bracket .array).marked .arrayExpr
  · exact (hproperties.bracket .objectLiteral).marked .objectExpr
  · exact marked_template
  · exact marked_call rfl
  · exact marked_functionExpr
  iterate 3 exact marked_report _

theorem marked_unary : Marked unary := by
  refine marked_look fun v => wraps_ite ?_ (wraps_ite ?_ ?_)
  · exact ((unmarked_eat .awaitKw).seq (unmarked_call .unary)).marked .awaitExpr
  · exact ((unmarked_eat v.kind).seq (unmarked_call .unary)).marked .prefixExpr
  · have hlinked : Marked (andThen (call .primary)
        (many (fun v => !v.failed && v.nextIn linkKinds) link)) :=
      (marked_call rfl).andThen (.many wraps_link)
    exact hlinked.andThen (.look fun v =>
      wraps_ite ((unmarked_eat v.kind).wrap .postfixExpr false) .skip)

theorem marked_binary (floor : Nat) : Marked (binary floor) := by
  refine (marked_call rfl).andThen (.many (.look fun v => ?_))
  split
  · exact ((unmarked_eat v.kind).seq (unmarked_call _)).wrap .binaryExpr true
  · exact .fail

theorem marked_assignment : Marked assignment := by
  refine marked_look fun v => wraps_ite marked_arrow (wraps_ite (marked_report _) ?_)
  refine (marked_call rfl).andThen (.look fun v => wraps_ite ?_ (wraps_ite ?_ .skip))
  · have hbranches := ((((unmarked_eat .question).seq
      ((unmarked_call .assignment).withNoIn false)).seq (unmarked_expect .colon)).seq
        (unmarked_call .assignment))
    exact hbranches.wrap .condExpr false
  · exact ((unmarked_eat v.kind).seq (unmarked_call .assignment)).wrap .assignExpr false

theorem marked_expression : Marked expression := by
  refine (marked_call rfl).andThen (.look fun v => wraps_ite ?_ .skip)
  exact (((unmarked_eat .comma).seq (unmarked_call .assignment)).many _).wrap .sequenceExpr false

/-! ## Statements -/

theorem unmarked_terminator : Unmarked terminator :=
  unmarked_look fun _ => unmarked_ite (unmarked_eat .semicolon)
    (unmarked_ite unmarked_skip (unmarked_report _))

theorem unmarked_declaration : Unmarked declaration := by
  have hdeclarator : Unmarked declarator :=
    (((unmarked_call .pattern).seq unmarked_initializer).marked .declarator).unmarked
  exact (unmarked_takeAny.seq hdeclarator).seq (((unmarked_eat .comma).seq hdeclarator).many _)

theorem unmarked_condition : Unmarked condition :=
  (unmarked_call .expression).succeed.bracket .condition

theorem unmarked_loopClauses : Unmarked loopClauses := by
  have hclause (kind : NodeKind) (stop : TokenKind) : Unmarked (.node kind (look fun v =>
      if v.next stop || v.failed then skip else call .expression)) := by
    refine Marked.unmarked (Unmarked.marked (unmarked_look fun v => ?_) kind)
    exact unmarked_ite unmarked_skip (unmarked_call .expression)
  exact (((unmarked_expect .semicolon).seq (hclause .forTest .semicolon)).seq
    (unmarked_expect .semicolon)).seq (hclause .forUpdate .rParen)

/-- What stands first in the head of a loop is a node, unless the head is left open. -/
theorem unmarked_loopHead : Unmarked loopHead := by
  have hclauses := unmarked_loopClauses.succeed
  refine unmarked_look fun v => unmarked_ite ?_ ?_
  · exact unmarked_ite unmarked_fail (((unmarked_skip.marked .forInit).unmarked).seq hclauses)
  · have hfirst : Wraps false (withNoIn true (look fun v =>
        if v.nextIn [.varKw, .letKw, .constKw] then node .varDecl declaration
        else call .expression)) true false :=
      .withNoIn (marked_look fun _ =>
        wraps_ite (unmarked_declaration.marked .varDecl) (marked_call rfl))
    have hbecome : Wraps true (become .forInStmt) true false := .become .forInStmt
    have hloop (kind : TokenKind) (category : Category) : Wraps true
        (become .forInStmt ++ eat kind ++ succeed (call category)) false false :=
      Wraps.seq (Wraps.seq hbecome (unmarked_eat kind)) (unmarked_call category).succeed
    have hopen : Wraps true fail false true := .fail
    refine Wraps.andThen hfirst (.look fun v => wraps_ite (.weaken hopen nofun nofun) ?_)
    refine wraps_ite (hloop .ident .assignment) (wraps_ite (hloop .inKw .expression) ?_)
    exact Wraps.seq (unmarked_skip.wrap .forInit false) hclauses

theorem unmarked_statement : Unmarked Grammar.statement := by
  have hexpression := unmarked_call .expression
  have hstatement := unmarked_call .statement
  have hjump (kind : NodeKind) : Unmarked (jumpStatement kind) := by
    have hlabel : Unmarked (look fun v => if v.next .ident && !v.breakAt 0 then
        report (.unsupported .labels) else skip) :=
      unmarked_look fun _ => unmarked_ite (unmarked_report _) unmarked_skip
    exact (((unmarked_takeAny.seq hlabel).seq unmarked_terminator).marked kind).unmarked
  have hvalue : Unmarked expressionStatement := by
    have hended : Wraps true terminator false false := by
      have heat : Wraps true (eat .semicolon) false true := .eat _
      have hskip : Wraps true skip true true := .skip
      have hreport : Wraps true (report .missingTerminator) true true := .report _
      exact .look fun _ => wraps_ite (.weaken heat nofun nofun)
        (wraps_ite (.weaken hskip nofun nofun) (.weaken hreport nofun nofun))
    exact (Unmarked.marked (Wraps.andThen (marked_call rfl) hended) .exprStmt).unmarked
  have hcatch : Unmarked catchClause :=
    ((((unmarked_eat .catchKw).seq (((unmarked_call .pattern).succeed.bracket
      .catchBinding).whenNext .lParen)).seq unmarked_block).marked .catchClause).unmarked
  have hfinally : Unmarked finallyClause :=
    (((unmarked_eat .finallyKw).seq unmarked_block).marked .finallyClause).unmarked
  have hcase : Unmarked switchCase := by
    have hbody : Unmarked caseBody := (unmarked_expect .colon).seq (hstatement.many _)
    refine Marked.unmarked (Unmarked.marked (unmarked_look fun v => ?_) .switchCase)
    exact unmarked_ite (((unmarked_eat .caseKw).seq hexpression).seq hbody)
      (unmarked_ite ((unmarked_eat .defaultKw).seq hbody) (unmarked_report _))
  refine unmarked_look fun v => ?_
  split
  · exact unmarked_block
  iterate 3 exact ((unmarked_declaration.seq unmarked_terminator).marked .varDecl).unmarked
  · exact marked_functionDecl.unmarked
  · refine (Unmarked.marked ?_ .ifStmt).unmarked
    refine (((unmarked_eat .ifKw).seq unmarked_condition).seq hstatement).seq
      (unmarked_look fun v => unmarked_ite ?_ unmarked_skip)
    exact (((unmarked_eat .elseKw).seq hstatement).marked .elseClause).unmarked
  · exact ((((unmarked_eat .whileKw).seq unmarked_condition).seq
      hstatement.unlessFailed).marked .whileStmt).unmarked
  · exact ((((((unmarked_eat .doKw).seq hstatement).seq (unmarked_expect .whileKw)).seq
      unmarked_condition).seq (unmarked_eat .semicolon)).marked .doWhileStmt).unmarked
  · refine (Unmarked.marked ((unmarked_eat .forKw).seq (unmarked_look fun v => ?_)) .forStmt).unmarked
    exact unmarked_ite (unmarked_report _)
      ((unmarked_loopHead.bracket .loopHead).seq hstatement.unlessFailed)
  · have hresult : Unmarked (look fun v => if v.endsStatement then skip else call .expression) :=
      unmarked_look fun _ => unmarked_ite unmarked_skip hexpression
    exact ((((unmarked_eat .returnKw).seq hresult).seq unmarked_terminator).marked
      .returnStmt).unmarked
  · exact hjump .breakStmt
  · exact hjump .continueStmt
  · refine (Unmarked.marked ((unmarked_eat .throwKw).seq (unmarked_look fun v => ?_))
      .throwStmt).unmarked
    exact unmarked_ite (unmarked_report _) (hexpression.seq unmarked_terminator)
  · refine (Unmarked.marked (((unmarked_eat .tryKw).seq unmarked_block).seq
      (unmarked_look fun v => ?_)) .tryStmt).unmarked
    have hlast : Unmarked (look fun v =>
        if v.next .finallyKw && !v.failed then finallyClause else skip) :=
      unmarked_look fun _ => unmarked_ite hfinally unmarked_skip
    exact unmarked_ite (hcatch.seq hlast) (unmarked_ite hfinally (unmarked_report _))
  · exact ((((unmarked_eat .switchKw).seq unmarked_condition).seq
      ((hcase.many _).bracket .switchBody)).marked .switchStmt).unmarked
  · exact ((unmarked_eat .semicolon).marked .emptyStmt).unmarked
  iterate 3 exact unmarked_report _
  · exact unmarked_ite marked_functionDecl.unmarked (unmarked_ite (unmarked_report _) hvalue)
  · exact hvalue

theorem wraps_table (category : Category) :
    Wraps false (table category) category.makesNode false := by
  cases category with
  | statement => exact unmarked_statement
  | expression => exact marked_expression
  | assignment => exact marked_assignment
  | unary => exact marked_unary
  | primary => exact marked_primary
  | newExpression => exact marked_newExpression
  | pattern => exact marked_pattern
  | binary floor => exact marked_binary floor

/-- A script up to the mark of its end. -/
def scriptBody : Rule :=
  many (fun v => !v.next .eof && !v.failed) (call .statement) ++ many (fun v => !v.next .eof) takeAny

theorem unmarked_scriptBody : Unmarked scriptBody :=
  ((unmarked_call .statement).many _).seq (unmarked_takeAny.many _)

theorem unmarked_script : Unmarked script := unmarked_scriptBody.seq unmarked_takeAny

/-! ## Scripts -/

theorem records_refer (limit depth : Nat) (category : Category) {before : List Event}
    {base : List Tree} {r : Recorder} {built : List Built} (h : Recorded before base r built) :
    Records category.makesNode false before base (recordRefer table limit depth category r)
      (refer table limit depth category r.state) := by
  induction depth generalizing category before base r built with
  | zero => exact ⟨r, built, rfl, rfl, h, nofun⟩
  | succ depth ih =>
      exact (wraps_table category).records limit (fun category _ _ _ _ h => ih category h) h nofun

/-- Every script can be recorded, and its events are those of what is read. -/
theorem exists_events (tokens : List Lookahead) :
    ∃ built, events? tokens = some (Grown.events 0 none (.node .script built)) ∧
      Built.trees built = (read tokens).done.reverse := by
  have hstart : Recorded [.opened none none] []
      { state := State.start tokens, events := [.opened none none] } [] := ⟨rfl, rfl, rfl⟩
  obtain ⟨t, built, hrecord, hstate, hrecorded, -⟩ := unmarked_script.records (tokens.length + 1)
    (fun category _ _ _ _ h => records_refer (tokens.length + 1) (depthFor tokens) category h)
    hstart nofun
  refine ⟨built, ?_, ?_⟩
  · simp only [events?, hrecord, Option.map_some, hrecorded.events]
    rfl
  · have hdone := hrecorded.done
    rw [hstate, List.append_nil] at hdone
    exact (List.reverse_eq_iff.mp hdone.symm)

end ShellAwait.Grammar
