import ShellAwait.Proofs.Grammar.Fronts
import ShellAwait.Proofs.Grammar.Termination

/-! # Opening and closing

A rule that takes an opening token takes the closing one as well, or there is a problem. So the
tokens between the beginning of a rule and a problem in it are closed in themselves, except for
those whose enclosure the problem is in. Main statement: a problem that points back points at the
last token before it that opens something and is not followed by its end.
-/

namespace ShellAwait.Grammar

namespace Rule

/-- A rule that is run under this view fails only if there is a problem. -/
inductive Loud : View → Rule → Prop
  | skip {v : View} : Loud v .skip
  | fail {v : View} : v.failed = true → Loud v .fail
  | report {v : View} {problem : Problem} : Loud v (.report problem)
  | look {v : View} {choose : View → Rule} : Loud v (choose v) → Loud v (.look choose)
  | seq {v : View} {first second : Rule} : (∀ u, Loud u second) → Loud v (.seq first second)
  | andThen {v : View} {first second : Rule} :
      Loud v first → (∀ u, Loud u second) → Loud v (.andThen first second)
  | many {v : View} {goOn : View → Bool} {round : Rule} : Loud v (.many goOn round)
  | node {v : View} {kind : NodeKind} {body : Rule} : Loud v (.node kind body)
  | wrap {v : View} {kind : NodeKind} {body : Rule} : Loud v (.wrap kind body)
  | become {v : View} {kind : NodeKind} : Loud v (.become kind)
  | bracket {v : View} {what : Enclosure} {body : Rule} :
      (∀ u, Loud u body) → Loud v (.bracket what body)
  | withNoIn {v : View} {noIn : Bool} {body : Rule} :
      Loud { v with noIn := noIn } body → Loud v (.withNoIn noIn body)
  | call {v : View} {category : Category} : Loud v (.call category)

/-- A rule that is run under this view takes no opening or closing token but for enclosures, and
what it opens it does not leave without a problem. -/
inductive Paired : View → Rule → Prop
  | skip {v : View} : Paired v .skip
  | fail {v : View} : Paired v .fail
  | eat {v : View} {kind : TokenKind} : isBracket kind = false → Paired v (.eat kind)
  | report {v : View} {problem : Problem} : Paired v (.report problem)
  | look {v : View} {choose : View → Rule} : Paired v (choose v) → Paired v (.look choose)
  | seq {v : View} {first second : Rule} :
      Paired v first → (∀ u, Paired u second) → Paired v (.seq first second)
  /-- What is taken after a problem does not matter. -/
  | afterReport {v : View} {problem : Problem} {second : Rule} :
      Paired v (.seq (.report problem) second)
  | andThen {v : View} {first second : Rule} :
      Paired v first → (∀ u, Paired u second) → Paired v (.andThen first second)
  | many {v : View} {goOn : View → Bool} {round : Rule} :
      (∀ u, goOn u = true → Paired u round) → Paired v (.many goOn round)
  | node {v : View} {kind : NodeKind} {body : Rule} : Paired v body → Paired v (.node kind body)
  | wrap {v : View} {kind : NodeKind} {body : Rule} : Paired v body → Paired v (.wrap kind body)
  | become {v : View} {kind : NodeKind} : Paired v (.become kind)
  | bracket {v : View} {what : Enclosure} {body : Rule} :
      (∀ u, Loud u body) → (∀ u, Paired u body) → Paired v (.bracket what body)
  | withNoIn {v : View} {noIn : Bool} {body : Rule} :
      Paired { v with noIn := noIn } body → Paired v (.withNoIn noIn body)
  | call {v : View} {category : Category} : Paired v (.call category)

end Rule

open Rule

/-! ## The rules -/

section

variable {v : View}

theorem loud_succeed {rule : Rule} : Loud v (succeed rule) := .seq fun _ => .skip

theorem loud_ite {c : Prop} [Decidable c] {a b : Rule} (ha : Loud v a) (hb : Loud v b) :
    Loud v (if c then a else b) := by
  split
  · exact ha
  · exact hb

theorem paired_succeed {rule : Rule} (h : Paired v rule) : Paired v (succeed rule) :=
  .seq h fun _ => .skip

theorem paired_ite {c : Prop} [Decidable c] {a b : Rule} (ha : c → Paired v a)
    (hb : ¬c → Paired v b) : Paired v (if c then a else b) := by
  split
  · exact ha ‹_›
  · exact hb ‹_›

theorem paired_expect {kind : TokenKind} (h : isBracket kind = false) : Paired v (expect kind) :=
  .look (paired_ite (fun _ => .eat h) fun _ => .report)

theorem paired_whenNext {kind : TokenKind} {rule : Rule} (h : Paired v rule) :
    Paired v (whenNext kind rule) := .look (paired_ite (fun _ => h) fun _ => .skip)

theorem paired_unlessFailed {rule : Rule} (h : Paired v rule) : Paired v (unlessFailed rule) :=
  .look (paired_ite (fun _ => .skip) fun _ => h)

theorem paired_separator {closer : TokenKind} : Paired v (separator closer) :=
  .look (paired_ite (fun _ => .skip) fun _ => paired_expect rfl)

theorem paired_separated {closer : TokenKind} {element : Rule} (h : ∀ u, Paired u element) :
    Paired v (separated closer element) := .many fun u _ => .seq (h u) fun _ => paired_separator

theorem paired_separatedWithHoles {closer : TokenKind} {element : Rule}
    (h : ∀ u, Paired u element) : Paired v (separatedWithHoles closer element) :=
  .many fun u _ => .look (paired_ite (fun _ => .eat rfl) fun _ =>
    .seq (h u) fun _ => paired_separator)

theorem paired_enclosed {what : Enclosure} {rule : Rule} (h : ∀ u, Paired u rule) :
    Paired v (bracket what (succeed rule)) :=
  .bracket (fun _ => loud_succeed) fun u => paired_succeed (h u)

theorem paired_list {what : Enclosure} {goOn : View → Bool} {round : Rule}
    (h : ∀ u, goOn u = true → Paired u round) : Paired v (bracket what (many goOn round)) :=
  .bracket (fun _ => .many) fun _ => .many h

/-! Tokens that are taken by what they are. -/

theorem plain_of_alone {kind : TokenKind} (h : standsAlone kind = true) :
    isBracket kind = false := by
  simp only [standsAlone, Bool.and_eq_true, Bool.not_eq_true'] at h
  exact h.1.1

theorem plain_of_key (h : v.startsKey = true) (hbracket : ¬v.next .lBracket = true) :
    isBracket v.kind = false := by
  refine plain_of_alone (alone_of_plainKey ?_)
  rw [View.startsKey, View.nextIn] at h
  rw [View.next, beq_iff_eq] at hbracket
  simpa [isPlainKey, hbracket] using h

theorem plain_of_memberName (h : (v.next .ident || v.kind.isReserved) = true) :
    isBracket v.kind = false := plain_of_alone (alone_of_memberName h)

theorem plain_of_power {power : Power} (h : v.power? = some power) : isBracket v.kind = false := by
  rw [View.power?] at h
  split at h
  · cases h
  · have hsome := Option.isSome_of_eq_some h
    revert hsome
    cases v.kind <;> decide

theorem declarer_of_nextIn (h : v.nextIn [.varKw, .letKw, .constKw] = true) :
    isDeclarer v.kind = true := by
  rw [View.nextIn] at h
  revert h
  cases v.kind <;> decide

theorem plain_of_trail (h : (v.nextIn [.plusPlus, .minusMinus] && !v.breakAt 0) = true) :
    isBracket v.kind = false := by
  have hnext := (Bool.and_eq_true_iff.mp h).1
  rw [View.nextIn] at hnext
  revert hnext
  cases v.kind <;> decide

/-! Patterns and functions. -/

theorem paired_propertyKey : Paired v propertyKey :=
  .look (paired_ite (fun _ => .node (paired_enclosed fun _ => .call)) fun hbracket =>
    paired_ite (fun hkey => .node (.eat (plain_of_key hkey hbracket))) fun _ => .report)

theorem paired_patternWithDefault : Paired v patternWithDefault :=
  .andThen .call fun _ => paired_whenNext (.wrap (.seq (.eat rfl) fun _ => .call))

theorem paired_restPattern : Paired v restPattern := .node (.seq (.eat rfl) fun _ => .call)

theorem paired_patternProperty : Paired v patternProperty :=
  .node (.look (paired_ite (fun _ => paired_patternWithDefault) fun _ =>
    .seq (.seq paired_propertyKey fun _ => paired_expect rfl) fun _ => paired_patternWithDefault))

theorem paired_pattern : Paired v pattern := by
  refine .look ?_
  split
  · exact .node (.eat rfl)
  · exact .node (.bracket (fun _ => .many) fun _ => paired_separatedWithHoles fun _ =>
      .look (paired_ite (fun _ => paired_restPattern) fun _ => paired_patternWithDefault))
  · exact .node (.bracket (fun _ => .many) fun _ => paired_separated fun _ =>
      .look (paired_ite (fun _ => paired_restPattern) fun _ => paired_patternProperty))
  · exact .report

theorem paired_block : Paired v block :=
  .node (.look (paired_ite (fun _ => paired_list fun _ _ => .call) fun _ => .afterReport))

theorem paired_initializer : Paired v initializer :=
  paired_whenNext (.seq (.eat rfl) fun _ => .call)

theorem paired_parameterList : Paired v parameterList :=
  .node (.bracket (fun _ => .many) fun _ => paired_separated fun _ =>
    .node (.seq (.seq (.eat rfl) fun _ => .call) fun _ => paired_initializer))

theorem paired_functionTail (needsName : Bool) : Paired v (functionTail needsName) :=
  have hrest (u : View) : Paired u (parameterList ++ unlessFailed block) :=
    .seq paired_parameterList fun _ => paired_unlessFailed paired_block
  .seq (.seq (.look (paired_ite (fun _ => .eat rfl) fun _ => .skip)) fun _ => paired_expect rfl)
    fun u => .look (paired_ite (fun _ => .report) fun _ =>
      paired_ite (fun _ => .seq (.eat rfl) hrest) fun _ =>
        paired_ite (fun _ => .report) fun _ => hrest u)

theorem paired_arrow : Paired v arrow :=
  .node (.seq (.seq (.seq (.look (paired_ite (fun _ => .eat rfl) fun _ => .skip)) fun _ =>
    .look (paired_ite (fun _ => .node (.node (.node (.eat rfl)))) fun _ => paired_parameterList))
    fun _ => paired_expect rfl) fun _ =>
      .look (paired_ite (fun _ => paired_block) fun _ => .call))

/-! Expressions. -/

theorem paired_memberName : Paired v memberName :=
  .node (.look (paired_ite (fun hname => .eat (plain_of_memberName hname)) fun _ => .report))

theorem paired_indexTail : Paired v indexTail :=
  .bracket (fun _ => .withNoIn loud_succeed) fun _ => .withNoIn (paired_succeed .call)

theorem paired_spread : Paired v spread := .node (.seq (.eat rfl) fun _ => .call)

theorem paired_element : Paired v element :=
  .look (paired_ite (fun _ => paired_spread) fun _ => .call)

theorem paired_argumentList : Paired v argumentList :=
  .node (.bracket (fun _ => .withNoIn .many) fun _ =>
    .withNoIn (.many fun _ _ => .seq paired_element fun _ => .eat rfl))

theorem paired_template : Paired v template := by
  have hpart (u : View) : Paired u (look fun v =>
      if v.next .templateContent then eat .templateContent
      else .node .interpolation (bracket .interpolation (succeed (call .expression)))) :=
    .look (paired_ite (fun _ => .eat rfl) fun _ => .node (paired_enclosed fun _ => .call))
  refine .node (.bracket (fun u => .look ?_) fun u => .look (paired_ite (fun _ =>
    .seq (.seq (hpart u) fun _ => .many fun w _ => paired_succeed (hpart w)) fun _ =>
      .look (paired_ite (fun _ => .fail) fun _ => .skip)) fun _ => .skip))
  split
  · refine .seq fun w => .look ?_
    split
    · exact .fail ‹_›
    · exact .skip
  · exact .skip

theorem paired_link : Paired v link := by
  refine .look ?_
  split
  · exact .wrap (.seq (.eat rfl) fun _ => paired_memberName)
  · split
    · exact .wrap (.seq (.eat rfl) fun _ => paired_argumentList)
    · exact .wrap (.seq (.eat rfl) fun _ => paired_indexTail)
    · exact .wrap (.seq (.eat rfl) fun _ => paired_memberName)
  · exact .wrap paired_indexTail
  · exact .wrap paired_argumentList
  · exact .wrap paired_template
  · exact .fail

theorem paired_property : Paired v property :=
  .look (paired_ite (fun _ => paired_spread) fun _ =>
    paired_ite (fun _ => .node .report) fun _ =>
    paired_ite (fun _ => .node .report) fun _ =>
    paired_ite (fun _ => .node (.seq (.seq (.seq (.eat rfl) fun _ => paired_propertyKey)
      fun _ => paired_parameterList) fun _ => paired_block)) fun _ =>
    paired_ite (fun _ => .node (.node (.eat rfl))) fun _ =>
    .node (.seq paired_propertyKey fun _ => .look (paired_ite
      (fun _ => .seq (.seq .become fun _ => paired_parameterList) fun _ => paired_block)
      fun _ => .seq (paired_expect rfl) fun _ => .call)))

theorem paired_newExpression : Paired v newExpression :=
  .node (.seq (.eat rfl) fun _ =>
    .andThen (.look (paired_ite (fun _ => .call) fun _ => .call)) fun _ =>
      .seq (.many fun _ _ => paired_link) fun _ => paired_whenNext paired_argumentList)

theorem paired_primary : Paired v primary := by
  have hliteral {kind : TokenKind} (hkind : v.kind = kind) (h : isLiteral kind = true) :
      Paired v (.node .literal (eat v.kind)) :=
    .node (.eat (plain_of_alone (alone_of_literal (hkind ▸ h))))
  refine .look ?_
  split
  iterate 6 exact hliteral ‹_› rfl
  · exact paired_ite (fun _ => .node (paired_functionTail false)) fun _ => .node (.eat rfl)
  · exact .node (.eat rfl)
  · exact .node (.bracket (fun _ => .withNoIn loud_succeed) fun _ =>
      .withNoIn (paired_succeed .call))
  · exact .node (.bracket (fun _ => .withNoIn .many) fun _ =>
      .withNoIn (paired_separatedWithHoles fun _ => paired_element))
  · exact .node (.bracket (fun _ => .withNoIn .many) fun _ =>
      .withNoIn (paired_separated fun _ => paired_property))
  · exact paired_template
  · exact .call
  · exact .node (paired_functionTail false)
  iterate 3 exact .report

theorem paired_unary : Paired v unary :=
  .look (paired_ite (fun _ => .node (.seq (.eat rfl) fun _ => .call)) fun _ =>
    paired_ite (fun hlead => .node (.seq (.eat (plain_of_alone (alone_of_lead hlead))) fun _ =>
      .call)) fun _ =>
    .andThen (.andThen .call fun _ => .many fun _ _ => paired_link) fun _ =>
      .look (paired_ite (fun htrail => .wrap (.eat (plain_of_trail htrail))) fun _ => .skip))

theorem paired_binary (floor : Nat) : Paired v (binary floor) := by
  refine .andThen .call fun _ => .many fun u _ => .look ?_
  split
  · exact .wrap (.seq (.eat (plain_of_power ‹_›)) fun _ => .call)
  · exact .fail

theorem paired_assignment : Paired v assignment :=
  .look (paired_ite (fun _ => paired_arrow) fun _ => paired_ite (fun _ => .report) fun _ =>
    .andThen .call fun _ => .look (paired_ite
      (fun _ => .wrap (.seq (.seq (.seq (.eat rfl) fun _ => .withNoIn .call) fun _ =>
        paired_expect rfl) fun _ => .call)) fun _ =>
      paired_ite (fun hassign => .wrap (.seq (.eat (plain_of_alone (alone_of_assignment hassign)))
        fun _ => .call)) fun _ => .skip))

theorem paired_expression : Paired v expression :=
  .andThen .call fun _ => paired_whenNext (.wrap (.many fun _ _ => .seq (.eat rfl) fun _ => .call))

/-! Statements. -/

theorem paired_terminator : Paired v terminator :=
  .look (paired_ite (fun _ => .eat rfl) fun _ => paired_ite (fun _ => .skip) fun _ => .report)

theorem paired_declarator : Paired v declarator := .node (.seq .call fun _ => paired_initializer)

theorem paired_declaration (h : isDeclarer v.kind = true) : Paired v declaration :=
  .seq (.seq (.look (.eat (plain_of_alone (alone_of_declarer h)))) fun _ => paired_declarator)
    fun _ => .many fun _ _ => .seq (.eat rfl) fun _ => paired_declarator

theorem paired_condition : Paired v condition := paired_enclosed fun _ => .call

theorem paired_loopClauses : Paired v loopClauses :=
  have hclause (u : View) (kind : NodeKind) (stop : TokenKind) : Paired u (.node kind (look fun v =>
      if v.next stop || v.failed then skip else call .expression)) :=
    .node (.look (paired_ite (fun _ => .skip) fun _ => .call))
  .seq (.seq (.seq (paired_expect rfl) fun _ => hclause ..) fun _ => paired_expect rfl)
    fun _ => hclause ..

theorem loud_loopHead : Loud v loopHead := by
  refine .look ?_
  split
  · split
    · exact .fail ‹_›
    · exact .seq fun _ => loud_succeed
  · refine .andThen (.withNoIn (.look ?_)) fun u => .look ?_
    · split
      · exact .node
      · exact .call
    · split
      · exact .fail ‹_›
      · split
        · exact .seq fun _ => loud_succeed
        · split
          · exact .seq fun _ => loud_succeed
          · exact .seq fun _ => loud_succeed

theorem paired_loopHead : Paired v loopHead :=
  have hclauses (u : View) : Paired u (succeed loopClauses) := paired_succeed paired_loopClauses
  .look (paired_ite
    (fun _ => paired_ite (fun _ => .fail) fun _ => .seq (.node .skip) hclauses)
    fun _ => .andThen
      (.withNoIn (.look (paired_ite
        (fun hfirst => .node (paired_declaration (declarer_of_nextIn hfirst))) fun _ => .call)))
      fun _ => .look (paired_ite (fun _ => .fail) fun _ =>
        paired_ite (fun _ => .seq (.seq .become fun _ => .eat rfl) fun _ => paired_succeed .call)
          fun _ => paired_ite
            (fun _ => .seq (.seq .become fun _ => .eat rfl) fun _ => paired_succeed .call)
            fun _ => .seq (.wrap .skip) hclauses))

theorem paired_catchClause : Paired v catchClause :=
  .node (.seq (.seq (.eat rfl) fun _ => paired_whenNext (paired_enclosed fun _ => .call))
    fun _ => paired_block)

theorem paired_finallyClause : Paired v finallyClause :=
  .node (.seq (.eat rfl) fun _ => paired_block)

theorem paired_tryStatement : Paired v tryStatement :=
  .node (.seq (.seq (.eat rfl) fun _ => paired_block) fun _ => .look (paired_ite
    (fun _ => .seq paired_catchClause fun _ =>
      .look (paired_ite (fun _ => paired_finallyClause) fun _ => .skip)) fun _ =>
    paired_ite (fun _ => paired_finallyClause) fun _ => .report))

theorem paired_switchStatement : Paired v switchStatement :=
  have hbody (u : View) : Paired u caseBody :=
    .seq (paired_expect rfl) fun _ => .many fun _ _ => .call
  .node (.seq (.seq (.eat rfl) fun _ => paired_condition) fun _ => paired_list fun _ _ =>
    .node (.look (paired_ite (fun _ => .seq (.seq (.eat rfl) fun _ => .call) hbody) fun _ =>
      paired_ite (fun _ => .seq (.eat rfl) hbody) fun _ => .report)))

theorem paired_jumpStatement {kind : NodeKind} (h : isBracket v.kind = false) :
    Paired v (jumpStatement kind) :=
  .node (.seq (.seq (.look (.eat h)) fun _ => .look (paired_ite (fun _ => .report) fun _ => .skip))
    fun _ => paired_terminator)

theorem paired_statement : Paired v statement := by
  have hdeclaration {kind : TokenKind} (hkind : v.kind = kind) (h : isDeclarer kind = true) :
      Paired v (.node .varDecl (declaration ++ terminator)) :=
    .node (.seq (paired_declaration (hkind ▸ h)) fun _ => paired_terminator)
  have hjump {kind : TokenKind} {node : NodeKind} (hkind : v.kind = kind)
      (h : isBracket kind = false) : Paired v (jumpStatement node) :=
    paired_jumpStatement (hkind ▸ h)
  have hexpression : Paired v expressionStatement :=
    .node (.andThen .call fun _ => paired_terminator)
  refine .look ?_
  split
  · exact paired_block
  · exact hdeclaration ‹_› rfl
  · exact hdeclaration ‹_› rfl
  · exact hdeclaration ‹_› rfl
  · exact .node (paired_functionTail true)
  · exact .node (.seq (.seq (.seq (.eat rfl) fun _ => paired_condition) fun _ => .call) fun _ =>
      .look (paired_ite (fun _ => .node (.seq (.eat rfl) fun _ => .call)) fun _ => .skip))
  · exact .node (.seq (.seq (.eat rfl) fun _ => paired_condition) fun _ =>
      paired_unlessFailed .call)
  · exact .node (.seq (.seq (.seq (.seq (.eat rfl) fun _ => .call) fun _ => paired_expect rfl)
      fun _ => paired_condition) fun _ => .eat rfl)
  · exact .node (.seq (.eat rfl) fun _ => .look (paired_ite (fun _ => .report) fun _ =>
      .seq (.bracket (fun _ => loud_loopHead) fun _ => paired_loopHead) fun _ =>
        paired_unlessFailed .call))
  · exact .node (.seq (.seq (.eat rfl) fun _ =>
      .look (paired_ite (fun _ => .skip) fun _ => .call)) fun _ => paired_terminator)
  · exact hjump ‹_› rfl
  · exact hjump ‹_› rfl
  · exact .node (.seq (.eat rfl) fun _ => .look (paired_ite (fun _ => .report) fun _ =>
      .seq .call fun _ => paired_terminator))
  · exact paired_tryStatement
  · exact paired_switchStatement
  · exact .node (.eat rfl)
  iterate 3 exact .report
  · exact paired_ite (fun _ => .node (paired_functionTail true)) fun _ =>
      paired_ite (fun _ => .report) fun _ => hexpression
  · exact hexpression

end

theorem paired_table (category : Category) (v : View) : Paired v (table category) := by
  cases category with
  | statement => exact paired_statement
  | expression => exact paired_expression
  | assignment => exact paired_assignment
  | unary => exact paired_unary
  | primary => exact paired_primary
  | newExpression => exact paired_newExpression
  | pattern => exact paired_pattern
  | binary floor => exact paired_binary floor

/-- The named parts fail only with a problem: what they read is a node. -/
theorem loud_table (category : Category) (v : View) : Loud v (table category) := by
  cases category with
  | statement =>
      refine .look ?_
      split
      all_goals first | exact .node | exact .report | exact loud_ite .node (loud_ite .report .node)
  | expression => exact .andThen .call fun _ => .look (loud_ite .wrap .skip)
  | assignment =>
      exact .look (loud_ite .node (loud_ite .report
        (.andThen .call fun _ => .look (loud_ite .wrap (loud_ite .wrap .skip)))))
  | unary =>
      exact .look (loud_ite .node (loud_ite .node
        (.andThen (.andThen .call fun _ => .many) fun _ => .look (loud_ite .wrap .skip))))
  | primary =>
      refine .look ?_
      split
      all_goals first | exact .node | exact .report | exact .call | exact loud_ite .node .node
  | newExpression => exact .node
  | pattern =>
      refine .look ?_
      split
      all_goals first | exact .node | exact .report
  | binary floor => exact .andThen .call fun _ => .many

/-! ## Runs -/

namespace State

variable {s t u : State}

/-- The tokens that are taken between two states. -/
structure Takes (s : State) (w : List Lookahead) (t : State) : Prop where
  ahead : s.ahead = w ++ t.ahead
  taken : t.taken = s.taken + w.length

theorem Takes.refl (s : State) : s.Takes [] s := ⟨rfl, rfl⟩

theorem Takes.trans {v w : List Lookahead} (h : s.Takes v u) (k : u.Takes w t) :
    s.Takes (v ++ w) t := by
  refine ⟨by rw [h.ahead, k.ahead, List.append_assoc], ?_⟩
  rw [k.taken, h.taken, List.length_append, Nat.add_assoc]

theorem takes_note (s : State) (problem : Problem) (opener : Option Nat) :
    s.Takes [] (s.note problem opener) := by
  unfold note
  split <;> exact ⟨rfl, rfl⟩

theorem report_note (s : State) (problem : Problem) (opener : Option Nat) :
    (s.note problem opener).report = some (s.report.getD ⟨problem, s.taken, opener⟩) := by
  unfold note
  cases h : s.report with
  | none => rfl
  | some report => exact h

theorem eat_eq {kind : TokenKind} {b : Bool} (h : s.eat kind = (b, t)) :
    t.report = s.report ∧ (b = false ∧ t = s ∨
      b = true ∧ ∃ token : Lookahead, token.kind = kind ∧ s.Takes [token] t) := by
  unfold eat at h
  split at h
  · cases h
    exact ⟨rfl, .inl ⟨rfl, rfl⟩⟩
  · rename_i token rest hahead
    split at h
    · rename_i hkind
      cases h
      exact ⟨rfl, .inr ⟨rfl, token, beq_iff_eq.mp hkind, hahead, rfl⟩⟩
    · cases h
      exact ⟨rfl, .inl ⟨rfl, rfl⟩⟩

theorem eat_true {kind : TokenKind} (h : s.eat kind = (true, t)) :
    t.report = s.report ∧ ∃ token : Lookahead, token.kind = kind ∧ s.Takes [token] t := by
  obtain ⟨hreport, ⟨hb, -⟩ | ⟨-, htoken⟩⟩ := eat_eq h
  · cases hb
  · exact ⟨hreport, htoken⟩

theorem eat_false {kind : TokenKind} (h : s.eat kind = (false, t)) : t = s := by
  obtain ⟨-, ⟨-, ht⟩ | ⟨hb, -⟩⟩ := eat_eq h
  · exact ht
  · cases hb

theorem close_eq {what : Enclosure} {opener : Nat} {b : Bool} (h : s.close what opener = (b, t)) :
    b = true ∧ t.report = s.report ∧
        (∃ token : Lookahead, token.kind = what.closer ∧ s.Takes [token] t) ∨
      b = false ∧ t = s.note (.unclosed what) (if what.pointsBack then some opener else none) := by
  unfold close at h
  split at h
  · rename_i u hu
    cases h
    exact .inl ⟨rfl, eat_true hu⟩
  · rename_i u hu
    cases h
    cases eat_false hu
    exact .inr ⟨rfl, rfl⟩

end State

open State

namespace Runs

variable {rule : Rule} {s t : State} {b : Bool}

theorem report_kept (h : Runs rule s b t) {report : Report} (hreport : s.report = some report) :
    t.report = some report := by
  have hnote {s : State} {problem : Problem} {opener : Option Nat} (h : s.report = some report) :
      (s.note problem opener).report = some report := by
    rw [report_note, h, Option.getD_some]
  induction h with
  | skip | fail | stop | become => exact hreport
  | eat h => exact (eat_eq h).1.trans hreport
  | report => exact hnote hreport
  | look _ ih | call _ ih | refused _ ih | last _ _ ih | node _ ih | wrap _ ih | withNoIn _ ih =>
      exact ih hreport
  | seq _ _ ih ih' | andThen _ _ ih ih' | again _ _ _ ih ih' => exact ih' (ih hreport)
  | unopened h =>
      cases eat_false h
      exact hnote hreport
  | enclosed h _ hclose ih =>
      have hbody := ih ((eat_true h).1.trans hreport)
      obtain ⟨-, hkept, -⟩ | ⟨-, rfl⟩ := close_eq hclose
      · exact hkept.trans hbody
      · exact hnote hbody
  | unfinished h _ ih => exact ih ((eat_true h).1.trans hreport)

theorem clean (h : Runs rule s b t) (hclean : t.report = none) : s.report = none := by
  cases hreport : s.report with
  | none => rfl
  | some report => exact absurd ((h.report_kept hreport).symm.trans hclean) (Option.some_ne_none _)

/-- A rule that is loud has reported a problem where it fails. -/
theorem report_ne_none (h : Runs rule s b t) (hloud : Loud s.view rule) (hb : b = false) :
    t.report ≠ none := by
  induction h with
  | skip | stop | last | again | node | wrap | become => cases hb
  | fail =>
      cases hloud with
      | fail hfailed => exact Option.isSome_iff_ne_none.mp hfailed
  | eat => cases hloud
  | report => exact Reader.note_ne_none _ _
  | look _ ih =>
      cases hloud with
      | look hloud => exact ih hloud hb
  | seq _ _ _ ih =>
      cases hloud with
      | seq hloud => exact ih (hloud _) hb
  | andThen _ _ _ ih =>
      cases hloud with
      | andThen _ hloud => exact ih (hloud _) hb
  | refused _ ih =>
      cases hloud with
      | andThen hloud _ => exact ih hloud hb
  | unopened => exact Reader.note_ne_none _ _
  | enclosed _ _ hclose =>
      obtain ⟨htrue, -⟩ | ⟨-, rfl⟩ := close_eq hclose
      · cases hb.symm.trans htrue
      · exact Reader.note_ne_none _ _
  | unfinished _ _ ih =>
      cases hloud with
      | bracket hloud => exact ih (hloud _) hb
  | withNoIn _ ih =>
      cases hloud with
      | withNoIn hloud => exact ih hloud hb
  | call _ ih => exact ih (loud_table ..) hb

end Runs

/-! What is paired has paired parts. -/

namespace Rule.Paired

variable {v : View} {first second body round : Rule}

theorem of_look {choose : View → Rule} (h : Paired v (.look choose)) : Paired v (choose v) := by
  cases h
  assumption

theorem of_seq (h : Paired v (.seq first second)) :
    Paired v first ∧ ((∀ u, Paired u second) ∨ ∃ problem, first = .report problem) := by
  cases h with
  | seq hfirst hsecond => exact ⟨hfirst, .inl hsecond⟩
  | afterReport => exact ⟨.report, .inr ⟨_, rfl⟩⟩

theorem of_andThen (h : Paired v (.andThen first second)) :
    Paired v first ∧ ∀ u, Paired u second := by
  cases h
  exact ⟨‹_›, ‹_›⟩

theorem of_many {goOn : View → Bool} (h : Paired v (.many goOn round)) (hgo : goOn v = true) :
    Paired v round ∧ ∀ u, Paired u (.many goOn round) := by
  cases h with
  | many h => exact ⟨h v hgo, fun u => .many h⟩

theorem of_node {kind : NodeKind} (h : Paired v (.node kind body)) : Paired v body := by
  cases h
  assumption

theorem of_wrap {kind : NodeKind} (h : Paired v (.wrap kind body)) : Paired v body := by
  cases h
  assumption

theorem of_withNoIn {noIn : Bool} (h : Paired v (.withNoIn noIn body)) :
    Paired { v with noIn := noIn } body := by
  cases h
  assumption

theorem of_bracket {what : Enclosure} (h : Paired v (.bracket what body)) (u : View) :
    Loud u body ∧ Paired u body := by
  cases h with
  | bracket hloud hpaired => exact ⟨hloud u, hpaired u⟩

end Rule.Paired

/-- Tokens are taken between two states, and are closed in themselves if a condition holds and there
is no problem. -/
def State.Closes (s : State) (condition : Prop) (t : State) : Prop :=
  ∃ w, s.Takes w t ∧ (condition → t.report = none → Bracketed (w.map (·.kind)))

namespace State.Closes

variable {p q r : Prop} {s t u : State}

theorem imp (h : s.Closes p t) (himp : q → p) : s.Closes q t := by
  obtain ⟨w, htakes, hclosed⟩ := h
  exact ⟨w, htakes, fun hq => hclosed (himp hq)⟩

theorem trans (h : s.Closes p u) (k : u.Closes q t) (hclean : t.report = none → u.report = none)
    (himp : r → p ∧ (u.report = none → q)) : s.Closes r t := by
  obtain ⟨v, hv, hvclosed⟩ := h
  obtain ⟨w, hw, hwclosed⟩ := k
  refine ⟨v ++ w, hv.trans hw, fun hr ht => ?_⟩
  have hu := hclean ht
  rw [List.map_append]
  exact (hvclosed (himp hr).1 hu).append (hwclosed ((himp hr).2 hu) ht)

theorem note (s : State) (problem : Problem) (opener : Option Nat) :
    s.Closes p (s.note problem opener) :=
  ⟨[], takes_note .., fun _ hclean => absurd hclean (Reader.note_ne_none _ _)⟩

end State.Closes

theorem Enclosure.closer?_opener (what : Enclosure) : closer? what.opener = some what.closer := by
  cases what <;> rfl

namespace Runs

variable {rule : Rule} {s t : State} {b : Bool}

theorem paired_next {first second : Rule} {u : State} (h : Runs first s b u)
    (hpaired : Paired s.view (.seq first second)) (hclean : u.report = none) :
    Paired u.view second := by
  obtain ⟨-, hsecond | ⟨problem, rfl⟩⟩ := hpaired.of_seq
  · exact hsecond _
  · cases h
    exact absurd hclean (Reader.note_ne_none _ _)

theorem closes (h : Runs rule s b t) : s.Closes (Paired s.view rule) t := by
  induction h with
  | skip | fail | stop | become => exact ⟨[], ⟨rfl, rfl⟩, fun _ _ => .nil⟩
  | eat h =>
      obtain ⟨-, ⟨-, rfl⟩ | ⟨-, token, rfl, htakes⟩⟩ := eat_eq h
      · exact ⟨[], .refl _, fun _ _ => .nil⟩
      · refine ⟨[token], htakes, fun hpaired _ => ?_⟩
        cases hpaired with
        | eat hplain => exact .plain hplain .nil
  | report => exact .note ..
  | look _ ih => exact ih.imp Paired.of_look
  | seq h k ih ih' =>
      exact ih.trans ih' k.clean fun hpaired => ⟨hpaired.of_seq.1, h.paired_next hpaired⟩
  | andThen _ k ih ih' =>
      refine ih.trans ih' k.clean fun hpaired => ?_
      exact ⟨hpaired.of_andThen.1, fun _ => hpaired.of_andThen.2 _⟩
  | refused _ ih => exact ih.imp fun hpaired => hpaired.of_andThen.1
  | last hgo _ ih => exact ih.imp fun hpaired => (hpaired.of_many hgo).1
  | again hgo _ k ih ih' =>
      refine ih.trans ih' k.clean fun hpaired => ?_
      exact ⟨(hpaired.of_many hgo).1, fun _ => (hpaired.of_many hgo).2 _⟩
  | node _ ih =>
      obtain ⟨w, htakes, hclosed⟩ := ih
      exact ⟨w, ⟨htakes.ahead, htakes.taken⟩, fun hpaired => hclosed hpaired.of_node⟩
  | wrap _ ih =>
      obtain ⟨w, htakes, hclosed⟩ := ih
      exact ⟨w, ⟨htakes.ahead, htakes.taken⟩, fun hpaired => hclosed hpaired.of_wrap⟩
  | withNoIn _ ih =>
      obtain ⟨w, htakes, hclosed⟩ := ih
      exact ⟨w, ⟨htakes.ahead, htakes.taken⟩, fun hpaired => hclosed hpaired.of_withNoIn⟩
  | unopened h =>
      cases eat_false h
      exact .note ..
  | enclosed h _ hclose ih =>
      obtain ⟨-, o, ho, hopen⟩ := eat_true h
      obtain ⟨w, hw, hclosed⟩ := ih
      obtain ⟨-, hkept, c, hc, hcloses⟩ | ⟨-, rfl⟩ := close_eq hclose
      · refine ⟨o :: (w ++ [c]), hopen.trans (hw.trans hcloses), fun hpaired hclean => ?_⟩
        have hinner := hclosed (hpaired.of_bracket _).2 (hkept.symm.trans hclean)
        have hpair : closer? o.kind = some c.kind := by rw [ho, hc, Enclosure.closer?_opener]
        simpa using Bracketed.enclosed hpair hinner .nil
      · exact ⟨o :: (w ++ []), hopen.trans (hw.trans (takes_note ..)),
          fun _ hclean => absurd hclean (Reader.note_ne_none _ _)⟩
  | unfinished h hbody ih =>
      obtain ⟨-, o, -, hopen⟩ := eat_true h
      obtain ⟨w, hw, -⟩ := ih
      -- An enclosure that is left open has a problem in it.
      refine ⟨o :: w, hopen.trans hw, fun hpaired hclean => ?_⟩
      exact absurd hclean (hbody.report_ne_none (hpaired.of_bracket _).1 rfl)
  | call _ ih => exact ih.imp fun _ => paired_table ..

end Runs

/-! ## Problems that point back -/

/-- Where a problem points back from, seen from a state before it: an enclosure has no end, and what
stands between its opening token and the problem is closed in itself. -/
def Report.PointsFrom (report : Report) (s : State) : Prop :=
  ∀ opener, report.opener = some opener → ∃ what before o inner after,
    report.problem = .unclosed what ∧ what.pointsBack = true ∧ o.kind = what.opener ∧
    s.ahead = before ++ o :: (inner ++ after) ∧ opener = s.taken + before.length ∧
    report.token = opener + 1 + inner.length ∧ Bracketed (inner.map (·.kind))

theorem Report.PointsFrom.earlier {report : Report} {s u : State} {w : List Lookahead}
    (h : report.PointsFrom u) (k : s.Takes w u) : report.PointsFrom s := by
  intro opener hopener
  obtain ⟨what, before, o, inner, after, hproblem, hback, ho, hahead, hplace, htoken, hclosed⟩ :=
    h opener hopener
  refine ⟨what, w ++ before, o, inner, after, hproblem, hback, ho, ?_, ?_, htoken, hclosed⟩
  · rw [k.ahead, hahead, List.append_assoc]
  · rw [hplace, k.taken, List.length_append, Nat.add_assoc]

namespace Runs

variable {rule : Rule} {s t : State} {b : Bool}

/-- A problem is that of the first of two rules, or there is none after it. -/
theorem points_seq {first second : Rule} {u : State} {c : Bool} {report : Report}
    (h : Runs first s b u) (k : Runs second u c t) (hreport : t.report = some report)
    (hfirst : u.report = some report → report.PointsFrom s)
    (hsecond : u.report = none → report.PointsFrom u) : report.PointsFrom s := by
  cases hu : u.report with
  | none =>
      obtain ⟨w, htakes, -⟩ := h.closes
      exact (hsecond hu).earlier htakes
  | some other =>
      have hkept := k.report_kept hu
      exact hfirst (hu.trans (hkept.symm.trans hreport))

/-- A problem points back at the enclosure it is in. -/
theorem points (h : Runs rule s b t) (hpaired : Paired s.view rule) (hclean : s.report = none)
    {report : Report} (hreport : t.report = some report) : report.PointsFrom s := by
  induction h with
  | skip | fail | stop | become => cases hclean.symm.trans hreport
  | eat h => cases ((eat_eq h).1.trans hclean).symm.trans hreport
  | report =>
      rw [report_note, hclean] at hreport
      cases hreport
      exact fun opener hopener => by cases hopener
  | look _ ih => exact ih hpaired.of_look hclean hreport
  | seq h k ih ih' =>
      exact points_seq h k hreport (ih hpaired.of_seq.1 hclean)
        fun hu => ih' (h.paired_next hpaired hu) hu hreport
  | andThen h k ih ih' =>
      exact points_seq h k hreport (ih hpaired.of_andThen.1 hclean)
        fun hu => ih' (hpaired.of_andThen.2 _) hu hreport
  | refused _ ih => exact ih hpaired.of_andThen.1 hclean hreport
  | last hgo _ ih => exact ih (hpaired.of_many hgo).1 hclean hreport
  | again hgo h k ih ih' =>
      exact points_seq h k hreport (ih (hpaired.of_many hgo).1 hclean)
        fun hu => ih' ((hpaired.of_many hgo).2 _) hu hreport
  | node _ ih => exact ih hpaired.of_node hclean hreport
  | wrap _ ih => exact ih hpaired.of_wrap hclean hreport
  | withNoIn _ ih => exact ih hpaired.of_withNoIn hclean hreport
  | unopened h =>
      cases eat_false h
      rw [report_note, hclean] at hreport
      cases hreport
      exact fun opener hopener => by cases hopener
  | @enclosed what _ s u v t b h hbody hclose ih =>
      obtain ⟨hkept, o, ho, hopen⟩ := eat_true h
      cases hv : v.report with
      | some other =>
          have hother : t.report = some other := by
            obtain ⟨-, hclosed, -⟩ | ⟨-, rfl⟩ := close_eq hclose
            · exact hclosed.trans hv
            · rw [report_note, hv, Option.getD_some]
          cases hother.symm.trans hreport
          exact (ih (hpaired.of_bracket _).2 (hkept.trans hclean) hv).earlier hopen
      | none =>
          obtain ⟨w, htakes, hclosed⟩ := hbody.closes
          obtain ⟨-, hsame, -⟩ | ⟨-, rfl⟩ := close_eq hclose
          · cases (hsame.trans hv).symm.trans hreport
          · rw [report_note, hv] at hreport
            cases hreport
            intro opener hopener
            split at hopener
            · rename_i hback
              cases hopener
              refine ⟨what, [], o, w, v.ahead, rfl, hback, ho, ?_, rfl, ?_,
                hclosed (hpaired.of_bracket _).2 hv⟩
              · rw [hopen.ahead, htakes.ahead]
                rfl
              · simp only [Option.getD_none, htakes.taken, hopen.taken]
                rfl
            · cases hopener
  | unfinished h _ ih =>
      obtain ⟨hkept, o, -, hopen⟩ := eat_true h
      exact (ih (hpaired.of_bracket _).2 (hkept.trans hclean) hreport).earlier hopen
  | call _ ih => exact ih (paired_table ..) hclean hreport

end Runs

/-! ## Scripts -/

end ShellAwait.Grammar
