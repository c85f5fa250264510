import Mathlib.Logic.Basic
import ShellAwait.Proofs.Grammar.Progress

/-! # Progress of the rules

Every named part takes a token or reports a problem, and every repetition in the rules is brief. The
depth of references does not run out on the way, problems or not: a part refers to one of no smaller
rank only behind a token.
-/

namespace ShellAwait.Grammar

open Rule

variable {rule first second body : Rule} {kind closer : TokenKind}

/-- What a rule may rely on that is run with at most `n` tokens ahead. -/
structure Able (r : Reader) (n rank : Nat) : Prop where
  limit : n < r.limit
  /-- Parts of smaller rank may be referred to anywhere. -/
  low : ∀ category (s : State), category.rank < rank → s.ahead.length ≤ n →
    category.Starts s.view → r.Ends (call category) s .progress
  /-- Every part may be referred to behind the first token. -/
  deep : ∀ category (s : State), s.ahead.length < n → category.Starts s.view →
    r.Ends (call category) s .progress

/-- A rule ends wherever fewer than `n` tokens are ahead. -/
def Reader.EndsBelow (r : Reader) (n : Nat) (rule : Rule) (gain : Gain) : Prop :=
  ∀ s : State, s.ahead.length < n → r.Ends rule s gain

namespace Reader

variable {r : Reader} {n : Nat} {gain more : Gain}

theorem EndsBelow.of_le {m : Nat} (h : r.EndsBelow m rule gain) (hle : n ≤ m) :
    r.EndsBelow n rule gain := fun s hs => h s (Nat.lt_of_lt_of_le hs hle)

theorem below_eat (hkind : kind ≠ .eof) : r.EndsBelow n (eat kind) .nothing :=
  fun _ _ => ends_eat hkind

theorem below_expect (hkind : kind ≠ .eof) : r.EndsBelow n (expect kind) .progress :=
  fun _ _ => ends_expect hkind

theorem EndsBelow.any (h : r.EndsBelow n rule gain) : r.EndsBelow n rule .nothing :=
  fun s hs => (h s hs).any

theorem EndsBelow.seq (hfirst : r.EndsBelow n first gain) (hsecond : r.EndsBelow n second more) :
    r.EndsBelow n (first ++ second) gain := fun s hs =>
  ends_seq (hfirst s hs) fun u hu _ => hsecond u (Nat.lt_of_le_of_lt hu.ahead.length_le hs)

theorem EndsBelow.seq_second (hfirst : r.EndsBelow n first gain)
    (hsecond : r.EndsBelow n second more) : r.EndsBelow n (first ++ second) more := fun s hs =>
  (ends_both (hfirst s hs) fun u hu _ =>
    hsecond u (Nat.lt_of_le_of_lt hu.ahead.length_le hs)).2

theorem EndsBelow.andThen (hfirst : r.EndsBelow n first gain)
    (hsecond : r.EndsBelow n second .nothing) : r.EndsBelow n (andThen first second) gain :=
  fun s hs => ends_andThen (hfirst s hs) fun u hu _ =>
    hsecond u (Nat.lt_of_le_of_lt hu.ahead.length_le hs)

theorem EndsBelow.look {choose : View → Rule} (h : ∀ v, r.EndsBelow n (choose v) gain) :
    r.EndsBelow n (look choose) gain := fun s hs => ends_look (h s.view s hs)

theorem EndsBelow.succeed (h : r.EndsBelow n rule gain) : r.EndsBelow n (succeed rule) gain :=
  fun s hs => ends_succeed (h s hs)

theorem EndsBelow.node {kind : NodeKind} (h : r.EndsBelow n body gain) :
    r.EndsBelow n (.node kind body) gain := fun s hs => ends_node (h (s.enter kind []) hs)

theorem EndsBelow.wrap {kind : NodeKind} (h : r.EndsBelow n body gain) :
    r.EndsBelow n (.wrap kind body) gain := fun s hs => ends_wrap (h (s.enter kind _) hs)

theorem EndsBelow.withNoIn {noIn : Bool} (h : r.EndsBelow n body gain) :
    r.EndsBelow n (withNoIn noIn body) gain := fun _ hs => ends_withNoIn (h _ hs)

theorem EndsBelow.whenNext (h : r.EndsBelow n rule gain) :
    r.EndsBelow n (whenNext kind rule) .nothing := by
  refine .look fun v => ?_
  split
  · exact h.any
  · exact fun _ _ => ends_skip

theorem EndsBelow.unlessFailed (h : r.EndsBelow n rule gain) :
    r.EndsBelow n (unlessFailed rule) .nothing := by
  refine .look fun v => ?_
  split
  · exact fun _ _ => ends_skip
  · exact h.any

theorem EndsBelow.bracket {what : Enclosure} (h : r.EndsBelow n body gain) :
    r.EndsBelow (n + 1) (bracket what body) .progress := fun s hs =>
  ends_bracket fun u hu => h u (by omega)

theorem EndsBelow.bracket_next {what : Enclosure} {s : State} (h : r.EndsBelow n body gain)
    (hs : s.ahead.length ≤ n) (hnext : s.view.kind = what.opener) :
    r.Ends (.bracket what body) s .token :=
  ends_bracket_next hnext fun u hu => h u (by omega)

theorem Brief.many {goOn : View → Bool} {round : Rule} (h : r.Brief n goOn round)
    (hlimit : n ≤ r.limit) : r.EndsBelow n (many goOn round) .nothing := fun s hs =>
  ends_many h hs (by omega)

theorem Ends.follow {s : State} (hfirst : r.Ends first s .token) (hs : s.ahead.length ≤ n)
    (hsecond : r.EndsBelow n second gain) : r.Ends (first ++ second) s .token :=
  ends_seq hfirst fun u _ hu => hsecond u (Nat.lt_of_lt_of_le hu hs)

theorem ends_passed {choose : View → Rule} {s : State} (hskip : choose s.view = skip)
    (h : r.Ends second s gain) : r.Ends (look choose ++ second) s gain := by
  obtain ⟨b, t, hrun, hruns, h⟩ := h
  have hfirst : r.run (look choose) s = (true, s) := by
    rw [run, exec, hskip]
    rfl
  refine ⟨b, t, ?_, .seq (.look (b := true) (t := s) ?_) hruns, h⟩
  · rw [← hrun]
    exact congrArg (fun ran : Bool × State => r.run second ran.2) hfirst
  · rw [hskip]
    exact .skip

/-! ## Elements with commas -/

theorem kind_of_next {s : State} (h : s.view.next kind = true) : s.view.kind = kind :=
  beq_iff_eq.mp h

theorem within_ahead (v : View) (h : v.within closer = true) :
    v.kind ≠ .eof ∧ v.failed = false := by
  simp only [View.within, View.next, Bool.and_eq_true, Bool.not_eq_true', beq_eq_false_iff_ne] at h
  exact ⟨h.1.2, h.2⟩

theorem ends_separator {s : State} : r.Ends (separator closer) s .nothing := by
  refine ends_look ?_
  split
  · exact ends_skip
  · exact (ends_expect (by decide)).any

theorem brief_separated {element : Rule} (h : r.EndsBelow n element .progress) :
    r.Brief n (·.within closer) (element ++ separator closer) :=
  .of_progress within_ahead fun u hu _ => ends_seq (h u hu) fun _ _ _ => ends_separator

theorem brief_separatedWithHoles {element : Rule} (h : r.EndsBelow n element .progress) :
    r.Brief n (·.within closer)
      (look fun v => if v.next .comma then eat .comma else element ++ separator closer) := by
  refine .of_progress within_ahead fun u hu _ => ends_look ?_
  split
  · rename_i hnext
    exact (ends_next (kind_of_next hnext) (by decide)).some
  · exact ends_seq (h u hu) fun _ _ _ => ends_separator

theorem ends_terminator {s : State} : r.Ends terminator s .nothing := by
  refine ends_look ?_
  split
  · exact ends_eat (by decide)
  · split
    · exact ends_skip
    · exact ends_report.any

theorem ends_memberName {s : State} : r.Ends memberName s .progress := by
  refine ends_node (ends_look ?_)
  split
  · rename_i hname
    refine (ends_next rfl ?_).some
    revert hname
    unfold View.next
    cases (s.enter .memberName []).view.kind <;> decide
  · exact ends_report

end Reader

namespace Able

open Reader Category

variable {r : Reader} {n : Nat} {s : State}

section

variable {rank : Nat} (able : Able r n rank)

include able

theorem limit_le : n ≤ r.limit := Nat.le_of_lt able.limit

theorem below_call (category : Category) (hcategory : category ≠ .newExpression) :
    r.EndsBelow n (call category) .progress := fun s hs =>
  able.deep category s hs fun h => absurd h hcategory

theorem ends_first (category : Category) (hcategory : category ≠ .newExpression)
    (hrank : category.rank < rank) (hs : s.ahead.length ≤ n) :
    r.Ends (call category) s .progress :=
  able.low category s hrank hs fun h => absurd h hcategory

/-! ## Patterns and functions -/

theorem below_propertyKey : r.EndsBelow (n + 1) propertyKey .progress := by
  intro s hs
  refine ends_look ?_
  split
  · exact (able.below_call .assignment (by decide)).succeed.bracket.node s hs
  · split
    · rename_i hstarts
      refine (ends_node (ends_next rfl ?_)).some
      change s.view.kind ≠ .eof
      unfold View.startsKey View.nextIn at hstarts
      revert hstarts
      cases s.view.kind <;> decide
    · exact ends_report

theorem below_patternWithDefault : r.EndsBelow n patternWithDefault .progress := by
  have hvalue : r.EndsBelow n (eat .eq ++ call .assignment) .nothing :=
    EndsBelow.seq (below_eat (by decide)) (able.below_call .assignment (by decide))
  exact (able.below_call .pattern (by decide)).andThen hvalue.wrap.whenNext

theorem below_restPattern : r.EndsBelow n restPattern .progress :=
  (EndsBelow.seq_second (below_eat (by decide)) (able.below_call .pattern (by decide))).node

theorem below_patternElement : r.EndsBelow n
    (look fun v => if v.next .dotDotDot then restPattern else patternWithDefault) .progress := by
  refine .look fun v => ?_
  split
  · exact able.below_restPattern
  · exact able.below_patternWithDefault

theorem below_patternProperty : r.EndsBelow n patternProperty .progress := by
  refine EndsBelow.node (.look fun v => ?_)
  split
  · exact able.below_patternWithDefault
  · exact ((able.below_propertyKey.of_le (Nat.le_succ n)).seq (below_expect (by decide))).seq
      able.below_patternWithDefault

theorem below_patternEntry : r.EndsBelow n
    (look fun v => if v.next .dotDotDot then restPattern else patternProperty) .progress := by
  refine .look fun v => ?_
  split
  · exact able.below_restPattern
  · exact able.below_patternProperty

theorem below_pattern : r.EndsBelow (n + 1) pattern .progress := by
  intro s hs
  refine ends_look ?_
  split
  · rename_i hnext
    exact (ends_node (ends_next hnext (by decide))).some
  · exact ((brief_separatedWithHoles able.below_patternElement).many
      able.limit_le).bracket.node s hs
  · exact ((brief_separated able.below_patternEntry).many able.limit_le).bracket.node s hs
  · exact ends_report

theorem brief_statements {goOn : View → Bool}
    (hgo : ∀ v, goOn v = true → v.kind ≠ .eof ∧ v.failed = false) :
    r.Brief n goOn (call .statement) :=
  .of_progress hgo fun u hu _ => able.below_call .statement (by decide) u hu

theorem below_block : r.EndsBelow (n + 1) block .progress := by
  refine EndsBelow.node (.look fun v => ?_)
  split
  · exact ((able.brief_statements within_ahead).many able.limit_le).bracket
  · exact EndsBelow.seq (fun _ _ => ends_report) (below_eat (by decide))

theorem below_initializer : r.EndsBelow n initializer .nothing :=
  (EndsBelow.seq (below_eat (by decide)) (able.below_call .assignment (by decide))).whenNext

theorem below_parameter : r.EndsBelow n parameter .progress :=
  ((EndsBelow.seq_second (below_eat (by decide)) (able.below_call .pattern (by decide))).seq
    able.below_initializer).node

theorem below_parameterList : r.EndsBelow (n + 1) parameterList .progress :=
  ((brief_separated able.below_parameter).many able.limit_le).bracket.node

theorem below_functionTail (needsName : Bool) :
    r.EndsBelow (n + 1) (functionTail needsName) .progress := by
  have hrest := able.below_parameterList.seq able.below_block.unlessFailed
  have hmodifier : r.EndsBelow (n + 1)
      (look fun v => if v.nextWord "async" then eat .ident else skip) .nothing := by
    refine .look fun v => ?_
    split
    · exact below_eat (by decide)
    · exact fun _ _ => ends_skip
  have hfunction : r.EndsBelow (n + 1) (look fun v =>
      if v.next .star then report (.unsupported .generators)
      else if v.next .ident then eat .ident ++ (parameterList ++ unlessFailed block)
      else if needsName then report .missingFunctionName
      else parameterList ++ unlessFailed block) .progress := by
    refine .look fun v => ?_
    split
    · exact fun _ _ => ends_report
    · split
      · exact EndsBelow.seq_second (below_eat (by decide)) hrest
      · split
        · exact fun _ _ => ends_report
        · exact hrest
  exact (hmodifier.seq_second (below_expect (by decide))).seq hfunction

theorem ends_parameterList (hs : s.ahead.length ≤ n) (hnext : s.view.kind = .lParen) :
    r.Ends parameterList s .token :=
  ends_node (((brief_separated able.below_parameter).many able.limit_le).bracket_next hs hnext)

theorem below_arrowParameters : r.EndsBelow (n + 1) (look fun v =>
    if v.next .ident then .node .paramList (.node .param (.node .identPat (eat .ident)))
    else parameterList) .nothing := by
  refine .look fun v => ?_
  split
  · exact EndsBelow.node (EndsBelow.node (EndsBelow.node (below_eat (by decide))))
  · exact able.below_parameterList.any

/-- Where an arrow function starts, its name or its parameter list is next, so that its body stands
behind a token. -/
theorem ends_arrow (hs : s.ahead.length ≤ n) (hstarts : s.view.startsArrow = true) :
    r.Ends arrow s .token := by
  have hkind : s.view.kind = .ident ∨ s.view.kind = .lParen := by
    unfold View.startsArrow at hstarts
    split at hstarts
    · exact .inr ‹_›
    · exact .inl ‹_›
    · cases hstarts
  have hbody : r.EndsBelow n (look fun v => if v.next .lBrace then block else call .assignment)
      .nothing := by
    refine .look fun v => ?_
    split
    · exact (able.below_block.of_le (Nat.le_succ n)).any
    · exact (able.below_call .assignment (by decide)).any
  refine ends_node (Ends.follow (Ends.follow ?_ hs (below_expect (by decide))) hs hbody)
  by_cases hasync : (s.view.nextWord "async" && s.view.kindAt 1 != .fatArrow) = true
  · have hident : s.view.kind = .ident := by
      simp only [View.nextWord, Bool.and_eq_true, beq_iff_eq] at hasync
      exact hasync.1.1
    refine ends_seq (ends_look ?_) fun u hu _ =>
      able.below_arrowParameters u (Nat.lt_succ_of_le (Nat.le_trans hu.ahead.length_le hs))
    rw [show (s.enter .arrow []).view = s.view from rfl, if_pos hasync]
    exact ends_next hident (by decide)
  · refine ends_passed (if_neg hasync) (ends_look ?_)
    split
    · exact ends_node (ends_node (ends_node (ends_next (kind_of_next ‹_›) (by decide))))
    · rename_i hname
      refine able.ends_parameterList hs (hkind.resolve_left fun hident => hname ?_)
      exact beq_iff_eq.mpr hident

/-! ## Links and operands -/

theorem below_indexTail : r.EndsBelow (n + 1) indexTail .progress :=
  (able.below_call .expression (by decide)).succeed.withNoIn.bracket

theorem below_spread : r.EndsBelow n spread .progress :=
  (EndsBelow.seq_second (below_eat (by decide)) (able.below_call .assignment (by decide))).node

theorem below_element : r.EndsBelow n element .progress := by
  refine .look fun v => ?_
  split
  · exact able.below_spread
  · exact able.below_call .assignment (by decide)

theorem brief_arguments : r.Brief n (·.within .rParen) (element ++ eat .comma) :=
  .of_progress within_ahead fun u hu _ =>
    ends_seq (able.below_element u hu) fun _ _ _ => ends_eat (by decide)

theorem below_arguments :
    r.EndsBelow n (withNoIn false (many (·.within .rParen) (element ++ eat .comma))) .nothing :=
  (able.brief_arguments.many able.limit_le).withNoIn

theorem below_argumentList : r.EndsBelow (n + 1) argumentList .progress :=
  able.below_arguments.bracket.node

theorem ends_templatePart (hs : s.ahead.length ≤ n)
    (hnext : s.view.nextIn [.templateContent, .interpolationStart] = true) :
    r.Ends (look fun v => if v.next .templateContent then eat .templateContent else
      .node .interpolation (bracket .interpolation (succeed (call .expression)))) s .token := by
  refine ends_look ?_
  split
  · exact ends_next (kind_of_next ‹_›) (by decide)
  · rename_i hother
    have hopener : s.view.kind = .interpolationStart := by
      simp only [View.nextIn, List.contains_iff_mem, List.mem_cons, List.not_mem_nil, or_false]
        at hnext
      exact hnext.resolve_left fun h => hother (beq_iff_eq.mpr h)
    exact ends_node ((able.below_call .expression (by decide)).succeed.bracket_next hs hopener)

theorem brief_templateParts :
    r.Brief n (fun v => !v.failed && v.nextIn [.templateContent, .interpolationStart])
      (succeed (look fun v => if v.next .templateContent then eat .templateContent
        else .node .interpolation (bracket .interpolation (succeed (call .expression))))) := by
  refine .of_token (fun v hgo => ?_) fun u hu hgo => ?_
  · rw [Bool.and_eq_true] at hgo
    intro heof
    simp [View.nextIn, heof] at hgo
  · rw [Bool.and_eq_true] at hgo
    exact ends_succeed (able.ends_templatePart (Nat.le_of_lt hu) hgo.2)

theorem below_templateParts : r.EndsBelow n templateParts .nothing := by
  have hend : r.EndsBelow n (look fun v => if v.failed then fail else skip) .nothing := by
    refine .look fun v => ?_
    split
    · exact fun _ _ => ends_fail
    · exact fun _ _ => ends_skip
  intro s hs
  have hle := Nat.le_of_lt hs
  refine ends_look ?_
  split
  · rename_i hpart
    have hfirst := able.ends_templatePart hle hpart
    exact ((hfirst.follow hle (able.brief_templateParts.many able.limit_le)).follow hle hend).any
  · exact ends_skip

theorem ends_link (hs : s.ahead.length ≤ n) (hnext : s.view.nextIn linkKinds = true) :
    r.Ends link s .token := by
  have hindex := able.below_indexTail.of_le (Nat.le_succ n)
  have harguments := able.below_argumentList.of_le (Nat.le_succ n)
  have hname : r.EndsBelow n memberName .progress := fun _ _ => ends_memberName
  refine ends_look ?_
  split
  · exact ends_wrap (Ends.follow (ends_next ‹_› (by decide)) hs hname)
  · split
    · exact ends_wrap (Ends.follow (ends_next ‹_› (by decide)) hs harguments)
    · exact ends_wrap (Ends.follow (ends_next ‹_› (by decide)) hs hindex)
    · exact ends_wrap (Ends.follow (ends_next ‹_› (by decide)) hs hname)
  · exact ends_wrap ((able.below_call .expression (by decide)).succeed.withNoIn.bracket_next hs ‹_›)
  · exact ends_wrap (ends_node (able.below_arguments.bracket_next hs ‹_›))
  · exact ends_wrap (ends_node (able.below_templateParts.bracket_next hs ‹_›))
  · rename_i hdot hquestion hbracket hparen htemplate
    simp only [View.nextIn, linkKinds, List.contains_iff_mem, List.mem_cons, List.not_mem_nil,
      or_false] at hnext
    rcases hnext with h | h | h | h | h
    · exact absurd h hdot
    · exact absurd h hquestion
    · exact absurd h hbracket
    · exact absurd h hparen
    · exact absurd h htemplate

theorem brief_links {kinds : List TokenKind} (hkinds : kinds ⊆ linkKinds) :
    r.Brief (n + 1) (fun v => !v.failed && v.nextIn kinds) link := by
  have hlinks (v : View) (hgo : (!v.failed && v.nextIn kinds) = true) :
      v.nextIn linkKinds = true := by
    simp only [View.nextIn, Bool.and_eq_true, List.contains_iff_mem] at hgo ⊢
    exact hkinds hgo.2
  refine .of_token (fun v hgo heof => ?_) fun u hu hgo =>
    able.ends_link (Nat.le_of_lt_succ hu) (hlinks u.view hgo)
  have hnext := hlinks v hgo
  rw [View.nextIn, heof] at hnext
  cases hnext

theorem below_property : r.EndsBelow n property .progress := by
  intro s hs
  have hle := Nat.le_of_lt hs
  have hkey := able.below_propertyKey.of_le (Nat.le_succ n)
  have hparameters := able.below_parameterList.of_le (Nat.le_succ n)
  have hblock := able.below_block.of_le (Nat.le_succ n)
  refine ends_look ?_
  split
  · exact able.below_spread s hs
  · split
    · exact ends_node ends_report
    · split
      · exact ends_node ends_report
      · split
        · rename_i hasync
          simp only [View.nextWord, Bool.and_eq_true, beq_iff_eq] at hasync
          have hname : r.Ends (eat .ident) (s.enter .method []) .token :=
            ends_next hasync.1.1.1 (by decide)
          exact (ends_node (((hname.follow hle hkey).follow hle hparameters).follow hle
            hblock)).some
        · split
          · rename_i hname
            simp only [View.next, Bool.and_eq_true, beq_iff_eq] at hname
            exact (ends_node (ends_node (ends_next hname.1 (by decide)))).some
          · have hvalue : r.EndsBelow n (look fun v =>
                if v.next .lParen then become .method ++ parameterList ++ block
                else expect .colon ++ call .assignment) .nothing := by
              refine .look fun v => ?_
              split
              · exact (EndsBelow.seq (fun _ _ => ends_become) hparameters).seq hblock
              · exact (EndsBelow.seq (below_expect (by decide))
                  (able.below_call .assignment (by decide))).any
            exact (hkey.seq hvalue).node s hs

end

/-! ## Expressions -/

theorem ends_newExpression (able : Able r n (rank .newExpression)) (hs : s.ahead.length ≤ n)
    (hnext : s.view.kind = .newKw) : r.Ends Grammar.newExpression s .progress := by
  have hcallee : r.EndsBelow n
      (look fun v => if v.next .newKw then call .newExpression else call .primary) .progress := by
    intro u hu
    refine ends_look ?_
    split
    · exact able.deep .newExpression u hu fun _ => kind_of_next ‹_›
    · exact able.below_call .primary (by decide) u hu
  have hlinks : r.Brief (n + 1) (fun v => !v.failed && v.nextIn [.dot, .lBracket]) link :=
    able.brief_links (by decide)
  have harguments := able.below_argumentList.of_le (Nat.le_succ n)
  exact (ends_node (Ends.follow (ends_next hnext (by decide)) hs (hcallee.andThen
    (((hlinks.many able.limit).of_le (Nat.le_succ n)).seq harguments.whenNext)))).some

theorem ends_primary (able : Able r n (rank .primary)) (hs : s.ahead.length ≤ n) :
    r.Ends Grammar.primary s .progress := by
  have hliteral (hkind : s.view.kind ≠ .eof) :
      r.Ends (.node .literal (eat s.view.kind)) s .progress :=
    (ends_node (ends_next rfl hkind)).some
  have hvalue := (able.below_call .expression (by decide)).succeed
  have hbelow : s.ahead.length < n + 1 := Nat.lt_succ_of_le hs
  refine ends_look ?_
  split
  iterate 6 exact hliteral (ne_of_eq_of_ne ‹_› (by decide))
  · split
    · exact (able.below_functionTail false).node s hbelow
    · exact (ends_node (ends_next ‹_› (by decide))).some
  · exact (ends_node (ends_next ‹_› (by decide))).some
  · exact hvalue.withNoIn.bracket.node s hbelow
  · exact ((brief_separatedWithHoles able.below_element).many
      able.limit_le).withNoIn.bracket.node s hbelow
  · exact ((brief_separated able.below_property).many able.limit_le).withNoIn.bracket.node s hbelow
  · exact able.below_templateParts.bracket.node s hbelow
  · rename_i h
    exact able.low .newExpression s (by decide) hs fun _ => h
  · exact (able.below_functionTail false).node s hbelow
  iterate 3 exact ends_report

theorem ends_unary (able : Able r n (rank .unary)) (hs : s.ahead.length ≤ n) :
    r.Ends Grammar.unary s .progress := by
  refine ends_look ?_
  split
  · exact (ends_node (Ends.follow (ends_next (kind_of_next ‹_›) (by decide)) hs
      (able.below_call .unary (by decide)))).some
  · split
    · rename_i hleads
      have hkind : s.view.kind ≠ .eof := by
        revert hleads
        cases s.view.kind <;> decide
      exact (ends_node (Ends.follow (ends_next rfl hkind) hs
        (able.below_call .unary (by decide)))).some
    · have hlinks : r.EndsBelow (n + 1) (many (fun v => !v.failed && v.nextIn linkKinds) link)
          .nothing := (able.brief_links (List.Subset.refl _)).many able.limit
      have hfirst := able.ends_first .primary (by decide) (by decide) hs
      have hchain := ends_andThen hfirst fun u hu _ =>
        hlinks u (Nat.lt_succ_of_le (Nat.le_trans hu.ahead.length_le hs))
      refine ends_andThen hchain fun u _ _ => ends_look ?_
      split
      · rename_i htrail
        rw [Bool.and_eq_true] at htrail
        have hkind : u.view.kind ≠ .eof := by
          intro heof
          simp [View.nextIn, heof] at htrail
        exact (ends_wrap (ends_next rfl hkind)).any
      · exact ends_skip

theorem brief_binary {rank : Nat} (able : Able r n rank) (floor : Nat) :
    r.Brief (n + 1) (fun v => !v.failed && v.joins floor) (look fun v =>
      match v.power? with
      | some power => wrap .binaryExpr (eat v.kind ++ call (.binary power.right))
      | none => fail) := by
  have hpower (v : View) (hgo : (!v.failed && v.joins floor) = true) :
      ∃ power, v.power? = some power ∧ v.kind ≠ .eof := by
    cases hpower : v.power? with
    | none => simp [View.joins, hpower] at hgo
    | some power =>
        refine ⟨power, rfl, fun heof => ?_⟩
        simp [View.power?, View.next, heof, Grammar.power?] at hpower
  refine .of_token (fun v hgo => (hpower v hgo).choose_spec.2) fun u hu hgo => ?_
  obtain ⟨power, hsome, hkind⟩ := hpower u.view hgo
  refine ends_look ?_
  rw [hsome]
  exact ends_wrap (Ends.follow (ends_next rfl hkind) (Nat.le_of_lt_succ hu)
    (able.below_call (.binary power.right) fun h => by cases h))

theorem ends_binary (floor : Nat) (able : Able r n (rank (.binary floor)))
    (hs : s.ahead.length ≤ n) : r.Ends (Grammar.binary floor) s .progress :=
  ends_andThen (able.ends_first .unary (by decide) (Nat.lt_succ_self 3) hs) fun u hu _ =>
    (able.brief_binary floor).many able.limit u
      (Nat.lt_succ_of_le (Nat.le_trans hu.ahead.length_le hs))

theorem ends_assignment (able : Able r n (rank .assignment)) (hs : s.ahead.length ≤ n) :
    r.Ends Grammar.assignment s .progress := by
  have hvalue := able.below_call .assignment (by decide)
  refine ends_look ?_
  split
  · exact (able.ends_arrow hs ‹_›).some
  · split
    · exact ends_report
    · have hcondition := able.ends_first (.binary 0) (by decide) (Nat.lt_succ_self 4) hs
      refine ends_andThen hcondition fun u hu _ => ends_look ?_
      have hle := Nat.le_trans hu.ahead.length_le hs
      split
      · rename_i hquestion
        have htest : r.Ends (eat .question) (u.enter .condExpr (u.done.take 1)) .token :=
          ends_next (kind_of_next hquestion) (by decide)
        exact (ends_wrap (((htest.follow hle hvalue.withNoIn).follow hle
          (below_expect (by decide))).follow hle hvalue)).any
      · split
        · rename_i hassign
          have hkind : u.view.kind ≠ .eof := by
            revert hassign
            cases u.view.kind <;> decide
          exact (ends_wrap (Ends.follow (ends_next rfl hkind) hle hvalue)).any
        · exact ends_skip

theorem brief_commas {rank : Nat} (able : Able r n rank) :
    r.Brief (n + 1) (·.next .comma) (eat .comma ++ call .assignment) := by
  refine .of_token (fun v hgo heof => ?_) fun u hu hgo =>
    Ends.follow (ends_next (kind_of_next hgo) (by decide)) (Nat.le_of_lt_succ hu)
      (able.below_call .assignment (by decide))
  rw [View.next, heof] at hgo
  cases hgo

theorem ends_expression (able : Able r n (rank .expression)) (hs : s.ahead.length ≤ n) :
    r.Ends Grammar.expression s .progress :=
  ends_andThen (able.ends_first .assignment (by decide) (by decide) hs) fun u hu _ =>
    (able.brief_commas.many able.limit).wrap.whenNext u
      (Nat.lt_succ_of_le (Nat.le_trans hu.ahead.length_le hs))

/-! ## Statements -/

section

variable {rank : Nat} (able : Able r n rank)

include able

theorem below_declarator : r.EndsBelow n declarator .progress :=
  ((able.below_call .pattern (by decide)).seq able.below_initializer).node

theorem brief_declarators :
    r.Brief n (fun v => !v.failed && v.next .comma) (eat .comma ++ declarator) := by
  refine .of_token (fun v hgo heof => ?_) fun u hu hgo => ?_
  · simp [View.next, heof] at hgo
  · rw [Bool.and_eq_true] at hgo
    exact Ends.follow (ends_next (kind_of_next hgo.2) (by decide)) (Nat.le_of_lt hu)
      able.below_declarator

theorem ends_declaration (hs : s.ahead.length ≤ n) (hkind : s.view.kind ≠ .eof) :
    r.Ends declaration s .token := by
  have hkeyword : r.Ends takeAny s .token := ends_look (ends_next rfl hkind)
  exact (hkeyword.follow hs able.below_declarator).follow hs
    (able.brief_declarators.many able.limit_le)

theorem below_condition : r.EndsBelow (n + 1) condition .progress :=
  (able.below_call .expression (by decide)).succeed.bracket

theorem ends_ifStatement (hs : s.ahead.length ≤ n) (hnext : s.view.kind = .ifKw) :
    r.Ends ifStatement s .token := by
  have hkeyword : r.Ends (eat .ifKw) (s.enter .ifStmt []) .token := ends_next hnext (by decide)
  have hbranch := able.below_call .statement (by decide)
  have helse : r.EndsBelow n (look fun v => if v.next .elseKw && !v.failed then
      .node .elseClause (eat .elseKw ++ call .statement) else skip) .nothing := by
    refine .look fun v => ?_
    split
    · exact (EndsBelow.seq (below_eat (by decide)) hbranch).node
    · exact fun _ _ => ends_skip
  exact ends_node (((hkeyword.follow hs (able.below_condition.of_le (Nat.le_succ n))).follow hs
    hbranch).follow hs helse)

theorem ends_whileStatement (hs : s.ahead.length ≤ n) (hnext : s.view.kind = .whileKw) :
    r.Ends whileStatement s .token := by
  have hkeyword : r.Ends (eat .whileKw) (s.enter .whileStmt []) .token :=
    ends_next hnext (by decide)
  exact ends_node ((hkeyword.follow hs (able.below_condition.of_le (Nat.le_succ n))).follow hs
    (able.below_call .statement (by decide)).unlessFailed)

theorem ends_doWhileStatement (hs : s.ahead.length ≤ n) (hnext : s.view.kind = .doKw) :
    r.Ends doWhileStatement s .token := by
  have hkeyword : r.Ends (eat .doKw) (s.enter .doWhileStmt []) .token := ends_next hnext (by decide)
  have hwhile : r.EndsBelow n (expect .whileKw) .progress := below_expect (by decide)
  have hend : r.EndsBelow n (eat .semicolon) .nothing := below_eat (by decide)
  exact ends_node ((((hkeyword.follow hs (able.below_call .statement (by decide))).follow hs
    hwhile).follow hs (able.below_condition.of_le (Nat.le_succ n))).follow hs hend)

theorem below_loopClauses : r.EndsBelow n loopClauses .progress := by
  have hclause (kind : NodeKind) (stop : TokenKind) : r.EndsBelow n (.node kind (look fun v =>
      if v.next stop || v.failed then skip else call .expression)) .nothing := by
    refine EndsBelow.node (.look fun v => ?_)
    split
    · exact fun _ _ => ends_skip
    · exact (able.below_call .expression (by decide)).any
  have hsemicolon : r.EndsBelow n (expect .semicolon) .progress := below_expect (by decide)
  exact ((hsemicolon.seq (hclause .forTest .semicolon)).seq hsemicolon).seq
    (hclause .forUpdate .rParen)

theorem below_loopTarget : r.EndsBelow n (withNoIn true (look fun v =>
    if v.nextIn [.varKw, .letKw, .constKw] then .node .varDecl declaration
    else call .expression)) .progress := by
  refine EndsBelow.withNoIn fun s hs => ends_look ?_
  split
  · rename_i hdeclarer
    refine (ends_node (able.ends_declaration (Nat.le_of_lt hs) fun heof => ?_)).some
    rw [View.nextIn, show s.view.kind = .eof from heof] at hdeclarer
    cases hdeclarer
  · exact able.below_call .expression (by decide) s hs

theorem below_loopHead : r.EndsBelow n loopHead .nothing := by
  have hclauses := able.below_loopClauses.succeed
  refine .look fun v => ?_
  split
  · split
    · exact fun _ _ => ends_fail
    · exact EndsBelow.seq (EndsBelow.node fun _ _ => ends_skip) hclauses
  · refine (able.below_loopTarget.andThen (EndsBelow.look fun v => ?_)).any
    split
    · exact fun _ _ => ends_fail
    · split
      · exact EndsBelow.seq (EndsBelow.seq (fun _ _ => ends_become) (below_eat (by decide)))
          (able.below_call .assignment (by decide)).succeed
      · split
        · exact EndsBelow.seq (EndsBelow.seq (fun _ _ => ends_become) (below_eat (by decide)))
            (able.below_call .expression (by decide)).succeed
        · exact EndsBelow.seq (EndsBelow.wrap fun _ _ => ends_skip) hclauses

theorem ends_forStatement (hs : s.ahead.length ≤ n) (hnext : s.view.kind = .forKw) :
    r.Ends forStatement s .token := by
  have hkeyword : r.Ends (eat .forKw) (s.enter .forStmt []) .token := ends_next hnext (by decide)
  have hloop : r.EndsBelow n (look fun v =>
      if v.next .awaitKw then report (.unsupported .asyncLoops)
      else bracket .loopHead loopHead ++ unlessFailed (call .statement)) .progress := by
    refine .look fun v => ?_
    split
    · exact fun _ _ => ends_report
    · exact (able.below_loopHead.bracket.of_le (Nat.le_succ n)).seq
        (able.below_call .statement (by decide)).unlessFailed
  exact ends_node (hkeyword.follow hs hloop)

theorem ends_returnStatement (hs : s.ahead.length ≤ n) (hnext : s.view.kind = .returnKw) :
    r.Ends returnStatement s .token := by
  have hkeyword : r.Ends (eat .returnKw) (s.enter .returnStmt []) .token :=
    ends_next hnext (by decide)
  have hvalue : r.EndsBelow n
      (look fun v => if v.endsStatement then skip else call .expression) .nothing := by
    refine .look fun v => ?_
    split
    · exact fun _ _ => ends_skip
    · exact (able.below_call .expression (by decide)).any
  have hend : r.EndsBelow n terminator .nothing := fun _ _ => ends_terminator
  exact ends_node ((hkeyword.follow hs hvalue).follow hs hend)

theorem ends_throwStatement (hs : s.ahead.length ≤ n) (hnext : s.view.kind = .throwKw) :
    r.Ends throwStatement s .token := by
  have hkeyword : r.Ends (eat .throwKw) (s.enter .throwStmt []) .token :=
    ends_next hnext (by decide)
  have hvalue : r.EndsBelow n (look fun v =>
      if v.breakAt 0 then report .breakAfterThrow else call .expression ++ terminator)
      .progress := by
    refine .look fun v => ?_
    split
    · exact fun _ _ => ends_report
    · exact (able.below_call .expression (by decide)).seq fun _ _ => ends_terminator
  exact ends_node (hkeyword.follow hs hvalue)

theorem below_catchClause : r.EndsBelow n catchClause .progress :=
  have hbinding := (able.below_call .pattern (by decide)).succeed.bracket.of_le (Nat.le_succ n)
  ((EndsBelow.seq (below_eat (by decide)) hbinding.whenNext).seq_second
    (able.below_block.of_le (Nat.le_succ n))).node

theorem below_finallyClause : r.EndsBelow n finallyClause .progress :=
  (EndsBelow.seq_second (below_eat (by decide)) (able.below_block.of_le (Nat.le_succ n))).node

theorem ends_tryStatement (hs : s.ahead.length ≤ n) (hnext : s.view.kind = .tryKw) :
    r.Ends tryStatement s .token := by
  have hkeyword : r.Ends (eat .tryKw) (s.enter .tryStmt []) .token := ends_next hnext (by decide)
  have hlast : r.EndsBelow n
      (look fun v => if v.next .finallyKw && !v.failed then finallyClause else skip) .nothing := by
    refine .look fun v => ?_
    split
    · exact able.below_finallyClause.any
    · exact fun _ _ => ends_skip
  have hclauses : r.EndsBelow n (look fun v => if v.next .catchKw && !v.failed then
      catchClause ++ look fun v => if v.next .finallyKw && !v.failed then finallyClause else skip
    else if v.next .finallyKw && !v.failed then finallyClause
    else report .missingHandler) .progress := by
    refine .look fun v => ?_
    split
    · exact able.below_catchClause.seq hlast
    · split
      · exact able.below_finallyClause
      · exact fun _ _ => ends_report
  exact ends_node ((hkeyword.follow hs (able.below_block.of_le (Nat.le_succ n))).follow hs hclauses)

theorem brief_caseStatements : r.Brief n
    (fun v => !v.nextIn [.caseKw, .defaultKw, .rBrace, .eof] && !v.failed) (call .statement) := by
  refine able.brief_statements fun v hgo => ?_
  simp only [Bool.and_eq_true, Bool.not_eq_true'] at hgo
  refine ⟨fun heof => ?_, hgo.2⟩
  rw [View.nextIn, heof] at hgo
  cases hgo.1

theorem below_caseBody : r.EndsBelow n caseBody .progress :=
  EndsBelow.seq (below_expect (by decide)) (able.brief_caseStatements.many able.limit_le)

theorem below_switchCase : r.EndsBelow n switchCase .progress := by
  refine EndsBelow.node (.look fun v => ?_)
  split
  · exact EndsBelow.seq_second
      (EndsBelow.seq (below_eat (by decide)) (able.below_call .expression (by decide)))
      able.below_caseBody
  · split
    · exact EndsBelow.seq_second (below_eat (by decide)) able.below_caseBody
    · exact fun _ _ => ends_report

theorem brief_switchCases : r.Brief n (·.within .rBrace) switchCase :=
  .of_progress within_ahead fun u hu _ => able.below_switchCase u hu

theorem ends_switchStatement (hs : s.ahead.length ≤ n) (hnext : s.view.kind = .switchKw) :
    r.Ends switchStatement s .token := by
  have hkeyword : r.Ends (eat .switchKw) (s.enter .switchStmt []) .token :=
    ends_next hnext (by decide)
  exact ends_node ((hkeyword.follow hs (able.below_condition.of_le (Nat.le_succ n))).follow hs
    ((able.brief_switchCases.many able.limit_le).bracket.of_le (Nat.le_succ n)))

end

theorem ends_jumpStatement {kind : NodeKind} (hkind : s.view.kind ≠ .eof) :
    r.Ends (jumpStatement kind) s .token := by
  have hkeyword : r.Ends takeAny (s.enter kind []) .token := ends_look (ends_next rfl hkind)
  have hlabel (u : State) : r.Ends (look fun v => if v.next .ident && !v.breakAt 0 then
      report (.unsupported .labels) else skip) u .nothing := by
    refine ends_look ?_
    split
    · exact ends_report.any
    · exact ends_skip
  exact ends_node (ends_seq (ends_seq hkeyword fun u _ _ => hlabel u) fun _ _ _ => ends_terminator)

theorem ends_statement (able : Able r n (rank .statement)) (hs : s.ahead.length ≤ n) :
    r.Ends Grammar.statement s .progress := by
  have hbelow : s.ahead.length < n + 1 := Nat.lt_succ_of_le hs
  have hdeclaration (hkind : s.view.kind ≠ .eof) :
      r.Ends (.node .varDecl (declaration ++ terminator)) s .progress :=
    (ends_node (ends_seq (able.ends_declaration hs hkind) fun _ _ _ => ends_terminator)).some
  have hexpression : r.Ends expressionStatement s .progress :=
    ends_node (ends_andThen (able.ends_first .expression (by decide) (by decide) hs)
      fun _ _ _ => ends_terminator)
  refine ends_look ?_
  split
  · exact able.below_block s hbelow
  · exact hdeclaration (ne_of_eq_of_ne ‹_› (by decide))
  · exact hdeclaration (ne_of_eq_of_ne ‹_› (by decide))
  · exact hdeclaration (ne_of_eq_of_ne ‹_› (by decide))
  · exact (able.below_functionTail true).node s hbelow
  · exact (able.ends_ifStatement hs ‹_›).some
  · exact (able.ends_whileStatement hs ‹_›).some
  · exact (able.ends_doWhileStatement hs ‹_›).some
  · exact (able.ends_forStatement hs ‹_›).some
  · exact (able.ends_returnStatement hs ‹_›).some
  · exact (ends_jumpStatement (ne_of_eq_of_ne ‹_› (by decide))).some
  · exact (ends_jumpStatement (ne_of_eq_of_ne ‹_› (by decide))).some
  · exact (able.ends_throwStatement hs ‹_›).some
  · exact (able.ends_tryStatement hs ‹_›).some
  · exact (able.ends_switchStatement hs ‹_›).some
  · exact (ends_node (ends_next ‹_› (by decide))).some
  iterate 3 exact ends_report
  · split
    · exact (able.below_functionTail true).node s hbelow
    · split
      · exact ends_report
      · exact hexpression
  · exact hexpression

end Able

end ShellAwait.Grammar
