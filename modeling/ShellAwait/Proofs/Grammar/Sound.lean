import ShellAwait.Proofs.Grammar.Rules

/-! # Statements and scripts

Every statement makes one well-shaped node. With that, all named parts do, at any depth of
references that is left behind some tokens, and so every node of a script that is read without a
problem is well shaped.
-/

namespace ShellAwait.Grammar

open ShellAwait.Tree Rule Reader Category

variable {s t : State}

namespace Ready

variable {r : Reader} {n : Nat}

theorem yields_terminator : r.Yields terminator s 0 := by
  refine yields_look ?_
  split
  · exact yields_eat rfl
  · split
    · exact yields_skip
    · exact yields_report

theorem deep_terminator : r.Deep n terminator 0 := fun _ _ => yields_terminator

theorem makes_jumpStatement {kind : NodeKind} (hplain : kind.isPlain = true)
    (hsolid : s.view.kind.isSolid = true) : r.Makes (· == kind) (jumpStatement kind) s s.done := by
  have hkeyword : r.Yields takeAny (s.enter kind []) 2 := yields_look (yields_eat_next hsolid rfl)
  refine makes_node (k := 2) (yields_seq (k := 0) (yields_seq (k := 0) hkeyword fun u _ => ?_)
    fun u _ => yields_terminator) hplain (least_le_two kind)
  refine yields_look ?_
  split
  · exact yields_report
  · exact yields_skip

/-- The head of a loop as it has been read: the loop keeps its kind, or it runs over a value, and
then the first tree of the head is its target. -/
def Headed (s t : State) : Prop :=
  Added s t 0 ∨ s.Keeps t ∧ t.kind = .forInStmt ∧ ∃ new kind children,
    t.done = new ++ .node kind children :: s.done ∧ WellShapedAll (new ++ [.node kind children])

theorem Headed.keeps (h : Headed s t) : s.Keeps t := by
  rcases h with h | ⟨h, -⟩
  · exact h.keeps
  · exact h

theorem shaped_each {keyword paren : Token} {kind : NodeKind} {children rest : List Tree}
    (hkeyword : keyword.kind = .forKw) (hparen : paren.kind = .lParen) :
    Shaped .forInStmt (.leaf keyword :: .leaf paren :: .node kind children :: rest) := by
  refine ⟨?_, nofun, fun _ => ?_⟩
  · have hleast : NodeKind.forInStmt.least = 1 := rfl
    simp only [bulk, hkeyword, TokenKind.isTrivia, hleast, Bool.false_eq_true, if_false]
    omega
  · simp [isLeafOf, hkeyword, hparen]

theorem headed_target {u : State} {rule : Rule} {b : Bool} (hs : u.ahead.length < n)
    (hmade : Made (fun kind => !kind.mayBeEmpty) s.done s true u) (hrule : r.Deep n rule 0)
    (hrun : r.run rule { u with kind := .forInStmt } = (b, t)) (hclean : t.report = none) :
    Headed s t := by
  have hadded := hrule { u with kind := .forInStmt } hs b t hrun hclean
  obtain ⟨kind, children, -, hshape, hdone⟩ := hmade.done
  obtain ⟨new, hnew, hshapes, -⟩ := hadded.done
  have hkeeps : s.Keeps t :=
    hmade.keeps.trans ⟨hadded.keeps.word, hadded.keeps.ahead, hadded.keeps.report⟩
  exact .inr ⟨hkeeps, hadded.kind, new, kind, children,
    by rw [hnew]; exact congrArg (new ++ ·) hdone,
    wellShapedAll_append hshapes ⟨hshape, trivial⟩⟩

section

variable {rank : Nat} (ready : Ready r n rank)

include ready

theorem deep_declarator : r.Deep n declarator 1 :=
  ((ready.deep_call .pattern (by decide)).seq ready.deep_initializer).node rfl (Nat.le_refl 1)

theorem yields_declaration (hs : s.ahead.length ≤ n) (hsolid : s.view.kind.isSolid = true) :
    r.Yields declaration s 3 := by
  have hkeyword : r.Yields takeAny s 2 := yields_look (yields_eat_next hsolid rfl)
  have hround : r.Deep n (eat .comma ++ declarator) 0 :=
    ((deep_eat rfl).seq ready.deep_declarator).mono (Nat.zero_le _)
  exact (hkeyword.follow hs ready.deep_declarator).follow hs hround.many

theorem deep_condition : r.Deep n condition 2 := fun _ hs =>
  ((ready.deep_call .expression (by decide)).mono (Nat.zero_le 1)).succeed.bracket (Nat.le_of_lt hs)

theorem makes_ifStatement (hs : s.ahead.length ≤ n) (hnext : s.view.kind = .ifKw) :
    r.Makes (· == .ifStmt) ifStatement s s.done := by
  have hkeyword : r.Yields (eat .ifKw) (s.enter .ifStmt []) 2 := yields_eat_next rfl hnext
  have hclause : r.Deep n (.node .elseClause (eat .elseKw ++ call .statement)) 1 :=
    ((deep_eat rfl).seq (ready.deep_call .statement (by decide))).node rfl (Nat.le_refl 1)
  have helse : r.Deep n (look fun v => if v.next .elseKw && !v.failed then
      .node .elseClause (eat .elseKw ++ call .statement) else skip) 0 := by
    refine deep_look fun v => ?_
    split
    · exact hclause.mono (Nat.zero_le 1)
    · exact deep_skip
  exact makes_node (((hkeyword.follow hs ready.deep_condition).follow hs
    (ready.deep_call .statement (by decide))).follow hs helse) rfl (by decide)

theorem makes_whileStatement (hs : s.ahead.length ≤ n) (hnext : s.view.kind = .whileKw) :
    r.Makes (· == .whileStmt) whileStatement s s.done := by
  have hkeyword : r.Yields (eat .whileKw) (s.enter .whileStmt []) 2 := yields_eat_next rfl hnext
  have hbody : r.Deep n (unlessFailed (call .statement)) 0 := by
    refine deep_look fun v => ?_
    split
    · exact deep_skip
    · exact (ready.deep_call .statement (by decide)).mono (Nat.zero_le 1)
  exact makes_node ((hkeyword.follow hs ready.deep_condition).follow hs hbody) rfl (by decide)

theorem makes_doWhileStatement (hs : s.ahead.length ≤ n) (hnext : s.view.kind = .doKw) :
    r.Makes (· == .doWhileStmt) doWhileStatement s s.done := by
  have hkeyword : r.Yields (eat .doKw) (s.enter .doWhileStmt []) 2 := yields_eat_next rfl hnext
  have hend : r.Deep n (eat .semicolon) 0 := deep_eat rfl
  exact makes_node ((((hkeyword.follow hs (ready.deep_call .statement (by decide))).follow hs
    (deep_expect .whileKw rfl)).follow hs ready.deep_condition).follow hs hend) rfl (by decide)

theorem makes_returnStatement (hs : s.ahead.length ≤ n) (hnext : s.view.kind = .returnKw) :
    r.Makes (· == .returnStmt) returnStatement s s.done := by
  have hkeyword : r.Yields (eat .returnKw) (s.enter .returnStmt []) 2 := yields_eat_next rfl hnext
  have hvalue : r.Deep n (look fun v => if v.endsStatement then skip else call .expression) 0 := by
    refine deep_look fun v => ?_
    split
    · exact deep_skip
    · exact (ready.deep_call .expression (by decide)).mono (Nat.zero_le 1)
  exact makes_node ((hkeyword.follow hs hvalue).follow hs deep_terminator) rfl (by decide)

theorem makes_throwStatement (hs : s.ahead.length ≤ n) (hnext : s.view.kind = .throwKw) :
    r.Makes (· == .throwStmt) throwStatement s s.done := by
  refine makes_node_next (k := 0) rfl rfl hnext hs (deep_look fun v => ?_)
  split
  · exact deep_report
  · exact ((ready.deep_call .expression (by decide)).seq deep_terminator).mono (Nat.zero_le 1)

theorem makes_tryStatement (hs : s.ahead.length ≤ n) (hnext : s.view.kind = .tryKw) :
    r.Makes (· == .tryStmt) tryStatement s s.done := by
  have hkeyword : r.Yields (eat .tryKw) (s.enter .tryStmt []) 2 := yields_eat_next rfl hnext
  have hfinally : r.Deep n finallyClause 1 :=
    ((deep_eat rfl).seq ready.deep_block).node rfl (Nat.le_refl 1)
  have hbinding : r.Deep n (whenNext .lParen (bracket .catchBinding (succeed (call .pattern)))) 0 :=
    Deep.whenNext fun u hu => (((ready.deep_call .pattern (by decide)).mono
      (Nat.zero_le 1)).succeed.bracket
      (Nat.le_of_lt hu)).mono (Nat.zero_le 2)
  have hcatch : r.Deep n catchClause 1 :=
    (((deep_eat rfl).seq hbinding).seq ready.deep_block).node rfl (Nat.le_refl 1)
  have hclauses : r.Deep n (look fun v => if v.next .catchKw && !v.failed then
      catchClause ++ look fun v => if v.next .finallyKw && !v.failed then finallyClause else skip
    else if v.next .finallyKw && !v.failed then finallyClause else report .missingHandler) 0 := by
    refine deep_look fun v => ?_
    split
    · refine (hcatch.seq (k := 0) (deep_look fun v => ?_)).mono (Nat.zero_le 1)
      split
      · exact hfinally.mono (Nat.zero_le 1)
      · exact deep_skip
    · split
      · exact hfinally.mono (Nat.zero_le 1)
      · exact deep_report
  exact makes_node ((hkeyword.follow hs ready.deep_block).follow hs hclauses) rfl (by decide)

theorem deep_caseBody : r.Deep n caseBody 2 :=
  (deep_expect .colon rfl).seq ((ready.deep_call .statement (by decide)).mono (Nat.zero_le 1)).many

theorem deep_switchCase : r.Deep n switchCase 1 := by
  intro s hs
  refine (makes_node (k := 2) (yields_look ?_) rfl (least_le_two _)).solid rfl
  split
  · have htest : r.Deep n (eat .caseKw ++ call .expression) 1 :=
      (deep_eat rfl).seq (ready.deep_call .expression (by decide))
    exact ((htest.seq ready.deep_caseBody) (s.enter .switchCase []) hs).mono (Nat.le_succ 2)
  · split
    · exact ((deep_eat rfl).seq ready.deep_caseBody) (s.enter .switchCase []) hs
    · exact yields_report

theorem makes_switchStatement (hs : s.ahead.length ≤ n) (hnext : s.view.kind = .switchKw) :
    r.Makes (· == .switchStmt) switchStatement s s.done := by
  have hkeyword : r.Yields (eat .switchKw) (s.enter .switchStmt []) 2 := yields_eat_next rfl hnext
  have hcases : r.Deep n (bracket .switchBody (many (·.within .rBrace) switchCase)) 2 := fun _ hu =>
    (ready.deep_switchCase.mono (Nat.zero_le 1)).many.bracket (Nat.le_of_lt hu)
  exact makes_node ((hkeyword.follow hs ready.deep_condition).follow hs hcases) rfl (by decide)

/-! ### Loops with a head -/

theorem deep_loopClauses : r.Deep n loopClauses 0 := by
  have hclause (kind : NodeKind) (stop : TokenKind) (hplain : kind.isPlain = true)
      (hleast : kind.least ≤ 0) :
      r.Deep n (.node kind (look fun v =>
        if v.next stop || v.failed then skip else call .expression))
        0 := by
    have hbody : r.Deep n
        (look fun v => if v.next stop || v.failed then skip else call .expression) 0 := by
      refine deep_look fun v => ?_
      split
      · exact deep_skip
      · exact (ready.deep_call .expression (by decide)).mono (Nat.zero_le 1)
    exact (hbody.node hplain hleast).mono (Nat.zero_le _)
  have hsemicolon : r.Deep n (expect .semicolon) 0 := (deep_expect _ rfl).mono (Nat.zero_le 2)
  exact ((hsemicolon.seq (hclause .forTest .semicolon rfl (Nat.le_refl 0))).seq hsemicolon).seq
    (hclause .forUpdate .rParen rfl (Nat.le_refl 0))

theorem headed_loopHead {b : Bool} (hs : s.ahead.length < n) (hrun : r.run loopHead s = (b, t))
    (hclean : t.report = none) : Headed s t := by
  have hclauses := ready.deep_loopClauses.succeed
  unfold loopHead at hrun
  rw [run, exec] at hrun
  split at hrun
  · split at hrun
    · exact .inl (yields_fail b t hrun hclean)
    · have hinit : r.Deep n (.node .forInit skip) 0 := deep_skip.node rfl (Nat.le_refl 0)
      exact .inl ((hinit.seq hclauses) s hs b t hrun hclean)
  · obtain ⟨c, u, hu, hreport, hnext⟩ := run_andThen (r := r) hrun hclean
    have htarget : r.Makes (fun kind => !kind.mayBeEmpty) (withNoIn true (look fun v =>
        if v.nextIn [.varKw, .letKw, .constKw] then .node .varDecl declaration
        else call .expression)) s s.done := by
      refine makes_withNoIn (makes_look ?_)
      split
      · rename_i hvar
        have hsolid : s.view.kind.isSolid = true := by
          change [TokenKind.varKw, .letKw, .constKw].contains s.view.kind = true at hvar
          revert hvar
          cases s.view.kind <;> decide
        let inside : State := { s with noIn := true }.enter .varDecl []
        have hkind : inside.view.kind = s.view.kind := rfl
        have hahead : inside.ahead.length ≤ n := Nat.le_of_lt hs
        have hdeclaration := ready.yields_declaration hahead (hkind ▸ hsolid)
        exact (makes_node hdeclaration rfl (by decide)).of_kind rfl
      · exact (ready.deep .expression { s with noIn := true } hs
          (fun h => by cases h)).mono fun kind hkind => by
          rw [solid_of_isExpression kind hkind]
          rfl
    have hmade := htarget c u hu hreport
    have hlength : u.ahead.length < n := Nat.lt_of_le_of_lt hmade.keeps.ahead.length_le hs
    have hadded := hmade.added (Nat.zero_le 1) (fun h => absurd h Nat.zero_ne_one)
    have hrest := hnext hmade.success
    rw [hmade.success] at hmade
    rw [run, exec] at hrest
    split at hrest
    · exact .inl (hadded.trans (yields_fail b t hrest hclean))
    · split at hrest
      · have hvalue : r.Deep n (eat .ident ++ succeed (call .assignment)) 0 :=
          (deep_eat rfl).seq ((ready.deep_call .assignment (by decide)).mono
            (Nat.zero_le 1)).succeed
        exact headed_target hlength hmade hvalue hrest hclean
      · split at hrest
        · have hvalue : r.Deep n (eat .inKw ++ succeed (call .expression)) 0 :=
            (deep_eat rfl).seq ((ready.deep_call .expression (by decide)).mono
              (Nat.zero_le 1)).succeed
          exact headed_target hlength hmade hvalue hrest hclean
        · obtain ⟨kind, children, hkind, hshape, hdone⟩ := hmade.done
          obtain ⟨d, v, hv, hreport, hlast⟩ := run_seq hrest hclean
          have hinit := makes_wrap hshape hdone (by simpa using hkind) yields_skip rfl
            (by decide : NodeKind.forInit.least ≤ 0 + 1) d v hv hreport
          have hwrapped : Made (· == .forInit) s.done s d v :=
            ⟨hinit.success, hinit.kind.trans hmade.kind, hmade.keeps.trans hinit.keeps, hinit.done⟩
          have hbefore := hwrapped.added (Nat.zero_le 1) (fun h => absurd h Nat.zero_ne_one)
          have hafter := hclauses v (Nat.lt_of_le_of_lt hbefore.length_le hs) b t hlast hclean
          exact .inl (hbefore.trans hafter)

theorem makes_forStatement (hs : s.ahead.length ≤ n) (hnext : s.view.kind = .forKw) :
    r.Makes (fun kind => !kind.mayBeEmpty) forStatement s s.done := by
  refine makes_node_of fun b t hrun hclean => ?_
  obtain ⟨c, u, hu, hreport, hrest⟩ := run_seq hrun hclean
  have hkeyword : c = true := by
    have htaken := eat_next (s := s.enter .forStmt []) rfl hnext
    rwa [show (s.enter .forStmt []).eat .forKw = (c, u) from hu] at htaken
  subst hkeyword
  have hfirst := added_eat rfl hu
  obtain ⟨keyword, hkeyword, hdone, -⟩ := eat_true hu
  rw [run, exec] at hrest
  split at hrest
  · exact absurd hclean (run_report (r := r) hrest)
  · obtain ⟨d, v, hv, hreport, hbody⟩ := run_seq (r := r) hrest hclean
    obtain ⟨w, e, x, hw, hx, hreport', hclosed⟩ := run_bracket hv hreport
    have hopened := hfirst.trans (added_eat (isSolid_opener .loopHead) hw)
    obtain ⟨paren, hparen, hdone', -⟩ := eat_true hw
    have hlength : w.ahead.length < n := Nat.lt_of_lt_of_le (hopened.length_lt (by omega)) hs
    have hhead := ready.headed_loopHead hlength hx hreport'
    have hlast : Added v t 0 := by
      have hrule : r.Deep n (unlessFailed (call .statement)) 0 := by
        refine deep_look fun v => ?_
        split
        · exact deep_skip
        · exact (ready.deep_call .statement (by decide)).mono (Nat.zero_le 1)
      refine hrule v (Nat.lt_of_le_of_lt ?_ hlength) b t hbody hclean
      exact Nat.le_trans hclosed.length_le hhead.keeps.ahead.length_le
    have hlater := hclosed.trans hlast
    rcases hhead with hadded | ⟨-, hkind, new, kind, children, hnew, hshapes⟩
    · have hall := hopened.trans (hadded.trans hlater)
      have hleast : NodeKind.forStmt.least ≤ 4 := by decide
      exact ⟨by rw [hall.kind]; rfl, hall.wellShaped trivial rfl hleast⟩
    · obtain ⟨more, hmore, hshapes', -⟩ := hlater.done
      have hchildren : t.done.reverse =
          .leaf keyword :: .leaf paren :: .node kind children :: (more ++ new).reverse := by
        rw [hmore, hnew, hdone', hdone]
        simp [State.enter]
      have hwhole := wellShapedAll_append hshapes' hshapes
      rw [hlater.kind, hkind, hchildren]
      refine ⟨rfl, shaped_each hkeyword hparen, (wellShaped_leaf (by rw [hkeyword]; rfl)).1,
        (wellShaped_leaf (by rw [hparen]; rfl)).1, ?_⟩
      rw [← List.append_assoc, wellShapedAll_iff] at hwhole
      exact ⟨hwhole _ (by simp), (wellShapedAll_iff _).mpr fun tree htree =>
        hwhole tree (List.mem_append_left _ (List.mem_reverse.mp htree))⟩

end

section

variable (ready : Ready r n (rank .statement))

include ready

theorem makes_expressionStatement (hs : s.ahead.length ≤ n) :
    r.Makes (· == .exprStmt) expressionStatement s s.done := by
  have hvalue := (ready.low .expression (s.enter .exprStmt []) (by decide) hs nofun).yields
    solid_of_admits
  exact makes_node (yields_andThen hvalue fun _ _ => yields_terminator) rfl (Nat.le_refl 1)

theorem makes_statement (hs : s.ahead.length ≤ n) :
    r.Makes (fun kind => !kind.mayBeEmpty) Grammar.statement s s.done := by
  have hdeclaration (hsolid : s.view.kind.isSolid = true) : r.Makes (fun kind => !kind.mayBeEmpty)
      (.node .varDecl (declaration ++ terminator)) s s.done := by
    have hbody := ready.yields_declaration (s := s.enter .varDecl []) hs hsolid
    exact (makes_node (hbody.follow hs deep_terminator) rfl (by decide)).of_kind rfl
  refine makes_look ?_
  split
  · exact (ready.makes_block hs).of_kind rfl
  · rename_i h
    exact hdeclaration (h ▸ rfl)
  · rename_i h
    exact hdeclaration (h ▸ rfl)
  · rename_i h
    exact hdeclaration (h ▸ rfl)
  · exact (ready.makes_functionDecl hs).of_kind rfl
  · exact (ready.makes_ifStatement hs ‹_›).of_kind rfl
  · exact (ready.makes_whileStatement hs ‹_›).of_kind rfl
  · exact (ready.makes_doWhileStatement hs ‹_›).of_kind rfl
  · exact ready.makes_forStatement hs ‹_›
  · exact (ready.makes_returnStatement hs ‹_›).of_kind rfl
  · rename_i h
    exact (makes_jumpStatement rfl (h ▸ rfl)).of_kind rfl
  · rename_i h
    exact (makes_jumpStatement rfl (h ▸ rfl)).of_kind rfl
  · exact (ready.makes_throwStatement hs ‹_›).of_kind rfl
  · exact (ready.makes_tryStatement hs ‹_›).of_kind rfl
  · exact (ready.makes_switchStatement hs ‹_›).of_kind rfl
  · exact (makes_node (yields_eat_next rfl ‹_›) rfl (least_le_two _)).of_kind rfl
  · exact makes_report
  · exact makes_report
  · exact makes_report
  · split
    · exact (ready.makes_functionDecl hs).of_kind rfl
    · split
      · exact makes_report
      · exact (ready.makes_expressionStatement hs).of_kind rfl
  · exact (ready.makes_expressionStatement hs).of_kind rfl

end

end Ready

/-! ## Depth -/

theorem makes_table {r : Reader} {n : Nat} (category : Category) (ready : Ready r n category.rank)
    (hs : s.ahead.length ≤ n) (hstarts : category.Starts s.view) :
    r.Makes category.admits (table category) s s.done := by
  cases category with
  | statement => exact ready.makes_statement hs
  | expression => exact ready.makes_expression hs
  | assignment => exact ready.makes_assignment hs
  | unary => exact ready.makes_unary hs
  | primary => exact ready.makes_primary hs
  | newExpression => exact ready.makes_newExpression hs (hstarts rfl)
  | pattern => exact ready.makes_pattern hs
  | binary floor => exact ready.makes_binary floor hs

/-- The named parts up to a depth of references. -/
def reader (limit depth : Nat) (hlimit : 0 < limit) : Reader :=
  ⟨limit, refer table limit depth, hlimit, keeps_refer table limit depth⟩

theorem makes_call {limit depth : Nat} (hlimit : 0 < limit) (category : Category) (s : State)
    (hdepth : 8 * s.ahead.length + category.rank < depth) (hstarts : category.Starts s.view) :
    (reader limit depth hlimit).Makes category.admits (call category) s s.done := by
  induction depth generalizing category s with
  | zero => omega
  | succ depth ih =>
      have ready : Ready (reader limit depth hlimit) s.ahead.length category.rank := by
        refine ⟨fun lower u hrank hu => ih lower u (by omega), fun other u hu => ih other u ?_⟩
        have hrank : other.rank < 8 := by cases other <;> simp [rank]
        omega
      exact fun b t hrun hclean =>
        makes_table category ready (Nat.le_refl _) hstarts b t hrun hclean

/-! ## Scripts -/

theorem takeAny_nodes {r : Reader} {b : Bool} (hrun : r.run takeAny s = (b, t))
    (h : ∀ tree ∈ s.done, tree.isNode = true → tree.WellShaped) :
    ∀ tree ∈ t.done, tree.isNode = true → tree.WellShaped := by
  cases b with
  | false =>
      rw [eat_false hrun]
      exact h
  | true =>
      obtain ⟨token, -, hdone, -⟩ := eat_true hrun
      intro tree htree hnode
      rw [hdone, List.mem_cons] at htree
      rcases htree with rfl | htree
      · cases hnode
      · exact h tree htree hnode

/-- The statements of a script without a problem are well shaped. -/
theorem wellShaped_read {tokens : List Lookahead} (hclean : (read tokens).report = none) :
    ∀ tree ∈ (read tokens).done, tree.isNode = true → tree.WellShaped := by
  let r := reader (tokens.length + 1) (depthFor tokens) (Nat.succ_pos _)
  rcases hread : r.run script (State.start tokens) with ⟨b, t⟩
  have ht : read tokens = t := congrArg Prod.snd hread
  rw [ht] at hclean ⊢
  obtain ⟨c, u, hu, hreport, hlast⟩ := run_seq hread hclean
  obtain ⟨d, v, hv, hreport', hrest⟩ := run_seq hu hreport
  have hstatements : Added (State.start tokens) v 0 := by
    refine yields_many (fun w hw => ?_) d v hv hreport'
    have hdepth : 8 * w.ahead.length + rank .statement < depthFor tokens := by
      have hlength : w.ahead.length ≤ tokens.length := hw
      simp only [depthFor, rank]
      omega
    exact ((makes_call _ .statement w hdepth nofun).yields solid_of_admits).mono (Nat.zero_le 1)
  have hbefore : ∀ tree ∈ v.done, tree.isNode = true → tree.WellShaped := by
    obtain ⟨new, hnew, hshape, -⟩ := hstatements.done
    rw [hnew, show (State.start tokens).done = [] from rfl, List.append_nil]
    exact fun tree htree _ => (wellShapedAll_iff new).mp hshape tree htree
  refine takeAny_nodes hlast ?_
  cases hrest
  exact rounds_keep (r := r) (P := fun w => ∀ tree ∈ w.done, tree.isNode = true → tree.WellShaped)
    (fun w e x hw _ hx _ => takeAny_nodes hx hw) r.limit hbefore hreport

end ShellAwait.Grammar
