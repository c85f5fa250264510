import ShellAwait.Proofs.Grammar.Marks
import ShellAwait.Proofs.Grammar.Progress.Loops
import ShellAwait.Proofs.Tree.OfScript

/-! # Every reading comes to an end

Scripts are read to their end whatever stands in them. Main statement: a reading ends by itself
before its limits, its parts take a token or report a problem, its repetitions have at most one
round for every token ahead, and every token has exactly one event.
-/

namespace ShellAwait

namespace Grammar

open Rule Reader

/-- Wherever a rule begins it comes to an end, and it has taken a token or reported a problem. -/
def Progresses (rule : Rule) : Prop :=
  ∀ s : State, (∃ b t, Runs rule s b t) ∧
    ∀ b t, Runs rule s b t → t.ahead.length < s.ahead.length ∨ t.report ≠ none

theorem progresses_of_ends {rule : Rule}
    (h : ∀ r n, Able r n 8 → r.EndsBelow n rule .progress) : Progresses rule := by
  intro s
  obtain ⟨r, able⟩ := exists_able (s.ahead.length + 1)
  obtain ⟨b, t, -, hruns, -, hgain⟩ := h r _ able s (Nat.lt_succ_self _)
  refine ⟨⟨b, t, hruns⟩, fun c u hu => ?_⟩
  obtain ⟨-, rfl⟩ := hruns.unique hu
  exact hgain

/-! ## Scripts -/

theorem brief_script {r : Reader} {n : Nat} (able : Able r n 8) :
    r.Brief (n + 1) (fun v => !v.next .eof && !v.failed) (call .statement) := by
  refine .of_progress (fun v hgo => ?_) fun u hu _ =>
    able.ends_first .statement (by decide) (by decide) (Nat.le_of_lt_succ hu)
  simpa [View.next] using hgo

theorem brief_rest {r : Reader} {n : Nat} : r.Brief n (fun v => !v.next .eof) takeAny := by
  have hahead (v : View) (hgo : (!v.next .eof) = true) : v.kind ≠ .eof := by
    simpa [View.next] using hgo
  exact .of_token hahead fun u _ hgo => ends_look (ends_next rfl (hahead u.view hgo))

theorem loops_script : script.Loops Bounded :=
  .seq (.seq
    (.many (bounded_of_brief fun _ n able => (brief_script able).of_le (Nat.le_succ n)) .call)
    (.many (bounded_of_brief fun _ _ _ => brief_rest) (.look fun _ => .eat))) (.look fun _ => .eat)

theorem report_eat (s : State) (kind : TokenKind) : (s.eat kind).2.report = s.report := by
  unfold State.eat
  split
  · rfl
  · split <;> rfl

theorem runs_scriptBody (tokens : List Lookahead) :
    ∃ b s, scriptBody.exec (tokens.length + 1) (refer table (tokens.length + 1) (depthFor tokens))
        (State.start tokens) = (b, s) ∧ Runs scriptBody (State.start tokens) b s ∧
      ∀ total, (State.start tokens).Fits total → s.Fits total := by
  have able : Able (reader (tokens.length + 1) (depthFor tokens) _) tokens.length 8 :=
    able_reader (Nat.lt_succ_self _) (Nat.le_refl _)
  have hstatements := ends_many (brief_script able) (s := State.start tokens)
    (Nat.lt_succ_self _) (Nat.le_succ _)
  obtain ⟨b, s, hrun, hruns, hfits, -⟩ := ends_seq hstatements fun u hu _ =>
    ends_many brief_rest (Nat.lt_succ_of_le hu.ahead.length_le)
      (Nat.le_trans hu.ahead.length_le (Nat.le_succ _))
  exact ⟨b, s, hrun, hruns, hfits⟩

theorem exists_runs_read (tokens : List Lookahead) :
    ∃ (b : Bool) (s : State), Runs script (State.start tokens) b (read tokens) ∧
      (∀ total, (State.start tokens).Fits total → s.Fits total) ∧
      (read tokens).report = s.report := by
  obtain ⟨b, s, hrun, hruns, hfits⟩ := runs_scriptBody tokens
  have hread : read tokens = (s.eat s.view.kind).2 :=
    congrArg (fun ran : Bool × State => (ran.2.eat ran.2.view.kind).2) hrun
  refine ⟨(s.eat s.view.kind).1, s, ?_, hfits, by rw [hread, report_eat]⟩
  rw [hread]
  exact .seq hruns (.look (.eat rfl))

/-! ## Events -/

mutual

theorem count_events_built (start : Nat) (b : Built) :
    (b.events start).count .advanced = b.tree.leaves.length := by
  match b with
  | .leaf token => rfl
  | .grown g => exact count_events_grown start none g

theorem count_events_grown (start : Nat) (parent : Option Nat) (g : Grown) :
    (g.events start parent).count .advanced = g.tree.leaves.length := by
  match g with
  | .node kind children =>
      have hinner := count_eventsAll (start + 1) children
      simp [Grown.events, Grown.tree, Tree.leaves, hinner]
  | .wrap kind first rest =>
      have hfirst := count_events_grown start (some (start + first.size)) first
      have hinner := count_eventsAll (start + first.size + 1) rest
      simp [Grown.events, Grown.tree, Tree.leaves, Tree.leavesAll, hfirst, hinner]

theorem count_eventsAll (start : Nat) (bs : List Built) :
    (Built.eventsAll start bs).count .advanced = (Tree.leavesAll (Built.trees bs)).length := by
  match bs with
  | [] => rfl
  | first :: more =>
      have hfirst := count_events_built start first
      have hmore := count_eventsAll (start + first.size) more
      simp [Built.eventsAll, Built.trees, Tree.leavesAll, hfirst, hmore]

end

theorem count_events? {body : List Lookahead} {last : Lookahead}
    (hbody : ∀ t ∈ body, t.kind ≠ .eof) :
    ∃ events, events? (body ++ [last]) = some events ∧
      events.count .advanced = (body ++ [last]).length := by
  obtain ⟨built, hevents, htrees⟩ := exists_events (body ++ [last])
  refine ⟨_, hevents, ?_⟩
  rw [count_events_grown, Grown.tree, Tree.leaves, htrees, leavesAll_read hbody, List.length_map]

end Grammar

open Grammar Token

/-- A reading ends by itself, and nowhere else. Every part takes a token or reports a problem, every
repetition has at most one round for each token ahead, and of a text that ends with its only mark of
the end every significant token has one event, whether or not there is a problem. That the last
token is a mark of the end, as where streams are compared up to trivia, is not enough here: the
tokens behind an earlier mark have no event. -/
theorem reading_terminates :
    (∀ stream : List Token, ∃ b,
      Runs script (State.start (significant stream)) b (read (significant stream)) ∧
        ∀ c t, Runs script (State.start (significant stream)) c t →
          c = b ∧ t = read (significant stream)) ∧
    (∀ rule ∈ [Rule.call .statement, .call .expression, .call .assignment, .call .pattern,
      property], Progresses rule) ∧
    (script.Loops Bounded ∧ ∀ category, (table category).Loops Bounded) ∧
    ∀ (body : List Token) (ending : Token), ending.kind = .eof → (∀ t ∈ body, t.kind ≠ .eof) →
      ∃ events, events? (significant (body ++ [ending])) = some events ∧
        events.count .advanced = (significant (body ++ [ending])).length := by
  refine ⟨fun stream => ?_, fun rule hrule => ?_, ⟨loops_script, loops_table⟩,
    fun body ending hending hbody => ?_⟩
  · obtain ⟨b, -, hruns, -⟩ := exists_runs_read (significant stream)
    exact ⟨b, hruns, fun c t => hruns.unique⟩
  · refine progresses_of_ends fun r n able => ?_
    simp only [List.mem_cons, List.not_mem_nil, or_false] at hrule
    rcases hrule with rfl | rfl | rfl | rfl | rfl
    · exact able.below_call .statement (by decide)
    · exact able.below_call .expression (by decide)
    · exact able.below_call .assignment (by decide)
    · exact able.below_call .pattern (by decide)
    · exact able.below_property
  · obtain ⟨before, last, hsignificant, -, hbefore⟩ := significantFrom_end false hending hbody
    rw [significant, hsignificant]
    exact count_events? hbefore

end ShellAwait
