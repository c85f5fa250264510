import ShellAwait.Proofs.Analysis.Closed
import ShellAwait.Proofs.Analysis.Traced
import ShellAwait.Proofs.Bindings.Outer

/-! # What is declared inside stays inside

A walk changes the innermost scope as it likes and what lies around it hardly at all: an outer
binding keeps its descriptor or loses it to an unknown value, and only the root gets new names. A
walk that declares nothing in the scope it starts in leaves that scope alone in the same way; so do
expressions, functions, blocks, switches and loops with a head.
-/

namespace ShellAwait.Analysis

open Bindings

mutual

/-- The action declares nothing in the scope that it runs in. -/
def Action.Enclosed : Action → Prop
  | .declare .. => False
  | .hoist _ => False
  | .bind first next => first.Enclosed ∧ ∀ d, (next d).Enclosed
  | .fork left right _ => left.Enclosed ∧ right.Enclosed
  | .choose arms _ => arms.Enclosed
  | .loop _ iteration => iteration.Enclosed
  | .function _ _ body => body.Enclosed
  | .parameters body => body.Enclosed
  | _ => True

def Arms.Enclosed : Arms → Prop
  | .done => True
  | .arm test body rest => test.Enclosed ∧ body.Enclosed ∧ rest.Enclosed

end

/-- The outermost `k` levels leave out the innermost one, unless nothing is declared there. -/
def Around (k : Nat) (b : Bindings) (enclosed : Prop) : Prop :=
  k < b.depth ∨ k = b.depth ∧ enclosed

namespace Around

variable {k : Nat} {b later : Bindings} {p q : Prop}

theorem imp (h : Around k b p) (hpq : p → q) : Around k b q := Or.imp_right (And.imp_right hpq) h

theorem after (h : Around k b p) (hlater : Preserved k b later) : Around k later p := by
  unfold Around
  rw [hlater.depth]
  exact h

theorem le (h : Around k b p) : k ≤ b.depth := h.elim Nat.le_of_lt fun h => Nat.le_of_eq h.1

theorem lt (h : Around k b False) : k < b.depth := h.resolve_right fun h => h.2

end Around

/-! ## Rounds -/

theorem preserved_settle {k : Nat} {b : Bindings} {iterate : State → Outcome Descriptor}
    (h : ∀ s, Preserved k b s.bindings → Preserved k b (iterate s).2.bindings)
    (fuel rounds : Nat) {s : State} (hs : Preserved k b s.bindings) :
    Preserved k b (settle iterate fuel rounds s).2.bindings := by
  induction fuel generalizing rounds s with
  | zero => exact hs
  | succ fuel ih =>
      have hstep := h s hs
      rw [settle]
      generalize iterate s = outcome at hstep ⊢
      rcases outcome with ⟨refusal | d, after⟩
      · exact hstep
      · have hjoined : Preserved k b (s.bindings.join [s.bindings, after.bindings]) :=
          hs.joinPair hs hstep
        simp only
        split
        · exact hjoined
        · exact ih _ hjoined

theorem preserved_hoistRounds {k : Nat} {b : Bindings} {round : State → Bool × State}
    (h : ∀ s, Preserved k b s.bindings → Preserved k b (round s).2.bindings)
    (fuel rounds : Nat) {s : State} (hs : Preserved k b s.bindings) :
    Preserved k b (hoistRounds round fuel rounds s).2.bindings := by
  induction fuel generalizing rounds s with
  | zero => exact hs
  | succ fuel ih =>
      have hstep := h s hs
      rw [hoistRounds]
      generalize round s = outcome at hstep ⊢
      rcases outcome with ⟨_ | _, after⟩
      · exact hstep
      · exact ih _ hstep

theorem preserved_round (declarations : Declarations) {k : Nat} {s : State}
    (hk : k < s.bindings.depth) : Preserved k s.bindings (declarations.round s).2.bindings := by
  cases declarations with
  | done => exact .refl k _
  | declaration name walk rest =>
      rw [Declarations.round]
      rcases walk.run s with ⟨refusal | d, after⟩
      · exact preserved_round rest (s := { after with bindings := s.bindings }) hk
      · have hadded : Preserved k s.bindings (s.bindings.add name d) := preserved_add name d hk
        have hdepth : k < (s.bindings.add name d).depth := hadded.depth ▸ hk
        exact hadded.trans
          (preserved_round rest (s := { after with bindings := s.bindings.add name d }) hdepth)

/-! ## Actions -/

variable {k : Nat}

theorem bindings_record (s : State) (event : Event) : (s.record event).bindings = s.bindings := by
  unfold State.record
  split <;> rfl

theorem bindings_suspend (s : State) (span : Text.Span) (inner : Descriptor) :
    (s.suspend span inner).2.bindings = s.bindings := by
  unfold State.suspend
  split
  · rfl
  · rw [bindings_record, bindings_onFrame]

mutual

/-- However an action ends, it preserves the levels around the scope that it starts in, and that
scope as well if it declares nothing there. -/
theorem preserved_run (action : Action) {s : State} (hk : Around k s.bindings action.Enclosed) :
    Preserved k s.bindings (action.run s).2.bindings := by
  match action with
  | .give d => exact .refl k _
  | .bind first next =>
      have hfirst := preserved_run first (hk.imp And.left)
      rw [Action.run]
      generalize first.run s = outcome at hfirst ⊢
      rcases outcome with ⟨refusal | d, after⟩
      · exact hfirst
      · exact hfirst.trans (preserved_run (next d) ((hk.imp fun h => h.2 d).after hfirst))
  | .look name => exact .refl k _
  | .declare name d => exact preserved_add name d hk.lt
  | .assign name d => exact preserved_assign k s.bindings name d
  | .record kind span d =>
      change Preserved k s.bindings (s.record _).bindings
      rw [bindings_record]
      exact .refl k _
  | .suspend span value =>
      change Preserved k s.bindings (s.suspend span value).2.bindings
      rw [bindings_suspend]
      exact .refl k _
  | .awaiting | .returning d =>
      rw [Action.run, bindings_onFrame]
      exact .refl k _
  | .returned => exact .refl k _
  | .refuse shape span => exact .refl k _
  | .scoped body =>
      have hdepth : k < s.enter.bindings.depth := by
        have hle := hk.le
        change k < s.bindings.push.depth
        rw [depth_push]
        omega
      exact (preserved_run body (.inl hdepth)).pop hk.le
  | .fork left right merge =>
      have hleft := preserved_run left (hk.imp And.left)
      rw [Action.run]
      generalize left.run s = outcome at hleft ⊢
      rcases outcome with ⟨refusal | a, leftAfter⟩
      · exact hleft
      · have hright := preserved_run right (s := { leftAfter with bindings := s.bindings })
          (hk.imp And.right)
        simp only
        generalize right.run { leftAfter with bindings := s.bindings } = outcome at hright ⊢
        rcases outcome with ⟨refusal | b, rightAfter⟩
        · exact hright
        · exact (Preserved.refl k _).joinPair hleft hright
  | .choose arms hasDefault =>
      obtain ⟨hafter, hexits⟩ := preserved_runArms arms [] hk
      rw [Action.run]
      generalize arms.run [] s = outcome at hafter hexits ⊢
      rcases outcome with ⟨refusal | exits, after⟩
      · exact hafter
      · have hall : ∀ branch ∈ exits, Preserved k s.bindings branch := by
          intro branch hbranch
          exact (hexits exits rfl branch hbranch).resolve_left List.not_mem_nil
        apply hafter.join
        intro branch hbranch
        split at hbranch
        · exact hall branch hbranch
        · rcases List.mem_append.mp hbranch with hexit | hlast
          · exact hall branch hexit
          · rw [List.mem_singleton.mp hlast]
            exact hafter
  | .loop names iteration =>
      have hiterate (t : State) (ht : Preserved k s.bindings t.bindings) :
          Preserved k s.bindings (iteration.run t).2.bindings :=
        ht.trans (preserved_run iteration (hk.after ht))
      have hsettle := preserved_settle hiterate (settleLimit s.bindings names) 0
        (s := { s with recording := false }.pushFrame {}) (.refl k _)
      rw [Action.run]
      generalize settle iteration.run (settleLimit s.bindings names) 0
        ({ s with recording := false }.pushFrame {}) = outcome at hsettle ⊢
      rcases outcome with ⟨refusal | rounds, after⟩
      · exact hsettle
      · have hlast := hiterate
          (State.note { after.popFrame with recording := s.recording } (.settled rounds)) hsettle
        simp only
        generalize iteration.run
          (State.note { after.popFrame with recording := s.recording } (.settled rounds)) = outcome
          at hlast ⊢
        rcases outcome with ⟨refusal | d, last⟩
        · exact hlast
        · exact hsettle.joinPair hsettle hlast
  | .hoist declarations =>
      have hdepth : k < s.bindings.depth := hk.lt
      have hround (t : State) (ht : Preserved k s.bindings t.bindings) :
          Preserved k s.bindings (declarations.round t).2.bindings :=
        ht.trans (preserved_round declarations (ht.depth ▸ hdepth))
      rw [Action.run]
      split
      · exact .refl k _
      · exact preserved_hoistRounds hround (declarations.count + 1) 0
          (s := { s with recording := false }) (.refl k _)
  | .function span isAsync body =>
      have hbody := preserved_run body (s := s.pushFrame {}) hk
      rw [Action.run]
      generalize body.run (s.pushFrame {}) = outcome at hbody ⊢
      rcases outcome with ⟨refusal | value, after⟩
      · exact hbody
      · simp only
        split
        · rw [bindings_record]
          exact hbody
        · exact hbody
  | .parameters body => exact preserved_run body (s := s.pushFrame { isParameters := true }) hk

theorem preserved_runArms (arms : Arms) (exits : List Bindings) {s : State}
    (hk : Around k s.bindings arms.Enclosed) :
    Preserved k s.bindings (arms.run exits s).2.bindings ∧
      ∀ all, (arms.run exits s).1 = .ok all → ∀ branch ∈ all,
        branch ∈ exits ∨ Preserved k s.bindings branch := by
  match arms with
  | .done =>
      refine ⟨.refl k _, ?_⟩
      intro all hall branch hbranch
      cases hall
      exact .inl hbranch
  | .arm test body rest =>
      have htest := preserved_run test (hk.imp And.left)
      rw [Arms.run]
      generalize test.run s = outcome at htest ⊢
      rcases outcome with ⟨refusal | d, entry⟩
      · exact ⟨htest, fun all hall => by cases hall⟩
      · have hbody := htest.trans (preserved_run body ((hk.imp fun h => h.2.1).after htest))
        simp only
        generalize body.run entry = outcome at hbody ⊢
        rcases outcome with ⟨refusal | d, after⟩
        · exact ⟨hbody, fun all hall => by cases hall⟩
        · obtain ⟨hrest, hexits⟩ := preserved_runArms rest (exits ++ [after.bindings])
            (s := { after with bindings := entry.bindings }) ((hk.imp fun h => h.2.2).after htest)
          refine ⟨htest.trans hrest, ?_⟩
          intro all hall branch hbranch
          rcases hexits all hall branch hbranch with hearlier | hlater
          · rcases List.mem_append.mp hearlier with hgiven | hadded
            · exact .inl hgiven
            · rw [List.mem_singleton.mp hadded]
              exact .inr hbody
          · exact .inr (htest.trans hlater)

end

theorem depth_run (action : Action) (s : State) :
    (action.run s).2.bindings.depth = s.bindings.depth :=
  (preserved_run action (k := 0) (.inl (depth_pos s.bindings))).depth

/-! ## Scripts -/

theorem closed_enclosed : Closed Action.Enclosed where
  give _ := trivial
  look _ := trivial
  assign _ _ := trivial
  record _ _ _ := trivial
  suspend _ _ := trivial
  awaiting := trivial
  refuse _ _ := trivial
  bind hfirst hnext := ⟨hfirst, hnext⟩
  fork _ hleft hright := ⟨hleft, hright⟩
  function _ _ _ := trivial

theorem preserved_of_enclosed {action : Action} (h : action.Enclosed) (s : State) :
    Preserved s.bindings.depth s.bindings (action.run s).2.bindings :=
  preserved_run action (.inr ⟨rfl, h⟩)

theorem bindings_declaration (c : Catalogue) (span : Text.Span) (name : Option String)
    (fn : Function) (s : State) :
    ((Action.ofStmt c (.function span name fn)).run s).2.bindings =
        ((Action.ofFunction c none fn).run s).2.bindings ∨
      ∃ declared d, name = some declared ∧
        ((Action.ofStmt c (.function span name fn)).run s).2.bindings =
          ((Action.ofFunction c none fn).run s).2.bindings.add declared d := by
  cases name with
  | none =>
      have hstmt : Action.ofStmt c (.function span none fn) =
          (Action.ofFunction c none fn).bind fun _ => Action.nothing := rfl
      rw [hstmt, Action.run]
      rcases (Action.ofFunction c none fn).run s with ⟨refusal | d, after⟩
      · exact .inl rfl
      · exact .inl rfl
  | some declared =>
      have hstmt : Action.ofStmt c (.function span (some declared) fn) =
          (Action.ofFunction c none fn).bind fun d => .declare declared d := rfl
      rw [hstmt, Action.run]
      rcases (Action.ofFunction c none fn).run s with ⟨refusal | d, after⟩
      · exact .inl rfl
      · exact .inr ⟨declared, d, rfl, rfl⟩

/-- Whatever the state, an expression, a function, a block, a switch or a loop with a head leaves as
many scopes as there were; each binding keeps its descriptor or loses it to an unknown value, and no
level but the root gets a new name. A function declaration does the same and then binds its name in
the innermost scope. -/
theorem preserves_scopes (c : Catalogue) (s : State) :
    (∀ use expr, Preserved s.bindings.depth s.bindings
      ((Action.ofExpr c use expr).run s).2.bindings) ∧
    (∀ self fn, Preserved s.bindings.depth s.bindings
      ((Action.ofFunction c self fn).run s).2.bindings) ∧
    (∀ span body, Preserved s.bindings.depth s.bindings
      ((Action.ofStmt c (.block span body)).run s).2.bindings) ∧
    (∀ span value cases, Preserved s.bindings.depth s.bindings
      ((Action.ofStmt c (.switch span value cases)).run s).2.bindings) ∧
    (∀ span init test update body, Preserved s.bindings.depth s.bindings
      ((Action.ofStmt c (.loop span init test update body)).run s).2.bindings) ∧
    (∀ span isOf head iterable body, Preserved s.bindings.depth s.bindings
      ((Action.ofStmt c (.each span isOf head iterable body)).run s).2.bindings) ∧
    ∀ span name fn, ∃ b, Preserved s.bindings.depth s.bindings b ∧
      (((Action.ofStmt c (.function span name fn)).run s).2.bindings = b ∨
        ∃ declared d, name = some declared ∧
          ((Action.ofStmt c (.function span name fn)).run s).2.bindings = b.add declared d) := by
  have hexpr (use : Use) (expr : Expr) := closed_enclosed.ofExpr c use expr
  have hfunction (self : Option String) (fn : Function) := closed_enclosed.ofFunction c self fn
  refine ⟨fun use expr => ?_, fun self fn => ?_, fun span body => ?_, fun span value cases => ?_,
    fun span init test update body => ?_, fun span isOf head iterable body => ?_,
    fun span name fn => ?_⟩
  · exact preserved_of_enclosed (hexpr use expr) s
  · exact preserved_of_enclosed (hfunction self fn) s
  · exact preserved_of_enclosed (by trivial) s
  · exact preserved_of_enclosed (closed_enclosed.andThen (hexpr .consumed value) (by trivial)) s
  · exact preserved_of_enclosed (by trivial) s
  · have henclosed : (Action.ofStmt c (.each span isOf head iterable body)).Enclosed := by
      cases head <;> trivial
    exact preserved_of_enclosed henclosed s
  · exact ⟨_, preserved_of_enclosed (hfunction none fn) s, bindings_declaration c span name fn s⟩

end ShellAwait.Analysis
