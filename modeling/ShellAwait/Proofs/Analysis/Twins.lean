import ShellAwait.Proofs.Analysis.Closed
import ShellAwait.Proofs.Analysis.Discipline

/-! # What a walk depends on

How a walk ends and which bindings it leaves is decided by the bindings it starts from and by
whether it starts in a parameter list: not by what is recorded, nor by the functions around it, and
not even by what the function it is in has done so far, unless the walk asks for that.
-/

namespace ShellAwait.Analysis

mutual

/-- Outside of functions of its own the action does not ask what has been returned so far. -/
def Action.Plain : Action → Prop
  | .returned => False
  | .bind first next => first.Plain ∧ ∀ d, (next d).Plain
  | .scoped body => body.Plain
  | .fork left right _ => left.Plain ∧ right.Plain
  | .choose arms _ => arms.Plain
  | .loop _ iteration => iteration.Plain
  | .hoist declarations => declarations.Plain
  | _ => True

def Arms.Plain : Arms → Prop
  | .done => True
  | .arm test body rest => test.Plain ∧ body.Plain ∧ rest.Plain

def Declarations.Plain : Declarations → Prop
  | .done => True
  | .declaration _ walk rest => walk.Plain ∧ rest.Plain

end

namespace State

/-- The innermost frames are the same, or at least both or neither of a parameter list. -/
def FrameLike (whole : Bool) (s t : State) : Prop :=
  if whole then t.frames.head? = s.frames.head? else t.frame.isParameters = s.frame.isParameters

/-- Two states with the same bindings and frames that are alike. -/
structure Twin (whole : Bool) (s t : State) : Prop where
  bindings : t.bindings = s.bindings
  frame : FrameLike whole s t

variable {whole : Bool} {s t : State}

theorem frame_eq_getD (s : State) : s.frame = s.frames.head?.getD {} := by
  unfold State.frame
  cases s.frames <;> rfl

theorem FrameLike.isParameters (h : FrameLike whole s t) :
    t.frame.isParameters = s.frame.isParameters := by
  cases whole with
  | true => rw [frame_eq_getD, frame_eq_getD, show t.frames.head? = s.frames.head? from h]
  | false => exact h

theorem FrameLike.of_frames {u v : State} (h : FrameLike whole s t) (hu : u.frames = s.frames)
    (hv : v.frames = t.frames) : FrameLike whole u v := by
  unfold FrameLike State.frame at h ⊢
  rwa [hu, hv]

theorem FrameLike.onFrame (h : FrameLike whole s t) {f : Frame → Frame}
    (hf : ∀ frame, (f frame).isParameters = frame.isParameters) :
    FrameLike whole (s.onFrame f) (t.onFrame f) := by
  cases whole with
  | true =>
      have hhead (u : State) : (u.onFrame f).frames.head? = u.frames.head?.map f := by
        unfold State.onFrame
        cases hframes : u.frames with
        | nil => rw [hframes]; rfl
        | cons frame outer => rfl
      change (t.onFrame f).frames.head? = (s.onFrame f).frames.head?
      rw [hhead, hhead, show t.frames.head? = s.frames.head? from h]
  | false =>
      have hs := (alike_onFrame s hf).parameters
      have ht := (alike_onFrame t hf).parameters
      exact (ht.trans h).trans hs.symm

theorem Twin.withBindings (h : Twin whole s t) (b : Bindings) :
    Twin whole { s with bindings := b } { t with bindings := b } := ⟨rfl, h.frame⟩

theorem Twin.onFrame (h : Twin whole s t) {f : Frame → Frame}
    (hf : ∀ frame, (f frame).isParameters = frame.isParameters) :
    Twin whole (s.onFrame f) (t.onFrame f) := by
  refine ⟨?_, h.frame.onFrame hf⟩
  unfold State.onFrame
  split <;> split <;> exact h.bindings

theorem Twin.record (h : Twin whole s t) (event : Event) :
    Twin whole (s.record event) (t.record event) := by
  unfold State.record
  split <;> split <;> exact ⟨h.bindings, h.frame⟩

theorem Twin.suspend (h : Twin whole s t) (span : Text.Span) (inner : Descriptor) :
    (t.suspend span inner).1 = (s.suspend span inner).1 ∧
      Twin whole (s.suspend span inner).2 (t.suspend span inner).2 := by
  unfold State.suspend
  rw [h.frame.isParameters]
  split
  · exact ⟨rfl, h.bindings, h.frame⟩
  · have hframe := h.onFrame (f := fun frame => { frame with suspends := true }) fun _ => rfl
    exact ⟨rfl, hframe.record _⟩

/-- Walks with a frame of their own start alike, whatever the frames around them. -/
theorem Twin.pushFrame (h : Twin whole s t) (frame : Frame) :
    Twin true (s.pushFrame frame) (t.pushFrame frame) := ⟨h.bindings, rfl⟩

/-- Walks with a frame of their own leave states that are alike as those before them were. -/
theorem Twin.popFrame {u v : State} {frame : Frame} (h : Twin whole s t) (hafter : Twin true u v)
    (hu : Alike (s.pushFrame frame) u) (hv : Alike (t.pushFrame frame) v) :
    Twin whole u.popFrame v.popFrame :=
  ⟨hafter.bindings, h.frame.of_frames hu.frames_popFrame hv.frames_popFrame⟩

theorem Twin.frame_eq {u v : State} (h : Twin true u v) : v.frame = u.frame := by
  rw [frame_eq_getD, frame_eq_getD, show v.frames.head? = u.frames.head? from h.frame]

end State

open State

/-- Both walks end in the same way, and in states that are alike. -/
structure SameEnd {α : Type} (whole : Bool) (x y : Outcome α) : Prop where
  result : y.1 = x.1
  twin : Twin whole x.2 y.2

theorem SameEnd.cases {α : Type} {whole : Bool} {x y : Outcome α} (h : SameEnd whole x y) :
    (∃ refusal u v, x = (.error refusal, u) ∧ y = (.error refusal, v) ∧ Twin whole u v) ∨
      ∃ d u v, x = (.ok d, u) ∧ y = (.ok d, v) ∧ Twin whole u v := by
  obtain ⟨hresult, htwin⟩ := h
  rcases x with ⟨refusal | d, u⟩ <;> rcases y with ⟨refusal' | d', v⟩ <;> cases hresult
  · exact .inl ⟨refusal, u, v, rfl, rfl, htwin⟩
  · exact .inr ⟨d, u, v, rfl, rfl, htwin⟩

/-- Walks of the action from twins end alike. -/
def Action.Repeats (whole : Bool) (action : Action) : Prop :=
  ∀ ⦃s t⦄, Twin whole s t → SameEnd whole (action.run s) (action.run t)

theorem sameEnd_settle {iteration : Action} (h : iteration.Repeats true) (fuel rounds : Nat)
    {s t : State} (htwin : Twin true s t) :
    SameEnd true (settle iteration.run fuel rounds s) (settle iteration.run fuel rounds t) := by
  induction fuel generalizing rounds s t with
  | zero => exact ⟨rfl, htwin⟩
  | succ fuel ih =>
      rw [settle, settle]
      rcases (h htwin).cases with ⟨refusal, u, v, hs, ht, hafter⟩ | ⟨d, u, v, hs, ht, hafter⟩
      · rw [hs, ht]
        exact ⟨rfl, hafter⟩
      · have hbindings : v.bindings = u.bindings := hafter.bindings
        rw [hs, ht]
        simp only [hbindings, htwin.bindings]
        split
        · exact ⟨rfl, hafter.withBindings _⟩
        · exact ih _ (hafter.withBindings _)

theorem twin_hoistRounds {whole : Bool} {round : State → Bool × State}
    (h : ∀ {s t}, Twin whole s t →
      (round t).1 = (round s).1 ∧ Twin whole (round s).2 (round t).2)
    (fuel rounds : Nat) {s t : State} (htwin : Twin whole s t) :
    (hoistRounds round fuel rounds t).1 = (hoistRounds round fuel rounds s).1 ∧
      Twin whole (hoistRounds round fuel rounds s).2 (hoistRounds round fuel rounds t).2 := by
  induction fuel generalizing rounds s t with
  | zero => exact ⟨rfl, htwin⟩
  | succ fuel ih =>
      obtain ⟨hchanged, hafter⟩ := h htwin
      rw [hoistRounds, hoistRounds]
      generalize round s = x at hchanged hafter
      generalize round t = y at hchanged hafter
      rcases x with ⟨_ | _, u⟩ <;> rcases y with ⟨_ | _, v⟩ <;> cases hchanged
      · exact ⟨rfl, hafter⟩
      · exact ih _ hafter

/-! ## One action after another -/

section

variable {whole : Bool} {left right body iteration : Action} {next : Descriptor → Action}

theorem repeats_bind (hleft : left.Repeats whole) (hnext : ∀ d, (next d).Repeats whole) :
    (left.bind next).Repeats whole := by
  intro s t htwin
  rw [Action.run, Action.run]
  rcases (hleft htwin).cases with ⟨refusal, u, v, hs, ht, hafter⟩ | ⟨d, u, v, hs, ht, hafter⟩
  · rw [hs, ht]
    exact ⟨rfl, hafter⟩
  · rw [hs, ht]
    exact hnext d hafter

theorem repeats_scoped (hbody : body.Repeats whole) : (Action.scoped body).Repeats whole := by
  intro s t htwin
  have henter : Twin whole s.enter t.enter := ⟨congrArg Bindings.push htwin.bindings, htwin.frame⟩
  obtain ⟨hresult, hafter⟩ := hbody henter
  refine ⟨hresult, ?_, hafter.frame⟩
  change (body.run t.enter).2.bindings.pop?.getD _ = (body.run s.enter).2.bindings.pop?.getD _
  rw [hafter.bindings]

theorem repeats_fork (merge : Descriptor → Descriptor → Descriptor) (hleft : left.Repeats whole)
    (hright : right.Repeats whole) : (Action.fork left right merge).Repeats whole := by
  intro s t htwin
  rw [Action.run, Action.run]
  rcases (hleft htwin).cases with ⟨refusal, u, v, hs, ht, hafter⟩ | ⟨d, u, v, hs, ht, hafter⟩
  · rw [hs, ht]
    exact ⟨rfl, hafter⟩
  · rw [hs, ht]
    simp only [htwin.bindings]
    rcases (hright (hafter.withBindings s.bindings)).cases with
      ⟨refusal, u', v', hs', ht', hlast⟩ | ⟨d', u', v', hs', ht', hlast⟩
    · rw [hs', ht']
      exact ⟨rfl, hlast⟩
    · rw [hs', ht']
      refine ⟨rfl, ?_, hlast.frame⟩
      change s.bindings.join [v.bindings, v'.bindings] = s.bindings.join [u.bindings, u'.bindings]
      rw [show v.bindings = u.bindings from hafter.bindings,
        show v'.bindings = u'.bindings from hlast.bindings]

/-- The rounds before a loop have a frame of their own, so all of it is the same in both. -/
theorem repeats_loop (names : List String) (hrounds : iteration.Repeats true)
    (hlast : iteration.Repeats whole) : (Action.loop names iteration).Repeats whole := by
  intro s t htwin
  have hquiet : Twin true ({ s with recording := false }.pushFrame {})
      ({ t with recording := false }.pushFrame {}) := ⟨htwin.bindings, rfl⟩
  have hsettle := sameEnd_settle hrounds (settleLimit s.bindings names) 0 hquiet
  have hs := alike_settle (alike_run iteration) (settleLimit s.bindings names) 0
    ({ s with recording := false }.pushFrame {})
  have ht := alike_settle (alike_run iteration) (settleLimit s.bindings names) 0
    ({ t with recording := false }.pushFrame {})
  have hlimit : settleLimit t.bindings names = settleLimit s.bindings names := by
    rw [htwin.bindings]
  have hleft := htwin.frame.of_frames hs.frames_popFrame ht.frames_popFrame
  rw [Action.run, Action.run, hlimit]
  rcases hsettle.cases with ⟨refusal, u, v, hx, hy, hafter⟩ | ⟨rounds, u, v, hx, hy, hafter⟩
  · rw [hx, hy] at hleft
    rw [hx, hy]
    exact ⟨rfl, hafter.bindings, hleft⟩
  · rw [hx, hy] at hleft
    rw [hx, hy]
    have hentry : Twin whole
        (State.note { u.popFrame with recording := s.recording } (.settled rounds))
        (State.note { v.popFrame with recording := t.recording } (.settled rounds)) :=
      ⟨hafter.bindings, hleft⟩
    simp only
    rcases (hlast hentry).cases with
      ⟨refusal, u', v', hx', hy', hend⟩ | ⟨d, u', v', hx', hy', hend⟩
    · rw [hx', hy']
      exact ⟨rfl, hend⟩
    · rw [hx', hy']
      refine ⟨rfl, ?_, hend.frame⟩
      change v.bindings.join [v.bindings, v'.bindings] = u.bindings.join [u.bindings, u'.bindings]
      rw [show v.bindings = u.bindings from hafter.bindings,
        show v'.bindings = u'.bindings from hend.bindings]

theorem repeats_function (span : Text.Span) (isAsync : Bool) (hbody : body.Repeats true) :
    (Action.function span isAsync body).Repeats whole := by
  intro s t htwin
  have hrun := hbody (htwin.pushFrame {})
  have hleft := htwin.popFrame hrun.twin (alike_run body (s.pushFrame {}))
    (alike_run body (t.pushFrame {}))
  rw [Action.run, Action.run]
  rcases hrun.cases with ⟨refusal, u, v, hs, ht, hafter⟩ | ⟨d, u, v, hs, ht, hafter⟩
  · rw [hs, ht] at hleft
    rw [hs, ht]
    exact ⟨rfl, hleft⟩
  · have hframe : v.frame = u.frame := hafter.frame_eq
    rw [hs, ht] at hleft
    rw [hs, ht]
    simp only [hframe]
    refine ⟨rfl, ?_⟩
    simp only
    split
    · exact hleft.record _
    · exact hleft

theorem repeats_parameters (hbody : body.Repeats true) :
    (Action.parameters body).Repeats whole := by
  intro s t htwin
  obtain ⟨hresult, hafter⟩ := hbody (htwin.pushFrame { isParameters := true })
  exact ⟨hresult, htwin.popFrame hafter (alike_run body _) (alike_run body _)⟩

end

mutual

/-- How an action ends and which bindings it leaves depends on the bindings it starts from and on
the innermost frame; if it is plain, only on whether that is the frame of a parameter list. -/
theorem sameEnd_run (action : Action) {whole : Bool} (hplain : whole = true ∨ action.Plain) :
    action.Repeats whole := by
  match action with
  | .bind first next =>
      exact repeats_bind (sameEnd_run first (hplain.imp_right And.left))
        fun d => sameEnd_run (next d) (hplain.imp_right fun h => h.2 d)
  | .scoped body => exact repeats_scoped (sameEnd_run body hplain)
  | .fork left right merge =>
      exact repeats_fork merge (sameEnd_run left (hplain.imp_right And.left))
        (sameEnd_run right (hplain.imp_right And.right))
  | .loop names iteration =>
      exact repeats_loop names (sameEnd_run iteration (.inl rfl)) (sameEnd_run iteration hplain)
  | .function span isAsync body =>
      exact repeats_function span isAsync (sameEnd_run body (.inl rfl))
  | .parameters body => exact repeats_parameters (sameEnd_run body (.inl rfl))
  | .give _ | .refuse _ _ => exact fun _ _ htwin => ⟨rfl, htwin⟩
  | .look name => exact fun _ _ htwin => ⟨by rw [Action.run, Action.run, htwin.bindings], htwin⟩
  | .declare name d =>
      exact fun _ _ htwin => ⟨rfl, congrArg (·.add name d) htwin.bindings, htwin.frame⟩
  | .assign name d =>
      exact fun _ _ htwin => ⟨rfl, congrArg (·.assign name d) htwin.bindings, htwin.frame⟩
  | .record kind span d => exact fun _ _ htwin => ⟨rfl, htwin.record _⟩
  | .suspend span inner =>
      intro s t htwin
      obtain ⟨hresult, hafter⟩ := htwin.suspend span inner
      exact ⟨congrArg Except.ok hresult, hafter⟩
  | .awaiting | .returning d => exact fun _ _ htwin => ⟨rfl, htwin.onFrame fun _ => rfl⟩
  | .returned =>
      intro s t htwin
      rcases hplain with rfl | habsurd
      · exact ⟨by rw [Action.run, Action.run, htwin.frame_eq], htwin⟩
      · exact habsurd.elim
  | .choose arms hasDefault =>
      intro s t htwin
      rw [Action.run, Action.run]
      rcases (sameEnd_runArms arms [] hplain htwin).cases with
        ⟨refusal, u, v, hs, ht, hafter⟩ | ⟨exits, u, v, hs, ht, hafter⟩
      · rw [hs, ht]
        exact ⟨rfl, hafter⟩
      · have hbindings : v.bindings = u.bindings := hafter.bindings
        rw [hs, ht]
        refine ⟨rfl, ?_, hafter.frame⟩
        simp only [hbindings]
  | .hoist declarations =>
      intro s t htwin
      rw [Action.run, Action.run]
      split
      · exact ⟨rfl, htwin⟩
      · have hquiet : Twin whole { s with recording := false } { t with recording := false } :=
          ⟨htwin.bindings, htwin.frame⟩
        obtain ⟨-, hafter⟩ := twin_hoistRounds (fun h => twin_round declarations hplain h)
          (declarations.count + 1) 0 hquiet
        exact ⟨rfl, hafter.bindings, hafter.frame⟩

theorem sameEnd_runArms (arms : Arms) (exits : List Bindings) {whole : Bool}
    (hplain : whole = true ∨ arms.Plain) {s t : State} (htwin : Twin whole s t) :
    SameEnd whole (arms.run exits s) (arms.run exits t) := by
  match arms with
  | .done => exact ⟨rfl, htwin⟩
  | .arm test body rest =>
      rw [Arms.run, Arms.run]
      rcases (sameEnd_run test (hplain.imp_right And.left) htwin).cases with
        ⟨refusal, u, v, hs, ht, hafter⟩ | ⟨d, u, v, hs, ht, hafter⟩
      · rw [hs, ht]
        exact ⟨rfl, hafter⟩
      · have hentry : v.bindings = u.bindings := hafter.bindings
        rw [hs, ht]
        simp only
        rcases (sameEnd_run body (hplain.imp_right (·.2.1)) hafter).cases with
          ⟨refusal, u', v', hs', ht', hlast⟩ | ⟨d, u', v', hs', ht', hlast⟩
        · rw [hs', ht']
          exact ⟨rfl, hlast⟩
        · have hleft : v'.bindings = u'.bindings := hlast.bindings
          rw [hs', ht']
          simp only [hentry, hleft]
          exact sameEnd_runArms rest _ (hplain.imp_right (·.2.2)) (hlast.withBindings _)

theorem twin_round (declarations : Declarations) {whole : Bool}
    (hplain : whole = true ∨ declarations.Plain) {s t : State} (htwin : Twin whole s t) :
    (declarations.round t).1 = (declarations.round s).1 ∧
      Twin whole (declarations.round s).2 (declarations.round t).2 := by
  match declarations with
  | .done => exact ⟨rfl, htwin⟩
  | .declaration name walk rest =>
      rw [Declarations.round, Declarations.round]
      rcases (sameEnd_run walk (hplain.imp_right And.left) htwin).cases with
        ⟨refusal, u, v, hs, ht, hafter⟩ | ⟨d, u, v, hs, ht, hafter⟩
      · rw [hs, ht]
        simp only [htwin.bindings]
        exact twin_round rest (hplain.imp_right And.right) (hafter.withBindings _)
      · rw [hs, ht]
        simp only [htwin.bindings]
        obtain ⟨hchanged, hlast⟩ := twin_round rest (hplain.imp_right And.right)
          (hafter.withBindings (s.bindings.add name d))
        exact ⟨congrArg _ hchanged, hlast⟩

end

/-! ## The actions of a script

Only the end of a function body asks what has been returned, and functions have frames of their
own. -/

namespace Action

theorem closed_plain : Closed Plain where
  give _ := trivial
  look _ := trivial
  assign _ _ := trivial
  record _ _ _ := trivial
  suspend _ _ := trivial
  awaiting := trivial
  refuse _ _ := trivial
  bind hfirst hnext := ⟨hfirst, hnext⟩
  fork _ hleft hright := ⟨hleft, hright⟩
  function _ _ _ := trivial

theorem plain_andThen {a b : Action} (ha : a.Plain) (hb : b.Plain) : (a.andThen b).Plain :=
  closed_plain.andThen ha hb

theorem plain_ofExpr (c : Catalogue) (expr : Expr) : (ofExpr c .consumed expr).Plain :=
  closed_plain.ofExpr c .consumed expr

theorem plain_declareOptional (name : Option String) (d : Descriptor) :
    Action.Plain (match name with | some name => .declare name d | none => nothing) := by
  cases name <;> trivial

theorem plain_declareAll (names : List String) : (declareAll names).Plain := by
  induction names with
  | nil => trivial
  | cons name more ih => exact plain_andThen trivial ih

theorem plain_ofDeclared (c : Catalogue) (stmts : List Stmt) {others : Declarations}
    (h : others.Plain) : (ofDeclared c stmts others).Plain := by
  induction stmts with
  | nil => exact h
  | cons stmt more ih =>
      cases stmt with
      | function span name fn =>
          cases name with
          | none => exact ih
          | some name => exact ⟨closed_plain.ofFunction c none fn, ih⟩
      | _ => exact ih

theorem plain_ofDeclaredCases (c : Catalogue) (cases : List Case) :
    (ofDeclaredCases c cases).Plain := by
  induction cases with
  | nil => trivial
  | cons first more ih =>
      obtain ⟨isDefault, test, body⟩ := first
      exact plain_ofDeclared c body ih

/-- A pattern whose names are bound to what is not known. -/
theorem plain_bound (c : Catalogue) (pattern : Pattern) :
    ((ofPattern c pattern).andThen (declareAll pattern.names)).Plain :=
  plain_andThen (closed_plain.ofPattern c pattern) (plain_declareAll _)

theorem plain_ofDeclarators (c : Catalogue) (declarators : List Binding) :
    (ofDeclarators c declarators).Plain := by
  induction declarators with
  | nil => trivial
  | cons first more ih =>
      obtain ⟨isRest, pattern, value⟩ := first
      have hvalue := plain_ofExpr c value
      have hcontents := closed_plain.ofContents c value
      have hbound := plain_bound c pattern
      cases pattern with
      | hole => exact plain_andThen trivial ih
      | name span name => exact plain_andThen ⟨hvalue, fun d => plain_declareOptional name d⟩ ih
      | _ => exact plain_andThen (closed_plain.destructured value _ hvalue hcontents hbound) ih

theorem plain_ofHead (c : Catalogue) (declarators : List Binding) :
    (ofHead c declarators).Plain := by
  induction declarators with
  | nil => trivial
  | cons first more ih =>
      obtain ⟨isRest, pattern, value⟩ := first
      exact plain_andThen (plain_bound c pattern) ih

theorem plain_ofLoopHead (c : Catalogue) (head : Stmt) :
    Action.Plain (match head with
      | .var _ _ declarators => ofHead c declarators
      | .expr _ target _ => ofTarget c target
      | _ => nothing) := by
  split
  · exact plain_ofHead c _
  · exact closed_plain.ofTarget c _
  · trivial

theorem plain_hoist (c : Catalogue) (stmts : List Stmt) :
    (Action.hoist (ofDeclared c stmts .done)).Plain := plain_ofDeclared c stmts trivial

mutual

theorem plain_ofStmt (c : Catalogue) (stmt : Stmt) : (ofStmt c stmt).Plain := by
  match stmt with
  | .hole | .empty .. | .breakOut .. | .continueOn .. => trivial
  | .var span kind declarators => exact plain_ofDeclarators c declarators
  | .function span name fn =>
      exact ⟨closed_plain.ofFunction c none fn, fun d => plain_declareOptional name d⟩
  | .block span body => exact plain_andThen (plain_hoist c body) (plain_ofStmts c body)
  | .expr span value terminated => exact plain_ofExpr c value
  | .ret span value =>
      change Action.Plain (if value.isHole then nothing else (ofExpr c .consumed value).bind .returning)
      split
      · trivial
      · exact ⟨plain_ofExpr c value, fun _ => trivial⟩
  | .throw span value => exact plain_ofExpr c value
  | .cond span test consequent alternate =>
      exact plain_andThen (plain_ofExpr c test) ⟨plain_ofStmt c consequent, plain_ofStmt c alternate⟩
  | .while span test body => exact plain_andThen (plain_ofExpr c test) (plain_ofStmt c body)
  | .doWhile span body test => exact plain_andThen (plain_ofStmt c body) (plain_ofExpr c test)
  | .loop span init test update body =>
      exact plain_andThen (plain_ofStmt c init) (plain_andThen (plain_andThen
        (plain_ofExpr c test) (plain_ofStmt c body)) (plain_ofExpr c update))
  | .each span isOf head iterable body =>
      have hsource := closed_plain.iterated isOf head iterable (plain_ofExpr c iterable)
        (closed_plain.ofContents c iterable)
      have hassigned := plain_ofLoopHead c head
      cases head <;>
        exact plain_andThen hsource (plain_andThen hassigned (plain_ofStmt c body))
  | .guarded span body handler cleanup =>
      exact plain_andThen ⟨plain_ofStmt c body, plain_ofHandler c handler⟩ (plain_ofStmt c cleanup)
  | .switch span value cases =>
      exact plain_andThen (plain_ofExpr c value)
        (plain_andThen (plain_ofDeclaredCases c cases) (plain_ofCases c cases))

theorem plain_ofStmts (c : Catalogue) (stmts : List Stmt) : (ofStmts c stmts).Plain := by
  match stmts with
  | [] => trivial
  | stmt :: more => exact plain_andThen (plain_ofStmt c stmt) (plain_ofStmts c more)

theorem plain_ofHandler (c : Catalogue) (handler : Handler) : (ofHandler c handler).Plain := by
  match handler with
  | .hole => trivial
  | .clause parameter body =>
      exact plain_andThen (plain_bound c parameter)
        (plain_andThen (plain_hoist c body) (plain_ofStmts c body))

theorem plain_ofCases (c : Catalogue) (cases : List Case) : (ofCases c cases).Plain := by
  match cases with
  | [] => trivial
  | .mk isDefault test body :: more =>
      exact ⟨plain_ofExpr c test, plain_ofStmts c body, plain_ofCases c more⟩

end

end Action

end ShellAwait.Analysis
