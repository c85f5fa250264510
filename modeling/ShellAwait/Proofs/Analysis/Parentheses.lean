import ShellAwait.Proofs.Analysis.Confinement
import ShellAwait.Proofs.Bindings.Nearest

/-! # Targets in parentheses

An assignment and a step operator write to a target that is a name. In parentheses the name is only
read: the walk ends in the same way, and leaves the bindings that it would leave without the
parentheses but for the one assignment.
-/

namespace ShellAwait

open Text

def Expr.parenthesized : List Span → Expr → Expr
  | [], inner => inner
  | span :: more, inner => .paren span (inner.parenthesized more)

namespace Analysis

open Bindings Analysis.Action

/-- An expression that writes to the target it is given. -/
inductive Writing : (Expr → Expr) → Prop
  | assign (span : Span) (operator : Token) (value : Expr) :
      Writing fun target => .assign span operator target value
  | stepBefore (span : Span) {operator : Token} : isStepOperator operator.kind = true →
      Writing fun target => .unary span operator target
  | stepAfter (span : Span) (operator : Token) : Writing fun target => .update span operator target

/-- Both walks end in the same way, and all that the second one has not done to the bindings is to
assign what it yields. -/
structure Unwritten (name : String) (bare wrapped : Outcome Descriptor) : Prop where
  result : wrapped.1 = bare.1
  failed : ∀ refusal, bare.1 = .error refusal → wrapped.2.bindings = bare.2.bindings
  assigned : ∀ d, bare.1 = .ok d → bare.2.bindings = wrapped.2.bindings.assign name d

variable {c : Catalogue} {name : String} {s : State}

theorem ofBase_parenthesized (c : Catalogue) (spans : List Span) (target : Expr) :
    ofBase c (target.parenthesized spans) = ofBase c target := by
  induction spans with
  | nil => rfl
  | cons span more ih => exact ih

theorem run_parenthesized (c : Catalogue) (spans : List Span) (place : Span) (name : String)
    (s : State) :
    ∃ t, (ofExpr c .consumed (Expr.parenthesized spans (.name place (some name)))).run s =
      (.ok (s.bindings.lookup name), t) ∧ t.bindings = s.bindings := by
  induction spans with
  | nil => exact ⟨_, rfl, bindings_record s _⟩
  | cons span more ih =>
      obtain ⟨t, hrun, ht⟩ := ih
      refine ⟨t.record (.descriptor .parenExpr span (s.bindings.lookup name)), ?_, ?_⟩
      · exact run_bind_of_ok hrun
      · rw [bindings_record, ht]

theorem Unwritten.recorded {a b : Action} (h : Unwritten name (a.run s) (b.run s)) (kind : NodeKind)
    (span : Span) :
    Unwritten name ((a.recorded kind span).run s) ((b.recorded kind span).run s) := by
  obtain ⟨hresult, hfailed, hassigned⟩ := h
  change Unwritten name ((a.bind (.record kind span)).run s) ((b.bind (.record kind span)).run s)
  rw [Action.run, Action.run]
  generalize a.run s = bare at hresult hfailed hassigned ⊢
  generalize b.run s = wrapped at hresult hfailed hassigned ⊢
  rcases bare with ⟨refusal | d, t⟩ <;> rcases wrapped with ⟨refusal' | d', u⟩ <;> cases hresult
  · exact ⟨rfl, hfailed, hassigned⟩
  · refine ⟨rfl, fun refusal h => (by cases h), fun d' h => ?_⟩
    cases h
    change (t.record _).bindings = (u.record _).bindings.assign name d
    rw [bindings_record, bindings_record]
    exact hassigned d rfl

theorem unwritten_assign (c : Catalogue) (operator : Token) (value : Expr) (place : Span)
    (name : String) (s : State) :
    let assigning (store : Descriptor → Action) : Action :=
      (ofBase c (.name place (some name))).andThen
        (((ofExpr c .consumed value).map (assignedDescriptor operator.kind)).bind fun d =>
          (store d).andThen (.give d))
    Unwritten name ((assigning (.assign name)).run s) ((assigning fun _ => nothing).run s) := by
  intro assigning
  let read := s.record (.descriptor .nameRef place (s.bindings.lookup name))
  have hrun (store : Descriptor → Action) : (assigning store).run s =
      (((ofExpr c .consumed value).map (assignedDescriptor operator.kind)).bind fun d =>
        (store d).andThen (.give d)).run read := rfl
  rw [hrun, hrun]
  simp only [Action.map, Action.andThen, Action.nothing, Action.run]
  rcases (ofExpr c .consumed value).run read with ⟨refusal | v, t⟩
  · exact ⟨rfl, fun _ _ => rfl, fun d h => by cases h⟩
  · refine ⟨rfl, fun refusal h => (by cases h), fun d h => ?_⟩
    cases h
    rfl

theorem unwritten_step (c : Catalogue) (spans : List Span) (place : Span) (name : String)
    (s : State) :
    let stepping (operand : Expr) (store : Action) : Action :=
      ((ofExpr c .consumed operand).andThen store).andThen (.give .number)
    Unwritten name ((stepping (.name place (some name)) (.assign name .number)).run s)
      ((stepping (Expr.parenthesized spans (.name place (some name))) nothing).run s) := by
  intro stepping
  obtain ⟨t, hbare, ht⟩ := run_parenthesized c [] place name s
  obtain ⟨u, hwrapped, hu⟩ := run_parenthesized c spans place name s
  change (ofExpr c .consumed (.name place (some name))).run s = _ at hbare
  simp only [stepping, Action.andThen, Action.nothing, Action.run, hbare, hwrapped]
  refine ⟨rfl, fun refusal h => (by cases h), fun d h => ?_⟩
  cases h
  exact congrArg (·.assign name .number) (ht.trans hu.symm)

theorem unwritten {write : Expr → Expr} (hwrite : Writing write) (c : Catalogue) (use : Use)
    (place first : Span) (more : List Span) (name : String) (s : State) :
    Unwritten name ((ofExpr c use (write (.name place (some name)))).run s)
      ((ofExpr c use (write (.parenthesized (first :: more) (.name place (some name))))).run s) := by
  cases hwrite with
  | assign span operator value =>
      have hwrapped : ofExpr c use (.assign span operator
          (.parenthesized (first :: more) (.name place (some name))) value) =
          Action.recorded ((ofBase c (.parenthesized (first :: more) (.name place (some name)))).andThen
            (((ofExpr c .consumed value).map (assignedDescriptor operator.kind)).bind fun d =>
              nothing.andThen (.give d))) .assignExpr span := rfl
      rw [hwrapped, ofBase_parenthesized]
      exact (unwritten_assign c operator value place name s).recorded .assignExpr span
  | @stepBefore span operator hstep =>
      have hnumber : unaryDescriptor operator.kind = .number := by
        unfold isStepOperator at hstep
        split at hstep
        next h => rw [h]; rfl
        next h => rw [h]; rfl
        next => cases hstep
      have hunary (operand : Expr) : ofExpr c use (.unary span operator operand) =
          Action.recorded (((ofExpr c .consumed operand).andThen (stepTarget operand)).andThen
            (.give .number)) .prefixExpr span := by
        change Action.recorded (((ofExpr c .consumed operand).andThen
          (if isStepOperator operator.kind then stepTarget operand else nothing)).andThen
          (.give (unaryDescriptor operator.kind))) .prefixExpr span = _
        rw [if_pos hstep, hnumber]
      rw [hunary, hunary]
      exact (unwritten_step c (first :: more) place name s).recorded .prefixExpr span
  | stepAfter span operator =>
      exact (unwritten_step c (first :: more) place name s).recorded .postfixExpr span

/-- A target in parentheses is not written to. The walk of an assignment or of a step operator ends
in the same way with and without the parentheses; without them it has assigned what it yields, so
both leave the same bindings if and only if that assignment changes nothing: the name is bound, to
the same descriptor or to an unknown value. -/
theorem parenthesized_target_iff (c : Catalogue) {write : Expr → Expr} (hwrite : Writing write)
    (use : Use) (s : State) (name : String) (place first : Span) (more : List Span) :
    let bare := (ofExpr c use (write (.name place (some name)))).run s
    let wrapped :=
      (ofExpr c use (write (.parenthesized (first :: more) (.name place (some name))))).run s
    wrapped.1 = bare.1 ∧
    (∀ refusal, bare.1 = .error refusal → wrapped.2.bindings = bare.2.bindings) ∧
    ∀ d, bare.1 = .ok d → bare.2.bindings = wrapped.2.bindings.assign name d ∧
      (wrapped.2.bindings = bare.2.bindings ↔ wrapped.2.bindings.isBound name = true ∧
        (wrapped.2.bindings.lookup name = d ∨ wrapped.2.bindings.lookup name = .unknown)) := by
  intro bare wrapped
  obtain ⟨hresult, hfailed, hassigned⟩ := unwritten hwrite c use place first more name s
  refine ⟨hresult, hfailed, fun d hd => ⟨hassigned d hd, ?_⟩⟩
  rw [← assign_eq_self_iff, eq_comm, show bare.2.bindings = _ from hassigned d hd]

/-- A name with a shape keeps it through `(x) = 1` and `(x)++`, and loses it without the
parentheses. -/
theorem parenthesized_target_iff_shape :
    let s : State := { bindings := { root := ⟨[("x", .shape "Cursor")]⟩ } }
    let x : Expr := .name ⟨1, 2⟩ (some "x")
    let run (expr : Expr) := (ofExpr ⟨⟨[]⟩, ⟨[]⟩⟩ .consumed expr).run s
    let assigned (target : Expr) : Expr :=
      .assign ⟨0, 7⟩ ⟨.eq, ['=']⟩ target (.literal ⟨6, 7⟩ (some .number) ['1'])
    let stepped (target : Expr) : Expr := .update ⟨0, 5⟩ ⟨.plusPlus, ['+', '+']⟩ target
    (Writing assigned ∧ (run (assigned x)).1 = .ok .number ∧
      (run (assigned x)).2.bindings.lookup "x" = .unknown ∧
      (run (assigned (.paren ⟨0, 3⟩ x))).2.bindings.lookup "x" = .shape "Cursor" ∧
      (run (assigned (.paren ⟨0, 3⟩ x))).2.bindings ≠ (run (assigned x)).2.bindings) ∧
    (Writing stepped ∧ (run (stepped x)).1 = .ok .number ∧
      (run (stepped (.paren ⟨0, 3⟩ x))).2.bindings ≠ (run (stepped x)).2.bindings) := by
  intro s x run assigned stepped
  have hassigned : Writing assigned := .assign _ _ _
  have hstepped : Writing stepped := .stepAfter _ _
  obtain ⟨-, -, hassign⟩ := parenthesized_target_iff ⟨⟨[]⟩, ⟨[]⟩⟩ hassigned .consumed s "x" ⟨1, 2⟩
    ⟨0, 3⟩ []
  obtain ⟨-, -, hstep⟩ := parenthesized_target_iff ⟨⟨[]⟩, ⟨[]⟩⟩ hstepped .consumed s "x" ⟨1, 2⟩
    ⟨0, 3⟩ []
  refine ⟨⟨hassigned, by decide, by decide, by decide, fun h => ?_⟩, hstepped, by decide,
    fun h => ?_⟩
  · obtain ⟨-, hiff⟩ := hassign .number rfl
    exact absurd (hiff.mp h) (by decide)
  · obtain ⟨-, hiff⟩ := hstep .number rfl
    exact absurd (hiff.mp h) (by decide)

end Analysis

end ShellAwait
