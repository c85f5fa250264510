import ShellAwait.Proofs.Analysis.Confinement
import ShellAwait.Proofs.Analysis.Settling
import ShellAwait.Proofs.Bindings.Nearest

/-! # Destructuring

A pattern takes a value apart in a declaration, in an assignment to a literal and in the head of a
loop. All three follow one rule: the walk is refused for the first shape among what the pattern
takes apart, and a pattern that is not refused leaves every name it binds with an unknown value.
-/

namespace ShellAwait

open Text

/-- A value of the shape, or one that has it once it is awaited. -/
def Descriptor.IsOf (d : Descriptor) (shape : String) : Prop :=
  d = .shape shape ∨ d = .deferred (.shape shape)

theorem Descriptor.shapeName?_eq_some_iff {d : Descriptor} {shape : String} :
    d.shapeName? = some shape ↔ d.IsOf shape := by
  unfold shapeName? IsOf
  split <;> simp_all

/-- An array or an object that is written out. -/
def Expr.isComposite : Expr → Bool
  | .array .. | .object .. => true
  | _ => false

def Expr.isSpread : Expr → Bool
  | .spread .. => true
  | _ => false

def Pattern.isComposite : Pattern → Bool
  | .array .. | .object .. => true
  | _ => false

namespace Analysis

open Bindings Analysis.Action Script

variable {value : Expr} {first : Action} {names : List String}

/-- The first of the descriptors that is of any shape is of the given one. -/
def FirstShape (shape : String) : List Descriptor → Prop
  | [] => False
  | d :: more => d.IsOf shape ∨ (∀ other, ¬d.IsOf other) ∧ FirstShape shape more

/-- The walk is refused, at the span of a pattern, for the first shape that has been found, and for
nothing else. -/
def RefusedFor (found : List Descriptor) (span : Span) (result : Except Refusal Descriptor) : Prop :=
  ∀ refusal, result = .error refusal ↔ FirstShape refusal.shape found ∧ refusal.span = span

def Succeeds (action : Action) (s : State) : Prop := ∃ d t, action.run s = (.ok d, t)

/-! ## What a pattern takes apart -/

/-- The elements of an array are walked for their values, which are found in order. What is spread
is walked and does not count. -/
inductive ReadsElements (c : Catalogue) : List Expr → State → List Descriptor → State → Prop
  | done (s : State) : ReadsElements c [] s [] s
  | spread {span : Span} {inner : Expr} {more : List Expr} {s t u : State} {d : Descriptor}
      {found : List Descriptor} : (ofExpr c .consumed (.spread span inner)).run s = (.ok d, t) →
      ReadsElements c more t found u → ReadsElements c (.spread span inner :: more) s found u
  | element {expr : Expr} {more : List Expr} {s t u : State} {d : Descriptor}
      {found : List Descriptor} : expr.isSpread = false →
      (ofExpr c .consumed expr).run s = (.ok d, t) → ReadsElements c more t found u →
      ReadsElements c (expr :: more) s (d :: found) u

/-- The members of an object are walked, their keys first. Only the values of properties count. -/
inductive ReadsMembers (c : Catalogue) : List ObjectMember → State → List Descriptor → State → Prop
  | done (s : State) : ReadsMembers c [] s [] s
  | property {key : Key} {value : Expr} {more : List ObjectMember} {s t u v : State}
      {k d : Descriptor} {found : List Descriptor} : (ofKey c key).run s = (.ok k, t) →
      (ofExpr c .consumed value).run t = (.ok d, u) → ReadsMembers c more u found v →
      ReadsMembers c (.property key value :: more) s (d :: found) v
  | method {key : Key} {fn : Function} {more : List ObjectMember} {s t u v : State}
      {k d : Descriptor} {found : List Descriptor} : (ofKey c key).run s = (.ok k, t) →
      (ofFunction c none fn).run t = (.ok d, u) → ReadsMembers c more u found v →
      ReadsMembers c (.method key fn :: more) s found v
  | spread {inner : Expr} {more : List ObjectMember} {s t u : State} {d : Descriptor}
      {found : List Descriptor} : (ofExpr c .consumed inner).run s = (.ok d, t) →
      ReadsMembers c more t found u → ReadsMembers c (.spread inner :: more) s found u

/-- The value of a pattern is walked and the descriptors found of which the pattern takes the first
shape apart: those in a literal, and of any other expression its own. -/
inductive Reads (c : Catalogue) : Expr → State → List Descriptor → State → Prop
  | array {span : Span} {elements : List Expr} {s t : State} {found : List Descriptor} :
      ReadsElements c elements s found t →
      Reads c (.array span elements) s found (t.record (.descriptor .arrayExpr span .array))
  | object {span : Span} {members : List ObjectMember} {s t : State} {found : List Descriptor} :
      ReadsMembers c members s found t →
      Reads c (.object span members) s found (t.record (.descriptor .objectExpr span .object))
  | whole {value : Expr} {s t : State} {d : Descriptor} : value.isComposite = false →
      (ofExpr c .consumed value).run s = (.ok d, t) → Reads c value s [d] t

variable {c : Catalogue} {s t : State} {found : List Descriptor} {d : Descriptor}

/-- A descriptor stands for what has been found: its shape is the first one. -/
def Stands (d : Descriptor) (found : List Descriptor) : Prop :=
  ∀ shape, d.shapeName? = some shape ↔ FirstShape shape found

theorem stands_nil : Stands .unknown [] := fun _ => ⟨fun h => (by cases h), False.elim⟩

theorem stands_firstShape {rest : Descriptor} (h : Stands rest found) (d : Descriptor) :
    Stands (firstShape d rest) (d :: found) := by
  intro shape
  rw [FirstShape, ← h shape]
  simp only [← Descriptor.shapeName?_eq_some_iff, firstShape]
  cases hd : d.shapeName? with
  | none => simp
  | some own => simp [hd]

theorem stands_singleton (d : Descriptor) : Stands d [d] := by
  intro shape
  simp [FirstShape, Descriptor.shapeName?_eq_some_iff]

theorem ofElements_cons (c : Catalogue) {expr : Expr} (h : expr.isSpread = false)
    (more : List Expr) :
    ofElements c (expr :: more) =
      (ofExpr c .consumed expr).bind fun d => (ofElements c more).map (firstShape d) := by
  cases expr with
  | spread => cases h
  | _ => rfl

theorem source_whole (h : value.isComposite = false) (whole contents : Action) :
    source value whole contents = whole := by
  cases value with
  | array => cases h
  | object => cases h
  | _ => rfl

theorem ReadsElements.run {elements : List Expr} (h : ReadsElements c elements s found t) :
    ∃ d, (ofElements c elements).run s = (.ok d, t) ∧ Stands d found := by
  induction h with
  | done s => exact ⟨.unknown, rfl, stands_nil⟩
  | spread hrun _ ih =>
      obtain ⟨rest, hmore, hrest⟩ := ih
      exact ⟨rest, (run_bind_of_ok hrun).trans hmore, hrest⟩
  | @element expr more s t u d found hspread hrun _ ih =>
      obtain ⟨rest, hmore, hrest⟩ := ih
      refine ⟨firstShape d rest, ?_, stands_firstShape hrest d⟩
      rw [ofElements_cons c hspread, run_bind_of_ok hrun]
      exact run_bind_of_ok hmore

theorem ReadsMembers.run {members : List ObjectMember} (h : ReadsMembers c members s found t) :
    ∃ d, (ofMembers c members).run s = (.ok d, t) ∧ Stands d found := by
  induction h with
  | done s => exact ⟨.unknown, rfl, stands_nil⟩
  | @property key value more s t u v k d found hkey hrun _ ih =>
      obtain ⟨rest, hmore, hrest⟩ := ih
      refine ⟨firstShape d rest, ?_, stands_firstShape hrest d⟩
      calc (ofMembers c (.property key value :: more)).run s
          = ((ofExpr c .consumed value).bind fun d => (ofMembers c more).map (firstShape d)).run t :=
            run_bind_of_ok hkey
        _ = ((ofMembers c more).map (firstShape d)).run u := run_bind_of_ok hrun
        _ = (.ok (firstShape d rest), v) := run_bind_of_ok hmore
  | @method key fn more s t u v k d found hkey hrun _ ih =>
      obtain ⟨rest, hmore, hrest⟩ := ih
      refine ⟨rest, ?_, hrest⟩
      calc (ofMembers c (.method key fn :: more)).run s
          = ((ofFunction c none fn).andThen (ofMembers c more)).run t := run_bind_of_ok hkey
        _ = (ofMembers c more).run u := run_bind_of_ok hrun
        _ = (.ok rest, v) := hmore
  | spread hrun _ ih =>
      obtain ⟨rest, hmore, hrest⟩ := ih
      exact ⟨rest, (run_bind_of_ok hrun).trans hmore, hrest⟩

theorem Reads.run (h : Reads c value s found t) :
    ∃ d, (source value (ofExpr c .consumed value) (ofContents c value)).run s = (.ok d, t) ∧
      Stands d found := by
  cases h with
  | array h =>
      obtain ⟨d, hrun, hd⟩ := h.run
      exact ⟨d, run_bind_of_ok hrun, hd⟩
  | object h =>
      obtain ⟨d, hrun, hd⟩ := h.run
      exact ⟨d, run_bind_of_ok hrun, hd⟩
  | @whole value s t d hvalue hrun =>
      exact ⟨d, by rw [source_whole hvalue, hrun], stands_singleton d⟩

/-! A value that can be walked can be read, in the same way. -/

theorem exists_readsElements {elements : List Expr}
    (h : (ofElements c elements).run s = (.ok d, t)) :
    ∃ found, ReadsElements c elements s found t := by
  induction elements generalizing s d with
  | nil =>
      cases h
      exact ⟨[], .done _⟩
  | cons expr more ih =>
      cases hspread : expr.isSpread with
      | false =>
          rw [ofElements_cons c hspread] at h
          obtain ⟨v, middle, hrun, hrest⟩ := run_bind h
          obtain ⟨w, last, hmore, hlast⟩ := run_bind hrest
          cases hlast
          obtain ⟨found, hfound⟩ := ih hmore
          exact ⟨v :: found, .element hspread hrun hfound⟩
      | true =>
          cases expr with
          | spread span inner =>
              obtain ⟨v, middle, hrun, hrest⟩ := run_bind h
              obtain ⟨found, hfound⟩ := ih hrest
              exact ⟨found, .spread hrun hfound⟩
          | _ => cases hspread

theorem exists_readsMembers {members : List ObjectMember}
    (h : (ofMembers c members).run s = (.ok d, t)) :
    ∃ found, ReadsMembers c members s found t := by
  induction members generalizing s d with
  | nil =>
      cases h
      exact ⟨[], .done _⟩
  | cons member more ih =>
      cases member with
      | property key value =>
          obtain ⟨v, middle, hfirst, hrest⟩ := run_bind h
          obtain ⟨w, after, hvalue, hmap⟩ := run_bind hrest
          obtain ⟨x, last, hmore, hlast⟩ := run_bind hmap
          cases hlast
          obtain ⟨found, hfound⟩ := ih hmore
          exact ⟨w :: found, .property hfirst hvalue hfound⟩
      | method key fn =>
          obtain ⟨v, middle, hfirst, hrest⟩ := run_bind h
          obtain ⟨w, after, hfn, hmore⟩ := run_bind hrest
          obtain ⟨found, hfound⟩ := ih hmore
          exact ⟨found, .method hfirst hfn hfound⟩
      | spread inner =>
          obtain ⟨v, middle, hfirst, hrest⟩ := run_bind h
          obtain ⟨found, hfound⟩ := ih hrest
          exact ⟨found, .spread hfirst hfound⟩

theorem exists_reads (h : (ofExpr c .consumed value).run s = (.ok d, t)) :
    ∃ found, Reads c value s found t := by
  cases value with
  | array span elements =>
      obtain ⟨v, middle, hcontents, hrecord⟩ := run_bind h
      obtain ⟨w, last, hrun, hgive⟩ := run_bind hcontents
      cases hgive
      cases hrecord
      obtain ⟨found, hfound⟩ := exists_readsElements hrun
      exact ⟨found, .array hfound⟩
  | object span members =>
      obtain ⟨v, middle, hcontents, hrecord⟩ := run_bind h
      obtain ⟨w, last, hrun, hgive⟩ := run_bind hcontents
      cases hgive
      cases hrecord
      obtain ⟨found, hfound⟩ := exists_readsMembers hrun
      exact ⟨found, .object hfound⟩
  | _ => exact ⟨[d], .whole rfl h⟩

/-! ## Refusals -/

theorem Stands.refusedFor {span : Span} {result : Except Refusal Descriptor} (h : Stands d found)
    (hrefused : ∀ shape, d.shapeName? = some shape → result = .error ⟨shape, span⟩)
    (hwalked : d.shapeName? = none → ∃ v, result = .ok v) : RefusedFor found span result := by
  intro refusal
  rw [← h refusal.shape]
  cases hd : d.shapeName? with
  | none =>
      obtain ⟨v, rfl⟩ := hwalked hd
      simp
  | some shape =>
      obtain ⟨named, place⟩ := refusal
      rw [hrefused shape hd]
      simp [eq_comm]

theorem refusedFor_destructured (h : Reads c value s found t) (span : Span) {rest : Action}
    (hrest : (∀ shape, ¬FirstShape shape found) → Succeeds rest t) :
    RefusedFor found span ((((source value (ofExpr c .consumed value) (ofContents c value)).bind
      fun found => refuseShape found span).andThen rest).run s).1 := by
  obtain ⟨d, hrun, hd⟩ := h.run
  have hsource : ((source value (ofExpr c .consumed value) (ofContents c value)).bind
      fun found => refuseShape found span).run s = (refuseShape d span).run t := run_bind_of_ok hrun
  apply hd.refusedFor
  · intro shape hshape
    rw [Action.andThen, Action.run, hsource, refuseShape, hshape]
    rfl
  · intro hnone
    have hfound : ∀ shape, ¬FirstShape shape found := by
      intro shape hshape
      rw [(hd shape).mpr hshape] at hnone
      cases hnone
    obtain ⟨v, u, hv⟩ := hrest hfound
    refine ⟨v, ?_⟩
    rw [Action.andThen, Action.run, hsource, refuseShape, hnone]
    exact congrArg Prod.fst hv

theorem Succeeds.andThen {next : Action} (h : Succeeds first s) (hnext : ∀ t, Succeeds next t) :
    Succeeds (first.andThen next) s := by
  obtain ⟨d, t, hrun⟩ := h
  obtain ⟨e, u, hlast⟩ := hnext t
  exact ⟨e, u, (run_bind_of_ok hrun).trans hlast⟩

theorem RefusedFor.bind {span : Span} {next : Descriptor → Action}
    (h : RefusedFor found span (first.run s).1) (hnext : ∀ d t, Succeeds (next d) t) :
    RefusedFor found span ((first.bind next).run s).1 := by
  intro refusal
  rw [← h refusal, Action.run]
  rcases first.run s with ⟨refused | d, t⟩
  · exact Iff.rfl
  · obtain ⟨e, u, hlast⟩ := hnext d t
    simp [hlast]

/-! ## Names that a pattern binds -/

/-- Nothing is known of the names afterwards. -/
def Action.Forgets (action : Action) (names : List String) : Prop :=
  ∀ s d t, action.run s = (.ok d, t) → ∀ name ∈ names, find? name t.bindings.levels = some .unknown

theorem forgets_nil (action : Action) : action.Forgets [] :=
  fun _ _ _ _ _ hname => absurd hname List.not_mem_nil

theorem Action.Forgets.after {next : Action} (h : next.Forgets names) :
    (first.andThen next).Forgets names := by
  intro s d t hrun
  obtain ⟨v, middle, -, hnext⟩ := run_bind hrun
  exact h middle d t hnext

theorem Action.Forgets.bind {next : Descriptor → Action} (h : first.Forgets names)
    (hnext : ∀ d, (next d).Enclosed) : (first.bind next).Forgets names := by
  intro s d t hrun name hname
  obtain ⟨v, middle, hone, htwo⟩ := run_bind hrun
  have hpreserved := preserved_of_enclosed (hnext v) middle
  rw [htwo] at hpreserved
  exact hpreserved.find?_unknown (h s v middle hone name hname)

theorem Action.Forgets.append {action : Action} {others : List String} (h : action.Forgets names)
    (hothers : action.Forgets others) : action.Forgets (names ++ others) := by
  intro s d t hrun name hname
  exact (List.mem_append.mp hname).elim (h s d t hrun name) (hothers s d t hrun name)

theorem Action.Forgets.andThen {next : Action} {others : List String} (hfirst : first.Forgets names)
    (hnext : next.Forgets others) (henclosed : next.Enclosed) :
    (first.andThen next).Forgets (names ++ others) :=
  (hfirst.bind fun _ => henclosed).append hnext.after

theorem forgets_assign (name : String) : (Action.assign name .unknown).Forgets [name] := by
  intro s d t hrun other hother
  cases hrun
  rw [List.mem_singleton.mp hother]
  exact find?_assign_unknown s.bindings name

mutual

theorem forgets_ofTarget (c : Catalogue) (target : Expr) :
    (ofTarget c target).Forgets (targetNames target) := by
  match target with
  | .name span (some name) => exact forgets_assign name
  | .paren span part => exact forgets_ofTarget c part
  | .array span elements => exact forgets_ofTargets c elements
  | .object span members => exact forgets_ofTargetMembers c members
  | .spread span part => exact forgets_ofTarget c part
  | .assign span operator part value => exact (forgets_ofTarget c part).after
  | .name span none | .hole | .literal .. | .template .. | .tagged .. | .thisValue ..
  | .function .. | .arrow .. | .member .. | .index .. | .call .. | .construct .. | .unary ..
  | .await .. | .update .. | .binary .. | .cond .. | .sequence .. => exact forgets_nil _

theorem forgets_ofTargets (c : Catalogue) (targets : List Expr) :
    (ofTargets c targets).Forgets (targetNamesAll targets) := by
  match targets with
  | [] => exact forgets_nil _
  | target :: more =>
      exact (forgets_ofTarget c target).andThen (forgets_ofTargets c more)
        (closed_enclosed.ofTargets c more)

theorem forgets_ofTargetMembers (c : Catalogue) (members : List ObjectMember) :
    (ofTargetMembers c members).Forgets (memberTargetNames members) := by
  match members with
  | [] => exact forgets_nil _
  | .property key value :: more =>
      exact ((forgets_ofTarget c value).andThen (forgets_ofTargetMembers c more)
        (closed_enclosed.ofTargetMembers c more)).after
  | .method key fn :: more => exact forgets_ofTargetMembers c more
  | .spread part :: more =>
      exact (forgets_ofTarget c part).andThen (forgets_ofTargetMembers c more)
        (closed_enclosed.ofTargetMembers c more)

end

/-- Declaring names succeeds, and nothing is known of them afterwards, nor of any other name of
which nothing was known before. -/
theorem run_declareAll (names : List String) (s : State) :
    ∃ t, (declareAll names).run s = (.ok .unknown, t) ∧ ∀ name,
      name ∈ names ∨ find? name s.bindings.levels = some .unknown →
      find? name t.bindings.levels = some .unknown := by
  induction names generalizing s with
  | nil => exact ⟨s, rfl, fun name h => h.resolve_left List.not_mem_nil⟩
  | cons first more ih =>
      obtain ⟨t, hrun, ht⟩ := ih { s with bindings := s.bindings.add first .unknown }
      refine ⟨t, hrun, fun name hname => ht name ?_⟩
      by_cases hfirst : first = name
      · exact .inr (hfirst ▸ find?_add_self s.bindings first .unknown)
      · refine hname.imp (fun hmem => ?_) fun hunknown => ?_
        · exact (List.mem_cons.mp hmem).resolve_left (Ne.symm hfirst)
        · rw [find?_add_of_ne hfirst]
          exact hunknown

theorem forgets_declareAll (names : List String) : (declareAll names).Forgets names := by
  intro s d t hrun name hname
  obtain ⟨last, hlast, hforgets⟩ := run_declareAll names s
  rw [hlast] at hrun
  cases hrun
  exact hforgets name (.inl hname)

/-! ## The rule -/

/-- A piece of a script in which a pattern takes a value apart. -/
structure TakingApart where
  /-- The walk of the whole piece. -/
  walk : Action
  /-- The span of the pattern. -/
  span : Span
  value : Expr
  /-- Where the value is walked, in terms of where the walk of the piece begins. -/
  entry : State → State
  /-- What is walked after the value. -/
  rest : Action
  /-- The names that the pattern binds in the scope of the piece. -/
  names : List String

/-- The head of a loop over a value with a pattern that has the given span. -/
inductive HeadPattern : Stmt → Span → Prop
  | declared (span : Span) (kind : Option DeclKind) (isRest : Bool) {pattern : Pattern}
      (value : Expr) (more : List Binding) : pattern.isComposite = true →
      HeadPattern (.var span kind (.mk isRest pattern value :: more)) pattern.span
  | assigned (span : Span) {target : Expr} (terminated : Bool) : target.isComposite = true →
      HeadPattern (.expr span target terminated) target.span

/-- The pieces with a pattern: a declarator with a value, an assignment to a literal, and a loop
over the elements of a literal, which has a scope of its own. -/
inductive TakingApart.OfScript (c : Catalogue) : TakingApart → Prop
  | declarator (isRest : Bool) {pattern : Pattern} (value : Expr) : pattern.isComposite = true →
      OfScript c
        { walk := ofDeclarators c [.mk isRest pattern value]
          span := pattern.span
          value := value
          entry := id
          rest := ofPattern c pattern
          names := pattern.names }
  | assignment (use : Use) (span : Span) (operator : Token) {target : Expr} (value : Expr) :
      target.isComposite = true →
      OfScript c
        { walk := ofExpr c use (.assign span operator target value)
          span := target.span
          value := value
          entry := id
          rest := ofTarget c target
          names := targetNames target }
  | loop (span place : Span) {head : Stmt} {patternSpan : Span} (elements : List Expr)
      (body : Stmt) {names : List String} {iteration : Action} : HeadPattern head patternSpan →
      loop? c (.each span true head (.array place elements) body) = some (names, iteration) →
      OfScript c
        { walk := ofStmt c (.each span true head (.array place elements) body)
          span := patternSpan
          value := .array place elements
          entry := State.enter
          rest := .loop names iteration
          names := [] }

theorem HeadPattern.headPattern? {head : Stmt} {span : Span} (h : HeadPattern head span) :
    headPattern? head = some span := by
  cases h with
  | @declared span kind isRest pattern value more hpattern =>
      cases pattern with
      | array => rfl
      | object => rfl
      | _ => cases hpattern
  | @assigned span target terminated htarget =>
      cases target with
      | array => rfl
      | object => rfl
      | _ => cases htarget

theorem succeeds_nothing (s : State) : Succeeds nothing s := ⟨.unknown, s, rfl⟩

theorem succeeds_declareAll (names : List String) (s : State) : Succeeds (declareAll names) s := by
  obtain ⟨t, hrun, -⟩ := run_declareAll names s
  exact ⟨.unknown, t, hrun⟩

theorem ofDeclarators_composite (c : Catalogue) (isRest : Bool) {pattern : Pattern} (value : Expr)
    (h : pattern.isComposite = true) :
    ofDeclarators c [.mk isRest pattern value] =
      (((source value (ofExpr c .consumed value) (ofContents c value)).bind fun found =>
        refuseShape found pattern.span).andThen
        ((ofPattern c pattern).andThen (declareAll pattern.names))).andThen nothing := by
  cases pattern with
  | array => rfl
  | object => rfl
  | _ => cases h

theorem ofExpr_assign_composite (c : Catalogue) (use : Use) (span : Span) (operator : Token)
    {target : Expr} (value : Expr) (h : target.isComposite = true) :
    ofExpr c use (.assign span operator target value) =
      (((source value (ofExpr c .consumed value) (ofContents c value)).bind fun found =>
        refuseShape found target.span).andThen ((ofTarget c target).andThen nothing)).recorded
        .assignExpr span := by
  cases target with
  | array => rfl
  | object => rfl
  | _ => cases h

theorem ofStmt_each_composite (c : Catalogue) (span place : Span) {head : Stmt} {patternSpan : Span}
    (elements : List Expr) (body : Stmt) {iteration : Action} (hhead : HeadPattern head patternSpan)
    (hloop : loop? c (.each span true head (.array place elements) body) = some (names, iteration)) :
    ofStmt c (.each span true head (.array place elements) body) =
      .scoped (((source (.array place elements) (ofExpr c .consumed (.array place elements))
        (ofContents c (.array place elements))).bind fun found =>
          refuseShape found patternSpan).andThen (.loop names iteration)) := by
  have hiterated (whole contents : Action) :
      iterated true head (.array place elements) whole contents =
        (source (.array place elements) whole contents).bind fun found =>
          refuseShape found patternSpan := by
    unfold iterated
    rw [hhead.headPattern?]
  cases hloop
  rw [← hiterated]
  cases hhead <;> rfl

theorem TakingApart.OfScript.refusedFor {piece : TakingApart} (h : piece.OfScript c)
    (hreads : Reads c piece.value (piece.entry s) found t)
    (hrest : (∀ shape, ¬FirstShape shape found) → Succeeds piece.rest t) :
    RefusedFor found piece.span (piece.walk.run s).1 := by
  cases h with
  | @declarator isRest pattern value hpattern =>
      simp only [ofDeclarators_composite c isRest value hpattern]
      refine (refusedFor_destructured hreads _ fun hfound => ?_).bind fun _ => succeeds_nothing
      exact (hrest hfound).andThen (succeeds_declareAll pattern.names)
  | @assignment use span operator target value htarget =>
      simp only [ofExpr_assign_composite c use span operator value htarget]
      refine (refusedFor_destructured hreads _ fun hfound => ?_).bind fun d t => ⟨d, _, rfl⟩
      exact (hrest hfound).andThen succeeds_nothing
  | loop span place elements body hhead hloop =>
      simp only [ofStmt_each_composite c span place elements body hhead hloop, Action.run]
      exact refusedFor_destructured hreads _ hrest

theorem TakingApart.OfScript.forgets {piece : TakingApart} (h : piece.OfScript c) :
    piece.walk.Forgets piece.names := by
  have hnothing : nothing.Enclosed := closed_enclosed.give _
  cases h with
  | @declarator isRest pattern value hpattern =>
      simp only [ofDeclarators_composite c isRest value hpattern]
      exact (forgets_declareAll pattern.names).after.after.bind fun _ => hnothing
  | @assignment use span operator target value htarget =>
      simp only [ofExpr_assign_composite c use span operator value htarget]
      refine Action.Forgets.bind ?_ fun d => closed_enclosed.record _ _ d
      exact ((forgets_ofTarget c target).bind fun _ => hnothing).after
  | loop => exact forgets_nil _

/-- Destructuring is refused exactly for what it reads. The value of a pattern is read whenever it
can be walked; let also what follows it be walked, unless a shape has been found. The walk of a
declarator, of an assignment and of a loop over the elements of a literal is then refused if and
only if some descriptor that counts is a shape, deferred or not; the refusal names the first of them
and has the span of the pattern. If a declarator or an assignment is not refused, every name that
its pattern binds is looked up as unknown. -/
theorem destructuring_refused_iff (c : Catalogue) {piece : TakingApart} (hpiece : piece.OfScript c)
    (s : State) :
    (∀ d t, (ofExpr c .consumed piece.value).run (piece.entry s) = (.ok d, t) →
      ∃ found, Reads c piece.value (piece.entry s) found t) ∧
    (∀ found t, Reads c piece.value (piece.entry s) found t →
      ((∀ shape, ¬FirstShape shape found) → Succeeds piece.rest t) →
      RefusedFor found piece.span (piece.walk.run s).1) ∧
    ∀ d t, piece.walk.run s = (.ok d, t) →
      ∀ name ∈ piece.names, t.bindings.lookup name = .unknown := by
  refine ⟨fun d t hrun => exists_reads hrun,
    fun found t hreads hrest => hpiece.refusedFor hreads hrest, fun d t hrun name hname => ?_⟩
  rw [Bindings.lookup, hpiece.forgets s d t hrun name hname]
  rfl

/-- With `x` of a shape, `let [a] = [1, ...x, x]` is refused for its last element; without that
element it is not, since what is spread does not count, and `a` is bound and unknown. -/
theorem destructuring_refused_iff_spread :
    let s : State := { bindings := { root := ⟨[("x", .shape "Cursor")]⟩ } }
    let c : Catalogue := ⟨⟨[]⟩, ⟨[]⟩⟩
    let one : Expr := .literal ⟨11, 12⟩ (some .number) ['1']
    let spread : Expr := .spread ⟨14, 18⟩ (.name ⟨17, 18⟩ (some "x"))
    let pattern : Pattern := .array ⟨4, 7⟩ [.name ⟨5, 6⟩ (some "a")]
    let declared (elements : List Expr) : Outcome Descriptor :=
      (ofDeclarators c [.mk false pattern (.array ⟨10, 22⟩ elements)]).run s
    (declared [one, spread, .name ⟨20, 21⟩ (some "x")]).1 = .error ⟨"Cursor", ⟨4, 7⟩⟩ ∧
    (∀ refusal, (declared [one, spread]).1 ≠ .error refusal) ∧
    (declared [one, spread]).2.bindings.lookup "a" = .unknown ∧
    (declared [one, spread]).2.bindings.isBound "a" = true := by
  intro s c one spread pattern declared
  have hpiece (elements : List Expr) := TakingApart.OfScript.declarator (c := c) false
    (.array ⟨10, 22⟩ elements) (rfl : pattern.isComposite = true)
  obtain ⟨-, hrefused, -⟩ := destructuring_refused_iff c
    (hpiece [one, spread, .name ⟨20, 21⟩ (some "x")]) s
  obtain ⟨-, hwalked, hunknown⟩ := destructuring_refused_iff c (hpiece [one, spread]) s
  refine ⟨?_, fun refusal h => ?_, hunknown _ _ rfl "a" (by decide), by decide⟩
  · have hiff := hrefused [.number, .shape "Cursor"] _
      (.array (.element rfl rfl (.spread rfl (.element rfl rfl (.done _)))))
      fun _ => ⟨.unknown, _, rfl⟩
    refine (hiff ⟨"Cursor", ⟨4, 7⟩⟩).mpr ⟨.inr ⟨fun other h => ?_, .inl (.inl rfl)⟩, rfl⟩
    rcases h with hshape | hdeferred
    · cases hshape
    · cases hdeferred
  · have hiff := hwalked [.number] _ (.array (.element rfl rfl (.spread rfl (.done _))))
      fun _ => ⟨.unknown, _, rfl⟩
    rcases ((hiff refusal).mp h).1 with (hshape | hdeferred) | ⟨-, hnone⟩
    · cases hshape
    · cases hdeferred
    · cases hnone

end Analysis

end ShellAwait
