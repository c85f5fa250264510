import ShellAwait.Proofs.Analysis.Confinement
import ShellAwait.Proofs.Analysis.Recording
import ShellAwait.Proofs.Analysis.Suspensions
import ShellAwait.Proofs.Bindings.Nearest

/-! # Rounds of hoisting

Hoisting walks the functions of a statement list round by round and binds each to what its walk
yields. Whatever such a walk does, and wherever it fails, all that is left of it is that binding in
the innermost scope. The rounds end when one of them finds nothing new, or when there has been one
round more than there are functions: then the bindings may still change with the next round.
-/

namespace ShellAwait

namespace Script

def declaredName? : Stmt → Option String
  | .function _ name _ => name
  | _ => none

def declaredNames (stmts : List Stmt) : List String := stmts.filterMap declaredName?

def caseBody : Case → List Stmt
  | .mk _ _ body => body

end Script

namespace Bindings

/-- Functions with some of the names have been declared in the innermost scope. -/
inductive Declared (names : List String) : Bindings → Bindings → Prop
  | done (b : Bindings) : Declared names b b
  | next {b after : Bindings} {name : String} (result : Descriptor) : name ∈ names →
      Declared names (b.add name (.callable result)) after → Declared names b after

namespace Declared

variable {names : List String} {b after : Bindings}

theorem trans {last : Bindings} (h : Declared names b after) (hlast : Declared names after last) :
    Declared names b last := by
  induction h with
  | done => exact hlast
  | next result hname _ ih => exact .next result hname (ih hlast)

theorem mono {more : List String} (h : Declared names b after) (hsubset : names ⊆ more) :
    Declared more b after := by
  induction h with
  | done => exact .done _
  | next result hname _ ih => exact .next result (hsubset hname) ih

theorem depth (h : Declared names b after) : after.depth = b.depth := by
  induction h with
  | done => rfl
  | next result _ _ ih => exact ih.trans (depth_add _ _ _)

theorem cell_eq (h : Declared names b after) {i : Nat} {name : String}
    (hother : i + 1 ≠ b.depth ∨ name ∉ names) :
    cell after.levels i name = cell b.levels i name := by
  induction h with
  | done => rfl
  | @next b after bound result hname _ ih =>
      rw [ih (hother.imp_left fun hne => by rwa [depth_add]), cell_add, if_neg]
      rintro ⟨hlast, rfl⟩
      exact hother.elim (fun hne => hne hlast) fun hnot => hnot hname

theorem current_eq (h : Declared names b after) {name : String} (hname : name ∉ names) :
    after.current name = b.current name := by
  rw [current, h.depth, h.cell_eq (.inr hname)]
  rfl

end Declared

/-- Each of the names is bound in the innermost scope, if it is bound at all. -/
def Own (names : List String) (b : Bindings) : Prop :=
  ∀ name ∈ names, b.isBound name = true → (b.current name).isSome = true

theorem own_of_depth {b : Bindings} (h : b.depth = 1) (names : List String) : b.Own names := by
  intro name _ hbound
  obtain ⟨d, hd⟩ := Option.isSome_iff_exists.mp hbound
  obtain ⟨i, hi, -⟩ := exists_cell_of_find? hd
  have hroot : i = 0 := by
    refine Nat.eq_zero_of_not_pos fun hpos => ?_
    rw [cell_eq_none_of_le (Nat.le_trans (Nat.le_of_eq h) hpos)] at hi
    cases hi
  rw [current, h]
  rw [hroot] at hi
  exact Option.isSome_of_eq_some hi

theorem Own.of_declared {names : List String} {b after : Bindings} (h : b.Own names)
    (hdeclared : Declared names b after) : after.Own names := by
  induction hdeclared with
  | done => exact h
  | @next b after bound result _ _ ih =>
      refine ih fun name hname hbound => ?_
      rw [current_add]
      split
      next => rfl
      next hne =>
        refine h name hname ?_
        rwa [isBound, find?_add_of_ne hne] at hbound

theorem Own.current_eq {names : List String} {b : Bindings} (h : b.Own names) {name : String}
    (hname : name ∈ names) (hbound : b.isBound name = true) :
    b.current name = some (b.lookup name) := by
  obtain ⟨d, hd⟩ := Option.isSome_iff_exists.mp (h name hname hbound)
  rw [hd, lookup, find?_of_current hd]
  rfl

end Bindings

namespace Analysis

open Bindings Script Analysis.Action State

/-! ## One function -/

/-- Walk a function and bind a name to what it yields. All else that the walk has done to the
bindings is forgotten. -/
def Action.bindAs (walk : Action) (name : String) (s : State) : State :=
  match walk.run s with
  | (.error _, after) => { after with bindings := s.bindings }
  | (.ok d, after) => { after with bindings := s.bindings.add name d }

def Action.revises (walk : Action) (name : String) (s : State) : Bool :=
  match (walk.run s).1 with
  | .error _ => false
  | .ok d => !s.bindings.isBound name || s.bindings.lookup name ≠ d

theorem round_declaration (name : String) (walk : Action) (rest : Declarations) (s : State) :
    (Declarations.declaration name walk rest).round s =
      (walk.revises name s || (rest.round (walk.bindAs name s)).1,
        (rest.round (walk.bindAs name s)).2) := by
  rw [Declarations.round, Action.revises, Action.bindAs]
  rcases walk.run s with ⟨refusal | d, after⟩ <;> rfl

theorem lookup_of_not_revises {walk : Action} {name : String} {s : State} {d : Descriptor}
    (h : walk.revises name s = false) (hrun : (walk.run s).1 = .ok d) :
    s.bindings.isBound name = true ∧ s.bindings.lookup name = d := by
  rw [Action.revises, hrun] at h
  simpa using h

theorem current_bindAs {walk : Action} {name : String} {s : State} {d : Descriptor}
    (hrun : (walk.run s).1 = .ok d) : (walk.bindAs name s).bindings.current name = some d := by
  rw [Action.bindAs]
  generalize walk.run s = outcome at hrun ⊢
  rcases outcome with ⟨refusal | value, after⟩
  · cases hrun
  · cases hrun
    exact (current_add s.bindings name d name).trans (if_pos rfl)

theorem bindings_bindAs {walk : Action} {name : String} {s : State}
    (h : ∀ d, (walk.run s).1 = .ok d → s.bindings.current name = some d) :
    (walk.bindAs name s).bindings = s.bindings := by
  rw [Action.bindAs]
  rcases hrun : walk.run s with ⟨refusal | d, after⟩
  · rfl
  · exact add_of_current (h d (congrArg Prod.fst hrun))

def Action.IsFunction (walk : Action) : Prop :=
  ∃ span isAsync body, walk = .function span isAsync body

theorem isFunction_ofFunction (c : Catalogue) (self : Option String) (fn : Function) :
    (ofFunction c self fn).IsFunction := by
  obtain ⟨span, isAsync, parameters, body⟩ := fn
  cases body <;> exact ⟨_, _, _, rfl⟩

namespace Action.IsFunction

variable {walk : Action} {name : String} {s : State}

theorem frames (h : walk.IsFunction) (s : State) : (walk.run s).2.frames = s.frames := by
  obtain ⟨span, isAsync, body, rfl⟩ := h
  have hbody := (alike_run body (s.pushFrame {})).frames_popFrame
  rw [Action.run]
  generalize body.run (s.pushFrame {}) = outcome at hbody ⊢
  rcases outcome with ⟨refusal | value, after⟩
  · exact hbody
  · simp only
    split
    · unfold State.record
      split <;> exact hbody
    · exact hbody

theorem callable (h : walk.IsFunction) {d : Descriptor} (hrun : (walk.run s).1 = .ok d) :
    ∃ result, d = .callable result := by
  obtain ⟨span, isAsync, body, rfl⟩ := h
  rw [Action.run] at hrun
  generalize body.run (s.pushFrame {}) = outcome at hrun
  rcases outcome with ⟨refusal | value, after⟩
  · cases hrun
  · cases hrun
    rw [functionDescriptor]
    split
    · exact ⟨_, rfl⟩
    · split <;> exact ⟨_, rfl⟩

theorem frames_bindAs (h : walk.IsFunction) : (walk.bindAs name s).frames = s.frames := by
  have hframes := h.frames s
  rw [bindAs]
  generalize walk.run s = outcome at hframes ⊢
  rcases outcome with ⟨refusal | d, after⟩ <;> exact hframes

theorem declared_bindAs (h : walk.IsFunction) :
    Declared [name] s.bindings (walk.bindAs name s).bindings := by
  rw [bindAs]
  rcases hrun : walk.run s with ⟨refusal | d, after⟩
  · exact .done _
  · obtain ⟨result, rfl⟩ := h.callable (congrArg Prod.fst hrun)
    exact .next result List.mem_cons_self (.done _)

end Action.IsFunction

/-! ## One round -/

def Declarations.toList : Declarations → List (String × Action)
  | .done => []
  | .declaration name walk rest => (name, walk) :: rest.toList

def Declarations.names (declarations : Declarations) : List String :=
  declarations.toList.map Prod.fst

def Declarations.AreFunctions (declarations : Declarations) : Prop :=
  ∀ entry ∈ declarations.toList, entry.2.IsFunction

/-- A walk of any of the functions yields what its name is bound to in the innermost scope, unless
it fails. -/
def Declarations.Fixed (declarations : Declarations) (s : State) : Prop :=
  ∀ entry ∈ declarations.toList, ∀ d, (entry.2.run s).1 = .ok d →
    s.bindings.current entry.1 = some d

theorem length_names (declarations : Declarations) :
    declarations.names.length = declarations.count := by
  cases declarations with
  | done => rfl
  | declaration name walk rest => exact congrArg (· + 1) (length_names rest)

theorem fixed_of_peers {declarations : Declarations} {s t : State} (hpeers : s.Peers t)
    (h : declarations.Fixed s) : declarations.Fixed t := by
  intro entry hentry d hrun
  rw [(hpeers.run entry.2).1] at hrun
  rw [hpeers.bindings]
  exact h entry hentry d hrun

theorem declared_round {declarations : Declarations} (h : declarations.AreFunctions) (s : State) :
    Declared declarations.names s.bindings (declarations.round s).2.bindings ∧
      (declarations.round s).2.frames = s.frames := by
  cases declarations with
  | done => exact ⟨.done _, rfl⟩
  | declaration name walk rest =>
      obtain ⟨hwalk, hrest⟩ := List.forall_mem_cons.mp h
      obtain ⟨hothers, hframes⟩ := declared_round hrest (walk.bindAs name s)
      rw [round_declaration]
      refine ⟨?_, hframes.trans hwalk.frames_bindAs⟩
      have hfirst : Declared [name] s.bindings (walk.bindAs name s).bindings :=
        hwalk.declared_bindAs
      exact (hfirst.mono (List.cons_subset_cons name (List.nil_subset _))).trans
        (hothers.mono (List.subset_cons_self name _))

theorem bindings_round_of_fixed {declarations : Declarations} (h : declarations.AreFunctions)
    {s : State} (hfixed : declarations.Fixed s) :
    (declarations.round s).2.bindings = s.bindings := by
  cases declarations with
  | done => rfl
  | declaration name walk rest =>
      obtain ⟨hwalk, hrest⟩ := List.forall_mem_cons.mp h
      obtain ⟨hbound, hothers⟩ := List.forall_mem_cons.mp hfixed
      have hsame : (walk.bindAs name s).bindings = s.bindings := bindings_bindAs hbound
      have hpeers : s.Peers (walk.bindAs name s) := ⟨hsame, hwalk.frames_bindAs⟩
      rw [round_declaration]
      exact (bindings_round_of_fixed hrest (fixed_of_peers hpeers hothers)).trans hsame

/-- Where a round leaves the bindings as they are, every function is bound to what it yields: no
later declaration has the same name. -/
theorem fixed_of_bindings_round {declarations : Declarations} (h : declarations.AreFunctions)
    (hnames : declarations.names.Nodup) {s : State}
    (hsame : (declarations.round s).2.bindings = s.bindings) : declarations.Fixed s := by
  cases declarations with
  | done => exact fun entry hentry => absurd hentry List.not_mem_nil
  | declaration name walk rest =>
      obtain ⟨hwalk, hrest⟩ := List.forall_mem_cons.mp h
      obtain ⟨hfresh, hdistinct⟩ := List.nodup_cons.mp hnames
      rw [round_declaration] at hsame
      have hlater := (declared_round hrest (walk.bindAs name s)).1.current_eq hfresh
      have hbound (d : Descriptor) (hrun : (walk.run s).1 = .ok d) :
          s.bindings.current name = some d := by
        rw [← hsame, hlater]
        exact current_bindAs hrun
      have hbefore : (walk.bindAs name s).bindings = s.bindings := bindings_bindAs hbound
      have hpeers : (walk.bindAs name s).Peers s := ⟨hbefore.symm, hwalk.frames_bindAs.symm⟩
      have hothers : rest.Fixed (walk.bindAs name s) :=
        fixed_of_bindings_round hrest hdistinct (hsame.trans hbefore.symm)
      exact List.forall_mem_cons.mpr ⟨hbound, fixed_of_peers hpeers hothers⟩

/-- A round that finds nothing new leaves the bindings as they are, unless a name is bound in an
outer scope only: then it is bound once more. -/
theorem bindings_round_of_not_revised {declarations : Declarations} (h : declarations.AreFunctions)
    {names : List String} (hnames : declarations.names ⊆ names) {s : State}
    (hown : s.bindings.Own names) (hround : (declarations.round s).1 = false) :
    (declarations.round s).2.bindings = s.bindings := by
  cases declarations with
  | done => rfl
  | declaration name walk rest =>
      obtain ⟨hwalk, hrest⟩ := List.forall_mem_cons.mp h
      obtain ⟨hname, hothers⟩ := List.cons_subset.mp hnames
      rw [round_declaration, Bool.or_eq_false_iff] at hround
      have hsame : (walk.bindAs name s).bindings = s.bindings := by
        refine bindings_bindAs fun d hrun => ?_
        obtain ⟨hbound, hlookup⟩ := lookup_of_not_revises hround.1 hrun
        rw [hown.current_eq hname hbound, hlookup]
      rw [round_declaration]
      exact (bindings_round_of_not_revised hrest hothers (hsame ▸ hown) hround.2).trans hsame

/-! ## All rounds -/

/-- What every round keeps the rounds keep. They are no more than allowed, and fewer only if the
last one has found nothing new. -/
theorem hoistRounds_spec (round : State → Bool × State) {P : State → Prop}
    (h : ∀ s, P s → P (round s).2) (fuel rounds : Nat) {s : State} (hs : P s) :
    P (hoistRounds round fuel rounds s).2 ∧
      (hoistRounds round fuel rounds s).1 ≤ rounds + fuel ∧
      ((hoistRounds round fuel rounds s).1 < rounds + fuel →
        ∃ u, P u ∧ round u = (false, (hoistRounds round fuel rounds s).2)) := by
  induction fuel generalizing rounds s with
  | zero => exact ⟨hs, Nat.le_refl _, fun hless => absurd hless (Nat.lt_irrefl _)⟩
  | succ fuel ih =>
      have hstep := h s hs
      rw [hoistRounds]
      rcases hround : round s with ⟨_ | _, after⟩ <;> rw [hround] at hstep <;> simp only
      · exact ⟨hstep, by omega, fun _ => ⟨s, hs, hround⟩⟩
      · obtain ⟨hlast, hle, hless⟩ := ih (rounds + 1) (s := after) hstep
        exact ⟨hlast, by omega, fun hfewer => hless (by omega)⟩

def Declarations.rounds (declarations : Declarations) (s : State) : Nat × State :=
  hoistRounds declarations.round (declarations.count + 1) 0 { s with recording := false }

theorem rounds_le (declarations : Declarations) (s : State) :
    (declarations.rounds s).1 ≤ declarations.count + 1 := by
  have hspec := hoistRounds_spec declarations.round (P := fun _ => True) (fun _ _ => trivial)
    (declarations.count + 1) 0 (s := { s with recording := false }) trivial
  rw [Nat.zero_add] at hspec
  exact hspec.2.1

theorem declared_rounds {declarations : Declarations} (h : declarations.AreFunctions) (s : State) :
    Declared declarations.names s.bindings (declarations.rounds s).2.bindings ∧
      (declarations.rounds s).2.frames = s.frames := by
  refine (hoistRounds_spec declarations.round
    (P := fun t => Declared declarations.names s.bindings t.bindings ∧ t.frames = s.frames)
    (fun t ht => ?_) (declarations.count + 1) 0 (s := { s with recording := false })
    ⟨.done _, rfl⟩).1
  obtain ⟨hdeclared, hframes⟩ := declared_round h t
  exact ⟨ht.1.trans hdeclared, hframes.trans ht.2⟩

/-- Rounds that end early have settled the bindings: the last one has found nothing new. -/
theorem fixed_of_fewer_rounds {declarations : Declarations} (h : declarations.AreFunctions)
    (hnames : declarations.names.Nodup) {s : State} (hown : s.bindings.Own declarations.names)
    (hfewer : (declarations.rounds s).1 ≤ declarations.count) :
    declarations.Fixed (declarations.rounds s).2 := by
  obtain ⟨-, -, hends⟩ := hoistRounds_spec declarations.round
    (P := fun t => t.bindings.Own declarations.names)
    (fun t ht => ht.of_declared (declared_round h t).1) (declarations.count + 1) 0
    (s := { s with recording := false }) hown
  obtain ⟨last, hlast, hround⟩ := hends (by rw [Nat.zero_add]; exact Nat.lt_succ_of_le hfewer)
  have hsame : (declarations.round last).2.bindings = last.bindings :=
    bindings_round_of_not_revised h (List.Subset.refl _) hlast (congrArg Prod.fst hround)
  have hpeers : last.Peers (declarations.round last).2 := ⟨hsame, (declared_round h last).2⟩
  rw [hround] at hpeers
  exact fixed_of_peers hpeers (fixed_of_bindings_round h hnames hsame)

theorem peers_hoist (declarations : Declarations) (s : State) :
    (declarations.rounds s).2.Peers ((Action.hoist declarations).run s).2 := by
  rw [Action.run]
  split
  next hcount =>
    cases declarations with
    | done => exact ⟨rfl, rfl⟩
    | declaration name walk rest => cases hcount
  next => exact ⟨rfl, rfl⟩

/-! ## Statement lists -/

theorem forall_ofDeclared {c : Catalogue} {stmts : List Stmt} {P : String × Action → Prop} :
    (∀ entry ∈ (ofDeclared c stmts .done).toList, P entry) ↔
      ∀ span name fn, .function span (some name) fn ∈ stmts → P (name, ofFunction c none fn) := by
  induction stmts with
  | nil => simp [ofDeclared, Declarations.toList]
  | cons stmt more ih =>
      cases stmt with
      | function span name fn =>
          cases name with
          | none => simpa [ofDeclared] using ih
          | some name =>
              have hcons : (ofDeclared c (.function span (some name) fn :: more) .done).toList =
                (name, ofFunction c none fn) :: (ofDeclared c more .done).toList := rfl
              rw [hcons, List.forall_mem_cons, ih]
              simp only [List.mem_cons, Stmt.function.injEq, Option.some.injEq]
              constructor
              · rintro ⟨hfirst, hmore⟩ _ _ _ (⟨-, rfl, rfl⟩ | hmem)
                · exact hfirst
                · exact hmore _ _ _ hmem
              · intro h
                exact ⟨h span name fn (.inl ⟨rfl, rfl, rfl⟩), fun _ _ _ hmem => h _ _ _ (.inr hmem)⟩
      | _ => simpa [ofDeclared] using ih

theorem areFunctions_ofDeclared (c : Catalogue) (stmts : List Stmt) :
    (ofDeclared c stmts .done).AreFunctions :=
  forall_ofDeclared.mpr fun _ _ fn _ => isFunction_ofFunction c none fn

theorem names_ofDeclared (c : Catalogue) (stmts : List Stmt) :
    (ofDeclared c stmts .done).names = declaredNames stmts := by
  induction stmts with
  | nil => rfl
  | cons stmt more ih =>
      cases stmt with
      | function span name fn =>
          cases name with
          | none => exact ih
          | some name => exact congrArg (name :: ·) ih
      | _ => exact ih

theorem ofDeclared_append (c : Catalogue) (a b : List Stmt) (others : Declarations) :
    ofDeclared c (a ++ b) others = ofDeclared c a (ofDeclared c b others) := by
  induction a with
  | nil => rfl
  | cons stmt more ih =>
      cases stmt with
      | function span name fn =>
          cases name with
          | none => exact ih
          | some name => exact congrArg (Declarations.declaration name (ofFunction c none fn)) ih
      | _ => exact ih

theorem ofDeclaredCases_eq (c : Catalogue) (cases : List Case) :
    ofDeclaredCases c cases = ofDeclared c (cases.flatMap caseBody) .done := by
  induction cases with
  | nil => rfl
  | cons first more ih =>
      obtain ⟨isDefault, test, body⟩ := first
      rw [List.flatMap_cons, ofDeclared_append, ← ih]
      rfl

/-- Of the state before, functions of the given names have been bound in the innermost scope and
nothing else has changed. -/
structure TouchesOnly (names : List String) (s after : State) : Prop where
  findings : s.SameFindings after
  frames : after.frames = s.frames
  recording : after.recording = s.recording
  bindings : Declared names s.bindings after.bindings
  elsewhere : ∀ i name, i + 1 ≠ s.bindings.depth ∨ name ∉ names →
    cell after.bindings.levels i name = cell s.bindings.levels i name

/-- Hoisting touches only its names. From every state, and whether or not the walk of a function
fails somewhere inside, it finds nothing, leaves the frames and the recording mode alone, and
changes the bindings by declaring functions of the list, or of all the cases of a switch, in the
innermost scope. -/
theorem hoist_touches_only_its_names (c : Catalogue) (s : State) :
    (∀ stmts, TouchesOnly (declaredNames stmts) s
      ((Action.hoist (ofDeclared c stmts .done)).run s).2) ∧
    ∀ cases, TouchesOnly (declaredNames (cases.flatMap caseBody)) s
      ((Action.hoist (ofDeclaredCases c cases)).run s).2 := by
  have htouches (stmts : List Stmt) : TouchesOnly (declaredNames stmts) s
      ((Action.hoist (ofDeclared c stmts .done)).run s).2 := by
    have hpeers := peers_hoist (ofDeclared c stmts .done) s
    obtain ⟨hdeclared, hframes⟩ := declared_rounds (areFunctions_ofDeclared c stmts) s
    rw [names_ofDeclared, ← hpeers.bindings] at hdeclared
    exact ⟨sameFindings_hoist _ s, hpeers.frames.trans hframes,
      (alike_run (.hoist (ofDeclared c stmts .done)) s).recording, hdeclared,
      fun _ _ hother => hdeclared.cell_eq hother⟩
  refine ⟨htouches, fun cases => ?_⟩
  rw [ofDeclaredCases_eq]
  exact htouches _

/-! ## Settled bindings -/

/-- Walked again without recording, every function of the list yields what its name is bound to in
the scope of the list, unless the walk fails. -/
def HoistSettled (c : Catalogue) (stmts : List Stmt) (s : State) : Prop :=
  ∀ span name fn, .function span (some name) fn ∈ stmts → ∀ d,
    ((ofFunction c none fn).run { s with recording := false }).1 = .ok d →
      s.bindings.current name = some d

theorem fixed_ofDeclared {c : Catalogue} {stmts : List Stmt} {s : State} :
    (ofDeclared c stmts .done).Fixed { s with recording := false } ↔ HoistSettled c stmts s :=
  forall_ofDeclared

/-- Hoisting takes at most one round more than there are functions, of which no two have the same
name. The bindings it leaves have settled if and only if one more round would leave them as they
are. They have in any case if there were fewer rounds and no function hides a name of an outer
scope. -/
theorem hoist_settled_iff (c : Catalogue) {stmts : List Stmt} (hnames : (declaredNames stmts).Nodup)
    (s : State) :
    let declarations := ofDeclared c stmts .done
    let after := ((Action.hoist declarations).run s).2
    (declarations.rounds s).1 ≤ (declaredNames stmts).length + 1 ∧
    (HoistSettled c stmts after ↔
      (declarations.round { after with recording := false }).2.bindings = after.bindings) ∧
    ((declarations.rounds s).1 ≤ (declaredNames stmts).length →
      s.bindings.Own (declaredNames stmts) → HoistSettled c stmts after) := by
  intro declarations after
  have hfunctions : declarations.AreFunctions := areFunctions_ofDeclared c stmts
  have hlisted : declarations.names = declaredNames stmts := names_ofDeclared c stmts
  have hcount : declarations.count = (declaredNames stmts).length := by
    rw [← length_names, hlisted]
  have hdistinct : declarations.names.Nodup := hlisted ▸ hnames
  refine ⟨?_, ?_, fun hfewer hown => ?_⟩
  · rw [← hcount]
    exact rounds_le declarations s
  · rw [← fixed_ofDeclared]
    exact ⟨bindings_round_of_fixed hfunctions, fixed_of_bindings_round hfunctions hdistinct⟩
  · rw [← hlisted] at hown
    rw [← hcount] at hfewer
    have hpeers : (declarations.rounds s).2.Peers { after with recording := false } :=
      ⟨(peers_hoist declarations s).bindings, (peers_hoist declarations s).frames⟩
    exact fixed_ofDeclared.mp
      (fixed_of_peers hpeers (fixed_of_fewer_rounds hfunctions hdistinct hown hfewer))

/-- The three functions that `f` nests are found to wait one round after the other, the innermost
first. -/
def restless : List Stmt :=
  ofTree (parse "function f() { f()(); return () => { f()()(); return () => load(); }; }".toList).tree

def restful : List Stmt :=
  ofTree (parse "function g() { return load(); } function f() { return g(); }".toList).tree

/-- Two rounds are not enough for `f` alone. -/
theorem hoist_settled_iff_restless :
    let s : State := { bindings := .ofCatalogue loading }
    ((declaredNames restless).Nodup ∧ ((ofDeclared loading restless .done).rounds s).1 = 2 ∧
      ¬HoistSettled loading restless ((Action.hoist (ofDeclared loading restless .done)).run s).2) ∧
    ((declaredNames restful).Nodup ∧ ((ofDeclared loading restful .done).rounds s).1 ≤ 2 ∧
      HoistSettled loading restful ((Action.hoist (ofDeclared loading restful .done)).run s).2) := by
  intro s
  have hrestless : declaredNames restless = ["f"] ∧
      ((ofDeclared loading restless .done).rounds s).1 = 2 := by decide +kernel
  have hrestful : declaredNames restful = ["g", "f"] ∧
      ((ofDeclared loading restful .done).rounds s).1 = 2 := by decide +kernel
  have hone : (declaredNames restless).Nodup := by rw [hrestless.1]; decide
  have htwo : (declaredNames restful).Nodup := by rw [hrestful.1]; decide
  obtain ⟨-, hiff, -⟩ := hoist_settled_iff loading hone s
  obtain ⟨-, -, hsettled⟩ := hoist_settled_iff loading htwo s
  refine ⟨⟨hone, hrestless.2, ?_⟩, htwo, Nat.le_of_eq hrestful.2, ?_⟩
  · rw [hiff]
    decide +kernel
  · have hfewer : ((ofDeclared loading restful .done).rounds s).1 ≤
        (declaredNames restful).length := by
      rw [hrestful.1, hrestful.2]
      exact Nat.le_refl 2
    exact hsettled hfewer (own_of_depth rfl _)

end Analysis

end ShellAwait
