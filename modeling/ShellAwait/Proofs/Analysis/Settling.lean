import Mathlib.Data.List.Dedup
import Mathlib.Order.Basic
import ShellAwait.Catalogue.Shell
import ShellAwait.Grammar.Parse
import ShellAwait.Proofs.Analysis.OfScript
import ShellAwait.Proofs.Analysis.Twins
import ShellAwait.Proofs.Bindings.Widening
import ShellAwait.Proofs.Script.Names

/-! # Loops settle

A loop is walked round by round, and the bindings at its entry are joined with those that the round
leaves, until they no longer change. Every round that changes them uses up some of their room, so
the rounds end; the bindings they end with are the ones that the whole loop leaves, and another
walk of the loop starts from there and stays there.
-/

namespace ShellAwait.Analysis

open State Bindings Script

/-! ## Rounds over bindings -/

def quiet (b : Bindings) : State := { bindings := b, frames := [{}], recording := false }

def Action.walked (iteration : Action) (b : Bindings) : Option Bindings :=
  match iteration.run (quiet b) with
  | (.ok _, after) => some after.bindings
  | (.error _, _) => none

/-- The rounds that start from these bindings come to the other ones. -/
inductive Reaches (iteration : Action) : Bindings → Bindings → Prop
  | entry (b : Bindings) : Reaches iteration b b
  | round {b after c : Bindings} : iteration.walked b = some after →
      (b.join [b, after]).agrees b = false → Reaches iteration (b.join [b, after]) c →
      Reaches iteration b c

/-- The rounds that start from these bindings end after so many, with the other ones. -/
inductive Settles (iteration : Action) : Bindings → Nat → Bindings → Prop
  | last {b after : Bindings} : iteration.walked b = some after →
      (b.join [b, after]).agrees b = true → Settles iteration b 1 (b.join [b, after])
  | again {b after settled : Bindings} {rounds : Nat} : iteration.walked b = some after →
      (b.join [b, after]).agrees b = false →
      Settles iteration (b.join [b, after]) rounds settled →
      Settles iteration b (rounds + 1) settled

variable {iteration : Action} {names : List String} {b settled : Bindings} {rounds : Nat}

namespace Settles

theorem wider (h : Settles iteration b rounds settled) (name : String) :
    List.Forall₂ Wider (column b.levels name) (column settled.levels name) := by
  induction h with
  | last hwalked hagrees => exact wider_widen _ _ name
  | again hwalked hagrees hrest ih => exact wider_trans (wider_widen _ _ name) ih

theorem fixed (h : Settles iteration b rounds settled) :
    ∃ after, iteration.walked settled = some after ∧ settled.join [settled, after] = settled := by
  induction h with
  | @last b after hwalked hagrees =>
      have hsame : b.join [b, after] = b := widen_eq hagrees
      rw [hsame]
      exact ⟨after, hwalked, hsame⟩
  | again hwalked hagrees hrest ih => exact ih

theorem of_fixed {after : Bindings} (hwalked : iteration.walked b = some after)
    (hsame : b.join [b, after] = b) : Settles iteration b 1 b := by
  have hagrees : (b.join [b, after]).agrees b = true := by
    rw [hsame]
    exact agrees_refl b
  have hlast := Settles.last hwalked hagrees
  rwa [hsame] at hlast

theorem isSome_walked (h : Settles iteration b rounds settled) {c : Bindings}
    (hreaches : Reaches iteration b c) : (iteration.walked c).isSome = true := by
  induction h with
  | last hwalked hagrees =>
      cases hreaches with
      | entry => exact Option.isSome_of_eq_some hwalked
      | round hagain hchanged _ =>
          cases hwalked.symm.trans hagain
          rw [hagrees] at hchanged
          cases hchanged
  | again hwalked hchanged hrest ih =>
      cases hreaches with
      | entry => exact Option.isSome_of_eq_some hwalked
      | round hagain _ hlater =>
          cases hwalked.symm.trans hagain
          exact ih hlater

end Settles

/-! ## The rounds end -/

/-- A walk that writes the given names only. -/
def Invariant.addsOnly (names : List String) (entry : List Scope) : Invariant where
  Holds _ b := AddsOnly names entry b.levels
  Writes name := name ∈ names
  push h := h.push
  pop h := h.pop
  add d hname h := h.of_column hname fun _ hne => column_add hne d _
  assign d hname h := h.of_column hname (assign_eq _ _ d).2
  join h hbranches := h.join hbranches

theorem addsOnly_walked (hkeeps : ∀ entry, iteration.Keeps (.addsOnly names entry))
    {after : Bindings} (h : iteration.walked b = some after) :
    AddsOnly names b.levels after.levels := by
  unfold Action.walked at h
  split at h
  next d u hrun =>
    cases h
    have hentry : AddsOnly names b.levels (quiet b).bindings.levels := AddsOnly.refl names b.levels
    exact hkeeps b.levels (k := 0) hentry hrun
  next => cases h

/-- As long as no iteration fails, the rounds end before the room of the entry is used up. -/
theorem exists_settles (hkeeps : ∀ entry, iteration.Keeps (.addsOnly names entry))
    (hwalks : ∀ c, Reaches iteration b c → (iteration.walked c).isSome = true) :
    ∃ rounds settled, Settles iteration b rounds settled ∧ rounds ≤ 1 + room names b.levels := by
  -- the measure is the room that the bindings have left
  induction hroom : room names b.levels using Nat.strongRecOn generalizing b with
  | _ left ih =>
      obtain ⟨after, hwalked⟩ := Option.isSome_iff_exists.mp (hwalks b (.entry b))
      by_cases hagrees : (b.join [b, after]).agrees b = true
      · exact ⟨1, _, .last hwalked hagrees, by omega⟩
      · have hchanged := Bool.eq_false_iff.mpr hagrees
        have hless : room names (b.join [b, after]).levels < room names b.levels :=
          room_widen (addsOnly_walked hkeeps hwalked) hchanged
        rw [hroom] at hless
        obtain ⟨rounds, settled, hsettles, hrounds⟩ := ih _ hless
          (fun c hreaches => hwalks c (.round hwalked hchanged hreaches)) rfl
        exact ⟨rounds + 1, settled, .again hwalked hchanged hsettles, by omega⟩

/-! ## The walk of a loop -/

theorem run_of_walked (hplain : iteration.Plain) {after : Bindings}
    (h : iteration.walked b = some after) {s : State} (hs : s.bindings = b)
    (hbody : s.frame.isParameters = false) :
    ∃ d t, iteration.run s = (.ok d, t) ∧ t.bindings = after := by
  have htwin : Twin false (quiet b) s := ⟨hs, hbody⟩
  obtain ⟨hresult, hafter⟩ := sameEnd_run iteration (.inr hplain) htwin
  unfold Action.walked at h
  split at h
  next d u hrun =>
    cases h
    rw [hrun] at hresult hafter
    exact ⟨d, (iteration.run s).2, Prod.ext hresult rfl, hafter.bindings⟩
  next => cases h

theorem settle_of_settles (hplain : iteration.Plain) (h : Settles iteration b rounds settled)
    {fuel : Nat} (hfuel : rounds ≤ fuel) (start : Nat) {s : State} (hs : s.bindings = b)
    (hbody : s.frame.isParameters = false) :
    ∃ t, settle iteration.run fuel start s = (.ok (start + rounds), t) ∧ t.bindings = settled := by
  induction h generalizing fuel start s with
  | last hwalked hagrees =>
      obtain ⟨fuel, rfl⟩ : ∃ more, fuel = more + 1 := ⟨fuel - 1, by omega⟩
      obtain ⟨d, t, hrun, rfl⟩ := run_of_walked hplain hwalked hs hbody
      subst hs
      rw [settle, hrun]
      simp only [hagrees, if_true]
      exact ⟨_, rfl, rfl⟩
  | again hwalked hagrees hrest ih =>
      obtain ⟨fuel, rfl⟩ : ∃ more, fuel = more + 1 := ⟨fuel - 1, by omega⟩
      obtain ⟨d, t, hrun, rfl⟩ := run_of_walked hplain hwalked hs hbody
      subst hs
      have hparameters := (alike_of_run hrun).parameters.trans hbody
      have hfewer : _ ≤ fuel := Nat.le_of_succ_le_succ hfuel
      obtain ⟨last, hsettle, hlast⟩ := ih hfewer (start + 1)
        (s := { t with bindings := s.bindings.join [s.bindings, t.bindings] }) rfl hparameters
      refine ⟨last, ?_, hlast⟩
      rw [settle, hrun]
      simp only [hagrees, Bool.false_eq_true, if_false]
      rw [hsettle]
      congr 2
      omega

/-- A loop whose rounds end within the limit leaves the bindings that they end with. -/
theorem run_loop_of_settles (hplain : iteration.Plain) {s : State}
    (h : Settles iteration s.bindings rounds settled)
    (hlimit : rounds ≤ settleLimit s.bindings names) (hbody : s.frame.isParameters = false) :
    ∃ t, (Action.loop names iteration).run s = (.ok .unknown, t) ∧ t.bindings = settled := by
  obtain ⟨u, hsettle, hu⟩ := settle_of_settles hplain h hlimit 0
    (s := { s with recording := false }.pushFrame {}) rfl rfl
  have halike := alike_settle (alike_run iteration) (settleLimit s.bindings names) 0
    ({ s with recording := false }.pushFrame {})
  rw [hsettle] at halike
  obtain ⟨after, hwalked, hfixed⟩ := h.fixed
  have hparameters : u.popFrame.frame.isParameters = false := halike.popFrame.parameters.trans hbody
  obtain ⟨d, t, hrun, rfl⟩ := run_of_walked hplain hwalked
    (s := State.note { u.popFrame with recording := s.recording } (.settled (0 + rounds))) hu
    hparameters
  refine ⟨{ t with bindings := u.bindings.join [u.bindings, t.bindings] }, ?_, ?_⟩
  · rw [Action.run]
    simp only [hsettle, hrun]
    rfl
  · rw [← hu] at hfixed
    exact hfixed.trans hu

/-! ## Loop statements -/

/-- The names of a loop statement and the action of one iteration. -/
def loop? (c : Catalogue) : Stmt → Option (List String × Action)
  | .while _ test body =>
      some (exprNames test ++ stmtNames body,
        (Action.ofExpr c .consumed test).andThen (Action.ofStmt c body))
  | .doWhile _ body test =>
      some (stmtNames body ++ exprNames test,
        (Action.ofStmt c body).andThen (Action.ofExpr c .consumed test))
  | .loop _ _ test update body =>
      some (exprNames test ++ stmtNames body ++ exprNames update,
        ((Action.ofExpr c .consumed test).andThen (Action.ofStmt c body)).andThen
          (Action.ofExpr c .consumed update))
  | .each _ _ head _ body =>
      some (stmtNames head ++ stmtNames body,
        Action.andThen (match head with
          | .var _ _ declarators => Action.ofHead c declarators
          | .expr _ target _ => Action.ofTarget c target
          | _ => Action.nothing) (Action.ofStmt c body))
  | _ => none

theorem ofStmt_of_loop? {c : Catalogue} {stmt : Stmt} (h : loop? c stmt = some (names, iteration)) :
    Action.ofStmt c stmt = .loop names iteration ∨
      ∃ first : Action, Action.ofStmt c stmt =
        .scoped (first.andThen (.loop names iteration)) := by
  cases stmt with
  | «while» span test body => cases h; exact .inl rfl
  | doWhile span body test => cases h; exact .inl rfl
  | loop span init test update body => cases h; exact .inr ⟨_, rfl⟩
  | each span isOf head iterable body => cases h; cases head <;> exact .inr ⟨_, rfl⟩
  | _ => cases h

theorem plain_of_loop? {c : Catalogue} {stmt : Stmt} (h : loop? c stmt = some (names, iteration)) :
    iteration.Plain := by
  have hstmt := Action.plain_ofStmt c stmt
  rcases ofStmt_of_loop? h with hloop | ⟨first, hloop⟩
  · rw [hloop] at hstmt
    exact hstmt
  · rw [hloop] at hstmt
    exact hstmt.2 .unknown

theorem traced_of_loop? {c : Catalogue} {stmt : Stmt}
    (h : loop? c stmt = some (names, iteration)) (entry : List Scope) :
    ∃ listed, Traced (.addsOnly names.dedup entry) none listed iteration := by
  have hexpr (expr : Expr) (hnames : exprNames expr ⊆ names) :
      Traced (.addsOnly names.dedup entry) none _ (Action.ofExpr c .consumed expr) :=
    traced_ofExpr c .consumed none expr fun name hname =>
      List.mem_dedup.mpr (hnames (exprWrites_subset expr hname))
  have hstmt (body : Stmt) (hnames : stmtNames body ⊆ names) :
      Traced (.addsOnly names.dedup entry) none _ (Action.ofStmt c body) :=
    traced_ofStmt c none body fun name hname =>
      List.mem_dedup.mpr (hnames (stmtWrites_subset body hname))
  cases stmt with
  | «while» span test body =>
      cases h
      exact ⟨_, traced_andThen (hexpr test (List.subset_append_left _ _))
        (hstmt body (List.subset_append_right _ _))⟩
  | doWhile span body test =>
      cases h
      exact ⟨_, traced_andThen (hstmt body (List.subset_append_left _ _))
        (hexpr test (List.subset_append_right _ _))⟩
  | loop span init test update body =>
      cases h
      have hfirst := List.subset_append_left (exprNames test ++ stmtNames body) (exprNames update)
      exact ⟨_, traced_andThen (traced_andThen
        (hexpr test (List.Subset.trans (List.subset_append_left _ _) hfirst))
        (hstmt body (List.Subset.trans (List.subset_append_right _ _) hfirst)))
        (hexpr update (List.subset_append_right _ _))⟩
  | each span isOf head iterable body =>
      cases h
      have hnames := List.subset_append_left (stmtNames head) (stmtNames body)
      have hhead := traced_ofLoopHead (I := .addsOnly _ entry) c none head
        (fun name hname => List.mem_dedup.mpr (hnames (headNames_subset head hname)))
        (fun name hname => List.mem_dedup.mpr (hnames (stmtWrites_subset head hname)))
      exact ⟨_, traced_andThen hhead (hstmt body (List.subset_append_right _ _))⟩
  | _ => cases h

/-- Every loop settles none of whose rounds fails: after a number of rounds that the bindings at its
entry and its names bound. No binding is lost on the way, but what is known of it may be; one
more iteration then changes nothing, and the walk of the loop leaves just these bindings, also if it
starts from them. -/
theorem loop_settles {c : Catalogue} {stmt : Stmt} (hloop : loop? c stmt = some (names, iteration))
    {s : State} (hbody : s.frame.isParameters = false)
    (hwalks : ∀ b, Reaches iteration s.bindings b → (iteration.walked b).isSome = true) :
    (Action.ofStmt c stmt = .loop names iteration ∨ ∃ first : Action,
      Action.ofStmt c stmt = .scoped (first.andThen (.loop names iteration))) ∧
    ∃ rounds settled, Settles iteration s.bindings rounds settled ∧
      rounds ≤ 1 + knownIn s.bindings.levels + s.bindings.depth * names.dedup.length ∧
      (∃ t, settle iteration.run (settleLimit s.bindings names) 0
        ({ s with recording := false }.pushFrame {}) = (.ok rounds, t) ∧ t.bindings = settled) ∧
      (∀ name, List.Forall₂ Wider (column s.bindings.levels name) (column settled.levels name)) ∧
      (∃ after, iteration.walked settled = some after ∧
        settled.join [settled, after] = settled) ∧
      (∃ t, (Action.loop names iteration).run s = (.ok .unknown, t) ∧ t.bindings = settled) ∧
      ∀ again : State, again.bindings = settled → again.frame.isParameters = false →
        ∃ t, (Action.loop names iteration).run again = (.ok .unknown, t) ∧
          t.bindings = settled := by
  have hplain := plain_of_loop? hloop
  have hkeeps (entry : List Scope) : iteration.Keeps (.addsOnly names.dedup entry) := by
    obtain ⟨listed, htraced⟩ := traced_of_loop? hloop entry
    exact fun hholds hrun => htraced.keeps hholds hrun
  obtain ⟨rounds, settled, hsettles, hrounds⟩ := exists_settles hkeeps hwalks
  have hroom := room_le names.dedup s.bindings.levels
  have hbound : rounds ≤ 1 + knownIn s.bindings.levels + s.bindings.depth * names.dedup.length := by
    rw [depth]
    omega
  have hlimit : rounds ≤ settleLimit s.bindings names := by
    have hfewer : names.dedup.length ≤ names.length := (List.dedup_sublist names).length_le
    have hproduct := Nat.mul_le_mul_left s.bindings.depth hfewer
    rw [settleLimit]
    omega
  refine ⟨ofStmt_of_loop? hloop, rounds, settled, hsettles, hbound, ?_, hsettles.wider,
    hsettles.fixed, ?_, ?_⟩
  · have hsettle := settle_of_settles hplain hsettles hlimit 0
      (s := { s with recording := false }.pushFrame {}) rfl rfl
    rwa [Nat.zero_add] at hsettle
  · exact run_loop_of_settles hplain hsettles hlimit hbody
  · intro again hagain hframe
    obtain ⟨after, hwalked, hfixed⟩ := hsettles.fixed
    have honce : Settles iteration again.bindings 1 settled := by
      rw [hagain]
      exact .of_fixed hwalked hfixed
    have hone : 1 ≤ settleLimit again.bindings names := by
      rw [settleLimit]
      omega
    exact run_loop_of_settles hplain honce hone hframe

/-! A loop that gives a number another kind of value and binds one more name. -/

def relabelling : Stmt :=
  let assigned (name : String) (kind : LiteralKind) : Stmt :=
    .expr default (.assign default ⟨.eq, ['=']⟩ (.name default (some name))
      (.literal default (some kind) [])) true
  .while default (.name default (some "x"))
    (.block default [assigned "x" .string, assigned "y" .number])

def relabelled : State := { bindings := { root := ⟨[("x", .number)]⟩ } }

theorem loop_settles_relabelling : ∃ names iteration,
    loop? ⟨⟨[]⟩, ⟨[]⟩⟩ relabelling = some (names, iteration) ∧
      relabelled.frame.isParameters = false ∧
      (∀ b, Reaches iteration relabelled.bindings b → (iteration.walked b).isSome = true) ∧
      ∃ rounds settled, Settles iteration relabelled.bindings rounds settled ∧
        rounds ≤ 1 + 1 + 1 * 2 ∧
        ∃ t, (Action.loop names iteration).run relabelled = (.ok .unknown, t) ∧
          t.bindings = settled := by
  obtain ⟨names, iteration, hloop, hnames, hsettles⟩ : ∃ names iteration,
      loop? ⟨⟨[]⟩, ⟨[]⟩⟩ relabelling = some (names, iteration) ∧ names.dedup = ["x", "y"] ∧
        Settles iteration relabelled.bindings 2
          { root := ⟨[("x", .unknown), ("y", .unknown)]⟩ } :=
    ⟨_, _, rfl, by decide, .again rfl (by decide) (.of_fixed rfl rfl)⟩
  have hwalks (b : Bindings) (h : Reaches iteration relabelled.bindings b) :
      (iteration.walked b).isSome = true := hsettles.isSome_walked h
  obtain ⟨-, rounds, settled, hrounds, hbound, -, -, -, hrun, -⟩ :=
    loop_settles hloop (s := relabelled) rfl hwalks
  rw [hnames] at hbound
  exact ⟨names, iteration, hloop, rfl, hwalks, rounds, settled, hrounds, hbound, hrun⟩

/-! A loop whose first iteration can be walked and whose second one fails: as long as something is
known of `x` the function has to be awaited, and afterwards its result has a shape. -/

def relapsing : List Stmt := Script.ofTree (parse
  "let x = db.coll; while (c) {
    function f() { x.count(); return () => db; } ((a = ({p} = f()())) => a); x = 1; }".toList).tree

def relapsingEntry : State :=
  ((Action.ofScript .shell relapsing.dropLast).run { bindings := .ofCatalogue .shell }).2

theorem relapsing_fails : ∃ names iteration,
    relapsing.getLast?.bind (loop? .shell) = some (names, iteration) ∧
      relapsingEntry.frame.isParameters = false ∧
      (iteration.walked relapsingEntry.bindings).isSome = true ∧
      ((Action.loop names iteration).run relapsingEntry).1.toOption = none := by
  have hfails : (relapsing.getLast?.bind (loop? .shell)).any (fun (names, iteration) =>
      (iteration.walked relapsingEntry.bindings).isSome &&
        ((Action.loop names iteration).run relapsingEntry).1.toOption.isNone) = true := by
    decide +kernel
  cases hloop : relapsing.getLast?.bind (loop? .shell) with
  | none =>
      rw [hloop] at hfails
      cases hfails
  | some loop =>
      rw [hloop, Option.any_some, Bool.and_eq_true, Option.isNone_iff_eq_none] at hfails
      exact ⟨loop.1, loop.2, rfl, by decide +kernel, hfails⟩

end ShellAwait.Analysis
