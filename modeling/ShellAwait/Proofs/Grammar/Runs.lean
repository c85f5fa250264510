import ShellAwait.Grammar.Parse

/-! # Readings without limits

A reading counts the rounds of a repetition and the depth of references, and breaks off at its
limits. The relation `Runs` has no limits in it. It says where a rule that is run from a state comes
to an end by itself, and that is in one place at most.
-/

namespace ShellAwait.Grammar

/-- A rule that is run from one state succeeds or fails in another. -/
inductive Runs : Rule → State → Bool → State → Prop
  | skip {s : State} : Runs .skip s true s
  | fail {s : State} : Runs .fail s false s
  | eat {kind : TokenKind} {s t : State} {b : Bool} : s.eat kind = (b, t) → Runs (.eat kind) s b t
  | report {problem : Problem} {s : State} : Runs (.report problem) s false (s.note problem none)
  | look {choose : View → Rule} {s t : State} {b : Bool} :
      Runs (choose s.view) s b t → Runs (.look choose) s b t
  | seq {first second : Rule} {s u t : State} {b c : Bool} :
      Runs first s b u → Runs second u c t → Runs (.seq first second) s c t
  | andThen {first second : Rule} {s u t : State} {b : Bool} :
      Runs first s true u → Runs second u b t → Runs (.andThen first second) s b t
  | refused {first second : Rule} {s t : State} :
      Runs first s false t → Runs (.andThen first second) s false t
  -- A repetition stops where its view does not allow a round, or after a round that fails.
  | stop {goOn : View → Bool} {round : Rule} {s : State} :
      goOn s.view = false → Runs (.many goOn round) s true s
  | last {goOn : View → Bool} {round : Rule} {s t : State} :
      goOn s.view = true → Runs round s false t → Runs (.many goOn round) s true t
  | again {goOn : View → Bool} {round : Rule} {s u t : State} :
      goOn s.view = true → Runs round s true u → Runs (.many goOn round) u true t →
      Runs (.many goOn round) s true t
  | node {kind : NodeKind} {body : Rule} {s t : State} {b : Bool} :
      Runs body (s.enter kind []) b t → Runs (.node kind body) s true (t.leave s.kind s.done)
  | wrap {kind : NodeKind} {body : Rule} {s t : State} {b : Bool} :
      Runs body (s.enter kind (s.done.take 1)) b t →
      Runs (.wrap kind body) s true (t.leave s.kind (s.done.drop 1))
  | become {kind : NodeKind} {s : State} : Runs (.become kind) s true { s with kind := kind }
  | unopened {what : Enclosure} {body : Rule} {s t : State} :
      s.eat what.opener = (false, t) →
      Runs (.bracket what body) s false (t.note (.expected what.opener) none)
  | enclosed {what : Enclosure} {body : Rule} {s u v t : State} {b : Bool} :
      s.eat what.opener = (true, u) → Runs body u true v → v.close what s.taken = (b, t) →
      Runs (.bracket what body) s b t
  | unfinished {what : Enclosure} {body : Rule} {s u t : State} :
      s.eat what.opener = (true, u) → Runs body u false t → Runs (.bracket what body) s false t
  | withNoIn {noIn : Bool} {body : Rule} {s t : State} {b : Bool} :
      Runs body { s with noIn := noIn } b t →
      Runs (.withNoIn noIn body) s b { t with noIn := s.noIn }
  | call {category : Category} {s t : State} {b : Bool} :
      Runs (table category) s b t → Runs (.call category) s b t

theorem Runs.unique {rule : Rule} {s t u : State} {b c : Bool} (h : Runs rule s b t)
    (k : Runs rule s c u) : c = b ∧ u = t := by
  induction h generalizing c u with
  | skip | fail | report | become =>
      cases k
      exact ⟨rfl, rfl⟩
  | eat h =>
      cases k with
      | eat k =>
          cases h.symm.trans k
          exact ⟨rfl, rfl⟩
  | look _ ih =>
      cases k with
      | look k => exact ih k
  | seq _ _ ihFirst ihSecond =>
      cases k with
      | seq k l =>
          obtain ⟨-, rfl⟩ := ihFirst k
          exact ihSecond l
  | andThen _ _ ihFirst ihSecond =>
      cases k with
      | andThen k l =>
          obtain ⟨-, rfl⟩ := ihFirst k
          exact ihSecond l
      | refused k => cases (ihFirst k).1
  | refused _ ih =>
      cases k with
      | andThen k _ => cases (ih k).1
      | refused k => exact ⟨rfl, (ih k).2⟩
  | stop hgo =>
      cases k with
      | stop => exact ⟨rfl, rfl⟩
      | last hgo' _ | again hgo' _ _ => exact absurd (hgo.symm.trans hgo') Bool.false_ne_true
  | last hgo _ ih =>
      cases k with
      | stop hgo' => exact absurd (hgo'.symm.trans hgo) Bool.false_ne_true
      | last _ k => exact ⟨rfl, (ih k).2⟩
      | again _ k _ => cases (ih k).1
  | again hgo _ _ ihRound ihRest =>
      cases k with
      | stop hgo' => exact absurd (hgo'.symm.trans hgo) Bool.false_ne_true
      | last _ k => cases (ihRound k).1
      | again _ k l =>
          obtain ⟨-, rfl⟩ := ihRound k
          exact ihRest l
  | node _ ih =>
      cases k with
      | node k =>
          obtain ⟨-, rfl⟩ := ih k
          exact ⟨rfl, rfl⟩
  | wrap _ ih =>
      cases k with
      | wrap k =>
          obtain ⟨-, rfl⟩ := ih k
          exact ⟨rfl, rfl⟩
  | unopened h =>
      cases k with
      | unopened k =>
          cases h.symm.trans k
          exact ⟨rfl, rfl⟩
      | enclosed k _ _ | unfinished k _ => cases h.symm.trans k
  | enclosed h _ hclose ih =>
      cases k with
      | unopened k => cases h.symm.trans k
      | enclosed k l kclose =>
          cases h.symm.trans k
          obtain ⟨-, rfl⟩ := ih l
          cases hclose.symm.trans kclose
          exact ⟨rfl, rfl⟩
      | unfinished k l =>
          cases h.symm.trans k
          cases (ih l).1
  | unfinished h _ ih =>
      cases k with
      | unopened k => cases h.symm.trans k
      | enclosed k l _ =>
          cases h.symm.trans k
          cases (ih l).1
      | unfinished k l =>
          cases h.symm.trans k
          exact ⟨rfl, (ih l).2⟩
  | withNoIn _ ih =>
      cases k with
      | withNoIn k =>
          obtain ⟨rfl, rfl⟩ := ih k
          exact ⟨rfl, rfl⟩
  | call _ ih =>
      cases k with
      | call k => exact ih k

/-! ## Rounds -/

/-- A repetition from one state to another, with the number of its rounds. -/
inductive Turns (goOn : View → Bool) (round : Rule) : Nat → State → State → Prop
  | stop {s : State} : goOn s.view = false → Turns goOn round 0 s s
  | last {s t : State} : goOn s.view = true → Runs round s false t → Turns goOn round 1 s t
  | again {n : Nat} {s u t : State} :
      goOn s.view = true → Runs round s true u → Turns goOn round n u t →
      Turns goOn round (n + 1) s t

theorem Turns.runs {goOn : View → Bool} {round : Rule} {n : Nat} {s t : State}
    (h : Turns goOn round n s t) : Runs (.many goOn round) s true t := by
  induction h with
  | stop hgo => exact .stop hgo
  | last hgo h => exact .last hgo h
  | again hgo h _ ih => exact .again hgo h ih

theorem Turns.unique {goOn : View → Bool} {round : Rule} {m n : Nat} {s t u : State}
    (h : Turns goOn round m s t) (k : Turns goOn round n s u) : n = m := by
  induction h generalizing n u with
  | stop hgo =>
      cases k with
      | stop => rfl
      | last hgo' _ | again hgo' _ _ => exact absurd (hgo.symm.trans hgo') Bool.false_ne_true
  | last hgo h =>
      cases k with
      | stop hgo' => exact absurd (hgo'.symm.trans hgo) Bool.false_ne_true
      | last => rfl
      | again _ k _ => cases (h.unique k).1
  | again hgo h _ ih =>
      cases k with
      | stop hgo' => exact absurd (hgo'.symm.trans hgo) Bool.false_ne_true
      | last _ k => cases (h.unique k).1
      | again _ k l =>
          obtain ⟨-, rfl⟩ := h.unique k
          rw [ih l]

/-- Wherever a repetition begins it comes to an end, with at most one round for each token ahead. -/
def Bounded (goOn : View → Bool) (round : Rule) : Prop :=
  ∀ s : State, (∃ n t, Turns goOn round n s t) ∧
    ∀ n t, Turns goOn round n s t → n ≤ s.ahead.length

/-- All repetitions that stand in a rule have a property. -/
inductive Rule.Loops (P : (View → Bool) → Rule → Prop) : Rule → Prop
  | skip : Loops P .skip
  | fail : Loops P .fail
  | eat {kind : TokenKind} : Loops P (.eat kind)
  | report {problem : Problem} : Loops P (.report problem)
  | become {kind : NodeKind} : Loops P (.become kind)
  | call {category : Category} : Loops P (.call category)
  | look {choose : View → Rule} : (∀ v, Loops P (choose v)) → Loops P (.look choose)
  | seq {first second : Rule} : Loops P first → Loops P second → Loops P (.seq first second)
  | andThen {first second : Rule} :
      Loops P first → Loops P second → Loops P (.andThen first second)
  | many {goOn : View → Bool} {round : Rule} :
      P goOn round → Loops P round → Loops P (.many goOn round)
  | node {kind : NodeKind} {body : Rule} : Loops P body → Loops P (.node kind body)
  | wrap {kind : NodeKind} {body : Rule} : Loops P body → Loops P (.wrap kind body)
  | bracket {what : Enclosure} {body : Rule} : Loops P body → Loops P (.bracket what body)
  | withNoIn {noIn : Bool} {body : Rule} : Loops P body → Loops P (.withNoIn noIn body)

end ShellAwait.Grammar
