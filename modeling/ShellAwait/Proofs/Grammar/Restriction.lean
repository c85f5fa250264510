import ShellAwait.Proofs.Grammar.Impartial
import ShellAwait.Proofs.Grammar.Progress

/-! # How far the head of a loop reaches

In the head of a loop `in` is no operator. A reading leaves that setting as it finds it, but only
some enclosures free the tokens between their delimiters from it. Between the delimiters of the
others the setting matters, though only to those that take an `in`.
-/

namespace ShellAwait.Grammar

open Rule

/-- The same state with this setting for `in`. -/
def State.under (noIn : Bool) (s : State) : State := { s with noIn := noIn }

/-- Run a rule of the grammar. -/
def reading (limit depth : Nat) (rule : Rule) : Step := rule.exec limit (refer table limit depth)

/-- Changing the setting in front of what the rule reads comes to changing it behind. -/
def Rule.Indifferent (rule : Rule) : Prop :=
  ∀ (limit depth : Nat) (s : State) (noIn : Bool),
    reading limit depth rule (s.under noIn) =
      Prod.map id (State.under noIn) (reading limit depth rule s)

/-- No `in` is among the tokens that are taken from one state to the other. -/
def State.Passes (s t : State) : Prop :=
  ∃ front, s.ahead = front ++ t.ahead ∧ ∀ token ∈ front, token.kind ≠ .inKw

/-! ## The setting is restored -/

theorem noIn_eat (s : State) (kind : TokenKind) : (s.eat kind).2.noIn = s.noIn := by
  unfold State.eat
  split
  · rfl
  · split <;> rfl

theorem noIn_note (s : State) (problem : Problem) (opener : Option Nat) :
    (s.note problem opener).noIn = s.noIn := by
  unfold State.note
  split <;> rfl

theorem noIn_close (s : State) (what : Enclosure) (opener : Nat) :
    (s.close what opener).2.noIn = s.noIn := by
  have heat := noIn_eat s what.closer
  unfold State.close
  split
  · rename_i t ht
    rwa [ht] at heat
  · rename_i t ht
    rw [ht] at heat
    exact (noIn_note t _ _).trans heat

theorem noIn_rounds {goOn : View → Bool} {round : Step} (h : ∀ s, (round s).2.noIn = s.noIn)
    (limit : Nat) (s : State) : (rounds goOn round limit s).noIn = s.noIn := by
  induction limit generalizing s with
  | zero => rfl
  | succ limit ih =>
      have hround := h s
      unfold rounds
      split
      · split
        · rename_i t ht
          rw [ht] at hround
          exact (ih t).trans hround
        · rename_i t ht
          rwa [ht] at hround
      · rfl

theorem noIn_exec {limit : Nat} {refer : Category → Step}
    (hrefer : ∀ category s, (refer category s).2.noIn = s.noIn) (rule : Rule) (s : State) :
    (rule.exec limit refer s).2.noIn = s.noIn := by
  induction rule generalizing s with
  | skip | fail | become => rfl
  | eat kind => exact noIn_eat s kind
  | report problem => exact noIn_note s problem none
  | look choose ih => exact ih s.view s
  | seq first second ihFirst ihSecond => exact (ihSecond _).trans (ihFirst s)
  | andThen first second ihFirst ihSecond =>
      have hfirst := ihFirst s
      unfold Rule.exec
      split
      · rename_i t ht
        rw [ht] at hfirst
        exact (ihSecond t).trans hfirst
      · rename_i t ht
        rwa [ht] at hfirst
  | many goOn round ih => exact noIn_rounds ih limit s
  | node kind body ih => exact ih (s.enter kind [])
  | wrap kind body ih => exact ih (s.enter kind (s.done.take 1))
  | bracket what body ih =>
      have heat := noIn_eat s what.opener
      unfold Rule.exec
      split
      · rename_i t ht
        rw [ht] at heat
        exact (noIn_note t _ _).trans heat
      · rename_i t ht
        rw [ht] at heat
        have hbody := ih t
        split
        · rename_i u hu
          rw [hu] at hbody
          exact (noIn_close u what s.taken).trans (hbody.trans heat)
        · rename_i u hu
          rw [hu] at hbody
          exact hbody.trans heat
  | withNoIn => rfl
  | call category => exact hrefer category s

theorem noIn_refer (limit depth : Nat) (category : Category) (s : State) :
    (refer table limit depth category s).2.noIn = s.noIn := by
  induction depth generalizing category s with
  | zero => rfl
  | succ depth ih => exact noIn_exec ih (table category) s

theorem noIn_reading (limit depth : Nat) (rule : Rule) (s : State) :
    (reading limit depth rule s).2.noIn = s.noIn := noIn_exec (noIn_refer limit depth) rule s

/-! ## Freeing enclosures -/

namespace State

variable (s : State) (noIn : Bool)

theorem eat_under (kind : TokenKind) :
    (s.under noIn).eat kind = Prod.map id (under noIn) (s.eat kind) := by
  rcases s with ⟨ahead, taken, outside, report, node, done⟩
  cases ahead with
  | nil => rfl
  | cons t rest =>
      unfold eat under
      simp only
      split <;> rfl

theorem note_under (problem : Problem) (opener : Option Nat) :
    (s.under noIn).note problem opener = (s.note problem opener).under noIn := by
  unfold note under
  split <;> simp_all

theorem close_under (what : Enclosure) (opener : Nat) :
    (s.under noIn).close what opener = Prod.map id (under noIn) (s.close what opener) := by
  unfold close
  rw [eat_under]
  rcases s.eat what.closer with ⟨_ | _, t⟩
  · exact congrArg (Prod.mk false) (note_under t noIn _ _)
  · rfl

end State

theorem indifferent_bracket (what : Enclosure) (inside : Bool) (body : Rule) :
    (Rule.bracket what (.withNoIn inside body)).Indifferent := by
  intro limit depth s noIn
  simp only [reading, exec, State.eat_under]
  rcases s.eat what.opener with ⟨_ | _, t⟩
  · exact congrArg (Prod.mk false) (State.note_under t noIn _ _)
  · simp only [Prod.map, id]
    rw [show ({ t.under noIn with noIn := inside } : State) = { t with noIn := inside } from rfl]
    rcases body.exec limit (refer table limit depth) { t with noIn := inside } with ⟨_ | _, u⟩
    · rfl
    · exact State.close_under { u with noIn := t.noIn } noIn what s.taken

theorem indifferent_of_freesIn {what : Enclosure} (h : what.freesIn = true) :
    (Rule.bracket what what.contents).Indifferent := by
  cases what with
  | index | parenthesis | argumentList | array | objectLiteral => exact indifferent_bracket _ _ _
  | block | condition | interpolation | loopHead | catchBinding | switchBody | computedKey
  | parameterList | arrayPattern | objectPattern | template => cases h

/-! ## Enclosures that do not free their tokens -/

/-- Tokens of these kinds, on one line. The text of a token is of no account here. -/
def plainTokens (kinds : List TokenKind) : List Lookahead := kinds.map (⟨·, [], false⟩)

/-- Tokens that an enclosure reads as a whole only where `in` is an operator. There are none for
those that free it. -/
def Enclosure.probe : Enclosure → List TokenKind
  | .block => [.lBrace, .ident, .inKw, .ident, .rBrace]
  | .condition => [.lParen, .ident, .inKw, .ident, .rParen]
  | .loopHead => [.lParen, .semicolon, .ident, .inKw, .ident, .semicolon, .rParen]
  | .catchBinding =>
      [.lParen, .lBracket, .ident, .eq, .ident, .inKw, .ident, .rBracket, .rParen]
  | .switchBody => [.lBrace, .caseKw, .ident, .inKw, .ident, .colon, .rBrace]
  | .computedKey => [.lBracket, .ident, .inKw, .ident, .rBracket]
  | .parameterList => [.lParen, .ident, .eq, .ident, .inKw, .ident, .rParen]
  | .arrayPattern => [.lBracket, .ident, .eq, .ident, .inKw, .ident, .rBracket]
  | .objectPattern => [.lBrace, .ident, .eq, .ident, .inKw, .ident, .rBrace]
  | .interpolation => [.interpolationStart, .ident, .inKw, .ident, .interpolationEnd]
  | .template =>
      [.templateStart, .interpolationStart, .ident, .inKw, .ident, .interpolationEnd, .templateEnd]
  | .index | .parenthesis | .argumentList | .array | .objectLiteral => []

/-- Under the setting of a loop head the enclosure reports a problem where it has none without. -/
theorem report_probe {what : Enclosure} (h : what.freesIn = false) :
    let run := reading 9 80 (.bracket what what.contents)
    let s := State.start (plainTokens what.probe)
    (run s).2.report = none ∧ (run (s.under true)).2.report ≠ none := by
  cases what with
  | index | parenthesis | argumentList | array | objectLiteral => cases h
  | block | condition | interpolation | loopHead | catchBinding | switchBody | computedKey
  | parameterList | arrayPattern | objectPattern | template => decide +kernel

theorem not_indifferent_of_freesIn {what : Enclosure} (h : what.freesIn = false) :
    ¬(Rule.bracket what what.contents).Indifferent := by
  intro hindifferent
  obtain ⟨hfree, hbound⟩ := report_probe h
  rw [hindifferent] at hbound
  exact hbound hfree

theorem indifferent_iff_freesIn (what : Enclosure) :
    (Rule.bracket what what.contents).Indifferent ↔ what.freesIn = true := by
  refine ⟨fun h => ?_, indifferent_of_freesIn⟩
  cases hfrees : what.freesIn with
  | true => rfl
  | false => exact absurd h (not_indifferent_of_freesIn hfrees)

/-! ## Readings without `in` -/

namespace State

variable {s t u : State}

theorem Passes.split (h : s.Passes t) (hsu : s.Keeps u) (hut : u.Keeps t) :
    s.Passes u ∧ u.Passes t := by
  obtain ⟨front, hfront, hnone⟩ := h
  obtain ⟨before, hbefore⟩ := hsu.ahead
  obtain ⟨middle, hmiddle⟩ := hut.ahead
  have hparts : front = before ++ middle := by
    rw [← List.append_left_inj t.ahead, ← hfront, ← hbefore, ← hmiddle, List.append_assoc]
  rw [hparts] at hnone
  exact ⟨⟨before, hbefore.symm, fun token htoken => hnone token (List.mem_append_left _ htoken)⟩,
    ⟨middle, hmiddle.symm, fun token htoken => hnone token (List.mem_append_right _ htoken)⟩⟩

theorem Passes.next_ne (h : s.Passes t) (hless : t.ahead.length < s.ahead.length) :
    s.view.kind ≠ .inKw := by
  obtain ⟨front, hfront, hnone⟩ := h
  cases front with
  | nil =>
      rw [hfront] at hless
      exact absurd hless (Nat.lt_irrefl _)
  | cons token front =>
      have hkind : s.view.kind = token.kind := by
        simp [view, View.kind, View.kindAt, View.nth, hfront]
      rw [hkind]
      exact hnone token List.mem_cons_self

end State

/-- A step that takes no `in`, where it might, comes to the same under the setting of a loop
head. -/
def Alike (step : Step) : Prop :=
  ∀ s : State, s.noIn = false → s.Passes (step s).2 →
    step (s.under true) = Prod.map id (State.under true) (step s)

section

variable {limit : Nat}

theorem alike_rounds {goOn : View → Bool} {round : Step}
    (hkeeps : ∀ s : State, s.Keeps (round s).2) (hnoIn : ∀ s : State, (round s).2.noIn = s.noIn)
    (hgoOn : ∀ s : State, s.noIn = false → (goOn s.view = true → s.Passes (round s).2) →
      goOn (s.under true).view = goOn s.view)
    (hround : ∀ s : State, s.noIn = false → goOn s.view = true → s.Passes (round s).2 →
      round (s.under true) = Prod.map id (State.under true) (round s))
    (s : State) (hfree : s.noIn = false) (hpasses : s.Passes (rounds goOn round limit s)) :
    rounds goOn round limit (s.under true) = (rounds goOn round limit s).under true := by
  induction limit generalizing s with
  | zero => rfl
  | succ limit ih =>
      unfold rounds at hpasses ⊢
      cases hgo : goOn s.view with
      | false =>
          rw [hgoOn s hfree fun h => absurd (hgo.symm.trans h) Bool.false_ne_true, hgo]
          rfl
      | true =>
          rw [if_pos hgo] at hpasses
          have hkept := hkeeps s
          have hset := hnoIn s
          have hsame := hround s hfree hgo
          have hview := hgoOn s hfree
          rcases hran : round s with ⟨_ | _, t⟩
          · rw [hran] at hpasses hsame hview
            rw [if_pos ((hview fun _ => hpasses).trans hgo), if_pos rfl, hsame hpasses]
            rfl
          · rw [hran] at hpasses hsame hview hkept hset
            obtain ⟨hfirst, hrest⟩ := hpasses.split hkept (keeps_rounds hkeeps limit t)
            rw [if_pos ((hview fun _ => hfirst).trans hgo), if_pos rfl, hsame hfirst]
            exact ih t (hset.trans hfree) hrest

/-- What is needed of the named parts. -/
structure Steady (refer : Category → Step) : Prop where
  keeps : ∀ category (s : State), s.Keeps (refer category s).2
  noIn : ∀ category (s : State), (refer category s).2.noIn = s.noIn
  alike : ∀ category, Alike (refer category)

variable {refer : Category → Step} (steady : Steady refer)

include steady

omit steady in
theorem alike_eat (kind : TokenKind) : Alike ((eat kind).exec limit refer) :=
  fun s _ _ => s.eat_under true kind

theorem alike_call (category : Category) : Alike ((call category).exec limit refer) :=
  steady.alike category

theorem alike_seq {first second : Rule} (hfirst : Alike (first.exec limit refer))
    (hsecond : Alike (second.exec limit refer)) : Alike ((first ++ second).exec limit refer) := by
  intro s hfree hpasses
  obtain ⟨hbefore, hafter⟩ :=
    hpasses.split (keeps_exec steady.keeps first s) (keeps_exec steady.keeps second _)
  have hset : (first.exec limit refer s).2.noIn = false :=
    (noIn_exec steady.noIn first s).trans hfree
  change second.exec limit refer (first.exec limit refer (s.under true)).2 = _
  rw [hfirst s hfree hbefore]
  exact hsecond _ hset hafter

theorem alike_andThen {first second : Rule} (hfirst : Alike (first.exec limit refer))
    (hsecond : Alike (second.exec limit refer)) :
    Alike ((andThen first second).exec limit refer) := by
  intro s hfree hpasses
  have hkept : s.Keeps (first.exec limit refer s).2 := keeps_exec steady.keeps first s
  have hset : (first.exec limit refer s).2.noIn = s.noIn := noIn_exec steady.noIn first s
  have hsame := hfirst s hfree
  rw [exec] at hpasses
  rw [exec, exec]
  rcases hran : first.exec limit refer s with ⟨_ | _, t⟩
  · rw [hran] at hpasses hsame
    rw [hsame hpasses]
    rfl
  · rw [hran] at hpasses hsame hkept hset
    obtain ⟨hbefore, hafter⟩ := hpasses.split hkept (keeps_exec steady.keeps second t)
    rw [hsame hbefore]
    exact hsecond t (hset.trans hfree) hafter

omit steady in
theorem alike_wrap {kind : NodeKind} {body : Rule} (h : Alike (body.exec limit refer)) :
    Alike ((wrap kind body).exec limit refer) := by
  intro s hfree hpasses
  have hsame := h (s.enter kind (s.done.take 1)) hfree hpasses
  rw [exec, exec, show (s.under true).enter kind ((s.under true).done.take 1) =
    (s.enter kind (s.done.take 1)).under true from rfl, hsame]
  rfl

theorem alike_bracket {what : Enclosure} {body : Rule} (h : Alike (body.exec limit refer)) :
    Alike ((Rule.bracket what body).exec limit refer) := by
  intro s hfree hpasses
  have heat := s.keeps_eat what.opener
  have hset := noIn_eat s what.opener
  simp only [exec, State.eat_under] at hpasses ⊢
  rcases hopen : s.eat what.opener with ⟨_ | _, t⟩
  · exact congrArg (Prod.mk false) (State.note_under t true _ _)
  · rw [hopen] at hpasses heat hset
    have hbody : t.Keeps (body.exec limit refer t).2 := keeps_exec steady.keeps body t
    have hsame := h t (hset.trans hfree)
    simp only [Prod.map, id] at hpasses hsame ⊢
    rcases hran : body.exec limit refer t with ⟨_ | _, u⟩
    · rw [hran] at hpasses hsame hbody
      rw [hsame (hpasses.split heat hbody).2]
    · rw [hran] at hpasses hsame hbody
      have hinner := (hpasses.split heat (hbody.trans (u.keeps_close what s.taken))).2
      rw [hsame (hinner.split hbody (u.keeps_close what s.taken)).1]
      exact State.close_under u true what s.taken

omit steady in
theorem power?_under (s : State) :
    (s.under true).view.power? = if s.view.kind = .inKw then none else s.view.power? := by
  have hkind : (s.under true).view.kind = s.view.kind := rfl
  have hset : (s.under true).view.noIn = true := rfl
  unfold View.power? View.next
  rw [hkind, hset]
  by_cases hin : s.view.kind = .inKw
  · simp only [hin, BEq.rfl, Bool.and_self, if_true]
  · simp [hin]

theorem operator_ne {s : State} {kind : NodeKind} {category : Category}
    (hpasses : s.Passes
      ((wrap kind (eat s.view.kind ++ call category)).exec limit refer s).2) :
    s.view.kind ≠ .inKw := by
  intro hin
  obtain ⟨t, ht, hless⟩ := Reader.eat_of_next (s := s.enter kind (s.done.take 1))
    (show s.view.kind = .inKw from hin) (by decide)
  refine hpasses.next_ne ?_ hin
  have hrest := steady.keeps category t
  rw [hin]
  change (refer _ ((s.enter kind (s.done.take 1)).eat .inKw).2).2.ahead.length < _
  rw [ht]
  exact Nat.lt_of_le_of_lt hrest.ahead.length_le hless

theorem operation_ne {s : State} {floor : Nat} (hjoins : s.view.joins floor = true)
    (hpasses : s.Passes (operation.exec limit refer s).2) : s.view.kind ≠ .inKw := by
  cases hpower : s.view.power? with
  | none => simp [View.joins, hpower] at hjoins
  | some power =>
      simp only [operation, exec, hpower] at hpasses
      exact operator_ne steady hpasses

theorem operation_under {s : State} (hfree : s.noIn = false) (hnext : s.view.kind ≠ .inKw)
    (hpasses : s.Passes (operation.exec limit refer s).2) :
    operation.exec limit refer (s.under true) =
      Prod.map id (State.under true) (operation.exec limit refer s) := by
  have hkind : (s.under true).view.kind = s.view.kind := rfl
  simp only [operation, exec] at hpasses ⊢
  rw [power?_under, if_neg hnext, hkind]
  cases hpower : s.view.power? with
  | none => rfl
  | some power =>
      rw [hpower] at hpasses
      exact alike_wrap (alike_seq steady (alike_eat _) (alike_call steady _)) s hfree hpasses

/-- An `in` that joins operands is taken, so a reading without one sees the same operators. -/
theorem alike_operations (floor : Nat) : Alike ((operations floor).exec limit refer) := by
  intro s hfree hpasses
  refine congrArg (Prod.mk true) (alike_rounds (keeps_exec steady.keeps operation)
    (noIn_exec steady.noIn operation) (fun s hfree hround => ?_) (fun s hfree hgo hround => ?_)
    s hfree hpasses)
  · have hfailed : (s.under true).view.failed = s.view.failed := rfl
    by_cases hin : s.view.kind = .inKw
    · have hnone : (s.under true).view.joins floor = false := by
        simp [View.joins, power?_under, hin]
      rw [hnone, Bool.and_false]
      refine Eq.symm (Bool.eq_false_iff.mpr fun hgo => ?_)
      exact operation_ne steady (Bool.and_eq_true_iff.mp hgo).2 (hround hgo) hin
    · rw [hfailed, View.joins, power?_under, if_neg hin]
      rfl
  · exact operation_under steady hfree
      (operation_ne steady (Bool.and_eq_true_iff.mp hgo).2 hround) hround

theorem alike_exec {rule : Rule} (h : rule.Impartial) : Alike (rule.exec limit refer) := by
  induction h with
  | skip | fail | become => exact fun _ _ _ => rfl
  | eat => exact alike_eat _
  | report => exact fun s _ _ => congrArg (Prod.mk false) (s.note_under true _ _)
  | call => exact alike_call steady _
  | look hchoose _ ih =>
      intro s hfree hpasses
      rw [exec, show (s.under true).view = { s.view with noIn := true } from rfl, hchoose]
      exact ih s.view s hfree hpasses
  | seq _ _ ihFirst ihSecond => exact alike_seq steady ihFirst ihSecond
  | andThen _ _ ihFirst ihSecond => exact alike_andThen steady ihFirst ihSecond
  | @many goOn round hgoOn _ ih =>
      intro s hfree hpasses
      exact congrArg (Prod.mk true) (alike_rounds (keeps_exec steady.keeps round)
        (noIn_exec steady.noIn round) (fun s _ _ => hgoOn s.view true)
        (fun s hfree _ => ih s hfree) s hfree hpasses)
  | operations => exact alike_operations steady _
  | @node kind body _ ih =>
      intro s hfree hpasses
      have hsame := ih (s.enter kind []) hfree hpasses
      rw [exec, exec, show (s.under true).enter kind [] = (s.enter kind []).under true from rfl,
        hsame]
      rfl
  | wrap _ ih => exact alike_wrap ih
  | bracket _ ih => exact alike_bracket steady ih
  | withNoIn => exact fun _ _ _ => rfl

end

/-! ## Brackets of the grammar -/

theorem steady_refer (limit depth : Nat) : Steady (refer table limit depth) := by
  refine ⟨keeps_refer table limit depth, noIn_refer limit depth, ?_⟩
  induction depth with
  | zero => exact fun _ _ _ _ => rfl
  | succ depth ih =>
      have steady : Steady (refer table limit depth) :=
        ⟨keeps_refer table limit depth, noIn_refer limit depth, ih⟩
      exact fun category => alike_exec steady (impartial_table category)

/-- Every reading leaves the setting for `in` as it was. Of the brackets in the grammar exactly
those of the freeing enclosures, which are parentheses around an operand, indices, argument lists,
arrays and object literals, read the same whatever it is. Between all others an `in` is an operator
only outside the head of a loop; where it takes none, a reading does not depend on the setting. -/
theorem setting_in_brackets (limit depth : Nat) (s : State) :
    (∀ rule : Rule, (reading limit depth rule s).2.noIn = s.noIn) ∧
    ∀ (category : Category) (what : Enclosure) (body : Rule),
      (Rule.bracket what body).Within (table category) →
      ((Rule.bracket what body).Indifferent ↔ what.freesIn = true) ∧
      (s.noIn = false → s.Passes (reading limit depth (.bracket what body) s).2 →
        reading limit depth (.bracket what body) (s.under true) =
          Prod.map id (State.under true) (reading limit depth (.bracket what body) s)) := by
  refine ⟨fun rule => noIn_reading limit depth rule s, fun category what body hwithin => ?_⟩
  obtain ⟨rfl, hbody⟩ := (impartial_table category).bracket_eq hwithin
  exact ⟨indifferent_iff_freesIn what,
    alike_exec (steady_refer limit depth) (.bracket hbody) s⟩

/-- A block with one statement in it. -/
def plainBlock : State := .start (plainTokens [.lBrace, .ident, .semicolon, .rBrace])

def readBlock : Step := reading 5 32 (.bracket .block Enclosure.block.contents)

/-- The body of a function in the head of a loop is read under the setting of the head, an operand
in parentheses is not. A block without `in` is read to its end under either setting. -/
theorem setting_in_brackets_block :
    ¬(Rule.bracket .block Enclosure.block.contents).Indifferent ∧
    (Rule.bracket .parenthesis Enclosure.parenthesis.contents).Indifferent ∧
    (readBlock plainBlock).1 = true ∧ (readBlock plainBlock).2.ahead = [] ∧
    readBlock (plainBlock.under true) = Prod.map id (State.under true) (readBlock plainBlock) := by
  have hblock : (Rule.bracket .block Enclosure.block.contents).Within (table .statement) :=
    .look (v := ⟨plainTokens [.lBrace], false, false⟩) (.node (.look
      (v := ⟨plainTokens [.lBrace], false, false⟩) .here))
  have hparenthesis :
      (Rule.bracket .parenthesis Enclosure.parenthesis.contents).Within (table .primary) :=
    .look (v := ⟨plainTokens [.lParen], false, false⟩) (.node .here)
  obtain ⟨-, hbrackets⟩ := setting_in_brackets 5 32 plainBlock
  obtain ⟨hframed, halike⟩ := hbrackets .statement .block _ hblock
  have hend : (readBlock plainBlock).2.ahead = [] := by decide +kernel
  refine ⟨fun h => absurd (hframed.mp h) (by decide),
    (hbrackets .primary .parenthesis _ hparenthesis).1.mpr rfl, by decide +kernel, hend, ?_⟩
  refine halike rfl ⟨plainBlock.ahead, ?_, by decide⟩
  rw [show (reading 5 32 _ plainBlock).2.ahead = [] from hend, List.append_nil]

end ShellAwait.Grammar
