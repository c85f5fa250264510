import ShellAwait.Grammar.Parse

/-! # What every reading keeps

Whatever the rules, a reading never drops, doubles or reorders a token: the leaves of what is
finished and the tokens ahead are always the same word. Nor does it go back, or take back a
problem.
-/

namespace ShellAwait.Grammar

namespace State

/-- The tokens taken into the node being built, then those ahead. -/
def word (s : State) : List Token := Tree.leavesAll s.done.reverse ++ s.ahead.map Lookahead.token

/-- What one step of a reading keeps of the state before it. -/
structure Keeps (s t : State) : Prop where
  word : t.word = s.word
  ahead : t.ahead <:+ s.ahead
  report : t.report = none → s.report = none

theorem Keeps.refl (s : State) : Keeps s s := ⟨rfl, List.suffix_rfl, id⟩

theorem Keeps.trans {s t u : State} (h : Keeps s t) (k : Keeps t u) : Keeps s u :=
  ⟨k.word.trans h.word, k.ahead.trans h.ahead, fun hclean => h.report (k.report hclean)⟩

theorem keeps_note (s : State) (problem : Problem) (opener : Option Nat) :
    Keeps s (s.note problem opener) := by
  unfold note
  cases hreport : s.report with
  | none => exact ⟨rfl, List.suffix_rfl, fun _ => hreport⟩
  | some report => exact Keeps.refl s

theorem keeps_eat (s : State) (kind : TokenKind) : Keeps s (s.eat kind).2 := by
  unfold eat
  split
  · exact Keeps.refl s
  · rename_i t rest hahead
    split
    · refine ⟨?_, hahead ▸ List.suffix_cons t rest, id⟩
      simp [word, hahead, Tree.leavesAll, Tree.leaves]
    · exact Keeps.refl s

theorem keeps_close (s : State) (what : Enclosure) (opener : Nat) :
    Keeps s (s.close what opener).2 := by
  have heat := keeps_eat s what.closer
  unfold close
  split
  · rename_i t ht
    rwa [ht] at heat
  · rename_i t ht
    rw [ht] at heat
    exact heat.trans (keeps_note t _ _)

theorem keeps_leave {s u : State} (kind : NodeKind) {inside outside : List Tree}
    (hdone : s.done = inside ++ outside) (h : Keeps (s.enter kind inside) u) :
    Keeps s (u.leave s.kind outside) := by
  refine ⟨?_, h.ahead, h.report⟩
  have hword : Tree.leavesAll u.done.reverse ++ u.ahead.map Lookahead.token =
      Tree.leavesAll inside.reverse ++ s.ahead.map Lookahead.token := h.word
  simp only [word, leave, hdone, List.reverse_cons, List.reverse_append, Tree.leavesAll_append,
    List.append_assoc, Tree.leavesAll, Tree.leaves, List.append_nil]
  rw [hword]

end State

theorem keeps_rounds {goOn : View → Bool} {round : Step} (hround : ∀ s : State, s.Keeps (round s).2)
    (limit : Nat) (s : State) : s.Keeps (rounds goOn round limit s) := by
  induction limit generalizing s with
  | zero => exact .refl s
  | succ limit ih =>
      have h := hround s
      unfold rounds
      split
      · split
        · rename_i t ht
          rw [ht] at h
          exact h.trans (ih t)
        · rename_i t ht
          rwa [ht] at h
      · exact .refl s

theorem keeps_exec {limit : Nat} {refer : Category → Step}
    (hrefer : ∀ c (s : State), s.Keeps (refer c s).2)
    (rule : Rule) (s : State) : s.Keeps (rule.exec limit refer s).2 := by
  induction rule generalizing s with
  | skip => exact .refl s
  | fail => exact .refl s
  | eat kind => exact s.keeps_eat kind
  | report problem => exact s.keeps_note problem none
  | look choose ih => exact ih s.view s
  | seq first second ihFirst ihSecond => exact (ihFirst s).trans (ihSecond _)
  | andThen first second ihFirst ihSecond =>
      have hfirst := ihFirst s
      unfold Rule.exec
      split
      · rename_i t ht
        rw [ht] at hfirst
        exact hfirst.trans (ihSecond t)
      · rename_i t ht
        rwa [ht] at hfirst
  | many goOn round ih => exact keeps_rounds ih limit s
  | node kind body ih => exact State.keeps_leave kind rfl (ih (s.enter kind []))
  | wrap kind body ih =>
      exact State.keeps_leave kind (List.take_append_drop 1 s.done).symm (ih _)
  | become kind => exact ⟨rfl, List.suffix_rfl, id⟩
  | bracket what body ih =>
      have heat := s.keeps_eat what.opener
      unfold Rule.exec
      split
      · rename_i t ht
        rw [ht] at heat
        exact heat.trans (t.keeps_note _ _)
      · rename_i t ht
        rw [ht] at heat
        have hbody := ih t
        split
        · rename_i u hu
          rw [hu] at hbody
          exact (heat.trans hbody).trans (u.keeps_close what s.taken)
        · rename_i u hu
          rw [hu] at hbody
          exact heat.trans hbody
  | withNoIn noIn body ih =>
      have hbody := ih { s with noIn := noIn }
      exact ⟨hbody.word, hbody.ahead, hbody.report⟩
  | call category => exact hrefer category s

theorem keeps_refer (table : Category → Rule) (limit depth : Nat) (category : Category)
    (s : State) :
    s.Keeps (refer table limit depth category s).2 := by
  induction depth generalizing category s with
  | zero => exact .refl s
  | succ depth ih => exact keeps_exec ih (table category) s

/-! ## The end of a script -/

theorem exec_takeAny (limit : Nat) (refer : Category → Step) (s : State) :
    (Rule.takeAny.exec limit refer s).2.ahead = s.ahead.tail ∧
      (s.ahead ≠ [] → (Rule.takeAny.exec limit refer s).1 = true) := by
  simp only [Rule.takeAny, Rule.exec, State.eat]
  cases hahead : s.ahead with
  | nil => simp [hahead]
  | cons t rest => simp [State.view, View.kind, View.kindAt, View.nth, hahead]

theorem rounds_takeAny (limit : Nat) (refer : Category → Step) (fuel : Nat) (s : State)
    (hfuel : s.ahead.length ≤ fuel) :
    ∃ before, s.ahead = before ++ (rounds (fun v => !v.next .eof)
      (Rule.takeAny.exec limit refer) fuel
        s).ahead ∧
      (rounds (fun v => !v.next .eof) (Rule.takeAny.exec limit refer) fuel s).view.next .eof := by
  have hempty {t : State} (h : t.ahead = []) : t.view.next .eof := by
    simp [State.view, View.next, View.kind, View.kindAt, View.nth, h, Lookahead.pastEnd]
  induction fuel generalizing s with
  | zero =>
      refine ⟨[], rfl, hempty ?_⟩
      exact List.eq_nil_of_length_eq_zero (Nat.le_zero.mp hfuel)
  | succ fuel ih =>
      unfold rounds
      by_cases hend : s.view.next .eof
      · exact ⟨[], by simp [hend], by simp [hend]⟩
      · obtain ⟨htail, htaken⟩ := exec_takeAny limit refer s
        have hne : s.ahead ≠ [] := fun h => hend (hempty h)
        obtain ⟨t, rest, hahead⟩ := List.exists_cons_of_ne_nil hne
        rw [hahead, List.tail_cons] at htail
        have hlength : (Rule.takeAny.exec limit refer s).2.ahead.length ≤ fuel := by
          rw [htail]
          rw [hahead, List.length_cons] at hfuel
          omega
        obtain ⟨before, hbefore, hstop⟩ := ih _ hlength
        have hstep : Rule.takeAny.exec limit refer s =
            (true, (Rule.takeAny.exec limit refer s).2) :=
          Prod.ext (htaken hne) rfl
        rw [hstep]
        simp only [hend, Bool.not_false, if_true]
        refine ⟨t :: before, ?_, hstop⟩
        rw [hahead, List.cons_append, ← hbefore, htail]

theorem keeps_read (tokens : List Lookahead) : (State.start tokens).Keeps (read tokens) :=
  keeps_exec (keeps_refer table _ _) script _

theorem read_ahead {body : List Lookahead} {last : Lookahead}
    (hbody : ∀ t ∈ body, t.kind ≠ .eof) : (read (body ++ [last])).ahead = [] := by
  let limit := (body ++ [last]).length + 1
  let call := refer table limit (depthFor (body ++ [last]))
  let first := rounds (fun v => !v.next .eof && !v.failed) (call .statement) limit
    (State.start (body ++ [last]))
  let second := rounds (fun v => !v.next .eof) (Rule.takeAny.exec limit call) limit first
  have hfirst : (State.start (body ++ [last])).Keeps first :=
    keeps_rounds (keeps_refer table _ _ .statement) limit _
  have hword : Tree.leavesAll first.done.reverse ++ first.ahead.map Lookahead.token =
      (body ++ [last]).map Lookahead.token := hfirst.word
  have hfuel : first.ahead.length ≤ limit := by
    have hlength := congrArg List.length hword
    simp only [List.length_append, List.length_map] at hlength
    simp only [limit, List.length_append]
    omega
  obtain ⟨before, hbefore, hstop⟩ := rounds_takeAny limit call limit first hfuel
  have hread : (read (body ++ [last])).ahead = second.ahead.tail :=
    (exec_takeAny limit call second).1
  rw [hread]
  cases hsecond : second.ahead with
  | nil => rfl
  | cons t rest =>
      have ht : t.kind = .eof := by
        have hview : second.view.kind = .eof := beq_iff_eq.mp hstop
        simpa [State.view, View.kind, View.kindAt, View.nth, hsecond] using hview
      -- The mark of the end is the last token of all, so nothing stands behind it.
      rw [show first.ahead = before ++ t :: rest from hsecond ▸ hbefore, List.map_append,
        List.map_append, ← List.append_assoc, List.map_cons, List.map_singleton] at hword
      rcases List.append_eq_append_iff.mp hword with ⟨middle, hmiddle, hrest⟩ |
          ⟨middle, hmiddle, hrest⟩
      · cases middle with
        | nil => simpa using congrArg List.tail hrest.symm
        | cons u middle =>
            have hmem : t.token ∈ body.map Lookahead.token := by
              rw [hmiddle]
              simp_all
            obtain ⟨u, hu, htoken⟩ := List.mem_map.mp hmem
            have hkind : u.kind = t.kind := congrArg Token.kind htoken
            exact absurd (hkind.trans ht) (hbody u hu)
      · cases middle with
        | nil => simpa using congrArg List.tail hrest
        | cons u middle => simp at hrest

theorem leavesAll_read {body : List Lookahead} {last : Lookahead}
    (hbody : ∀ t ∈ body, t.kind ≠ .eof) :
    Tree.leavesAll (read (body ++ [last])).done.reverse = (body ++ [last]).map Lookahead.token := by
  have hword := (keeps_read (body ++ [last])).word
  rw [State.word, read_ahead hbody, List.map_nil, List.append_nil] at hword
  exact hword

end ShellAwait.Grammar
