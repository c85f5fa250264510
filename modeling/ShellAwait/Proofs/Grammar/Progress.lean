import ShellAwait.Proofs.Grammar.Runs
import ShellAwait.Proofs.Grammar.Sound

/-! # Progress

What every run of a rule brings, with or without a problem. A rule *ends* if it comes to an end by
itself before a limit stops it, never takes the end of the text and points with a problem only at
tokens that exist; a gain tells whether it has taken a token on the way, or at least reported a
problem. One lemma for each construct carries this from the parts of a rule to the rule. A
repetition is *brief* if each of its rounds takes a token or is the last one.
-/

namespace ShellAwait.Grammar

open Rule

variable {kind : TokenKind} {t : State} {what : Enclosure} {body round : Rule} {n : Nat}
  {goOn : View → Bool}

namespace State

/-- Of `total` tokens those are ahead that have not been taken, the end of the text among them, and
a problem points at some of them. -/
structure Fits (total : Nat) (s : State) : Prop where
  count : s.taken + s.ahead.length = total
  ending : ∃ t ∈ s.ahead, t.kind = .eof
  report : ∀ report, s.report = some report →
    report.token < total ∧ ∀ opener, report.opener = some opener → opener < total

namespace Fits

variable {total : Nat} {s : State}

theorem taken_lt (h : s.Fits total) : s.taken < total := by
  obtain ⟨t, ht, -⟩ := h.ending
  have hpos := List.length_pos_of_mem ht
  have hcount := h.count
  omega

theorem note {problem : Problem} {opener : Option Nat} (h : s.Fits total)
    (hopener : ∀ n, opener = some n → n < total) : (s.note problem opener).Fits total := by
  unfold State.note
  split
  · exact h
  · refine ⟨h.count, h.ending, fun report hreport => ?_⟩
    cases hreport
    exact ⟨h.taken_lt, hopener⟩

theorem eat {b : Bool} (h : s.Fits total) (hkind : kind ≠ .eof) (heat : s.eat kind = (b, t)) :
    t.Fits total := by
  unfold State.eat at heat
  split at heat
  · cases heat
    exact h
  · rename_i first rest hahead
    split at heat
    · rename_i hfirst
      cases heat
      have hcount := h.count
      rw [hahead, List.length_cons] at hcount
      refine ⟨by simp only; omega, ?_, h.report⟩
      -- The token that has been taken is not the end of the text.
      obtain ⟨e, he, heof⟩ := h.ending
      rw [hahead, List.mem_cons] at he
      rcases he with rfl | he
      · exact absurd ((beq_iff_eq.mp hfirst).symm.trans heof) hkind
      · exact ⟨e, he, heof⟩
    · cases heat
      exact h

theorem close {opener : Nat} {b : Bool} (h : s.Fits total) (hopener : opener < total)
    (hclose : s.close what opener = (b, t)) : t.Fits total := by
  have hcloser : what.closer ≠ .eof := by cases what <;> decide
  unfold State.close at hclose
  split at hclose
  · rename_i u hu
    cases hclose
    exact h.eat hcloser hu
  · rename_i u hu
    cases hclose
    refine (h.eat hcloser hu).note fun n hn => ?_
    split at hn
    · cases hn
      exact hopener
    · cases hn

end Fits

end State

/-- What a run is known to bring. -/
inductive Gain where
  | nothing
  /-- A token is taken, or there is a problem. -/
  | progress
  | token

namespace Gain

def Holds : Gain → State → State → Prop
  | .nothing, _, _ => True
  | .progress, s, t => t.ahead.length < s.ahead.length ∨ t.report ≠ none
  | .token, s, t => t.ahead.length < s.ahead.length

theorem Holds.before {gain : Gain} {s u : State} (h : gain.Holds s u) (k : u.Keeps t) :
    gain.Holds s t := by
  have hlength := k.ahead.length_le
  cases gain with
  | nothing => trivial
  | progress =>
      rcases h with h | h
      · exact .inl (Nat.lt_of_le_of_lt hlength h)
      · exact .inr fun hclean => h (k.report hclean)
  | token => exact Nat.lt_of_le_of_lt hlength h

theorem Holds.after {gain : Gain} {s u : State} (h : s.Keeps u) (k : gain.Holds u t) :
    gain.Holds s t := by
  have hlength := h.ahead.length_le
  cases gain with
  | nothing => trivial
  | progress => exact k.imp_left fun k => Nat.lt_of_lt_of_le k hlength
  | token => exact Nat.lt_of_lt_of_le k hlength

end Gain

namespace Reader

/-- A rule comes to an end by itself, before a limit stops it. -/
def Ends (r : Reader) (rule : Rule) (s : State) (gain : Gain) : Prop :=
  ∃ b t, r.run rule s = (b, t) ∧ Runs rule s b t ∧ (∀ total, s.Fits total → t.Fits total) ∧
    gain.Holds s t

variable {r : Reader} {s : State} {gain : Gain}

theorem Ends.some {rule : Rule} (h : r.Ends rule s .token) : r.Ends rule s .progress := by
  obtain ⟨b, t, hrun, hruns, hfits, hgain⟩ := h
  exact ⟨b, t, hrun, hruns, hfits, .inl hgain⟩

theorem Ends.any {rule : Rule} (h : r.Ends rule s gain) : r.Ends rule s .nothing := by
  obtain ⟨b, t, hrun, hruns, hfits, -⟩ := h
  exact ⟨b, t, hrun, hruns, hfits, trivial⟩

/-! ## Tokens -/

theorem ends_skip : r.Ends skip s .nothing := ⟨true, s, rfl, .skip, fun _ h => h, trivial⟩

theorem ends_fail : r.Ends fail s .nothing := ⟨false, s, rfl, .fail, fun _ h => h, trivial⟩

theorem ends_report {problem : Problem} : r.Ends (report problem) s .progress :=
  ⟨false, _, rfl, .report, fun _ h => h.note nofun, .inr (note_ne_none problem none)⟩

theorem ends_eat (hkind : kind ≠ .eof) : r.Ends (eat kind) s .nothing :=
  ⟨_, _, rfl, .eat rfl, fun _ h => h.eat hkind rfl, trivial⟩

/-- A token that is known to be next is taken. -/
theorem eat_of_next (hnext : s.view.kind = kind) (hkind : kind ≠ .eof) :
    ∃ t, s.eat kind = (true, t) ∧ t.ahead.length < s.ahead.length := by
  cases hahead : s.ahead with
  | nil =>
      refine absurd ?_ hkind
      rw [← hnext]
      simp [State.view, View.kind, View.kindAt, View.nth, hahead, Lookahead.pastEnd]
  | cons token rest =>
      have hfirst : token.kind = kind := by
        simpa [State.view, View.kind, View.kindAt, View.nth, hahead] using hnext
      simp [State.eat, hahead, hfirst]

theorem ends_next (hnext : s.view.kind = kind) (hkind : kind ≠ .eof) :
    r.Ends (eat kind) s .token := by
  obtain ⟨t, ht, hless⟩ := eat_of_next hnext hkind
  exact ⟨true, t, ht, .eat ht, fun _ h => h.eat hkind ht, hless⟩

/-! ## Sequences -/

theorem ends_look {choose : View → Rule} (h : r.Ends (choose s.view) s gain) :
    r.Ends (look choose) s gain := by
  obtain ⟨b, t, hrun, hruns, h⟩ := h
  exact ⟨b, t, hrun, .look hruns, h⟩

theorem ends_expect (hkind : kind ≠ .eof) : r.Ends (expect kind) s .progress := by
  refine ends_look ?_
  split
  · rename_i hnext
    exact (ends_next (beq_iff_eq.mp hnext) hkind).some
  · exact ends_report

theorem ends_both {first second : Rule} {more : Gain} (hfirst : r.Ends first s gain)
    (hsecond : ∀ u, s.Keeps u → gain.Holds s u → r.Ends second u more) :
    r.Ends (first ++ second) s gain ∧ r.Ends (first ++ second) s more := by
  obtain ⟨b, u, hu, hruns, hfits, hgain⟩ := hfirst
  have hkeeps := keeps_run hu
  obtain ⟨c, t, ht, hruns', hfits', hmore⟩ := hsecond u hkeeps hgain
  have hrun : r.run (first ++ second) s = (c, t) := by
    rw [← ht]
    exact congrArg (fun ran : Bool × State => r.run second ran.2) hu
  have hall := fun total h => hfits' total (hfits total h)
  exact ⟨⟨c, t, hrun, .seq hruns hruns', hall, hgain.before (keeps_run ht)⟩,
    ⟨c, t, hrun, .seq hruns hruns', hall, hmore.after hkeeps⟩⟩

theorem ends_seq {first second : Rule} {more : Gain} (hfirst : r.Ends first s gain)
    (hsecond : ∀ u, s.Keeps u → gain.Holds s u → r.Ends second u more) :
    r.Ends (first ++ second) s gain := (ends_both hfirst hsecond).1

theorem ends_succeed {rule : Rule} (h : r.Ends rule s gain) : r.Ends (succeed rule) s gain :=
  ends_seq h fun _ _ _ => ends_skip

theorem ends_andThen {first second : Rule} (hfirst : r.Ends first s gain)
    (hsecond : ∀ u, s.Keeps u → gain.Holds s u → r.Ends second u .nothing) :
    r.Ends (andThen first second) s gain := by
  obtain ⟨b, u, hu, hruns, hfits, hgain⟩ := hfirst
  cases b with
  | false =>
      refine ⟨false, u, ?_, .refused hruns, hfits, hgain⟩
      simp only [run, exec] at hu ⊢
      rw [hu]
  | true =>
      obtain ⟨c, t, ht, hruns', hfits', -⟩ := hsecond u (keeps_run hu) hgain
      refine ⟨c, t, ?_, .andThen hruns hruns', fun total h => hfits' total (hfits total h),
        hgain.before (keeps_run ht)⟩
      simp only [run, exec] at hu ht ⊢
      rw [hu]
      exact ht

/-! ## Nodes -/

theorem ends_node {kind : NodeKind} (h : r.Ends body (s.enter kind []) gain) :
    r.Ends (.node kind body) s gain := by
  obtain ⟨b, t, hrun, hruns, hfits, hgain⟩ := h
  refine ⟨true, t.leave s.kind s.done, ?_, .node hruns, fun total h => ?_, ?_⟩
  · simp only [run, exec] at hrun ⊢
    rw [hrun]
  · obtain ⟨hcount, hending, hreport⟩ := hfits total ⟨h.count, h.ending, h.report⟩
    exact ⟨hcount, hending, hreport⟩
  · cases gain <;> exact hgain

theorem ends_wrap {kind : NodeKind} (h : r.Ends body (s.enter kind (s.done.take 1)) gain) :
    r.Ends (wrap kind body) s gain := by
  obtain ⟨b, t, hrun, hruns, hfits, hgain⟩ := h
  refine ⟨true, t.leave s.kind (s.done.drop 1), ?_, .wrap hruns, fun total h => ?_, ?_⟩
  · simp only [run, exec] at hrun ⊢
    rw [hrun]
  · obtain ⟨hcount, hending, hreport⟩ := hfits total ⟨h.count, h.ending, h.report⟩
    exact ⟨hcount, hending, hreport⟩
  · cases gain <;> exact hgain

theorem ends_become {kind : NodeKind} : r.Ends (become kind) s .nothing :=
  ⟨true, _, rfl, .become, fun _ h => ⟨h.count, h.ending, h.report⟩, trivial⟩

theorem ends_withNoIn {noIn : Bool} (h : r.Ends body { s with noIn := noIn } gain) :
    r.Ends (withNoIn noIn body) s gain := by
  obtain ⟨b, t, hrun, hruns, hfits, hgain⟩ := h
  refine ⟨b, { t with noIn := s.noIn }, ?_, .withNoIn hruns, fun total h => ?_, ?_⟩
  · simp only [run, exec] at hrun ⊢
    rw [hrun]
  · obtain ⟨hcount, hending, hreport⟩ := hfits total ⟨h.count, h.ending, h.report⟩
    exact ⟨hcount, hending, hreport⟩
  · cases gain <;> exact hgain

/-- The body of an enclosure stands behind a token. -/
theorem ends_opened {u : State} {more : Gain} (hu : s.eat what.opener = (true, u))
    (hless : u.ahead.length < s.ahead.length) (hbody : r.Ends body u more) :
    r.Ends (bracket what body) s .token := by
  have hopener : what.opener ≠ .eof := by cases what <;> decide
  obtain ⟨b, v, hv, hruns, hfits, -⟩ := hbody
  have hvless : v.ahead.length < s.ahead.length :=
    Nat.lt_of_le_of_lt (keeps_run hv).ahead.length_le hless
  cases b with
  | false =>
      refine ⟨false, v, ?_, .unfinished hu hruns, fun total h => hfits total (h.eat hopener hu),
        hvless⟩
      simp only [run, exec] at hv ⊢
      rw [hu]
      simp only [hv]
  | true =>
      have hkeeps := v.keeps_close what s.taken
      rcases hclose : v.close what s.taken with ⟨c, t⟩
      rw [hclose] at hkeeps
      refine ⟨c, t, ?_, .enclosed hu hruns hclose, fun total h =>
        (hfits total (h.eat hopener hu)).close h.taken_lt hclose,
        Nat.lt_of_le_of_lt hkeeps.ahead.length_le hvless⟩
      simp only [run, exec] at hv ⊢
      rw [hu]
      simp only [hv, hclose]

theorem ends_bracket {more : Gain}
    (hbody : ∀ u : State, u.ahead.length < s.ahead.length → r.Ends body u more) :
    r.Ends (bracket what body) s .progress := by
  rcases hu : s.eat what.opener with ⟨_ | _, u⟩
  · have hsame := eat_false hu
    subst hsame
    refine ⟨false, _, ?_, .unopened hu, fun total h => h.note nofun, .inr (note_ne_none _ none)⟩
    simp only [run, exec]
    rw [hu]
  · have hless := (added_eat (isSolid_opener what) hu).length_lt (Nat.le_succ 1)
    exact (ends_opened hu hless (hbody u hless)).some

theorem ends_bracket_next {more : Gain} (hnext : s.view.kind = what.opener)
    (hbody : ∀ u : State, u.ahead.length < s.ahead.length → r.Ends body u more) :
    r.Ends (bracket what body) s .token := by
  obtain ⟨u, hu, hless⟩ := eat_of_next hnext (by cases what <;> decide)
  exact ends_opened hu hless (hbody u hless)

/-! ## Rounds -/

/-- Every round takes a token, or the repetition stops after it. -/
structure Brief (r : Reader) (n : Nat) (goOn : View → Bool) (round : Rule) : Prop where
  ahead : ∀ v, goOn v = true → v.kind ≠ .eof
  tires : ∀ u : State, u.ahead.length < n → goOn u.view = true → ∃ gain, r.Ends round u gain ∧
    ∀ t, gain.Holds u t → t.ahead.length < u.ahead.length ∨ goOn t.view = false

theorem Brief.of_token (hahead : ∀ v, goOn v = true → v.kind ≠ .eof)
    (h : ∀ u : State, u.ahead.length < n → goOn u.view = true → r.Ends round u .token) :
    r.Brief n goOn round :=
  ⟨hahead, fun u hu hgo => ⟨.token, h u hu hgo, fun _ => .inl⟩⟩

/-- After a problem there is no other round. -/
theorem Brief.of_progress (hahead : ∀ v, goOn v = true → v.kind ≠ .eof ∧ v.failed = false)
    (h : ∀ u : State, u.ahead.length < n → goOn u.view = true → r.Ends round u .progress) :
    r.Brief n goOn round := by
  refine ⟨fun v hgo => (hahead v hgo).1, fun u hu hgo => ⟨.progress, h u hu hgo, fun t ht => ?_⟩⟩
  refine ht.imp_right fun hreport => ?_
  have hfailed : t.view.failed = true := Option.isSome_iff_ne_none.mpr hreport
  cases hgo' : goOn t.view with
  | false => rfl
  | true => exact absurd (hfailed.symm.trans (hahead t.view hgo').2) Bool.noConfusion

theorem length_pos_of_kind (h : s.view.kind ≠ .eof) : 0 < s.ahead.length := by
  cases hahead : s.ahead with
  | nil =>
      refine absurd ?_ h
      simp [State.view, View.kind, View.kindAt, View.nth, hahead, Lookahead.pastEnd]
  | cons t rest => exact Nat.succ_pos _

theorem rounds_stop {round : Step} (limit : Nat) (h : goOn s.view = false) :
    rounds goOn round limit s = s := by
  cases limit with
  | zero => rfl
  | succ limit => simp [rounds, h]

/-- A brief repetition stops before its limit, after at most one round for every token ahead. -/
theorem Brief.turns (h : r.Brief n goOn round) (hs : s.ahead.length < n) {limit : Nat}
    (hlimit : s.ahead.length ≤ limit) :
    ∃ k t, rounds goOn (r.run round) limit s = t ∧ Turns goOn round k s t ∧
      k ≤ s.ahead.length ∧ ∀ total, s.Fits total → t.Fits total := by
  induction limit generalizing s with
  | zero =>
      have hstop : goOn s.view = false := by
        cases hgo : goOn s.view with
        | false => rfl
        | true =>
            have hpos := length_pos_of_kind (h.ahead s.view hgo)
            omega
      exact ⟨0, s, rfl, .stop hstop, Nat.zero_le _, fun _ hfits => hfits⟩
  | succ limit ih =>
      cases hgo : goOn s.view with
      | false => exact ⟨0, s, rounds_stop _ hgo, .stop hgo, Nat.zero_le _, fun _ hfits => hfits⟩
      | true =>
          have hpos := length_pos_of_kind (h.ahead s.view hgo)
          obtain ⟨gain, ⟨b, u, hu, hruns, hfits, hgain⟩, hmore⟩ := h.tires s hs hgo
          rw [rounds, if_pos hgo, hu]
          cases b with
          | false => exact ⟨1, u, rfl, .last hgo hruns, hpos, hfits⟩
          | true =>
              rcases hmore u hgain with hless | hstop
              · obtain ⟨k, t, ht, hturns, hk, hfits'⟩ := ih (s := u) (by omega) (by omega)
                exact ⟨k + 1, t, ht, .again hgo hruns hturns, by omega,
                  fun total hs => hfits' total (hfits total hs)⟩
              · exact ⟨1, u, rounds_stop limit hstop, .again hgo hruns (.stop hstop), hpos, hfits⟩

theorem ends_many (h : r.Brief n goOn round) (hs : s.ahead.length < n)
    (hlimit : s.ahead.length ≤ r.limit) : r.Ends (many goOn round) s .nothing := by
  obtain ⟨k, t, ht, hturns, -, hfits⟩ := h.turns hs hlimit
  refine ⟨true, t, ?_, hturns.runs, hfits, trivial⟩
  rw [← ht]
  rfl

end Reader

end ShellAwait.Grammar
