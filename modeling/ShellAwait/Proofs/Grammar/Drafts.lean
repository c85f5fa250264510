import ShellAwait.Proofs.Grammar.Clean
import ShellAwait.Proofs.Grammar.Phrases

/-! # Runs that find phrases

A calculus for runs without a problem. What a run has to establish is pushed from the end of a rule to
its beginning: for every form of a rule there is one lemma that says what has to hold before it, so
that a run with a given outcome is followed along the rule, with the phrases found so far in place of
states.
-/

namespace ShellAwait.Grammar

open Phrase Rule

variable {rule body : Rule} {s : State} {below : List Tree} {kind : TokenKind}

/-- The node being built, with its elements in order. -/
structure Draft where
  kind : NodeKind
  parts : List Phrase

namespace Draft

def add (d : Draft) (l : List Phrase) : Draft := ⟨d.kind, d.parts ++ l⟩

@[simp] theorem add_nil (d : Draft) : d.add [] = d := by simp [add]

@[simp] theorem add_add (d : Draft) (l m : List Phrase) : (d.add l).add m = d.add (l ++ m) := by
  simp [add]

@[simp] theorem kind_add (d : Draft) (l : List Phrase) : (d.add l).kind = d.kind := rfl

@[simp] theorem parts_add (d : Draft) (l : List Phrase) : (d.add l).parts = d.parts ++ l := rfl

end Draft

/-- A state in which a node is being built on top of finished trees. -/
structure State.Holds (s : State) (noIn : Bool) (d : Draft) (ahead : List Lookahead)
    (below : List Tree) : Prop where
  ahead : s.ahead = ahead
  noIn : s.noIn = noIn
  kind : s.kind = d.kind
  done : s.done = (trees d.parts).reverse ++ below

abbrev Outcome := Bool → Draft → List Lookahead → Prop

namespace Reader

/-- Every run of a rule that ends without a problem ends with this outcome. -/
def Finds (r : Reader) (rule : Rule) (n : Bool) (d : Draft) (ahead : List Lookahead)
    (outcome : Outcome) : Prop :=
  ∀ (s t : State) (below : List Tree) (b : Bool), s.Holds n d ahead below →
    r.run rule s = (b, t) → t.report = none →
      ∃ e rest, t.Holds n e rest below ∧ outcome b e rest

variable {r : Reader} {n : Bool} {d : Draft} {ahead : List Lookahead} {outcome : Outcome}

theorem Finds.mono {other : Outcome} (h : r.Finds rule n d ahead outcome)
    (himp : ∀ b e rest, outcome b e rest → other b e rest) : r.Finds rule n d ahead other := by
  intro s t below b hs hrun hclean
  obtain ⟨e, rest, ht, hout⟩ := h s t below b hs hrun hclean
  exact ⟨e, rest, ht, himp b e rest hout⟩

theorem view_of_holds (hs : s.Holds n d ahead below) (hreport : s.report = none) :
    s.view = viewOf n ahead := by
  simp [State.view, viewOf, hs.ahead, hs.noIn, hreport]

theorem view_eq {t : State} {b : Bool} (hs : s.Holds n d ahead below) (hrun : r.run rule s = (b, t))
    (hclean : t.report = none) : s.view = viewOf n ahead :=
  view_of_holds hs ((keeps_run hrun).report hclean)

/-! ## One step -/

theorem eat_holds {t : State} (hs : s.Holds n d ahead below) (h : s.eat kind = (true, t)) :
    ∃ token rest, ahead = token :: rest ∧ token.kind = kind ∧ t.Holds n (d.add [.leaf token]) rest below ∧
      t.report = s.report := by
  unfold State.eat at h
  split at h
  · cases h
  · rename_i token rest hahead
    split at h
    · rename_i hkind
      cases h
      refine ⟨token, rest, hs.ahead ▸ hahead, beq_iff_eq.mp hkind, ⟨rfl, hs.noIn, hs.kind, ?_⟩, rfl⟩
      simp [Draft.add, hs.done, tree]
    · cases h

theorem finds_skip (h : outcome true d ahead) : r.Finds skip n d ahead outcome := by
  rintro s t below b hs ⟨⟩ -
  exact ⟨d, ahead, hs, h⟩

theorem finds_report {problem : Problem} : r.Finds (report problem) n d ahead outcome :=
  fun _ _ _ _ _ hrun hclean => absurd hclean (run_report hrun)

theorem finds_become {kind : NodeKind} (h : outcome true ⟨kind, d.parts⟩ ahead) :
    r.Finds (become kind) n d ahead outcome := by
  rintro s t below b hs ⟨⟩ -
  exact ⟨⟨kind, d.parts⟩, ahead, ⟨hs.ahead, hs.noIn, rfl, hs.done⟩, h⟩

theorem finds_eat
    (htake : ∀ t rest, ahead = t :: rest → t.kind = kind → outcome true (d.add [.leaf t]) rest)
    (hleave : (∀ t rest, ahead = t :: rest → t.kind ≠ kind) → outcome false d ahead) :
    r.Finds (eat kind) n d ahead outcome := by
  intro s t below b hs hrun _
  change s.eat kind = (b, t) at hrun
  cases b with
  | true =>
      obtain ⟨token, rest, hahead, hkind, ht, -⟩ := eat_holds hs hrun
      exact ⟨_, rest, ht, htake token rest hahead hkind⟩
  | false =>
      rw [eat_false hrun]
      refine ⟨d, ahead, hs, hleave fun token rest hahead hkind => ?_⟩
      rw [State.eat, hs.ahead, hahead] at hrun
      simp [hkind] at hrun

theorem front_eq (hnext : (front ahead).kind = kind) (hkind : kind ≠ .eof) :
    ∃ t rest, ahead = t :: rest ∧ t.kind = kind := by
  cases ahead with
  | nil => exact absurd hnext.symm hkind
  | cons t rest => exact ⟨t, rest, rfl, hnext⟩

theorem finds_next (hnext : (front ahead).kind = kind) (hkind : kind ≠ .eof)
    (h : ∀ t rest, ahead = t :: rest → t.kind = kind → outcome true (d.add [.leaf t]) rest) :
    r.Finds (eat kind) n d ahead outcome := by
  obtain ⟨t, rest, rfl, ht⟩ := front_eq hnext hkind
  exact finds_eat h fun hother => absurd ht (hother t rest rfl)

theorem finds_look {choose : View → Rule} (h : r.Finds (choose (viewOf n ahead)) n d ahead outcome) :
    r.Finds (look choose) n d ahead outcome := by
  intro s t below b hs hrun hclean
  have hview := view_eq hs hrun hclean
  refine h s t below b hs ?_ hclean
  rw [← hview]
  exact hrun

theorem finds_expect (hkind : kind ≠ .eof)
    (h : ∀ t rest, ahead = t :: rest → t.kind = kind → outcome true (d.add [.leaf t]) rest) :
    r.Finds (expect kind) n d ahead outcome := by
  refine finds_look ?_
  split
  · rename_i hnext
    exact finds_next (by simpa using hnext) hkind h
  · exact finds_report

theorem finds_whenNext (hnext : (front ahead).kind = kind → r.Finds rule n d ahead outcome)
    (hother : (front ahead).kind ≠ kind → outcome true d ahead) :
    r.Finds (whenNext kind rule) n d ahead outcome := by
  refine finds_look ?_
  rw [next_viewOf]
  split
  · rename_i h
    exact hnext (beq_iff_eq.mp h)
  · rename_i h
    exact finds_skip (hother fun hkind => h (beq_iff_eq.mpr hkind))

theorem finds_unlessFailed (h : r.Finds rule n d ahead outcome) :
    r.Finds (unlessFailed rule) n d ahead outcome := finds_look h

theorem finds_takeAny (hsome : (front ahead).kind ≠ .eof)
    (h : ∀ t rest, ahead = t :: rest → outcome true (d.add [.leaf t]) rest) :
    r.Finds takeAny n d ahead outcome :=
  finds_look (finds_next (kind_viewOf n ahead).symm (by rwa [kind_viewOf])
    fun t rest ht _ => h t rest ht)

/-! ## Composition -/

theorem finds_seq {first second : Rule}
    (h : r.Finds first n d ahead fun _ e rest => r.Finds second n e rest outcome) :
    r.Finds (first ++ second) n d ahead outcome := by
  intro s t below b hs hrun hclean
  obtain ⟨c, u, hu, hreport, hrest⟩ := run_seq hrun hclean
  obtain ⟨e, rest, hholds, hsecond⟩ := h s u below c hs hu hreport
  exact hsecond u t below b hholds hrest hclean

theorem finds_andThen {first second : Rule}
    (h : r.Finds first n d ahead fun b e rest => b = true ∧ r.Finds second n e rest outcome) :
    r.Finds (andThen first second) n d ahead outcome := by
  intro s t below b hs hrun hclean
  obtain ⟨c, u, hu, hreport, hrest⟩ := run_andThen hrun hclean
  obtain ⟨e, rest, hholds, hc, hsecond⟩ := h s u below c hs hu hreport
  exact hsecond u t below b hholds (hrest hc) hclean

theorem finds_succeed (h : r.Finds rule n d ahead fun _ e rest => outcome true e rest) :
    r.Finds (succeed rule) n d ahead outcome :=
  finds_seq (h.mono fun _ _ _ hout => finds_skip hout)

theorem finds_withNoIn {m : Bool} (h : r.Finds body m d ahead outcome) :
    r.Finds (withNoIn m body) n d ahead outcome := by
  intro s t below b hs hrun hclean
  cases hrun
  obtain ⟨e, rest, ht, hout⟩ := h { s with noIn := m } _ below _
    ⟨hs.ahead, rfl, hs.kind, hs.done⟩ rfl hclean
  exact ⟨e, rest, ⟨ht.ahead, hs.noIn, ht.kind, ht.done⟩, hout⟩

/-- A node that is built around some trees which were finished before. -/
theorem holds_leave {t : State} {kind : NodeKind} {inside outside : List Phrase} {e : Draft}
    {rest : List Lookahead} (hs : s.Holds n ⟨kind, outside ++ inside⟩ ahead below)
    (ht : t.Holds n e rest []) :
    (t.leave s.kind ((trees outside).reverse ++ below)).Holds n
      ⟨kind, outside ++ [.node e.kind e.parts]⟩ rest below := by
  refine ⟨ht.ahead, ht.noIn, hs.kind, ?_⟩
  simp [State.leave, ht.kind, ht.done, tree]

theorem finds_node {kind : NodeKind}
    (h : r.Finds body n ⟨kind, []⟩ ahead fun _ e rest =>
      outcome true (d.add [.node e.kind e.parts]) rest) :
    r.Finds (node kind body) n d ahead outcome := by
  intro s t below b hs hrun hclean
  cases hrun
  obtain ⟨e, rest, ht, hout⟩ := h (s.enter kind []) _ [] _ ⟨hs.ahead, hs.noIn, rfl, rfl⟩ rfl hclean
  have hsame : s.Holds n ⟨d.kind, d.parts ++ []⟩ ahead below := by simpa using hs
  have hleave := holds_leave hsame ht
  rw [← hs.done] at hleave
  exact ⟨_, rest, hleave, hout⟩

theorem finds_wrap {kind outer : NodeKind} {ps : List Phrase} {p : Phrase}
    (h : r.Finds body n ⟨kind, [p]⟩ ahead fun _ e rest =>
      outcome true ⟨outer, ps ++ [.node e.kind e.parts]⟩ rest) :
    r.Finds (wrap kind body) n ⟨outer, ps ++ [p]⟩ ahead outcome := by
  intro s t below b hs hrun hclean
  cases hrun
  have hdone : s.done = p.tree :: ((trees ps).reverse ++ below) := by simp [hs.done]
  have henter : (s.enter kind (s.done.take 1)).Holds n ⟨kind, [p]⟩ ahead [] :=
    ⟨hs.ahead, hs.noIn, rfl, by simp [State.enter, hdone]⟩
  obtain ⟨e, rest, ht, hout⟩ := h _ _ [] _ henter rfl hclean
  have hleave := holds_leave hs ht
  have hdrop : s.done.drop 1 = (trees ps).reverse ++ below := by rw [hdone]; rfl
  rw [← hdrop] at hleave
  exact ⟨_, rest, hleave, hout⟩

theorem finds_bracket {what : Enclosure}
    (h : ∀ o rest, ahead = o :: rest → o.kind = what.opener →
      r.Finds body n (d.add [.leaf o]) rest fun b e more => b = true ∧ ∀ c after,
        more = c :: after → c.kind = what.closer → outcome true (e.add [.leaf c]) after) :
    r.Finds (bracket what body) n d ahead outcome := by
  intro s t below b hs hrun hclean
  simp only [run, exec] at hrun
  split at hrun
  · cases hrun
    exact absurd hclean (note_ne_none _ _)
  · rename_i u hu
    obtain ⟨o, rest, hahead, hopener, hu, -⟩ := eat_holds hs hu
    rcases hv : r.run body u with ⟨c, v⟩
    rw [show body.exec r.limit r.refer u = (c, v) from hv] at hrun
    have hbody (hreport : v.report = none) := h o rest hahead hopener u v below c hu hv hreport
    cases c with
    | false =>
        cases hrun
        obtain ⟨-, -, -, hfalse, -⟩ := hbody hclean
        cases hfalse
    | true =>
        change v.close what s.taken = (b, t) at hrun
        unfold State.close at hrun
        split at hrun
        · rename_i w hw
          cases hrun
          have hreport : v.report = none := by
            have hkeeps := v.keeps_eat what.closer
            rw [hw] at hkeeps
            exact hkeeps.report hclean
          obtain ⟨e, more, hv, -, hout⟩ := hbody hreport
          obtain ⟨c, after, hmore, hcloser, ht, -⟩ := eat_holds hv hw
          exact ⟨_, after, ht, hout c after hmore hcloser⟩
        · cases hrun
          exact absurd hclean (note_ne_none _ _)

/-! ## Rounds -/

/-- Rounds under an invariant. Every round that is followed by another takes a token. -/
theorem finds_many {goOn : View → Bool} {round : Rule} (inv : Draft → List Lookahead → Prop)
    (hlimit : ahead.length < r.limit) (hstart : inv d ahead)
    (hround : ∀ e rest, inv e rest → goOn (viewOf n rest) = true → rest.length ≤ ahead.length →
      r.Finds round n e rest fun b f more =>
        if b = true then inv f more ∧ more.length < rest.length else outcome true f more)
    (hstop : ∀ e rest, inv e rest → goOn (viewOf n rest) = false → outcome true e rest) :
    r.Finds (many goOn round) n d ahead outcome := by
  intro s t below b hs hrun hclean
  have ht : rounds goOn (r.run round) r.limit s = t := congrArg Prod.snd hrun
  have hb : true = b := congrArg Prod.fst hrun
  subst hb
  clear hrun
  generalize r.limit = limit at hlimit ht
  induction limit generalizing s d ahead with
  | zero => omega
  | succ limit ih =>
      have hview : s.view = viewOf n ahead := by
        have hkeeps := @keeps_rounds goOn (r.run round) (fun _ => keeps_run rfl) (limit + 1) s
        rw [ht] at hkeeps
        exact view_of_holds hs (hkeeps.report hclean)
      rw [rounds, hview] at ht
      split at ht
      · rename_i hgo
        rcases hu : r.run round s with ⟨c, u⟩
        rw [hu] at ht
        have hfound := hround d ahead hstart hgo (Nat.le_refl _) s u below c hs hu
        cases c with
        | false =>
            cases ht
            exact hfound hclean
        | true =>
            have hkeeps := @keeps_rounds goOn (r.run round) (fun _ => keeps_run rfl) limit u
            change rounds goOn (r.run round) limit u = t at ht
            rw [ht] at hkeeps
            obtain ⟨e, rest, hholds, hinv, hless⟩ := hfound (hkeeps.report hclean)
            exact ih hinv (fun f more hf hg hle => hround f more hf hg (by omega)) u hholds (by omega) ht
      · rename_i hgo
        cases ht
        exact ⟨d, ahead, hs, hstop d ahead hstart (by simpa using hgo)⟩

/-- Rounds that find a list from its beginning: a round finds a piece that goes in front of what is still
to come, or the last of all. -/
theorem finds_list {goOn : View → Bool} {round : Rule} (list : List Phrase → List Lookahead → Prop)
    (hlimit : ahead.length < r.limit)
    (hround : ∀ e rest, goOn (viewOf n rest) = true → rest.length ≤ ahead.length →
      r.Finds round n e rest fun b f more => ∃ l, f = e.add l ∧ rest = words l ++ more ∧
        (b = true ∧ more.length < rest.length ∧
            (∀ m after, more = words m ++ after → list m after → list (l ++ m) after) ∨
          (b = true → more.length < rest.length ∧ goOn (viewOf n more) = false) ∧ list l more))
    (hstop : ∀ rest, goOn (viewOf n rest) = false → list [] rest)
    (h : ∀ l rest, ahead = words l ++ rest → list l rest → outcome true (d.add l) rest) :
    r.Finds (many goOn round) n d ahead outcome := by
  let inv (e : Draft) (rest : List Lookahead) : Prop := ∃ l, e = d.add l ∧ ahead = words l ++ rest ∧
    ((∀ m after, rest = words m ++ after → list m after → list (l ++ m) after) ∨
      goOn (viewOf n rest) = false ∧ list l rest)
  refine finds_many inv hlimit ⟨[], by simp, rfl, .inl fun _ _ _ hm => hm⟩ ?_ ?_
  · rintro e rest ⟨l, rfl, rfl, hl⟩ hgo hle
    have hopen : ∀ m after, rest = words m ++ after → list m after → list (l ++ m) after := by
      rcases hl with hl | ⟨hend, -⟩
      · exact hl
      · rw [hgo] at hend
        cases hend
    refine (hround _ rest hgo hle).mono ?_
    rintro b f more ⟨k, rfl, rfl, hk⟩
    rcases hk with ⟨rfl, hless, hk⟩ | ⟨hend, hk⟩
    · refine ⟨⟨l ++ k, by simp, by simp, .inl fun m after hmore hm => ?_⟩, hless⟩
      rw [List.append_assoc]
      exact hopen _ after (by simp [hmore]) (hk m after hmore hm)
    · have hall := hopen k more rfl hk
      cases b with
      | false => exact (Draft.add_add d l k).symm ▸ h (l ++ k) more (by simp) hall
      | true => exact ⟨⟨l ++ k, by simp, by simp, .inr ⟨(hend rfl).2, hall⟩⟩, (hend rfl).1⟩
  · rintro e rest ⟨l, rfl, hahead, hl⟩ hend
    refine h l rest hahead ?_
    rcases hl with hl | ⟨-, hl⟩
    · simpa using hl [] rest rfl (hstop rest hend)
    · exact hl

end Reader

end ShellAwait.Grammar
