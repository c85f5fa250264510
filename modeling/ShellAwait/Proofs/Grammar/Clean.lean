import ShellAwait.Proofs.Grammar.Conservation
import ShellAwait.Proofs.Tree.Shape

/-! # Readings without a problem

What a rule adds to the node being built, in every run that reports nothing. A rule *yields* so
and so much if it adds well-shaped trees of at least that bulk, and *makes* a node if it leaves
exactly one behind. One lemma for each construct of the grammar carries these from the parts of a
rule to the rule.
-/

namespace ShellAwait

/-- Kinds of tokens that may stand in the tree of a script without a problem, trivia apart. -/
def TokenKind.isSolid (kind : TokenKind) : Bool := !kind.isTrivia && kind != .eof && kind != .error

/-- Kinds of which only the bulk of the elements is known. -/
def NodeKind.isPlain (kind : NodeKind) : Bool := kind != .taggedTemplate && kind != .forInStmt

namespace Grammar

open ShellAwait.Tree Rule

variable {rule first second body round : Rule} {t : State} {b : Bool} {j k : Nat} {kind : TokenKind}
  {children base : List Tree} {admits : NodeKind → Bool} {goOn : View → Bool}

/-- An interpretation of the named parts. -/
structure Reader where
  limit : Nat
  refer : Category → Step
  positive : 0 < limit
  keeps : ∀ category (s : State), s.Keeps (refer category s).2

def Reader.run (r : Reader) (rule : Rule) (s : State) : Bool × State := rule.exec r.limit r.refer s

theorem Reader.keeps_run {r : Reader} {s : State} (h : r.run rule s = (b, t)) : s.Keeps t := by
  have hkeeps := @keeps_exec r.limit r.refer r.keeps rule s
  rwa [show (rule.exec r.limit r.refer s) = (b, t) from h] at hkeeps

/-- New trees in the node being built. -/
structure Added (s t : State) (least : Nat) : Prop where
  kind : t.kind = s.kind
  keeps : s.Keeps t
  done : ∃ new, t.done = new ++ s.done ∧ WellShapedAll new ∧ least ≤ bulk new

/-- One node on top of the given trees. -/
structure Made (admits : NodeKind → Bool) (base : List Tree) (s : State) (b : Bool) (t : State) :
    Prop where
  success : b = true
  kind : t.kind = s.kind
  keeps : s.Keeps t
  done : ∃ kind children, admits kind = true ∧ (node kind children).WellShaped ∧
    t.done = .node kind children :: base

theorem Added.refl (s : State) : Added s s 0 := ⟨rfl, .refl s, [], rfl, trivial, Nat.zero_le _⟩

theorem wellShapedAll_append {a b : List Tree} (ha : WellShapedAll a) (hb : WellShapedAll b) :
    WellShapedAll (a ++ b) := by
  rw [wellShapedAll_iff] at ha hb ⊢
  intro tree htree
  rcases List.mem_append.mp htree with h | h
  · exact ha tree h
  · exact hb tree h

theorem Added.trans {s u : State} (h : Added s t j) (h' : Added t u k) : Added s u (j + k) := by
  obtain ⟨first, hfirst, hshape, hj⟩ := h.done
  obtain ⟨second, hsecond, hshape', hk⟩ := h'.done
  refine ⟨h'.kind.trans h.kind, h.keeps.trans h'.keeps, second ++ first, ?_,
    wellShapedAll_append hshape' hshape, ?_⟩
  · rw [hsecond, hfirst, List.append_assoc]
  · rw [bulk_append]
    omega

theorem Added.mono {s : State} (h : Added s t k) (hle : j ≤ k) : Added s t j := by
  obtain ⟨new, hnew, hshape, hk⟩ := h.done
  exact ⟨h.kind, h.keeps, new, hnew, hshape, Nat.le_trans hle hk⟩

theorem Added.become {s : State} (h : Added s t k) (kind : NodeKind) :
    Added { s with kind := kind } { t with kind := kind } k :=
  ⟨rfl, ⟨h.keeps.word, h.keeps.ahead, h.keeps.report⟩, h.done⟩

theorem Added.length_le {s : State} (h : Added s t k) : t.ahead.length ≤ s.ahead.length :=
  h.keeps.ahead.length_le

theorem Added.length_lt {s : State} (h : Added s t k) (hk : 1 ≤ k) :
    t.ahead.length < s.ahead.length := by
  obtain ⟨new, hnew, hshape, hbulk⟩ := h.done
  have hreverse : WellShapedAll new.reverse := by
    rw [wellShapedAll_iff] at hshape ⊢
    exact fun tree htree => hshape tree (List.mem_reverse.mp htree)
  obtain ⟨token, htoken, -⟩ := exists_leafAll new.reverse hreverse
    (by rw [bulk_reverse]; exact Nat.le_trans hk hbulk)
  have hlength := congrArg List.length h.keeps.word
  simp only [State.word, hnew, List.reverse_append, leavesAll_append, List.length_append,
    List.length_map] at hlength
  have hpos := List.length_pos_of_mem htoken
  omega

theorem shaped_of_bulk {kind : NodeKind} (hplain : kind.isPlain = true)
    (hbulk : kind.least ≤ bulk children) : Shaped kind children := by
  simp only [NodeKind.isPlain, Bool.and_eq_true, bne_iff_ne] at hplain
  exact ⟨hbulk, fun h => absurd h hplain.1, fun h => absurd h hplain.2⟩

theorem Added.wellShaped {s : State} (h : Added s t k) (hdone : WellShapedAll s.done)
    (hplain : s.kind.isPlain = true) (hleast : s.kind.least ≤ k + bulk s.done) :
    (node t.kind t.done.reverse).WellShaped := by
  obtain ⟨new, hnew, hshape, hbulk⟩ := h.done
  have hall := wellShapedAll_append hshape hdone
  rw [h.kind, hnew]
  refine ⟨shaped_of_bulk hplain ?_, ?_⟩
  · rw [bulk_reverse, bulk_append]
    omega
  · rw [wellShapedAll_iff] at hall ⊢
    exact fun tree htree => hall tree (List.mem_reverse.mp htree)

theorem Made.added {s : State} {least : Nat} (h : Made admits s.done s b t) (hleast : least ≤ 1)
    (hsolid : least = 1 → ∀ kind, admits kind = true → kind.mayBeEmpty = false) :
    Added s t least := by
  obtain ⟨kind, children, hadmits, hshape, hdone⟩ := h.done
  refine ⟨h.kind, h.keeps, [.node kind children], hdone, ⟨hshape, trivial⟩, ?_⟩
  rcases Nat.le_one_iff_eq_zero_or_eq_one.mp hleast with rfl | rfl
  · exact Nat.zero_le _
  · simp [bulk, hsolid rfl kind hadmits]

namespace Reader

/-- Every run that ends without a problem has added trees of at least this bulk. -/
def Yields (r : Reader) (rule : Rule) (s : State) (least : Nat) : Prop :=
  ∀ b t, r.run rule s = (b, t) → t.report = none → Added s t least

/-- Every run that ends without a problem has made one node of an admitted kind. -/
def Makes (r : Reader) (admits : NodeKind → Bool) (rule : Rule) (s : State) (base : List Tree) :
    Prop :=
  ∀ b t, r.run rule s = (b, t) → t.report = none → Made admits base s b t

variable {r : Reader} {s : State}

theorem Yields.mono (h : r.Yields rule s k) (hle : j ≤ k) : r.Yields rule s j :=
  fun b t hrun hclean => (h b t hrun hclean).mono hle

theorem Makes.yields (h : r.Makes admits rule s s.done)
    (hsolid : ∀ kind, admits kind = true → kind.mayBeEmpty = false) : r.Yields rule s 1 :=
  fun b t hrun hclean => (h b t hrun hclean).added (Nat.le_refl 1) fun _ => hsolid

theorem Makes.mono {admits' : NodeKind → Bool} (h : r.Makes admits rule s base)
    (himp : ∀ kind, admits kind = true → admits' kind = true) : r.Makes admits' rule s base := by
  intro b t hrun hclean
  have hmade := h b t hrun hclean
  obtain ⟨kind, children, hadmits, hrest⟩ := hmade.done
  exact ⟨hmade.success, hmade.kind, hmade.keeps, kind, children, himp kind hadmits, hrest⟩

/-! ## Tokens -/

theorem yields_skip : r.Yields skip s 0 := by
  rintro b t ⟨⟩ -
  exact .refl s

theorem yields_fail : r.Yields fail s 0 := by
  rintro b t ⟨⟩ -
  exact .refl s

theorem note_ne_none (problem : Problem) (opener : Option Nat) :
    (s.note problem opener).report ≠ none := by
  unfold State.note
  split
  · rename_i report hreport
    rw [hreport]
    exact Option.some_ne_none report
  · exact Option.some_ne_none _

theorem run_report {problem : Problem} (h : r.run (report problem) s = (b, t)) :
    t.report ≠ none := by
  injection h with _ ht
  rw [← ht]
  exact note_ne_none problem none

theorem yields_report {problem : Problem} {least : Nat} : r.Yields (report problem) s least :=
  fun _ _ hrun hclean => absurd hclean (run_report hrun)

theorem makes_report {problem : Problem} : r.Makes admits (report problem) s base :=
  fun _ _ hrun hclean => absurd hclean (run_report hrun)

theorem eat_true (h : s.eat kind = (true, t)) :
    ∃ token : Token, token.kind = kind ∧ t.done = .leaf token :: s.done ∧ t.kind = s.kind := by
  unfold State.eat at h
  split at h
  · cases h
  · rename_i token rest hahead
    split at h
    · rename_i hkind
      cases h
      exact ⟨token.token, beq_iff_eq.mp hkind, rfl, rfl⟩
    · cases h

theorem wellShaped_leaf {token : Token} (hsolid : token.kind.isSolid = true) :
    (leaf token).WellShaped ∧ bulk [.leaf token] = 2 := by
  simp only [TokenKind.isSolid, Bool.and_eq_true, Bool.not_eq_true', bne_iff_ne] at hsolid
  exact ⟨⟨hsolid.1.2, hsolid.2⟩, by simp [bulk, hsolid.1.1]⟩

theorem added_eat (hsolid : kind.isSolid = true) (h : s.eat kind = (true, t)) : Added s t 2 := by
  have hkeeps := s.keeps_eat kind
  rw [h] at hkeeps
  obtain ⟨token, rfl, hdone, hkind⟩ := eat_true h
  obtain ⟨hshape, hbulk⟩ := wellShaped_leaf hsolid
  exact ⟨hkind, hkeeps, [.leaf token], hdone, ⟨hshape, trivial⟩, Nat.le_of_eq hbulk.symm⟩

theorem eat_false (h : s.eat kind = (false, t)) : t = s := by
  unfold State.eat at h
  split at h
  · cases h
    rfl
  · split at h
    · cases h
    · cases h
      rfl

theorem yields_eat (hsolid : kind.isSolid = true) : r.Yields (eat kind) s 0 := by
  intro b t hrun _
  cases b with
  | true => exact (added_eat hsolid hrun).mono (Nat.zero_le 2)
  | false =>
      rw [eat_false hrun]
      exact .refl s

theorem eat_next (hsolid : kind.isSolid = true) (hnext : s.view.kind = kind) :
    (s.eat kind).1 = true := by
  cases hahead : s.ahead with
  | nil =>
      have heof : kind = .eof := by
        simpa [State.view, View.kind, View.kindAt, View.nth, hahead,
          Lookahead.pastEnd] using hnext.symm
      subst heof
      simp [TokenKind.isSolid] at hsolid
  | cons token rest =>
      have hkind : token.kind = kind := by
        simpa [State.view, View.kind, View.kindAt, View.nth, hahead] using hnext
      simp [State.eat, hahead, hkind]

theorem yields_eat_next (hsolid : kind.isSolid = true) (hnext : s.view.kind = kind) :
    r.Yields (eat kind) s 2 := by
  intro b t hrun _
  have htrue := eat_next hsolid hnext
  rw [show s.eat kind = (b, t) from hrun] at htrue
  subst htrue
  exact added_eat hsolid hrun

theorem yields_expect (hsolid : kind.isSolid = true) : r.Yields (expect kind) s 2 := by
  intro b t hrun hclean
  simp only [run, expect, exec] at hrun
  split at hrun
  · rename_i hnext
    exact yields_eat_next hsolid (beq_iff_eq.mp hnext) b t hrun hclean
  · exact absurd hclean (run_report (r := r) hrun)

/-! ## Sequences -/

theorem run_seq (hrun : r.run (first ++ second) s = (b, t)) (hclean : t.report = none) :
    ∃ c u, r.run first s = (c, u) ∧ u.report = none ∧ r.run second u = (b, t) := by
  rcases hu : r.run first s with ⟨c, u⟩
  have hrest : r.run second u = (b, t) := by
    rw [← hrun]
    exact congrArg (fun ran : Bool × State => r.run second ran.2) hu.symm
  exact ⟨c, u, rfl, (keeps_run hrest).report hclean, hrest⟩

theorem yields_seq (hfirst : r.Yields first s j) (hsecond : ∀ u, Added s u j → r.Yields second u k) :
    r.Yields (first ++ second) s (j + k) := by
  intro b t hrun hclean
  obtain ⟨c, u, hu, hreport, hrest⟩ := run_seq hrun hclean
  have hadded := hfirst c u hu hreport
  exact hadded.trans (hsecond u hadded b t hrest hclean)

theorem run_andThen (hrun : r.run (andThen first second) s = (b, t)) (hclean : t.report = none) :
    ∃ c u, r.run first s = (c, u) ∧ u.report = none ∧ (c = true → r.run second u = (b, t)) := by
  rcases hu : r.run first s with ⟨_ | _, u⟩
  · have hstop : (false, u) = (b, t) := by
      rw [← hrun]
      simp only [run, exec] at hu ⊢
      rw [hu]
    cases hstop
    exact ⟨false, t, rfl, hclean, fun h => absurd h Bool.false_ne_true⟩
  · have hrest : r.run second u = (b, t) := by
      rw [← hrun]
      simp only [run, exec] at hu ⊢
      rw [hu]
    exact ⟨true, u, rfl, (keeps_run hrest).report hclean, fun _ => hrest⟩

theorem yields_andThen (hfirst : r.Yields first s k)
    (hsecond : ∀ u, Added s u k → r.Yields second u 0) : r.Yields (andThen first second) s k := by
  intro b t hrun hclean
  simp only [run, exec] at hrun
  split at hrun
  · rename_i u hu
    have hadded := hfirst true u hu ((keeps_run (r := r) hrun).report hclean)
    exact hadded.trans (hsecond u hadded b t hrun hclean)
  · rename_i u hu
    cases hrun
    exact hfirst false _ hu hclean

theorem yields_look {choose : View → Rule} (h : r.Yields (choose s.view) s k) :
    r.Yields (look choose) s k := h

theorem makes_look {choose : View → Rule} (h : r.Makes admits (choose s.view) s base) :
    r.Makes admits (look choose) s base := h

theorem yields_succeed (h : r.Yields rule s k) : r.Yields (succeed rule) s k :=
  yields_seq h fun _ _ => yields_skip

theorem yields_whenNext (h : s.view.kind = kind → r.Yields rule s 0) :
    r.Yields (whenNext kind rule) s 0 := by
  refine yields_look ?_
  split
  · rename_i hnext
    exact h (beq_iff_eq.mp hnext)
  · exact yields_skip

theorem yields_withNoIn {noIn : Bool} (h : r.Yields body { s with noIn := noIn } k) :
    r.Yields (withNoIn noIn body) s k := by
  intro b t hrun hclean
  cases hrun
  obtain ⟨hkind, hkeeps, hdone⟩ := h _ _ rfl hclean
  exact ⟨hkind, ⟨hkeeps.word, hkeeps.ahead, hkeeps.report⟩, hdone⟩

theorem makes_withNoIn {noIn : Bool} (h : r.Makes admits body { s with noIn := noIn } base) :
    r.Makes admits (withNoIn noIn body) s base := by
  intro b t hrun hclean
  cases hrun
  obtain ⟨hsuccess, hkind, hkeeps, hdone⟩ := h _ _ rfl hclean
  exact ⟨hsuccess, hkind, ⟨hkeeps.word, hkeeps.ahead, hkeeps.report⟩, hdone⟩

theorem isSolid_opener (what : Enclosure) : what.opener.isSolid = true := by
  cases what <;> rfl

theorem isSolid_closer (what : Enclosure) : what.closer.isSolid = true := by
  cases what <;> rfl

theorem run_bracket {what : Enclosure} (hrun : r.run (bracket what body) s = (b, t))
    (hclean : t.report = none) :
    ∃ u c v, s.eat what.opener = (true, u) ∧ r.run body u = (c, v) ∧ v.report = none ∧
      Added v t 0 := by
  simp only [run, exec] at hrun
  split at hrun
  · cases hrun
    exact absurd hclean (note_ne_none _ _)
  · rename_i u hu
    split at hrun
    · rename_i v hv
      unfold State.close at hrun
      split at hrun
      · rename_i w hw
        cases hrun
        have hclosed := added_eat (isSolid_closer what) hw
        exact ⟨u, true, v, hu, hv, hclosed.keeps.report hclean, hclosed.mono (Nat.zero_le 2)⟩
      · cases hrun
        exact absurd hclean (note_ne_none _ _)
    · rename_i v hv
      cases hrun
      exact ⟨u, false, _, hu, hv, hclean, .refl _⟩

theorem yields_bracket {what : Enclosure}
    (hbody : ∀ u : State, u.ahead.length < s.ahead.length → r.Yields body u 0) :
    r.Yields (bracket what body) s 2 := by
  intro b t hrun hclean
  obtain ⟨u, c, v, hu, hv, hreport, hclosed⟩ := run_bracket hrun hclean
  have hopened := added_eat (isSolid_opener what) hu
  have hinner := hbody u (hopened.length_lt (Nat.le_succ 1)) c v hv hreport
  exact hopened.trans (hinner.trans hclosed)

/-! ## Rounds -/

theorem rounds_keep {P : State → Prop}
    (hround : ∀ u b t, P u → goOn u.view = true → r.run round u = (b, t) → t.report = none → P t)
    (limit : Nat) (hs : P s) (hclean : (rounds goOn (r.run round) limit s).report = none) :
    P (rounds goOn (r.run round) limit s) := by
  induction limit generalizing s with
  | zero => exact hs
  | succ limit ih =>
      rw [rounds] at hclean ⊢
      split at hclean
      · rename_i hgo
        rw [if_pos hgo]
        rcases ht : r.run round s with ⟨b, t⟩
        rw [ht] at hclean
        cases b with
        | false => exact hround s false t hs hgo ht hclean
        | true =>
            have hafter := @keeps_rounds goOn (r.run round) (fun _ => keeps_run rfl) limit t
            exact ih (hround s true t hs hgo ht (hafter.report hclean)) hclean
      · rename_i hgo
        rwa [if_neg hgo]

theorem yields_many (hround : ∀ u, u.ahead.length ≤ s.ahead.length → r.Yields round u 0) :
    r.Yields (many goOn round) s 0 := by
  intro b t hrun hclean
  cases hrun
  refine rounds_keep (P := fun u => Added s u 0) ?_ r.limit (.refl s) hclean
  intro u b t hu _ ht hreport
  exact hu.trans (hround u hu.length_le b t ht hreport)

theorem yields_many_first (hgo : goOn s.view = true) (hfirst : r.Yields round s k)
    (hround : ∀ u, u.ahead.length ≤ s.ahead.length → r.Yields round u 0) :
    r.Yields (many goOn round) s k := by
  intro b t hrun hclean
  obtain ⟨limit, hlimit⟩ := Nat.exists_eq_succ_of_ne_zero (Nat.pos_iff_ne_zero.mp r.positive)
  have ht : t = rounds goOn (r.run round) r.limit s := (congrArg Prod.snd hrun).symm
  rw [hlimit, rounds, if_pos hgo] at ht
  rcases hu : r.run round s with ⟨c, u⟩
  rw [hu] at ht
  cases c with
  | false =>
      subst ht
      exact hfirst false _ hu hclean
  | true =>
      subst ht
      have hafter := @keeps_rounds goOn (r.run round) (fun _ => keeps_run rfl) limit u
      refine rounds_keep (P := fun v => Added s v k) ?_ limit
        (hfirst true u hu (hafter.report hclean)) hclean
      intro v b t hv _ ht hreport
      exact hv.trans (hround v hv.length_le b t ht hreport)

theorem makes_many {kind : NodeKind} (hkind : admits kind = true)
    (hshape : (node kind children).WellShaped) (hdone : s.done = .node kind children :: base)
    (hround : ∀ u kind children, u.ahead.length ≤ s.ahead.length → admits kind = true → (node kind
      children).WellShaped → u.done = .node kind children :: base → goOn u.view = true → r.Makes
      admits round u base) : r.Makes admits (many goOn round) s base := by
  intro b t hrun hclean
  cases hrun
  refine rounds_keep (P := fun u => Made admits base s true u) ?_ r.limit
    ⟨rfl, rfl, .refl s, kind, children, hkind, hshape, hdone⟩ hclean
  intro u b t hu hgo ht hreport
  obtain ⟨kind, children, hkind, hshape, hdone⟩ := hu.done
  have hmade :=
    hround u kind children hu.keeps.ahead.length_le hkind hshape hdone hgo b t ht hreport
  exact ⟨rfl, hmade.kind.trans hu.kind, hu.keeps.trans hmade.keeps, hmade.done⟩

/-! ## Nodes -/

theorem makes_node_of {kind : NodeKind}
    (hbody : ∀ b t, r.run body (s.enter kind []) = (b, t) → t.report = none → admits t.kind = true ∧
      (node t.kind t.done.reverse).WellShaped) : r.Makes admits (.node kind body) s s.done := by
  intro b t hrun hclean
  cases hrun
  obtain ⟨hkind, hshape⟩ := hbody _ _ rfl hclean
  exact ⟨rfl, rfl, State.keeps_leave kind rfl (keeps_run rfl), _, _, hkind, hshape, rfl⟩

theorem makes_wrap_of {kind : NodeKind} {tree : Tree} (hdone : s.done = tree :: base)
    (hbody : ∀ b t, r.run body (s.enter kind [tree]) = (b, t) → t.report = none → admits t.kind =
      true ∧ (node t.kind t.done.reverse).WellShaped) :
    r.Makes admits (.wrap kind body) s base := by
  intro b t hrun hclean
  simp only [run, exec, hdone, List.take_succ_cons, List.take_zero, List.drop_succ_cons,
    List.drop_zero] at hrun
  cases hrun
  obtain ⟨hkind, hshape⟩ := hbody _ _ rfl hclean
  exact ⟨rfl, rfl, State.keeps_leave kind hdone (keeps_run rfl), _, _, hkind, hshape, rfl⟩

theorem makes_node {kind : NodeKind} (hbody : r.Yields body (s.enter kind []) k)
    (hplain : kind.isPlain = true) (hleast : kind.least ≤ k) :
    r.Makes (· == kind) (.node kind body) s s.done := by
  refine makes_node_of fun b t hrun hclean => ?_
  have hadded := hbody b t hrun hclean
  exact ⟨beq_iff_eq.mpr hadded.kind, hadded.wellShaped trivial hplain hleast⟩

theorem makes_wrap {kind inner : NodeKind} (hshape : (node inner children).WellShaped)
    (hdone : s.done = .node inner children :: base) (hsolid : inner.mayBeEmpty = false)
    (hbody : r.Yields body (s.enter kind [.node inner children]) k) (hplain : kind.isPlain = true)
    (hleast : kind.least ≤ k + 1) : r.Makes (· == kind) (.wrap kind body) s base := by
  refine makes_wrap_of hdone fun b t hrun hclean => ?_
  have hadded := hbody b t hrun hclean
  have hbulk : bulk [.node inner children] = 1 := by simp [bulk, hsolid]
  exact ⟨beq_iff_eq.mpr hadded.kind,
    hadded.wellShaped ⟨hshape, trivial⟩ hplain (by rw [← hbulk] at hleast; exact hleast)⟩

theorem makes_skip {kind : NodeKind} (hkind : admits kind = true)
    (hshape : (node kind children).WellShaped) (hdone : s.done = .node kind children :: base) :
    r.Makes admits skip s base := by
  rintro b t ⟨⟩ -
  exact ⟨rfl, rfl, .refl s, kind, children, hkind, hshape, hdone⟩

theorem makes_andThen {admits' : NodeKind → Bool} (hfirst : r.Makes admits first s s.done)
    (hsolid : ∀ kind, admits kind = true → kind.mayBeEmpty = false)
    (hsecond : ∀ u kind children, u.ahead.length < s.ahead.length → admits kind = true → (node kind
      children).WellShaped → u.done = .node kind children :: s.done → r.Makes admits' second u
      s.done) : r.Makes admits' (andThen first second) s s.done := by
  intro b t hrun hclean
  simp only [run, exec] at hrun
  split at hrun
  · rename_i u hu
    have hmade := hfirst true u hu ((keeps_run (r := r) hrun).report hclean)
    have hshorter := (hmade.added (Nat.le_refl 1) fun _ => hsolid).length_lt (Nat.le_refl 1)
    obtain ⟨kind, children, hkind, hshape, hdone⟩ := hmade.done
    have hlast := hsecond u kind children hshorter hkind hshape hdone b t hrun hclean
    exact ⟨hlast.success, hlast.kind.trans hmade.kind, hmade.keeps.trans hlast.keeps, hlast.done⟩
  · rename_i u hu
    cases hrun
    have hmade := hfirst false _ hu hclean
    exact absurd hmade.success Bool.false_ne_true

theorem yields_andThen_made {middle last : Rule}
    (hfirst : r.Makes admits (andThen first middle) s s.done)
    (hsolid : ∀ kind, admits kind = true → kind.mayBeEmpty = false)
    (hlast : ∀ u, Added s u 1 → r.Yields last u 0) :
    r.Yields (andThen first (middle ++ last)) s 1 := by
  intro b t hrun hclean
  rcases hu : r.run first s with ⟨c, u⟩
  have hshort (ran : Bool × State) (hmiddle : (if c then r.run middle u else (false, u)) = ran) :
      r.run (andThen first middle) s = ran := by
    rw [← hmiddle]
    simp only [run, exec] at hu ⊢
    rw [hu]
    cases c <;> rfl
  simp only [run, exec] at hrun hu
  rw [hu] at hrun
  cases c with
  | false =>
      cases hrun
      exact absurd (hfirst false _ (hshort _ rfl) hclean).success Bool.false_ne_true
  | true =>
      obtain ⟨c, v, hv, hreport, hrest⟩ := run_seq (r := r) hrun hclean
      have hmade := (hfirst c v (hshort _ hv) hreport).added (Nat.le_refl 1) fun _ => hsolid
      exact hmade.trans (hlast v hmade b t hrest hclean)

end Reader

end Grammar

end ShellAwait
