import ShellAwait.Proofs.Analysis.Traced
import ShellAwait.Proofs.Script.Missed

/-! # How often a walk notes a site

A walk that is recorded notes every access and every call that it comes to, and it notes each of them
once: the rounds in which a loop settles or declarations are bound ahead note nothing. So the notes of
a site and the places where it is missed add up to its occurrences in the script.
-/

namespace ShellAwait.Analysis

open Text Script Analysis.Action

variable {action body : Action}

/-- The event notes the descriptor of an access or a call with this span. -/
def Event.notesSite (span : Span) : Event → Bool
  | .descriptor kind place _ => kind.isSite && decide (place = span)
  | _ => false

/-- How often the site with this span has been noted. -/
def notesOf (span : Span) (log : List Event) : Nat := log.countP (Event.notesSite span)

/-- How often a site with this span is listed. -/
def sitesAt (span : Span) (listed : List Occurrence) : Nat :=
  listed.countP fun o => o.kind.isSite && decide (o.span = span)

/-- A recorded walk of the action notes each of the listed sites as often as it is listed, less the
times that it is missed. -/
structure Tallies (listed missed : List Occurrence) (action : Action) : Prop where
  subset : missed ⊆ listed
  count (span : Span) {s d t} : s.recording = true → action.run s = (.ok d, t) →
    notesOf span t.log + sitesAt span missed = sitesAt span listed + notesOf span s.log

variable {listed missed more moreMissed : List Occurrence}

theorem notesOf_note (span : Span) (s : State) (event : Event) :
    notesOf span (s.note event).log =
      notesOf span s.log + if event.notesSite span then 1 else 0 := List.countP_cons

theorem sitesAt_cons (span : Span) (o : Occurrence) (listed : List Occurrence) :
    sitesAt span (o :: listed) =
      sitesAt span listed + if o.kind.isSite && decide (o.span = span) then 1 else 0 :=
  List.countP_cons

theorem sitesAt_append (span : Span) (a b : List Occurrence) :
    sitesAt span (a ++ b) = sitesAt span a + sitesAt span b := List.countP_append

theorem notesOf_onlyRemarks {log later : List Event} (span : Span) (h : OnlyRemarks log later) :
    notesOf span later = notesOf span log := by
  obtain ⟨remarks, rfl, hremarks⟩ := h
  have hnone : remarks.countP (Event.notesSite span) = 0 := by
    refine List.countP_eq_zero.mpr fun event hevent => ?_
    have hremark := hremarks event hevent
    cases event with
    | descriptor kind place d => cases hremark
    | _ => simp [Event.notesSite]
  rw [notesOf, List.countP_append, hnone, Nat.zero_add]
  rfl

theorem Tallies.perm (h : Tallies listed missed action) (hlisted : more.Perm listed)
    (hmissed : moreMissed.Perm missed) :
    Tallies more moreMissed action where
  subset o ho := hlisted.mem_iff.mpr (h.subset (hmissed.mem_iff.mp ho))
  count span {s d t} hrecording hrun := by
    have hcount := h.count span hrecording hrun
    rwa [sitesAt, sitesAt, hlisted.countP_eq, hmissed.countP_eq]

theorem Tallies.assoc {others othersMissed : List Occurrence}
    (h : Tallies (listed ++ (more ++ others)) (missed ++ (moreMissed ++ othersMissed)) action) :
    Tallies (listed ++ more ++ others) (missed ++ moreMissed ++ othersMissed) action := by
  simpa using h

theorem Tallies.cons (h : Tallies listed missed action) {o : Occurrence}
    (hsite : o.kind.isSite = false) : Tallies (o :: listed) missed action where
  subset := List.subset_cons_of_subset o h.subset
  count span {s d t} hrecording hrun := by
    have hcount := h.count span hrecording hrun
    rw [sitesAt_cons, hsite]
    simpa using hcount

theorem Tallies.missing (h : Tallies listed missed action) (others : List Occurrence) :
    Tallies (others ++ listed) (others ++ missed) action where
  subset := List.append_subset.mpr ⟨List.subset_append_left _ _,
    List.subset_append_of_subset_right _ h.subset⟩
  count span {s d t} hrecording hrun := by
    have hcount := h.count span hrecording hrun
    rw [sitesAt_append, sitesAt_append]
    omega

theorem Tallies.missingAll (h : Tallies [] [] action) (others : List Occurrence) :
    Tallies others others action := by
  simpa using h.missing others

/-! ## Actions that note nothing -/

theorem tallies_silent
    (h : ∀ {s d t}, action.run s = (.ok d, t) → ∀ span, notesOf span t.log = notesOf span s.log) :
    Tallies [] [] action where
  subset := List.Subset.refl _
  count span {s d t} _ hrun := by
    rw [h hrun span, Nat.add_comm]

theorem tallies_give (d : Descriptor) : Tallies [] [] (.give d) :=
  tallies_silent fun hrun => by cases hrun; simp

theorem tallies_nothing : Tallies [] [] nothing := tallies_give .unknown

theorem tallies_look (name : String) : Tallies [] [] (.look name) :=
  tallies_silent fun hrun => by cases hrun; simp

theorem tallies_declare (name : String) (d : Descriptor) : Tallies [] [] (.declare name d) :=
  tallies_silent fun hrun => by cases hrun; simp

theorem tallies_assign (name : String) (d : Descriptor) : Tallies [] [] (.assign name d) :=
  tallies_silent fun hrun => by cases hrun; simp

theorem tallies_refuse (shape : String) (span : Span) : Tallies [] [] (.refuse shape span) :=
  tallies_silent fun hrun => by cases hrun

theorem tallies_awaiting : Tallies [] [] .awaiting :=
  tallies_silent fun hrun => by cases hrun; simp [log_onFrame]

theorem tallies_returning (d : Descriptor) : Tallies [] [] (.returning d) :=
  tallies_silent fun hrun => by cases hrun; simp [log_onFrame]

theorem tallies_returned : Tallies [] [] .returned :=
  tallies_silent fun hrun => by cases hrun; simp

/-! ## One after the other -/

theorem tallies_bind {first : Action} {next : Descriptor → Action}
    (hfirst : Tallies listed missed first) (hnext : ∀ d, Tallies more moreMissed (next d)) :
    Tallies (listed ++ more) (missed ++ moreMissed) (first.bind next) where
  subset := List.append_subset.mpr
    ⟨List.subset_append_of_subset_left _ hfirst.subset,
      List.subset_append_of_subset_right _ (hnext .unknown).subset⟩
  count span {s d t} hrecording hrun := by
    obtain ⟨v, middle, hone, htwo⟩ := run_bind hrun
    have hearlier := hfirst.count span hrecording hone
    have hlater := (hnext v).count span
      ((alike_of_run hone).recording.trans hrecording) htwo
    rw [sitesAt_append, sitesAt_append]
    omega

theorem tallies_andThen {a b : Action} (ha : Tallies listed missed a)
    (hb : Tallies more moreMissed b) :
    Tallies (listed ++ more) (missed ++ moreMissed) (a.andThen b) := tallies_bind ha fun _ => hb

theorem tallies_bind_silent {first : Action} {next : Descriptor → Action}
    (hfirst : Tallies listed missed first) (hnext : ∀ d, Tallies [] [] (next d)) :
    Tallies listed missed (first.bind next) := by
  simpa using tallies_bind hfirst hnext

theorem tallies_silent_andThen {a b : Action} (ha : Tallies [] [] a)
    (hb : Tallies listed missed b) : Tallies listed missed (a.andThen b) := tallies_andThen ha hb

theorem tallies_map (f : Descriptor → Descriptor) (h : Tallies listed missed action) :
    Tallies listed missed (action.map f) :=
  tallies_bind_silent h fun d => tallies_give (f d)

theorem tallies_declareAll (names : List String) : Tallies [] [] (declareAll names) := by
  induction names with
  | nil => exact tallies_nothing
  | cons name others ih => exact tallies_andThen (tallies_declare name .unknown) ih

/-! ## Notes -/

theorem tallies_record (o : Occurrence) (d : Descriptor) :
    Tallies [o] [] (.record o.kind o.span d) where
  subset := List.nil_subset _
  count span {s v t} hrecording hrun := by
    cases hrun
    rw [record_of_recording hrecording, notesOf_note, sitesAt_cons, Event.notesSite]
    simp only [sitesAt, List.countP_nil]
    omega

theorem tallies_snoc {first : Action} {next : Descriptor → Action} {o : Occurrence}
    (hfirst : Tallies listed missed first) (hnext : ∀ d, Tallies [o] [] (next d)) :
    Tallies (o :: listed) missed (first.bind next) :=
  (tallies_bind hfirst hnext).perm (List.perm_append_singleton o listed).symm
    (by rw [List.append_nil])

theorem tallies_recorded (o : Occurrence) (h : Tallies listed missed action) :
    Tallies (o :: listed) missed (action.recorded o.kind o.span) :=
  tallies_snoc h fun d => tallies_record o d

theorem notesOf_record {span : Span} {event : Event} (s : State)
    (h : event.notesSite span = false) :
    notesOf span (s.record event).log = notesOf span s.log := by
  unfold State.record
  split
  · rw [notesOf_note, h]
    rfl
  · rfl

theorem tallies_suspend (span : Span) (inner : Descriptor) :
    Tallies [] [] (.suspend span inner) := by
  refine tallies_silent fun hrun place => ?_
  rw [Action.run, State.suspend] at hrun
  split at hrun
  next hsuspend =>
    split at hsuspend
    · cases hsuspend
      cases hrun
      exact notesOf_note _ _ _
    · cases hsuspend
      cases hrun
      rw [notesOf_record _ rfl, log_onFrame]

theorem tallies_site (use : Use) (o : Occurrence) (h : Tallies listed missed action) :
    Tallies (o :: listed) missed (site use o.kind o.span action) := by
  have hnoted := tallies_recorded o h
  cases use with
  | awaited => exact hnoted
  | consumed =>
      refine tallies_bind_silent hnoted fun d => ?_
      cases d with
      | deferred inner => exact tallies_suspend o.span inner
      | _ => exact tallies_give _

/-! ## Scopes and branches -/

theorem tallies_scoped (h : Tallies listed missed body) :
    Tallies listed missed (.scoped body) where
  subset := h.subset
  count span {s d t} hrecording hrun := by
    rcases hbody : body.run s.enter with ⟨result, after⟩
    rw [Action.run, hbody] at hrun
    cases hrun
    exact h.count _ (s := s.enter) (t := after) hrecording hbody

theorem tallies_fork {left right : Action} (merge : Descriptor → Descriptor → Descriptor)
    (hleft : Tallies listed missed left) (hright : Tallies more moreMissed right) :
    Tallies (listed ++ more) (missed ++ moreMissed) (.fork left right merge) where
  subset := List.append_subset.mpr
    ⟨List.subset_append_of_subset_left _ hleft.subset,
      List.subset_append_of_subset_right _ hright.subset⟩
  count span {s d t} hrecording hrun := by
    obtain ⟨a, leftAfter, b, rightAfter, hone, htwo, -, rfl⟩ := run_fork hrun
    have hearlier := hleft.count span hrecording hone
    have hlater := hright.count span (s := { leftAfter with bindings := s.bindings })
      ((alike_of_run hone).recording.trans hrecording) htwo
    rw [sitesAt_append, sitesAt_append]
    simp only at hlater ⊢
    omega

/-- The arms of a choice, as `Tallies` for an action. -/
structure TalliesArms (listed missed : List Occurrence) (arms : Arms) : Prop where
  subset : missed ⊆ listed
  count (span : Span) {exits s all t} : s.recording = true → arms.run exits s = (.ok all, t) →
    notesOf span t.log + sitesAt span missed = sitesAt span listed + notesOf span s.log

theorem talliesArms_done : TalliesArms [] [] .done where
  subset := List.Subset.refl _
  count span {exits s all t} _ hrun := by
    cases hrun
    rw [Nat.add_comm]

theorem tallies_arm {test : Action} {rest : Arms} {others othersMissed : List Occurrence}
    (htest : Tallies listed missed test) (hbody : Tallies more moreMissed body)
    (hrest : TalliesArms others othersMissed rest) :
    TalliesArms (listed ++ more ++ others) (missed ++ moreMissed ++ othersMissed)
      (.arm test body rest) where
  subset := by
    have hboth := (tallies_andThen htest hbody).subset
    exact List.append_subset.mpr ⟨List.subset_append_of_subset_left _ hboth,
      List.subset_append_of_subset_right _ hrest.subset⟩
  count span {exits s all t} hrecording hrun := by
    obtain ⟨c, entry, d, after, hone, htwo, hthree⟩ := run_arm hrun
    have hentry := (alike_of_run hone).recording.trans hrecording
    have hafter := (alike_of_run htwo).recording.trans hentry
    have hfirst := htest.count span hrecording hone
    have hsecond := hbody.count span hentry htwo
    have hthird := hrest.count span (s := { after with bindings := entry.bindings })
      hafter hthree
    simp only [sitesAt_append] at hthird ⊢
    omega

theorem tallies_choose {arms : Arms} (hasDefault : Bool) (h : TalliesArms listed missed arms) :
    Tallies listed missed (.choose arms hasDefault) where
  subset := h.subset
  count span {s d t} hrecording hrun := by
    rw [Action.run] at hrun
    rcases harms : arms.run [] s with ⟨refusal | exits, after⟩
    · rw [harms] at hrun
      cases hrun
    · rw [harms] at hrun
      cases hrun
      exact h.count _ (t := after) hrecording harms

/-! ## Loops and hoisting -/

/-- The rounds until a loop settles are not recorded, so only the last round counts. -/
theorem tallies_loop {iteration : Action} (names : List String)
    (h : Tallies listed missed iteration) : Tallies listed missed (.loop names iteration) where
  subset := h.subset
  count span {s d t} hrecording hrun := by
    obtain ⟨rounds, after, v, last, hsettle, hlast, rfl⟩ := run_loop hrun
    have hquiet := alike_settle (alike_run iteration) (settleLimit s.bindings names) 0
      ({ s with recording := false }.pushFrame {})
    rw [hsettle] at hquiet
    have hrounds : notesOf span after.log = notesOf span s.log :=
      notesOf_onlyRemarks span (hquiet.quiet rfl)
    have hcount := h.count span
      (s := State.note { after.popFrame with recording := s.recording } (.settled rounds))
      hrecording hlast
    rw [notesOf_note] at hcount
    exact hcount.trans (congrArg (sitesAt span listed + ·) hrounds)

theorem tallies_hoist (declarations : Declarations) : Tallies [] [] (.hoist declarations) := by
  refine tallies_silent fun {s d t} hrun span => ?_
  have hquiet := alike_hoistRounds (alike_round declarations) (declarations.count + 1) 0
    { s with recording := false }
  rw [Action.run] at hrun
  split at hrun
  · cases hrun
    rfl
  · cases hrun
    rw [notesOf_note]
    exact notesOf_onlyRemarks span (hquiet.quiet rfl)

/-! ## Functions -/

theorem tallies_function (span : Span) (isAsync : Bool) (h : Tallies listed missed body) :
    Tallies listed missed (.function span isAsync body) where
  subset := h.subset
  count place {s d t} hrecording hrun := by
    obtain ⟨value, after, hbody, -, rfl⟩ := run_function hrun
    have hcount := h.count place (s := s.pushFrame {}) hrecording hbody
    split
    · rw [notesOf_record _ rfl]
      exact hcount
    · exact hcount

theorem tallies_parameters (h : Tallies listed missed body) :
    Tallies listed missed (.parameters body) where
  subset := h.subset
  count span {s d t} hrecording hrun := by
    rcases hbody : body.run (s.pushFrame { isParameters := true }) with ⟨result, after⟩
    rw [Action.run, hbody] at hrun
    cases hrun
    exact h.count _ (s := s.pushFrame { isParameters := true }) (t := after) hrecording hbody

end ShellAwait.Analysis
