import ShellAwait.Proofs.Analysis.Trace

/-! # Actions that leave a trace

What an action is known to do, composed along its structure: it keeps an invariant of the bindings
however it is walked, and a walk that is recorded leaves a trace of nodes that are listed for it.
-/

namespace ShellAwait.Analysis

open Text State

/-- A property of the bindings at every depth of scopes that survives whatever a walk does to
them, as long as it writes none but certain names. -/
structure Invariant where
  Holds : Nat → Bindings → Prop
  Writes : String → Prop
  push {k : Nat} {b : Bindings} : Holds k b → Holds (k + 1) b.push
  pop {k : Nat} {b : Bindings} : Holds (k + 1) b → Holds k (b.pop?.getD b)
  add {k : Nat} {b : Bindings} {name : String} (d : Descriptor) :
    Writes name → Holds k b → Holds k (b.add name d)
  assign {k : Nat} {b : Bindings} {name : String} (d : Descriptor) :
    Writes name → Holds k b → Holds k (b.assign name d)
  join {k : Nat} {b : Bindings} {branches : List Bindings} :
    Holds k b → (∀ branch ∈ branches, Holds k branch) → Holds k (b.join branches)

/-- Nothing is asked of the bindings. -/
def Invariant.trivial : Invariant where
  Holds _ _ := True
  Writes _ := True
  push _ := True.intro
  pop _ := True.intro
  add _ _ _ := True.intro
  assign _ _ _ := True.intro
  join _ _ := True.intro

/-- The descriptor of a call of a name is the result of what the name was bound to. -/
def Invariant.Explains (I : Invariant) (o : Occurrence) (d : Descriptor) : Prop :=
  ∀ name, o.callee = some name → ∃ k b, I.Holds k b ∧ d = (b.lookup name).result

/-- The walk is in a part of a function, or outside of all functions. -/
def State.Within (s : State) : Option Region → Prop
  | none => s.frames = []
  | some region => s.frames ≠ [] ∧ s.frame.isParameters = region.inParameters

theorem State.Within.of_alike {s t : State} {region : Option Region} (h : s.Within region)
    (halike : Alike s t) : t.Within region := by
  cases region with
  | none =>
      rw [State.Within, ← List.length_eq_zero_iff] at h ⊢
      exact halike.depth.trans h
  | some region =>
      refine ⟨fun hframes => h.1 ?_, halike.parameters.trans h.2⟩
      rw [← List.length_eq_zero_iff] at hframes ⊢
      exact halike.depth.symm.trans hframes

theorem State.Within.isParameters {s : State} {o : Occurrence} (h : s.Within o.region) :
    s.frame.isParameters = o.inParameters := by
  unfold Setting.inParameters
  cases hregion : o.region with
  | none =>
      rw [hregion] at h
      unfold State.frame
      rw [show s.frames = [] from h]
      rfl
  | some region =>
      rw [hregion] at h
      exact h.2

/-- The trace tells how the state has changed. -/
structure Trace.Leads (trace : Trace) (s t : State) : Prop where
  log : t.log = trace.events ++ s.log
  suspends : s.frames ≠ [] → t.frame.suspends = (s.frame.suspends || trace.waits)

theorem Trace.Leads.trans {earlier later : Trace} {s t u : State} (hst : earlier.Leads s t)
    (htu : later.Leads t u) (halike : Alike s t) : (earlier.append later).Leads s u := by
  refine ⟨?_, fun hframes => ?_⟩
  · rw [htu.log, hst.log, Trace.events, List.append_assoc]
  · have hkept : t.frames ≠ [] := by
      rw [← List.length_pos_iff] at hframes ⊢
      rwa [halike.depth]
    rw [htu.suspends hkept, hst.suspends hframes, Bool.or_assoc]
    rfl

theorem Trace.Leads.withBindings {trace : Trace} {s t : State} (h : trace.Leads s t)
    (b : Bindings) :
    trace.Leads s { t with bindings := b } := ⟨h.log, h.suspends⟩

/-- What the walk of a piece with the given nodes has been. -/
structure Tells (I : Invariant) (region : Option Region) (listed : List Occurrence) (s t : State)
    (trace : Trace) : Prop where
  leads : trace.Leads s t
  placed : trace.Placed region
  uses : trace.Uses listed
  explains : ∀ p ∈ trace.nodes, I.Explains p.1 p.2

theorem Tells.trans {I : Invariant} {region : Option Region} {a b : List Occurrence} {s t u : State}
    {earlier later : Trace} (hst : Tells I region a s t earlier) (htu : Tells I region b t u later)
    (halike : Alike s t) : Tells I region (a ++ b) s u (earlier.append later) where
  leads := hst.leads.trans htu.leads halike
  placed := ⟨hst.placed, htu.placed⟩
  uses := hst.uses.append htu.uses
  explains p hp := (List.mem_append.mp hp).elim (hst.explains p) (htu.explains p)

theorem Tells.withBindings {I : Invariant} {region : Option Region} {listed : List Occurrence}
    {s t : State} {trace : Trace} (h : Tells I region listed s t trace) (b : Bindings) :
    Tells I region listed s { t with bindings := b } trace :=
  ⟨h.leads.withBindings b, h.placed, h.uses, h.explains⟩

theorem Tells.mono {I : Invariant} {region : Option Region} {listed more : List Occurrence}
    {s t : State} {trace : Trace} (h : Tells I region listed s t trace)
    (hmore : listed.Subperm more) :
    Tells I region more s t trace := ⟨h.leads, h.placed, h.uses.mono hmore, h.explains⟩

theorem tells_nil {I : Invariant} {region : Option Region} {s t : State} (hlog : t.log = s.log)
    (hsuspends : t.frame.suspends = s.frame.suspends) : Tells I region [] s t .nil where
  leads := ⟨hlog, fun _ => by rw [hsuspends, Trace.waits, Bool.or_false]⟩
  placed := True.intro
  uses := ⟨List.nil_subperm, List.nil_subperm⟩
  explains _ h := absurd h List.not_mem_nil

theorem tells_remarks {I : Invariant} {region : Option Region} {s t : State}
    (hlog : OnlyRemarks s.log t.log) (hsuspends : t.frame.suspends = s.frame.suspends) :
    ∃ trace, Tells I region [] s t trace := by
  obtain ⟨trace, hevents, hwaits, hnodes, hfunctions, hplaced⟩ := Trace.exists_remarks hlog
  refine ⟨trace, ⟨hevents, fun _ => ?_⟩, hplaced region, ⟨?_, ?_⟩, fun p hp => ?_⟩
  · rw [hsuspends, hwaits, Bool.or_false]
  · rw [hnodes]
    exact List.nil_subperm
  · rw [hfunctions]
    exact List.nil_subperm
  · rw [hnodes] at hp
    exact absurd hp List.not_mem_nil

/-- The action keeps the invariant, whether it is recorded or not. -/
def Action.Keeps (I : Invariant) (action : Action) : Prop :=
  ∀ {k s d t}, I.Holds k s.bindings → action.run s = (.ok d, t) → I.Holds k t.bindings

/-- The action of a piece with the given nodes, in a region. -/
structure Traced (I : Invariant) (region : Option Region) (listed : List Occurrence)
    (action : Action) : Prop where
  keeps : action.Keeps I
  tells {k s d t} : I.Holds k s.bindings → s.recording = true → s.Within region →
    action.run s = (.ok d, t) → ∃ trace, Tells I region listed s t trace

variable {action first body : Action} {s t : State} {next : Descriptor → Action} {d : Descriptor}
  {o : Occurrence} {k : Nat}

variable {I : Invariant} {region : Option Region} {listed more : List Occurrence}

theorem Traced.mono (h : Traced I region listed action) (hmore : listed.Subperm more) :
    Traced I region more action := by
  refine ⟨h.keeps, fun hholds hrecording hwithin hrun => ?_⟩
  obtain ⟨trace, htells⟩ := h.tells hholds hrecording hwithin hrun
  exact ⟨trace, htells.mono hmore⟩

/-! ## Actions without a finding -/

theorem traced_silent (hkeeps : action.Keeps I)
    (hsilent : ∀ {s d t}, action.run s = (.ok d, t) →
      t.log = s.log ∧ t.frame.suspends = s.frame.suspends) : Traced I region [] action := by
  refine ⟨hkeeps, fun _ _ _ hrun => ?_⟩
  obtain ⟨hlog, hsuspends⟩ := hsilent hrun
  exact ⟨.nil, tells_nil hlog hsuspends⟩

theorem traced_give (d : Descriptor) : Traced I region [] (.give d) := by
  refine traced_silent (fun hholds hrun => ?_) (fun hrun => ?_) <;> cases hrun
  · exact hholds
  · exact ⟨rfl, rfl⟩

theorem traced_nothing : Traced I region [] .nothing := traced_give .unknown

theorem traced_look (name : String) : Traced I region [] (.look name) := by
  refine traced_silent (fun hholds hrun => ?_) (fun hrun => ?_) <;> cases hrun
  · exact hholds
  · exact ⟨rfl, rfl⟩

theorem traced_declare {name : String} (d : Descriptor) (hname : I.Writes name) :
    Traced I region [] (.declare name d) := by
  refine traced_silent (fun hholds hrun => ?_) (fun hrun => ?_) <;> cases hrun
  · exact I.add d hname hholds
  · exact ⟨rfl, rfl⟩

theorem traced_assign {name : String} (d : Descriptor) (hname : I.Writes name) :
    Traced I region [] (.assign name d) := by
  refine traced_silent (fun hholds hrun => ?_) (fun hrun => ?_) <;> cases hrun
  · exact I.assign d hname hholds
  · exact ⟨rfl, rfl⟩

theorem bindings_onFrame (s : State) (f : Frame → Frame) : (s.onFrame f).bindings = s.bindings := by
  unfold State.onFrame
  split <;> rfl

theorem log_onFrame (s : State) (f : Frame → Frame) : (s.onFrame f).log = s.log := by
  unfold State.onFrame
  split <;> rfl

theorem frame_onFrame (f : Frame → Frame) (h : s.frames ≠ []) :
    (s.onFrame f).frame = f s.frame := by
  unfold State.onFrame State.frame
  cases hframes : s.frames with
  | nil => exact absurd hframes h
  | cons frame outer => rfl

theorem onFrame_of_nil (f : Frame → Frame) (h : s.frames = []) : s.onFrame f = s := by
  unfold State.onFrame
  rw [h]

theorem traced_returning (d : Descriptor) : Traced I region [] (.returning d) := by
  refine traced_silent (fun hholds hrun => ?_) (fun hrun => ?_) <;> cases hrun
  · rwa [bindings_onFrame]
  · refine ⟨log_onFrame _ _, ?_⟩
    rename_i s
    by_cases hframes : s.frames = []
    · rw [onFrame_of_nil _ hframes]
    · rw [frame_onFrame _ hframes]

theorem traced_returned : Traced I region [] .returned := by
  refine traced_silent (fun hholds hrun => ?_) (fun hrun => ?_) <;> cases hrun
  · exact hholds
  · exact ⟨rfl, rfl⟩

theorem traced_refuse (shape : String) (span : Span) : Traced I region [] (.refuse shape span) := by
  refine traced_silent (fun _ hrun => ?_) (fun hrun => ?_) <;> cases hrun

/-! ## One after the other -/

theorem run_bind (h : (first.bind next).run s = (.ok d, t)) :
    ∃ v middle, first.run s = (.ok v, middle) ∧ (next v).run middle = (.ok d, t) := by
  rw [Action.run] at h
  rcases hfirst : first.run s with ⟨refusal | v, middle⟩
  · rw [hfirst] at h
    cases h
  · rw [hfirst] at h
    exact ⟨v, middle, rfl, h⟩

theorem run_bind_of_ok (h : first.run s = (.ok d, t)) :
    (first.bind next).run s = (next d).run t := by
  rw [Action.run, h]

theorem alike_of_run (h : action.run s = (.ok d, t)) : Alike s t := by
  have halike := alike_run action s
  rwa [h] at halike

theorem traced_bind (hfirst : Traced I region listed first)
    (hnext : ∀ d, Traced I region more (next d)) :
    Traced I region (listed ++ more) (first.bind next) := by
  constructor
  · intro k s d t hholds hrun
    obtain ⟨v, middle, hone, htwo⟩ := run_bind hrun
    exact (hnext v).keeps (hfirst.keeps hholds hone) htwo
  · intro k s d t hholds hrecording hwithin hrun
    obtain ⟨v, middle, hone, htwo⟩ := run_bind hrun
    have halike := alike_of_run hone
    obtain ⟨earlier, hearlier⟩ := hfirst.tells hholds hrecording hwithin hone
    obtain ⟨later, hlater⟩ := (hnext v).tells (hfirst.keeps hholds hone)
      (halike.recording.trans hrecording) (hwithin.of_alike halike) htwo
    exact ⟨_, hearlier.trans hlater halike⟩

theorem traced_andThen {a b : Action} (ha : Traced I region listed a)
    (hb : Traced I region more b) :
    Traced I region (listed ++ more) (a.andThen b) := traced_bind ha fun _ => hb

theorem traced_bind_silent (hfirst : Traced I region listed first)
    (hnext : ∀ d, Traced I region [] (next d)) : Traced I region listed (first.bind next) := by
  simpa using traced_bind hfirst hnext

theorem traced_map (f : Descriptor → Descriptor) (h : Traced I region listed action) :
    Traced I region listed (action.map f) := traced_bind_silent h fun d => traced_give (f d)

theorem traced_declareAll {names : List String} (h : ∀ name ∈ names, I.Writes name) :
    Traced I region [] (Action.declareAll names) := by
  induction names with
  | nil => exact traced_nothing
  | cons name others ih =>
      obtain ⟨hname, hothers⟩ := List.forall_mem_cons.mp h
      exact traced_andThen (traced_declare .unknown hname) (ih hothers)

/-! ## Findings -/

theorem run_recorded {kind : NodeKind} {span : Span}
    (h : (action.recorded kind span).run s = (.ok d, t)) :
    ∃ middle, action.run s = (.ok d, middle) ∧ t = middle.record (.descriptor kind span d) := by
  obtain ⟨v, middle, hone, htwo⟩ := run_bind h
  cases htwo
  exact ⟨middle, hone, rfl⟩

theorem record_of_recording (h : s.recording = true) (event : Event) :
    s.record event = s.note event := if_pos h

theorem keeps_record (kind : NodeKind) (span : Span) (h : action.Keeps I) :
    (action.recorded kind span).Keeps I := by
  intro k s d t hholds hrun
  obtain ⟨middle, hone, rfl⟩ := run_recorded hrun
  have hkept := h hholds hone
  unfold State.record
  split <;> exact hkept

theorem tells_noted (hkind : o.kind.isExpression = true)
    (hlog : t.log = Trace.events (.noted o d) ++ s.log)
    (hsuspends : s.frames ≠ [] → t.frame.suspends = (s.frame.suspends || awaits o d))
    (hexplains : I.Explains o d) : Tells I o.region [o] s t (.noted o d) where
  leads := ⟨hlog, hsuspends⟩
  placed := ⟨rfl, hkind⟩
  uses := ⟨List.Subperm.refl _, List.nil_subperm⟩
  explains p hp := by rwa [List.mem_singleton.mp hp]

theorem subperm_node (o : Occurrence) (listed : List Occurrence) :
    (listed ++ [o]).Subperm (o :: listed) :=
  (List.perm_append_singleton o listed).subperm

theorem traced_recorded (hkind : o.kind.isExpression = true) (hawait : o.kind ≠ .awaitExpr)
    (hcallee : o.callee = none)
    (hvalue : o.kind.isSite = true → ∀ {s d t}, action.run s = (.ok d, t) → d.isDeferred = false)
    (h : Traced I o.region listed action) :
    Traced I o.region (o :: listed) (action.recorded o.kind o.span) := by
  refine ⟨keeps_record _ _ h.keeps, fun hholds hrecording hwithin hrun => ?_⟩
  obtain ⟨middle, hone, rfl⟩ := run_recorded hrun
  rename_i d
  have halike := alike_of_run hone
  obtain ⟨earlier, hearlier⟩ := h.tells hholds hrecording hwithin hone
  rw [record_of_recording (halike.recording.trans hrecording)]
  have hsuspended : suspended o d = false := by
    unfold suspended
    cases hsite : o.kind.isSite with
    | false => rfl
    | true => simp [hvalue hsite hone]
  have hnoted : Tells I o.region [o] middle (middle.note (.descriptor o.kind o.span d))
      (.noted o d) := by
    refine tells_noted hkind ?_ (fun _ => ?_) fun name hname => ?_
    · simp [Trace.events, hsuspended, State.note]
    · simp [awaits, hsuspended, hawait, State.note, State.frame]
    · rw [hcallee] at hname
      cases hname
  exact ⟨_, (hearlier.trans hnoted halike).mono (subperm_node o listed)⟩

theorem traced_await (hkind : o.kind = .awaitExpr) (hcallee : o.callee = none)
    (f : Descriptor → Descriptor) (h : Traced I o.region listed action) :
    Traced I o.region (o :: listed)
      ((action.bind fun d => Action.awaiting.andThen (.give (f d))).recorded o.kind o.span) := by
  have hawaiting : Action.Keeps I .awaiting := by
    intro k s d t hholds hrun
    cases hrun
    rwa [bindings_onFrame]
  constructor
  · refine keeps_record _ _ fun hholds hrun => ?_
    obtain ⟨v, middle, hone, htwo⟩ := run_bind hrun
    obtain ⟨w, after, hthree, hfour⟩ := run_bind htwo
    cases hfour
    exact hawaiting (h.keeps hholds hone) hthree
  · intro k s d t hholds hrecording hwithin hrun
    obtain ⟨last, hbody, rfl⟩ := run_recorded hrun
    obtain ⟨v, middle, hone, htwo⟩ := run_bind hbody
    cases htwo
    have halike := alike_of_run hone
    obtain ⟨earlier, hearlier⟩ := h.tells hholds hrecording hwithin hone
    have hframe := alike_onFrame middle
        (f := fun frame => { frame with suspends := true }) fun _ => rfl
    rw [record_of_recording (hframe.recording.trans (halike.recording.trans hrecording))]
    have hsuspended : suspended o (f v) = false := by simp [suspended, hkind, NodeKind.isSite]
    refine ⟨_, (hearlier.trans (tells_noted (d := f v) ?_ ?_ (fun hframes => ?_)
      fun name hname => ?_) halike).mono (subperm_node o listed)⟩
    · rw [hkind]
      rfl
    · simp [Trace.events, hsuspended, State.note, log_onFrame]
    · change (middle.onFrame _).frame.suspends = _
      rw [frame_onFrame _ hframes]
      simp [awaits, hkind]
    · rw [hcallee] at hname
      cases hname

theorem tells_used {v : Descriptor} (hsite : o.kind.isSite = true) (hconsumed : o.awaited = false)
    (hrecording : s.recording = true) (hwithin : s.Within o.region) (hexplains : I.Explains o d)
    (hrun : ((Action.give d).used o.span).run (s.note (.descriptor o.kind o.span d)) = (.ok v, t)) :
    ∃ trace, Tells I o.region [o] s t trace := by
  obtain ⟨hkind, hawait⟩ := NodeKind.isExpression_of_isSite hsite
  have hparameters := hwithin.isParameters
  cases d with
  | deferred inner =>
      cases hin : o.inParameters with
      | true =>
          have hsuspended : suspended o (.deferred inner) = false := by simp [suspended, hin]
          have hsuspend :
              (s.note (.descriptor o.kind o.span (.deferred inner))).suspend o.span inner =
              (.deferred inner, (s.note (.descriptor o.kind o.span (.deferred inner))).note
                (.leftDeferred o.span)) := if_pos (hparameters.trans hin)
          simp only [Action.used, Action.run, hsuspend] at hrun
          cases hrun
          refine ⟨.append (.noted o (.deferred inner)) (.remark (.leftDeferred o.span) rfl),
            ⟨?_, fun _ => ?_⟩, ⟨⟨rfl, hkind⟩, True.intro⟩, ⟨List.Subperm.refl _, List.nil_subperm⟩,
            fun p hp => by rwa [List.mem_singleton.mp hp]⟩
          · simp [Trace.events, hsuspended, State.note]
          · simp [Trace.waits, awaits, hsuspended, hawait, State.note, State.frame]
      | false =>
          have hsuspended : suspended o (.deferred inner) = true := by
            simp [suspended, hsite, hconsumed, hin, Descriptor.isDeferred]
          have hsuspend :
              (s.note (.descriptor o.kind o.span (.deferred inner))).suspend o.span inner =
              (inner, ((s.note (.descriptor o.kind o.span (.deferred inner))).onFrame
                fun frame => { frame with suspends := true }).note (.site o.span)) := by
            have hframe := alike_onFrame (s.note (.descriptor o.kind o.span (.deferred inner)))
              (f := fun frame => { frame with suspends := true }) fun _ => rfl
            have hbody : ¬s.frame.isParameters = true := by simp [hparameters, hin]
            rw [← record_of_recording (hframe.recording.trans hrecording)]
            exact if_neg hbody
          simp only [Action.used, Action.run, hsuspend] at hrun
          cases hrun
          refine ⟨_, tells_noted (d := .deferred v) hkind ?_ (fun hframes => ?_) hexplains⟩
          · simp [Trace.events, hsuspended, State.note, log_onFrame]
          · have hframe := frame_onFrame (s := s.note (.descriptor o.kind o.span (.deferred v)))
              (fun frame => { frame with suspends := true }) hframes
            change (State.onFrame _ _).frame.suspends = _
            rw [hframe]
            simp [awaits, hsuspended]
  | _ =>
      cases hrun
      refine ⟨_, tells_noted hkind ?_ (fun _ => ?_) hexplains⟩
      · simp [Trace.events, suspended, Descriptor.isDeferred, State.note]
      · simp [awaits, suspended, Descriptor.isDeferred, hawait, State.note, State.frame]

theorem traced_site {use : Use} (hsite : o.kind.isSite = true)
    (huse : o.awaited = decide (use = .awaited)) (h : Traced I o.region listed action)
    (hexplains : ∀ {k s d t}, I.Holds k s.bindings → action.run s = (.ok d, t) → I.Explains o d) :
    Traced I o.region (o :: listed) (Action.site use o.kind o.span action) := by
  obtain ⟨hkind, hawait⟩ := NodeKind.isExpression_of_isSite hsite
  cases use with
  | awaited =>
      refine ⟨keeps_record _ _ h.keeps, fun hholds hrecording hwithin hrun => ?_⟩
      obtain ⟨middle, hone, rfl⟩ := run_recorded hrun
      rename_i d
      have halike := alike_of_run hone
      obtain ⟨earlier, hearlier⟩ := h.tells hholds hrecording hwithin hone
      rw [record_of_recording (halike.recording.trans hrecording)]
      have hsuspended : suspended o d = false := by simp [suspended, huse]
      refine ⟨_, (hearlier.trans (tells_noted (d := d) hkind ?_ (fun _ => ?_)
        (hexplains hholds hone))
        halike).mono (subperm_node o listed)⟩
      · simp [Trace.events, hsuspended, State.note]
      · simp [awaits, hsuspended, hawait, State.note, State.frame]
  | consumed =>
      constructor
      · intro k s d t hholds hrun
        obtain ⟨v, middle, hone, htwo⟩ := run_bind hrun
        have hkept := keeps_record o.kind o.span h.keeps hholds hone
        cases v with
        | deferred inner =>
            simp only [Action.run, State.suspend] at htwo
            split at htwo <;> cases htwo
            · exact hkept
            · unfold State.record
              split <;> simpa [State.note, bindings_onFrame] using hkept
        | _ => cases htwo; exact hkept
      · intro k s d t hholds hrecording hwithin hrun
        obtain ⟨v, middle, hone, htwo⟩ := run_bind hrun
        obtain ⟨start, hthree, rfl⟩ := run_recorded hone
        have halike := alike_of_run hthree
        obtain ⟨earlier, hearlier⟩ := h.tells hholds hrecording hwithin hthree
        rw [record_of_recording (halike.recording.trans hrecording)] at htwo
        obtain ⟨later, hlater⟩ :=
          tells_used hsite (by simp [huse]) (halike.recording.trans hrecording)
          (hwithin.of_alike halike) (hexplains hholds hthree) htwo
        exact ⟨_, (hearlier.trans hlater halike).mono (subperm_node o listed)⟩

/-! ## Scopes and branches -/

theorem traced_scoped (h : Traced I region listed body) :
    Traced I region listed (.scoped body) := by
  constructor
  · intro k s d t hholds hrun
    rcases hbody : body.run s.enter with ⟨result, after⟩
    rw [Action.run, hbody] at hrun
    cases hrun
    exact I.pop (h.keeps (s := s.enter) (I.push hholds) hbody)
  · intro k s d t hholds hrecording hwithin hrun
    rcases hbody : body.run s.enter with ⟨result, after⟩
    rw [Action.run, hbody] at hrun
    cases hrun
    have henter : s.enter.Within region := by
      cases region with
      | none => exact hwithin
      | some r => exact hwithin
    obtain ⟨trace, htells⟩ := h.tells (s := s.enter) (I.push hholds) hrecording henter hbody
    exact ⟨trace, ⟨htells.leads.log, htells.leads.suspends⟩, htells.placed, htells.uses,
      htells.explains⟩

theorem run_fork {left right : Action} {merge : Descriptor → Descriptor → Descriptor}
    (h : (Action.fork left right merge).run s = (.ok d, t)) :
    ∃ a leftAfter b rightAfter, left.run s = (.ok a, leftAfter) ∧
      right.run { leftAfter with bindings := s.bindings } = (.ok b, rightAfter) ∧
      d = merge a b ∧
      t = { rightAfter with
        bindings := s.bindings.join [leftAfter.bindings, rightAfter.bindings] } := by
  rw [Action.run] at h
  rcases hleft : left.run s with ⟨refusal | a, leftAfter⟩
  · rw [hleft] at h
    cases h
  · rw [hleft] at h
    rcases hright :
        right.run { leftAfter with bindings := s.bindings } with ⟨refusal | b, rightAfter⟩
    · simp only [hright] at h
      cases h
    · simp only [hright] at h
      cases h
      exact ⟨a, leftAfter, b, rightAfter, rfl, hright, rfl, rfl⟩

theorem State.Within.withBindings (h : s.Within region) (b : Bindings) :
    State.Within { s with bindings := b } region := by
  cases region with
  | none => exact h
  | some r => exact h

theorem Tells.fromBindings {trace : Trace} {b : Bindings}
    (h : Tells I region listed { s with bindings := b } t trace) :
    Tells I region listed s t trace :=
  ⟨⟨h.leads.log, h.leads.suspends⟩, h.placed, h.uses, h.explains⟩

theorem traced_fork {left right : Action} (merge : Descriptor → Descriptor → Descriptor)
    (hleft : Traced I region listed left) (hright : Traced I region more right) :
    Traced I region (listed ++ more) (.fork left right merge) := by
  constructor
  · intro k s d t hholds hrun
    obtain ⟨a, leftAfter, b, rightAfter, hone, htwo, -, rfl⟩ := run_fork hrun
    have hfirst := hleft.keeps hholds hone
    have hsecond := hright.keeps (s := { leftAfter with bindings := s.bindings }) hholds htwo
    exact I.join hholds (List.forall_mem_cons.mpr ⟨hfirst, List.forall_mem_singleton.mpr hsecond⟩)
  · intro k s d t hholds hrecording hwithin hrun
    obtain ⟨a, leftAfter, b, rightAfter, hone, htwo, -, rfl⟩ := run_fork hrun
    have halike := alike_of_run hone
    obtain ⟨earlier, hearlier⟩ := hleft.tells hholds hrecording hwithin hone
    obtain ⟨later, hlater⟩ := hright.tells (s := { leftAfter with bindings := s.bindings }) hholds
      (halike.recording.trans hrecording) ((hwithin.of_alike halike).withBindings _) htwo
    exact ⟨_, (hearlier.trans hlater.fromBindings halike).withBindings _⟩

/-- The arms of a choice with the given nodes. -/
structure TracedArms (I : Invariant) (region : Option Region) (listed : List Occurrence)
    (arms : Arms) : Prop where
  keeps {k exits s all t} : I.Holds k s.bindings → (∀ b ∈ exits, I.Holds k b) →
    arms.run exits s = (.ok all, t) → I.Holds k t.bindings ∧ ∀ b ∈ all, I.Holds k b
  tells {k exits s all t} : I.Holds k s.bindings → s.recording = true → s.Within region →
    arms.run exits s = (.ok all, t) → ∃ trace, Tells I region listed s t trace

theorem tracedArms_done : TracedArms I region [] .done := by
  constructor
  · intro k exits s all t hholds hexits hrun
    cases hrun
    exact ⟨hholds, hexits⟩
  · intro k exits s all t hholds hrecording hwithin hrun
    cases hrun
    exact ⟨.nil, tells_nil rfl rfl⟩

theorem run_arm {test : Action} {rest : Arms} {exits all : List Bindings}
    (h : (Arms.arm test body rest).run exits s = (.ok all, t)) :
    ∃ c entry d after, test.run s = (.ok c, entry) ∧ body.run entry = (.ok d, after) ∧
      rest.run (exits ++ [after.bindings]) { after with bindings := entry.bindings } =
        (.ok all, t) := by
  rw [Arms.run] at h
  rcases htest : test.run s with ⟨refusal | c, entry⟩
  · rw [htest] at h
    cases h
  · rw [htest] at h
    rcases hbody : body.run entry with ⟨refusal | d, after⟩
    · simp only [hbody] at h
      cases h
    · simp only [hbody] at h
      exact ⟨c, entry, d, after, rfl, hbody, h⟩

theorem traced_arm {test : Action} {rest : Arms} {others : List Occurrence}
    (htest : Traced I region listed test) (hbody : Traced I region more body)
    (hrest : TracedArms I region others rest) :
    TracedArms I region (listed ++ more ++ others) (.arm test body rest) := by
  constructor
  · intro k exits s all t hholds hexits hrun
    obtain ⟨c, entry, d, after, hone, htwo, hthree⟩ := run_arm hrun
    have hentry := htest.keeps hholds hone
    have hafter := hbody.keeps hentry htwo
    refine hrest.keeps (s := { after with bindings := entry.bindings }) hentry ?_ hthree
    intro b hb
    rcases List.mem_append.mp hb with hb | hb
    · exact hexits b hb
    · rwa [List.mem_singleton.mp hb]
  · intro k exits s all t hholds hrecording hwithin hrun
    obtain ⟨c, entry, d, after, hone, htwo, hthree⟩ := run_arm hrun
    have hentry := htest.keeps hholds hone
    have hfirst := alike_of_run hone
    have hsecond := hfirst.trans (alike_of_run htwo)
    obtain ⟨earlier, hearlier⟩ := htest.tells hholds hrecording hwithin hone
    obtain ⟨middle, hmiddle⟩ := hbody.tells hentry (hfirst.recording.trans hrecording)
      (hwithin.of_alike hfirst) htwo
    obtain ⟨later, hlater⟩ := hrest.tells (s := { after with bindings := entry.bindings }) hentry
      (hsecond.recording.trans hrecording) ((hwithin.of_alike hsecond).withBindings _) hthree
    exact ⟨_, (hearlier.trans hmiddle hfirst).trans hlater.fromBindings hsecond⟩

theorem traced_choose {arms : Arms} (hasDefault : Bool) (h : TracedArms I region listed arms) :
    Traced I region listed (.choose arms hasDefault) := by
  have hrun {s t : State} {d : Descriptor}
      (hchoose : (Action.choose arms hasDefault).run s = (.ok d, t)) :
      ∃ exits after, arms.run [] s = (.ok exits, after) ∧ t = { after with
        bindings := after.bindings.join
          (if hasDefault then exits else exits ++ [after.bindings]) } := by
    rw [Action.run] at hchoose
    rcases harms : arms.run [] s with ⟨refusal | exits, after⟩
    · rw [harms] at hchoose
      cases hchoose
    · rw [harms] at hchoose
      cases hchoose
      exact ⟨exits, after, rfl, rfl⟩
  constructor
  · intro k s d t hholds hchoose
    obtain ⟨exits, after, harms, rfl⟩ := hrun hchoose
    obtain ⟨hafter, hexits⟩ := h.keeps hholds (fun _ hb => absurd hb List.not_mem_nil) harms
    refine I.join hafter fun b hb => ?_
    split at hb
    · exact hexits b hb
    · rcases List.mem_append.mp hb with hb | hb
      · exact hexits b hb
      · rwa [List.mem_singleton.mp hb]
  · intro k s d t hholds hrecording hwithin hchoose
    obtain ⟨exits, after, harms, rfl⟩ := hrun hchoose
    obtain ⟨trace, htells⟩ := h.tells hholds hrecording hwithin harms
    exact ⟨trace, htells.withBindings _⟩

/-! ## Loops and hoisting -/

theorem holds_settle {iterate : State → Outcome Descriptor}
    (hiterate : ∀ {s d t}, I.Holds k s.bindings → iterate s = (.ok d, t) → I.Holds k t.bindings)
    (fuel : Nat) {rounds n : Nat} (hholds : I.Holds k s.bindings)
    (hrun : settle iterate fuel rounds s = (.ok n, t)) : I.Holds k t.bindings := by
  induction fuel generalizing rounds s with
  | zero =>
      cases hrun
      exact hholds
  | succ fuel ih =>
      rw [settle] at hrun
      rcases hstep : iterate s with ⟨refusal | d, after⟩
      · rw [hstep] at hrun
        cases hrun
      · rw [hstep] at hrun
        have hjoined : I.Holds k (s.bindings.join [s.bindings, after.bindings]) := I.join hholds
          (List.forall_mem_cons.mpr ⟨hholds, List.forall_mem_singleton.mpr (hiterate hholds hstep)⟩)
        simp only at hrun
        split at hrun
        · cases hrun
          exact hjoined
        · exact ih hjoined hrun

theorem run_loop {names : List String} {iteration : Action}
    (h : (Action.loop names iteration).run s = (.ok d, t)) :
    ∃ rounds after v last, settle iteration.run (settleLimit s.bindings names) 0
        ({ s with recording := false }.pushFrame {}) = (.ok rounds, after) ∧
      iteration.run (State.note { after.popFrame with recording := s.recording }
        (.settled rounds)) =
        (.ok v, last) ∧
      t = { last with bindings := after.bindings.join [after.bindings, last.bindings] } := by
  rw [Action.run] at h
  rcases hsettle : settle iteration.run (settleLimit s.bindings names) 0
    ({ s with recording := false }.pushFrame {}) with ⟨refusal | rounds, after⟩
  · rw [hsettle] at h
    cases h
  · rw [hsettle] at h
    rcases hlast : iteration.run (State.note { after.popFrame with recording := s.recording }
      (.settled rounds)) with ⟨refusal | v, last⟩
    · simp only [hlast] at h
      cases h
    · simp only [hlast] at h
      cases h
      exact ⟨rounds, after, v, last, hsettle, hlast, rfl⟩

theorem traced_loop {iteration : Action} (names : List String)
    (h : Traced I region listed iteration) :
    Traced I region listed (.loop names iteration) := by
  have hsettled {k : Nat} {s after : State} {rounds : Nat} (hholds : I.Holds k s.bindings)
      (hsettle : settle iteration.run (settleLimit s.bindings names) 0
        ({ s with recording := false }.pushFrame {}) =
          (.ok rounds, after)) : I.Holds k after.bindings :=
    holds_settle (fun hbindings hrun => h.keeps hbindings hrun) _
      (s := { s with recording := false }.pushFrame {}) hholds hsettle
  constructor
  · intro k s d t hholds hrun
    obtain ⟨rounds, after, v, last, hsettle, hlast, rfl⟩ := run_loop hrun
    have hafter := hsettled hholds hsettle
    have hbody := h.keeps (s := State.note { after.popFrame with recording := s.recording }
      (.settled rounds)) hafter hlast
    exact I.join hafter (List.forall_mem_cons.mpr ⟨hafter, List.forall_mem_singleton.mpr hbody⟩)
  · intro k s d t hholds hrecording hwithin hrun
    obtain ⟨rounds, after, v, last, hsettle, hlast, rfl⟩ := run_loop hrun
    have hquiet := alike_settle (alike_run iteration) (settleLimit s.bindings names) 0
      ({ s with recording := false }.pushFrame {})
    rw [hsettle] at hquiet
    have hentry : Alike s (State.note { after.popFrame with recording := s.recording }
      (.settled rounds)) := hquiet.popFrame.resume.note rfl
    have hframe : (State.note { after.popFrame with recording := s.recording }
        (.settled rounds)).frame.suspends = s.frame.suspends := by
      change (after.popFrame.frames.headD {}).suspends = _
      rw [hquiet.frames_popFrame]
      rfl
    have hremarks : OnlyRemarks s.log (.settled rounds :: after.log) :=
      OnlyRemarks.cons (hquiet.quiet rfl) rfl
    obtain ⟨earlier, hearlier⟩ : ∃ trace, Tells I region [] s _ trace :=
      tells_remarks hremarks hframe
    have hafter := hsettled hholds hsettle
    obtain ⟨later, hlater⟩ := h.tells
      (s := State.note { after.popFrame with recording := s.recording } (.settled rounds))
      hafter (hentry.recording.trans hrecording) (hwithin.of_alike hentry) hlast
    exact ⟨_, (hearlier.trans hlater hentry).withBindings _⟩

/-- Functions that are bound ahead: their walks keep the invariant and touch no frame. -/
def Declarations.Kept (I : Invariant) : Declarations → Prop
  | .done => True
  | .declaration name walk rest =>
      I.Writes name ∧ walk.Keeps I ∧ (∀ s, (walk.run s).2.frames = s.frames) ∧ rest.Kept I

theorem Declarations.Kept.round {declarations : Declarations} {s : State} (h : declarations.Kept I)
    (hholds : I.Holds k s.bindings) :
    I.Holds k (declarations.round s).2.bindings ∧ (declarations.round s).2.frames = s.frames := by
  match declarations with
  | .done => exact ⟨hholds, rfl⟩
  | .declaration name walk rest =>
      obtain ⟨hname, hwalk, hframes, hrest⟩ := h
      have hsame := hframes s
      rw [Declarations.round]
      rcases hrun : walk.run s with ⟨refusal | d, after⟩
      · rw [hrun] at hsame
        obtain ⟨hkept, hlast⟩ :=
          Kept.round hrest (s := { after with bindings := s.bindings }) hholds
        exact ⟨hkept, hlast.trans hsame⟩
      · rw [hrun] at hsame
        obtain ⟨hkept, hlast⟩ :=
          Kept.round hrest (s := { after with bindings := s.bindings.add name d })
          (I.add d hname hholds)
        exact ⟨hkept, hlast.trans hsame⟩

theorem holds_hoistRounds {declarations : Declarations} (h : declarations.Kept I)
    (fuel rounds : Nat) (hholds : I.Holds k s.bindings) :
    I.Holds k (hoistRounds declarations.round fuel rounds s).2.bindings ∧
      (hoistRounds declarations.round fuel rounds s).2.frames = s.frames := by
  induction fuel generalizing rounds s with
  | zero => exact ⟨hholds, rfl⟩
  | succ fuel ih =>
      obtain ⟨hkept, hframes⟩ := h.round hholds
      rw [hoistRounds]
      generalize declarations.round s = outcome at hkept hframes ⊢
      rcases outcome with ⟨_ | _, after⟩
      · exact ⟨hkept, hframes⟩
      · obtain ⟨hlast, hsame⟩ := ih (rounds + 1) hkept
        exact ⟨hlast, hsame.trans hframes⟩

theorem traced_hoist {declarations : Declarations} (h : declarations.Kept I) :
    Traced I region [] (.hoist declarations) := by
  have hrounds {k : Nat} {s : State} (hholds : I.Holds k s.bindings) :=
    holds_hoistRounds h (declarations.count + 1) 0 (s := { s with recording := false }) hholds
  constructor
  · intro k s d t hholds hrun
    rw [Action.run] at hrun
    split at hrun
    · cases hrun
      exact hholds
    · obtain ⟨-, rfl⟩ := Prod.mk.inj hrun
      exact (hrounds hholds).1
  · intro k s d t hholds hrecording hwithin hrun
    have hframes := (hrounds hholds).2
    have hquiet := alike_hoistRounds (alike_round declarations) (declarations.count + 1) 0
      { s with recording := false }
    rw [Action.run] at hrun
    generalize hoistRounds declarations.round (declarations.count + 1) 0
      { s with recording := false } = outcome at hframes hquiet hrun
    split at hrun
    · cases hrun
      exact ⟨.nil, tells_nil rfl rfl⟩
    · cases hrun
      refine tells_remarks (OnlyRemarks.cons (hquiet.quiet rfl) rfl) ?_
      change (outcome.2.frames.headD {}).suspends = _
      rw [hframes]
      rfl

/-! ## Functions -/

theorem run_function {span : Span} {isAsync : Bool}
    (h : (Action.function span isAsync body).run s = (.ok d, t)) :
    ∃ value after, body.run (s.pushFrame {}) = (.ok value, after) ∧
      d = functionDescriptor isAsync after.frame value ∧
      t = if !isAsync && after.frame.suspends then after.popFrame.record (.promoted span)
        else after.popFrame := by
  rw [Action.run] at h
  rcases hbody : body.run (s.pushFrame {}) with ⟨refusal | value, after⟩
  · rw [hbody] at h
    cases h
  · rw [hbody] at h
    obtain ⟨hd, ht⟩ := Prod.mk.inj h
    exact ⟨value, after, rfl, (Except.ok.inj hd).symm, ht.symm⟩

theorem keeps_function {span : Span} {isAsync : Bool} (h : body.Keeps I) :
    (Action.function span isAsync body).Keeps I := by
  intro k s d t hholds hrun
  obtain ⟨value, after, hbody, -, rfl⟩ := run_function hrun
  have hkept := h (s := s.pushFrame {}) hholds hbody
  unfold State.record
  split
  · split <;> exact hkept
  · exact hkept

theorem frames_function (span : Span) (isAsync : Bool) (body : Action) (s : State) :
    ((Action.function span isAsync body).run s).2.frames = s.frames := by
  have hbody := alike_run body (s.pushFrame {})
  rw [Action.run]
  generalize body.run (s.pushFrame {}) = outcome at hbody ⊢
  rcases outcome with ⟨refusal | value, after⟩
  · exact hbody.frames_popFrame
  · simp only
    unfold State.record
    split
    · split <;> exact hbody.frames_popFrame
    · exact hbody.frames_popFrame

theorem tells_function (hkind : o.kind.isFunction = true)
    (h : Traced I (some ⟨o.span, false⟩) listed body) (hholds : I.Holds k s.bindings)
    (hrecording : s.recording = true)
    (hrun : (Action.function o.span o.isAsync body).run s = (.ok d, t)) :
    ∃ inner : Trace, (Trace.function o inner).Leads s t ∧ (Trace.function o inner).Placed o.region ∧
      inner.Uses listed ∧ (∀ p ∈ inner.nodes, I.Explains p.1 p.2) ∧
      ∃ frame value, d = functionDescriptor o.isAsync frame value ∧
        frame.suspends = inner.waits := by
  obtain ⟨value, after, hbody, hd, rfl⟩ := run_function hrun
  have halike := alike_of_run hbody
  have hwithin : (s.pushFrame {}).Within (some ⟨o.span, false⟩) := ⟨List.cons_ne_nil _ _, rfl⟩
  obtain ⟨inner, htells⟩ := h.tells (s := s.pushFrame {}) hholds hrecording hwithin hbody
  have hwaits : after.frame.suspends = inner.waits := htells.leads.suspends (List.cons_ne_nil _ _)
  refine ⟨inner, ⟨?_, fun _ => ?_⟩, ⟨rfl, hkind, htells.placed⟩, htells.uses, htells.explains,
    after.frame, value, hd, hwaits⟩
  · rw [Trace.events, hwaits]
    split
    · rw [record_of_recording (halike.popFrame.recording.trans hrecording)]
      exact congrArg (_ :: ·) htells.leads.log
    · exact htells.leads.log
  · have hframes : (State.frame after.popFrame).suspends = s.frame.suspends := by
      unfold State.frame
      rw [halike.frames_popFrame]
    rw [Trace.waits, Bool.or_false]
    unfold State.record
    split
    · split <;> exact hframes
    · exact hframes

theorem Trace.Uses.function {inner : Trace} (h : inner.Uses listed) :
    (Trace.function o inner).Uses (o :: listed) :=
  ⟨h.nodes.trans List.Subperm.cons_self, (List.subperm_cons o).mpr h.functions⟩

theorem traced_function (hkind : o.kind.isFunction = true)
    (h : Traced I (some ⟨o.span, false⟩) listed body) :
    Traced I o.region (o :: listed) (.function o.span o.isAsync body) := by
  refine ⟨keeps_function h.keeps, fun hholds hrecording _ hrun => ?_⟩
  obtain ⟨inner, hleads, hplaced, huses, hexplains, -⟩ :=
    tells_function hkind h hholds hrecording hrun
  exact ⟨.function o inner, hleads, hplaced, huses.function, hexplains⟩

theorem traced_functionValue (hkind : o.kind.isFunction = true)
    (hexpression : o.kind.isExpression = true) (hcallee : o.callee = none)
    (h : Traced I (some ⟨o.span, false⟩) listed body) :
    Traced I o.region (o :: listed)
      ((Action.function o.span o.isAsync body).recorded o.kind o.span) := by
  refine ⟨keeps_record _ _ (keeps_function h.keeps), fun hholds hrecording hwithin hrun => ?_⟩
  obtain ⟨middle, hone, rfl⟩ := run_recorded hrun
  rename_i d
  have halike := alike_of_run hone
  obtain ⟨inner, hleads, hplaced, huses, hexplains, -⟩ :=
    tells_function hkind h hholds hrecording hone
  have hplain : suspended o d = false ∧ o.kind ≠ .awaitExpr := by
    unfold suspended
    revert hkind
    cases o.kind <;> simp [NodeKind.isFunction, NodeKind.isSite]
  have hnoted : Tells I o.region [o] middle (middle.note (.descriptor o.kind o.span d))
      (.noted o d) := by
    refine tells_noted hexpression ?_ (fun _ => ?_) fun name hname => ?_
    · simp [Trace.events, hplain.1, State.note]
    · simp [awaits, hplain, State.note, State.frame]
    · rw [hcallee] at hname
      cases hname
  rw [record_of_recording (halike.recording.trans hrecording)]
  refine ⟨.append (.function o inner) (.noted o d), hleads.trans hnoted.leads halike,
    ⟨hplaced, hnoted.placed⟩, ⟨?_, ?_⟩, fun p hp => ?_⟩
  · simp only [Trace.nodes, List.map_append]
    exact (huses.nodes.append (List.Subperm.refl [o])).trans (subperm_node o listed)
  · simp only [Trace.functions, List.append_nil, List.map_cons]
    exact (List.subperm_cons o).mpr huses.functions
  · rcases List.mem_append.mp hp with hp | hp
    · exact hexplains p hp
    · exact hnoted.explains p hp

theorem traced_parameters {owner : Span} (h : Traced I (some ⟨owner, true⟩) listed body) :
    Traced I (some ⟨owner, false⟩) listed (.parameters body) := by
  constructor
  · intro k s d t hholds hrun
    rcases hbody : body.run (s.pushFrame { isParameters := true }) with ⟨result, after⟩
    rw [Action.run, hbody] at hrun
    cases hrun
    have hkept := h.keeps (s := s.pushFrame { isParameters := true }) hholds hbody
    exact hkept
  · intro k s d t hholds hrecording hwithin hrun
    rcases hbody : body.run (s.pushFrame { isParameters := true }) with ⟨result, after⟩
    rw [Action.run, hbody] at hrun
    cases hrun
    have halike := alike_of_run hbody
    obtain ⟨inner, htells⟩ := h.tells (s := s.pushFrame { isParameters := true }) hholds hrecording
      ⟨List.cons_ne_nil _ _, rfl⟩ hbody
    refine ⟨.parameters inner, ⟨htells.leads.log, fun _ => ?_⟩, ⟨owner, rfl, htells.placed⟩,
      ⟨htells.uses.nodes, htells.uses.functions⟩, htells.explains⟩
    unfold State.frame
    rw [halike.frames_popFrame, Trace.waits, Bool.or_false]

end ShellAwait.Analysis
