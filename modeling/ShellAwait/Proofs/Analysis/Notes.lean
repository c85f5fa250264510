import ShellAwait.Proofs.Analysis.Traced
import ShellAwait.Proofs.Script.Places

/-! # Typing rules and what a walk notes by them

The descriptor of an expression follows from those of its parts by a few rules, given a table of
what is known of every expression. A walk notes expressions one by one; whatever table agrees with
its notes, each note follows by a rule from the entries of the table.
-/

namespace ShellAwait

open Text Analysis Script

variable {a body : Action} {d : Descriptor}

/-- A target that takes its value apart, or that the text lacks. -/
def Expr.isPattern : Expr → Bool
  | .hole | .array .. | .object .. => true
  | _ => false

namespace Analysis

/-! ## Rules -/

/-- What is known of expressions: as they are for an `await`, and of what is left of them for those
who consume their value. -/
abbrev Table := Use → Expr → Option Descriptor

/-- The value of the last of some expressions. -/
def Table.last (table : Table) : List Expr → Option Descriptor
  | [] => some .unknown
  | [expr] => table .consumed expr
  | _ :: next :: more => table.last (next :: more)

/-- What reading a member of a value yields: shapes have members, also where they are deferred. -/
def memberRule (c : Catalogue) (name : Option String) : Descriptor → Descriptor
  | .shape shape | .deferred (.shape shape) =>
      match name with
      | some name => (c.member shape name).descriptor
      | none => .unknown
  | _ => .unknown

theorem memberOf_eq (c : Catalogue) (base : Descriptor) (name : Option String) :
    c.memberOf base name = memberRule c name base := by
  cases base with
  | deferred inner => cases inner <;> cases name <;> rfl
  | _ => cases name <;> rfl

/-- What an operator between two values other than `+` yields, whatever the values are. -/
def operatorRule (operator : TokenKind) : Descriptor := binaryDescriptor operator .unknown .unknown

theorem binaryDescriptor_eq {operator : TokenKind} (h : operator ≠ .plus) (l r : Descriptor) :
    binaryDescriptor operator l r = operatorRule operator := by
  cases operator with
  | plus => exact absurd rfl h
  | _ => rfl

/-- The descriptor of an expression that is used in some way, by the entries of a table. -/
inductive Typed (c : Catalogue) (table : Table) (use : Use) : Expr → Descriptor → Prop
  | literal {span kind text} :
      Typed c table use (.literal span kind text) (literalDescriptor kind)
  | template {span parts} : Typed c table use (.template span parts) .string
  | tagged {span tag parts d} : table .consumed tag = some d →
      Typed c table use (.tagged span tag parts) d.result
  | name {span name d} : Typed c table use (.name span name) d
  | thisValue {span} : Typed c table use (.thisValue span) .unknown
  | array {span elements} : Typed c table use (.array span elements) .array
  | object {span members} : Typed c table use (.object span members) .object
  | spread {span inner} : Typed c table use (.spread span inner) .unknown
  | function {span name fn result} : Typed c table use (.function span name fn) (.callable result)
  | arrow {span fn result} : Typed c table use (.arrow span fn) (.callable result)
  | paren {span inner d} : table use inner = some d → Typed c table use (.paren span inner) d
  | member {span object name optional base} : table .consumed object = some base →
      Typed c table use (.member span object name optional) (memberRule c name base)
  | index {span object key base} : table .consumed object = some base →
      Typed c table use (.index span object key)
        (memberRule c (key.stringValue?.map String.ofList) base)
  | call {span callee arguments d} : table .consumed callee = some d →
      Typed c table use (.call span callee arguments) d.result
  | construct {span callee hasList arguments} :
      Typed c table use (.construct span callee hasList arguments) .unknown
  | unary {span operator operand} :
      Typed c table use (.unary span operator operand) (unaryDescriptor operator.kind)
  | await {span operand d} : table .awaited operand = some d →
      Typed c table use (.await span operand) d.awaited
  | update {span operator operand} : Typed c table use (.update span operator operand) .number
  | logical {span operator left right l r} : isLogical operator.kind = true →
      table .consumed left = some l → table .consumed right = some r →
      Typed c table use (.binary span operator left right) (l.common r)
  | sum {span operator left right l r} : operator.kind = .plus →
      table .consumed left = some l → table .consumed right = some r →
      Typed c table use (.binary span operator left right) (binaryDescriptor .plus l r)
  | binary {span operator left right} : isLogical operator.kind = false → operator.kind ≠ .plus →
      Typed c table use (.binary span operator left right) (operatorRule operator.kind)
  | assign {span operator target value d} : target.isPattern = false →
      table .consumed value = some d →
      Typed c table use (.assign span operator target value) (assignedDescriptor operator.kind d)
  | destructure {span operator target value} : target.isPattern = true →
      Typed c table use (.assign span operator target value) .unknown
  | cond {span test consequent alternate a b} : table .consumed consequent = some a →
      table .consumed alternate = some b →
      Typed c table use (.cond span test consequent alternate) (a.common b)
  | sequence {span parts d} : table.last parts = some d →
      Typed c table use (.sequence span parts) d

/-- Of a target nothing is asked. -/
def Fits (c : Catalogue) (table : Table) (place : Place) (d : Descriptor) : Prop :=
  ∀ use, place.role = .value use → Typed c table use place.expr d

/-! ## Notes -/

/-- The descriptor that was noted of an expression, and whether its value is awaited there. -/
structure Note where
  place : Place
  d : Descriptor
  suspended : Bool := false

namespace Note

def span (n : Note) : Span := n.place.expr.span

/-- What is left for those who consume the value. -/
def value (n : Note) : Descriptor := if n.suspended then n.d.awaited else n.d

theorem nodup_spans {notes : List Note} {places : List Place}
    (h : (notes.map Note.place).Subperm places)
    (hplaces : (places.map fun p => p.expr.span).Nodup) : (notes.map Note.span).Nodup := by
  obtain ⟨picked, hperm, hsublist⟩ := h
  have hpicked := (hsublist.map fun p => p.expr.span).nodup hplaces
  have hspans := (hperm.map fun p => p.expr.span).nodup_iff.mp hpicked
  rwa [List.map_map] at hspans

end Note

/-- What the log has grown by, the latest note first. -/
structure Noted (notes : List Note) (log later : List Event) : Prop where
  types : loggedTypes later = notes.map (fun n => (n.span, n.d)) ++ loggedTypes log
  sites : loggedSites later = (notes.filter Note.suspended).map Note.span ++ loggedSites log

theorem Noted.trans {earlier later : List Note} {a b c : List Event} (hab : Noted earlier a b)
    (hbc : Noted later b c) : Noted (later ++ earlier) a c where
  types := by rw [hbc.types, hab.types, List.map_append, List.append_assoc]
  sites := by rw [hbc.sites, hab.sites, List.filter_append, List.map_append, List.append_assoc]

theorem noted_remarks {log later : List Event} (h : OnlyRemarks log later) : Noted [] log later := by
  obtain ⟨remarks, rfl, hremarks⟩ := h
  have hevents : loggedTypes remarks = [] ∧ loggedSites remarks = [] := by
    unfold loggedTypes loggedSites
    rw [List.filterMap_eq_nil_iff, List.filterMap_eq_nil_iff]
    constructor <;> intro event hevent <;> have hremark := hremarks event hevent <;>
      cases event <;> first | rfl | cases hremark
  constructor
  · rw [Trace.loggedTypes_append, hevents.1]
    rfl
  · rw [loggedSites, List.filterMap_append]
    exact congrArg (· ++ loggedSites log) hevents.2

/-- The table has the notes as its entries, and nothing is known of what the text lacks. -/
structure Table.Agrees (table : Table) (notes : List Note) : Prop where
  hole : ∀ use, table use .hole = some .unknown
  noted : ∀ n ∈ notes, table .awaited n.place.expr = some n.d ∧
    table .consumed n.place.expr = some n.value

theorem Table.Agrees.left {table : Table} {a b : List Note} (h : table.Agrees (a ++ b)) :
    table.Agrees a := ⟨h.hole, fun n hn => h.noted n (List.mem_append_left b hn)⟩

theorem Table.Agrees.right {table : Table} {a b : List Note} (h : table.Agrees (a ++ b)) :
    table.Agrees b := ⟨h.hole, fun n hn => h.noted n (List.mem_append_right a hn)⟩

/-! ## Walks -/

/-- What a walk has noted of the given places, each at most once. By the rules, if `pre` holds, and
then `post` holds as well. -/
def Recounts (c : Catalogue) (table : Table) (pre : Prop) (places : List Place)
    (log later : List Event) (post : Prop) : Prop :=
  ∃ notes, Noted notes log later ∧ (notes.map Note.place).Subperm places ∧
    (table.Agrees notes → pre → (∀ n ∈ notes, Fits c table n.place n.d) ∧ post)

/-- Every walk of the action that is recorded notes some of the places by the rules. -/
def Derives (c : Catalogue) (table : Table) (pre : Prop) (places : List Place) (action : Action)
    (post : Descriptor → Prop) : Prop :=
  ∀ ⦃s : State⦄ ⦃v : Descriptor⦄ ⦃t : State⦄, s.recording = true → action.run s = (.ok v, t) →
    Recounts c table pre places s.log t.log (post v)

variable {c : Catalogue} {table : Table} {pre : Prop} {places others : List Place}

namespace Recounts

variable {log middle later : List Event} {post post' : Prop}

theorem mono (h : Recounts c table pre places log later post) (hplaces : places.Subperm others)
    (hpost : pre → post → post') : Recounts c table pre others log later post' := by
  obtain ⟨notes, hnoted, hlisted, hrules⟩ := h
  refine ⟨notes, hnoted, hlisted.trans hplaces, fun hagrees hpre => ?_⟩
  obtain ⟨hfits, hholds⟩ := hrules hagrees hpre
  exact ⟨hfits, hpost hpre hholds⟩

theorem under (h : Recounts c table True places log later post) :
    Recounts c table pre places log later post := by
  obtain ⟨notes, hnoted, hlisted, hrules⟩ := h
  exact ⟨notes, hnoted, hlisted, fun hagrees _ => hrules hagrees trivial⟩

theorem trans (h : Recounts c table pre places log middle post)
    (hrest : Recounts c table (pre ∧ post) others middle later post') :
    Recounts c table pre (places ++ others) log later post' := by
  obtain ⟨earlier, hnoted, hlisted, hrules⟩ := h
  obtain ⟨notes, hnoted', hlisted', hrules'⟩ := hrest
  refine ⟨notes ++ earlier, hnoted.trans hnoted', ?_, fun hagrees hpre => ?_⟩
  · rw [List.map_append]
    exact List.perm_append_comm.subperm.trans (hlisted.append hlisted')
  · obtain ⟨hfits, hpost⟩ := hrules hagrees.right hpre
    obtain ⟨hfits', hpost'⟩ := hrules' hagrees.left ⟨hpre, hpost⟩
    exact ⟨List.forall_mem_append.mpr ⟨hfits', hfits⟩, hpost'⟩

theorem remarks (h : OnlyRemarks log later) (hpost : pre → post) :
    Recounts c table pre [] log later post :=
  ⟨[], noted_remarks h, List.Subperm.refl _, fun _ hpre =>
    ⟨fun _ hn => absurd hn List.not_mem_nil, hpost hpre⟩⟩

theorem behind (h : Recounts c table pre places middle later post)
    (hremarks : OnlyRemarks log middle) : Recounts c table pre places log later post := by
  obtain ⟨notes, hnoted, hrest⟩ := h
  have hboth := (noted_remarks hremarks).trans hnoted
  rw [List.append_nil] at hboth
  exact ⟨notes, hboth, hrest⟩

theorem event (h : Recounts c table pre places log later post) {event : Event}
    (htypes : loggedTypes [event] = []) (hsites : loggedSites [event] = []) :
    Recounts c table pre places log (event :: later) post := by
  obtain ⟨notes, hnoted, hrest⟩ := h
  refine ⟨notes, ⟨?_, ?_⟩, hrest⟩
  · rw [← hnoted.types, ← List.singleton_append, Trace.loggedTypes_append, htypes]
    rfl
  · rw [← hnoted.sites, loggedSites, ← List.singleton_append, List.filterMap_append]
    exact congrArg (· ++ loggedSites later) hsites

end Recounts

namespace Derives

variable {action : Action} {post post' : Descriptor → Prop}

theorem mono (h : Derives c table pre places action post) (hplaces : places.Subperm others)
    (hpost : ∀ v, pre → post v → post' v) : Derives c table pre others action post' :=
  fun _ v _ hrecording hrun => (h hrecording hrun).mono hplaces (hpost v)

theorem under (h : Derives c table True places action post) :
    Derives c table pre places action post :=
  fun _ _ _ hrecording hrun => (h hrecording hrun).under

theorem weaken (h : Derives c table pre places action post) (hpost : ∀ v, pre → post v → post' v) :
    Derives c table pre places action post' := h.mono (List.Subperm.refl _) hpost

theorem more (h : Derives c table pre places action post) (hplaces : places.Subperm others) :
    Derives c table pre others action post := h.mono hplaces fun _ _ hpost => hpost

end Derives

section

variable {action : Action} {post post' : Descriptor → Prop}

theorem derives_silent (h : ∀ {s v t}, action.run s = (.ok v, t) → t.log = s.log ∧ (pre → post v)) :
    Derives c table pre [] action post := by
  intro s v t hrecording hrun
  obtain ⟨hlog, hpost⟩ := h hrun
  exact .remarks (hlog ▸ OnlyRemarks.refl _) hpost

theorem derives_give (h : pre → post d) : Derives c table pre [] (.give d) post := by
  apply derives_silent
  intro s v t hrun
  cases hrun
  exact ⟨rfl, h⟩

theorem derives_bind {first : Action} {next : Descriptor → Action}
    (hfirst : Derives c table pre places first post)
    (hnext : ∀ d, Derives c table (pre ∧ post d) others (next d) post') :
    Derives c table pre (places ++ others) (first.bind next) post' := by
  intro s v t hrecording hrun
  obtain ⟨d, middle, hone, htwo⟩ := run_bind hrun
  have halike := alike_of_run hone
  exact (hfirst hrecording hone).trans (hnext d (halike.recording.trans hrecording) htwo)

theorem derives_bind_silent {first : Action} {next : Descriptor → Action}
    (hfirst : Derives c table pre places first post)
    (hnext : ∀ d, Derives c table (pre ∧ post d) [] (next d) post') :
    Derives c table pre places (first.bind next) post' := by
  have h := derives_bind hfirst hnext
  rwa [List.append_nil] at h

theorem derives_andThen {b : Action} (ha : Derives c table pre places a post)
    (hb : ∀ d, Derives c table (pre ∧ post d) others b post') :
    Derives c table pre (places ++ others) (a.andThen b) post' := derives_bind ha hb

theorem derives_thenGive (ha : Derives c table pre places a post) (h : pre → post' d) :
    Derives c table pre places (a.andThen (.give d)) post' :=
  derives_bind_silent ha fun _ => derives_give fun hpre => h hpre.1

theorem derives_map (f : Descriptor → Descriptor) (ha : Derives c table pre places a post)
    (h : ∀ d, pre → post d → post' (f d)) : Derives c table pre places (a.map f) post' :=
  derives_bind_silent ha fun d => derives_give fun hpre => h d hpre.1 hpre.2

/-! ## Findings -/

theorem recounts_note {place : Place} {suspended : Bool} {log later : List Event}
    (hnoted : Noted [⟨place, d, suspended⟩] log later) (hfits : pre → Fits c table place d) :
    Recounts c table pre [place] log later
      (table .awaited place.expr = some d ∧
        table .consumed place.expr = some (Note.mk place d suspended).value) := by
  refine ⟨_, hnoted, List.Subperm.refl _, fun hagrees hpre => ⟨?_, ?_⟩⟩
  · intro n hn
    rw [List.mem_singleton.mp hn]
    exact hfits hpre
  · exact hagrees.noted _ List.mem_cons_self

theorem derives_record (place : Place) (kind : NodeKind) (h : pre → Fits c table place d) :
    Derives c table pre [place] (.record kind place.expr.span d)
      fun v => ∀ use, table use place.expr = some v := by
  intro s v t hrecording hrun
  cases hrun
  rw [record_of_recording hrecording]
  have hnoted : Noted [⟨place, d, false⟩] s.log
    (s.note (.descriptor kind place.expr.span d)).log := ⟨rfl, rfl⟩
  apply (recounts_note hnoted h).mono (List.Subperm.refl _)
  intro _ hentry use
  cases use with
  | consumed => exact hentry.2
  | awaited => exact hentry.1

theorem subperm_place (place : Place) (places : List Place) :
    (places ++ [place]).Subperm (place :: places) :=
  (List.perm_append_singleton place places).subperm

theorem derives_recorded (place : Place) (kind : NodeKind)
    (h : Derives c table pre places a (Fits c table place)) :
    Derives c table pre (place :: places) (a.recorded kind place.expr.span)
      fun v => ∀ use, table use place.expr = some v :=
  (derives_bind h fun _ => derives_record place kind And.right).more (subperm_place place places)

theorem noted_used (place : Place) (kind : NodeKind) {v : Descriptor} {s t : State}
    (hrecording : s.recording = true)
    (hrun : ((Action.give d).used place.expr.span).run
      (s.note (.descriptor kind place.expr.span d)) = (.ok v, t)) :
    ∃ suspended, Noted [⟨place, d, suspended⟩] s.log t.log ∧
      v = (Note.mk place d suspended).value := by
  cases d with
  | deferred inner =>
      simp only [Action.used, Action.run, State.suspend] at hrun
      split at hrun
      · cases hrun
        exact ⟨false, ⟨rfl, rfl⟩, rfl⟩
      · have hframe := State.alike_onFrame
          (s.note (.descriptor kind place.expr.span (.deferred inner)))
          (f := fun frame => { frame with suspends := true }) fun _ => rfl
        rw [record_of_recording (hframe.recording.trans hrecording)] at hrun
        cases hrun
        refine ⟨true, ⟨?_, ?_⟩, rfl⟩
        · simp [State.note, log_onFrame, loggedTypes, Note.span]
        · simp [State.note, log_onFrame, loggedSites, Note.span]
  | _ =>
      cases hrun
      exact ⟨false, ⟨rfl, rfl⟩, rfl⟩

theorem derives_site (place : Place) (kind : NodeKind) (use : Use)
    (h : Derives c table pre places a (Fits c table place)) :
    Derives c table pre (place :: places) (Action.site use kind place.expr.span a)
      fun v => table use place.expr = some v := by
  cases use with
  | awaited => exact (derives_recorded place kind h).weaken fun v _ hentry => hentry .awaited
  | consumed =>
      intro s v t hrecording hrun
      obtain ⟨d, middle, hone, htwo⟩ := run_bind hrun
      obtain ⟨start, hthree, rfl⟩ := run_recorded hone
      have hstart := (alike_of_run hthree).recording.trans hrecording
      rw [record_of_recording hstart] at htwo
      obtain ⟨suspended, hnoted, rfl⟩ := noted_used place kind hstart htwo
      exact ((h hrecording hthree).trans (recounts_note hnoted And.right)).mono
        (subperm_place place places) fun _ hentry => hentry.2

/-! ## Scopes and branches -/

theorem derives_scoped (h : Derives c table pre places body post) :
    Derives c table pre places (.scoped body) post := by
  intro s v t hrecording hrun
  rcases hbody : body.run s.enter with ⟨result, after⟩
  rw [Action.run, hbody] at hrun
  cases hrun
  have hwalk := h (s := s.enter) hrecording hbody
  exact hwalk

theorem derives_fork {left right : Action} (merge : Descriptor → Descriptor → Descriptor)
    {post'' : Descriptor → Prop} (hleft : Derives c table pre places left post)
    (hright : ∀ a, Derives c table (pre ∧ post a) others right post')
    (h : ∀ a b, pre → post a → post' b → post'' (merge a b)) :
    Derives c table pre (places ++ others) (.fork left right merge) post'' := by
  intro s v t hrecording hrun
  obtain ⟨a, leftAfter, b, rightAfter, hone, htwo, rfl, rfl⟩ := run_fork hrun
  have halike := alike_of_run hone
  have hsecond := hright a (s := { leftAfter with bindings := s.bindings })
    (halike.recording.trans hrecording) htwo
  exact (hleft hrecording hone).trans
    (hsecond.mono (List.Subperm.refl _) fun hpre hpost => h a b hpre.1 hpre.2 hpost)

/-- Every recorded walk of the arms notes some of the places by the rules. -/
def DerivesArms (c : Catalogue) (table : Table) (places : List Place) (arms : Arms) : Prop :=
  ∀ ⦃exits : List Bindings⦄ ⦃s : State⦄ ⦃all : List Bindings⦄ ⦃t : State⦄, s.recording = true →
    arms.run exits s = (.ok all, t) → Recounts c table True places s.log t.log True

theorem derives_done : DerivesArms c table [] .done := by
  intro exits s all t hrecording hrun
  cases hrun
  exact .remarks (OnlyRemarks.refl _) fun _ => trivial

theorem derives_arm {test : Action} {rest : Arms} {more : List Place}
    (htest : Derives c table True places test post) (hbody : Derives c table True others body post')
    (hrest : DerivesArms c table more rest) :
    DerivesArms c table (places ++ others ++ more) (.arm test body rest) := by
  intro exits s all t hrecording hrun
  obtain ⟨v, entry, w, after, hone, htwo, hthree⟩ := run_arm hrun
  have hentry := (alike_of_run hone).recording.trans hrecording
  have hafter := (alike_of_run htwo).recording.trans hentry
  have hlast := hrest (s := { after with bindings := entry.bindings }) hafter hthree
  exact ((htest hrecording hone).trans (hbody hentry htwo).under).trans hlast.under

theorem derives_choose {arms : Arms} (hasDefault : Bool) (h : DerivesArms c table places arms) :
    Derives c table True places (.choose arms hasDefault) fun _ => True := by
  intro s v t hrecording hrun
  rw [Action.run] at hrun
  rcases harms : arms.run [] s with ⟨refusal | exits, after⟩
  · rw [harms] at hrun
    cases hrun
  · rw [harms] at hrun
    cases hrun
    have hwalk := h hrecording harms
    exact hwalk

/-! ## Loops, hoisting and functions -/

theorem derives_loop {iteration : Action} (names : List String)
    (h : Derives c table pre places iteration fun _ => True) :
    Derives c table pre places (.loop names iteration) fun _ => True := by
  intro s v t hrecording hrun
  obtain ⟨rounds, after, w, last, hsettle, hlast, rfl⟩ := run_loop hrun
  have hquiet := alike_settle (alike_run iteration) (settleLimit s.bindings names) 0
    ({ s with recording := false }.pushFrame {})
  rw [hsettle] at hquiet
  have hremarks : OnlyRemarks s.log (.settled rounds :: after.log) :=
    OnlyRemarks.cons (hquiet.quiet rfl) rfl
  have hround := h (s := State.note { after.popFrame with recording := s.recording }
    (.settled rounds)) hrecording hlast
  exact hround.behind hremarks

theorem derives_hoist (declarations : Declarations) :
    Derives c table pre [] (.hoist declarations) fun _ => True := by
  intro s v t hrecording hrun
  have hquiet := alike_hoistRounds (alike_round declarations) (declarations.count + 1) 0
    { s with recording := false }
  rw [Action.run] at hrun
  generalize hoistRounds declarations.round (declarations.count + 1) 0
    { s with recording := false } = outcome at hquiet hrun
  split at hrun
  · cases hrun
    exact .remarks (OnlyRemarks.refl _) fun _ => trivial
  · cases hrun
    exact .remarks (OnlyRemarks.cons (hquiet.quiet rfl) rfl) fun _ => trivial

theorem derives_function {span : Span} {isAsync : Bool} (h : Derives c table pre places body post) :
    Derives c table pre places (.function span isAsync body)
      fun v => ∃ result, v = .callable result := by
  intro s v t hrecording hrun
  obtain ⟨value, after, hbody, rfl, rfl⟩ := run_function hrun
  have hcallable : ∃ result, functionDescriptor isAsync after.frame value = .callable result := by
    unfold functionDescriptor
    split
    · exact ⟨_, rfl⟩
    · split <;> exact ⟨_, rfl⟩
  have hinner := (h (s := s.pushFrame {}) hrecording hbody).mono (List.Subperm.refl _)
    fun _ _ => hcallable
  unfold State.record
  split
  · split
    · exact hinner.event rfl rfl
    · exact hinner
  · exact hinner

theorem derives_parameters (h : Derives c table pre places body post) :
    Derives c table pre places (.parameters body) post := by
  intro s v t hrecording hrun
  rcases hbody : body.run (s.pushFrame { isParameters := true }) with ⟨result, after⟩
  rw [Action.run, hbody] at hrun
  cases hrun
  have hwalk := h (s := s.pushFrame { isParameters := true }) hrecording hbody
  exact hwalk

end

end Analysis

end ShellAwait
