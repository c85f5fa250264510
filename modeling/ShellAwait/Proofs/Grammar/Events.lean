import ShellAwait.Grammar.Parse

/-! # Readings as events

A reading can be written down as a flat list of events instead of a tree. A node that is put around
a finished one begins after it in the list; the finished node then names the event that begins the
one around it. The kind of a node is entered when the node is closed.

However a reading goes, its events are those of the elements that it has finished, and a node is
only ever put around a node that has just been finished.
-/

namespace ShellAwait.Grammar

inductive Event where
  /-- A node begins. It has no kind before it is closed. The parent is the number of the event that
  begins a node put around this one. -/
  | opened (kind : Option NodeKind) (parent : Option Nat)
  | closed
  | advanced
deriving DecidableEq, Repr

namespace Event

def withKind (kind : NodeKind) : Event → Event
  | .opened _ parent => .opened (some kind) parent
  | other => other

def withParent (number : Nat) : Event → Event
  | .opened kind _ => .opened kind (some number)
  | other => other

end Event

/-! ## Recording -/

structure Recorder where
  state : State
  events : List Event := []
  /-- The event that began the node which has just been finished. -/
  last : Option Nat := none

namespace Recorder

def eat (kind : TokenKind) (r : Recorder) : Bool × Recorder :=
  match r.state.eat kind with
  | (true, t) => (true, { state := t, events := r.events ++ [.advanced] })
  | (false, t) => (false, { r with state := t })

def close (what : Enclosure) (opener : Nat) (r : Recorder) : Bool × Recorder :=
  match r.eat what.closer with
  | (true, t) => (true, t)
  | (false, t) =>
      let pointed := if what.pointsBack then some opener else none
      (false, { t with state := t.state.note (.unclosed what) pointed })

/-- Begin a node whose first elements are given. -/
def enter (kind : NodeKind) (elements : List Tree) (r : Recorder) : Recorder where
  state := r.state.enter kind elements
  events := r.events ++ [.opened none none]

/-- The node that the event begins will stand in a node that begins next. -/
def adopt (number : Nat) (r : Recorder) : Recorder :=
  { r with events := r.events.modify number (·.withParent r.events.length) }

/-- Finish the node that the event has begun. -/
def leave (number : Nat) (outerKind : NodeKind) (outerDone : List Tree) (r : Recorder) :
    Recorder where
  state := r.state.leave outerKind outerDone
  events := r.events.modify number (·.withKind r.state.kind) ++ [.closed]
  last := some number

end Recorder

abbrev Recording := Recorder → Option (Bool × Recorder)

def recordRounds (goOn : View → Bool) (round : Recording) : Nat → Recorder → Option Recorder
  | 0, r => some r
  | limit + 1, r =>
      if goOn r.state.view then
        match round r with
        | some (true, t) => recordRounds goOn round limit t
        | some (false, t) => some t
        | none => none
      else some r

/-- Run a rule and write down its events. There is none for a node around something that is not a
node or has not just been finished. -/
def Rule.record (limit : Nat) (refer : Category → Recording) : Rule → Recording
  | .skip, r => some (true, r)
  | .fail, r => some (false, r)
  | .eat kind, r => some (r.eat kind)
  | .report problem, r => some (false, { r with state := r.state.note problem none })
  | .look choose, r => (choose r.state.view).record limit refer r
  | .seq first second, r =>
      match first.record limit refer r with
      | some (_, t) => second.record limit refer t
      | none => none
  | .andThen first second, r =>
      match first.record limit refer r with
      | some (true, t) => second.record limit refer t
      | some (false, t) => some (false, t)
      | none => none
  | .many goOn round, r =>
      (recordRounds goOn (round.record limit refer) limit r).map fun t => (true, t)
  | .node kind body, r =>
      match body.record limit refer (r.enter kind []) with
      | some (_, t) => some (true, t.leave r.events.length r.state.kind r.state.done)
      | none => none
  | .wrap kind body, r =>
      match r.last with
      | some number =>
          match body.record limit refer ((r.adopt number).enter kind (r.state.done.take 1)) with
          | some (_, t) =>
              some (true, t.leave r.events.length r.state.kind (r.state.done.drop 1))
          | none => none
      | none => none
  | .become kind, r => some (true, { r with state := { r.state with kind := kind } })
  | .bracket what body, r =>
      match r.eat what.opener with
      | (false, t) =>
          some (false, { t with state := t.state.note (.expected what.opener) none })
      | (true, t) =>
          match body.record limit refer t with
          | some (true, u) => some (u.close what r.state.taken)
          | some (false, u) => some (false, u)
          | none => none
  | .withNoIn noIn body, r =>
      match body.record limit refer { r with state := { r.state with noIn := noIn } } with
      | some (b, t) => some (b, { t with state := { t.state with noIn := r.state.noIn } })
      | none => none
  | .call category, r => refer category r

def recordRefer (table : Category → Rule) (limit : Nat) : Nat → Category → Recording
  | 0, _, r => some (false, r)
  | depth + 1, category, r => (table category).record limit (recordRefer table limit depth) r

def events? (tokens : List Lookahead) : Option (List Event) :=
  let limit := tokens.length + 1
  (script.record limit (recordRefer table limit (depthFor tokens))
    { state := State.start tokens, events := [.opened none none] }).map
      fun ran => ran.2.events.modify 0 (·.withKind .script) ++ [.closed]

/-! ## The events of a tree -/

mutual

/-- A finished element, with the order in which its nodes were begun. -/
inductive Built where
  | leaf (token : Token)
  | grown (node : Grown)

/-- A node that was begun before its elements, or put around the first of them. -/
inductive Grown where
  | node (kind : NodeKind) (children : List Built)
  | wrap (kind : NodeKind) (first : Grown) (rest : List Built)

end

mutual

def Built.tree : Built → Tree
  | .leaf token => .leaf token
  | .grown node => node.tree

def Grown.tree : Grown → Tree
  | .node kind children => .node kind (Built.trees children)
  | .wrap kind first rest => .node kind (first.tree :: Built.trees rest)

def Built.trees : List Built → List Tree
  | [] => []
  | first :: more => first.tree :: Built.trees more

end

mutual

def Built.size : Built → Nat
  | .leaf _ => 1
  | .grown node => node.size

def Grown.size : Grown → Nat
  | .node _ children => Built.sizes children + 2
  | .wrap _ first rest => first.size + (Built.sizes rest + 2)

def Built.sizes : List Built → Nat
  | [] => 0
  | first :: more => first.size + Built.sizes more

end

mutual

def Built.events (start : Nat) : Built → List Event
  | .leaf _ => [.advanced]
  | .grown node => node.events start none

def Grown.events (start : Nat) (parent : Option Nat) : Grown → List Event
  | .node kind children =>
      .opened (some kind) parent :: (Built.eventsAll (start + 1) children ++ [.closed])
  | .wrap kind first rest =>
      first.events start (some (start + first.size)) ++
        .opened (some kind) parent ::
          (Built.eventsAll (start + first.size + 1) rest ++ [.closed])

def Built.eventsAll (start : Nat) : List Built → List Event
  | [] => []
  | first :: more => first.events start ++ Built.eventsAll (start + first.size) more

end

/-- The event that begins the node, if the first of its events has the given number. -/
def Grown.mark (start : Nat) : Grown → Nat
  | .node _ _ => start
  | .wrap _ first _ => start + first.size

def Built.mark? (start : Nat) : Built → Option Nat
  | .leaf _ => none
  | .grown node => some (node.mark start)

def Built.lastMark? (start : Nat) : List Built → Option Nat
  | [] => none
  | [last] => last.mark? start
  | first :: second :: more => Built.lastMark? (start + first.size) (second :: more)

mutual

theorem length_events_built (start : Nat) (b : Built) : (b.events start).length = b.size := by
  match b with
  | .leaf token => rfl
  | .grown node => exact length_events_grown start none node

theorem length_events_grown (start : Nat) (parent : Option Nat) (g : Grown) :
    (g.events start parent).length = g.size := by
  match g with
  | .node kind children =>
      have hinner := length_eventsAll (start + 1) children
      simp only [Grown.events, Grown.size, List.length_cons, List.length_append, hinner,
        List.length_nil]
  | .wrap kind first rest =>
      have hfirst := length_events_grown start (some (start + first.size)) first
      have hinner := length_eventsAll (start + first.size + 1) rest
      simp only [Grown.events, Grown.size, List.length_cons, List.length_append, hfirst, hinner,
        List.length_nil]

theorem length_eventsAll (start : Nat) (bs : List Built) :
    (Built.eventsAll start bs).length = Built.sizes bs := by
  match bs with
  | [] => rfl
  | first :: more =>
      have hfirst := length_events_built start first
      have hmore := length_eventsAll (start + first.size) more
      simp only [Built.eventsAll, Built.sizes, List.length_append, hfirst, hmore]

end

theorem trees_append (a b : List Built) : Built.trees (a ++ b) = Built.trees a ++ Built.trees b := by
  induction a with
  | nil => rfl
  | cons first more ih => simp only [List.cons_append, Built.trees, ih]

theorem eventsAll_append (start : Nat) (a b : List Built) :
    Built.eventsAll start (a ++ b) =
      Built.eventsAll start a ++ Built.eventsAll (start + Built.sizes a) b := by
  induction a generalizing start with
  | nil => rfl
  | cons first more ih =>
      simp only [List.cons_append, Built.eventsAll, ih, Built.sizes, List.append_assoc,
        Nat.add_assoc]

theorem eventsAll_singleton (start : Nat) (b : Built) :
    Built.eventsAll start [b] = b.events start := List.append_nil _

theorem lastMark?_append (start : Nat) (a : List Built) (b : Built) :
    Built.lastMark? start (a ++ [b]) = b.mark? (start + Built.sizes a) := by
  induction a generalizing start with
  | nil => rfl
  | cons first more ih =>
      rw [Built.sizes, ← Nat.add_assoc, ← ih]
      cases more with
      | nil => rfl
      | cons second others => rfl

theorem exists_of_lastMark? {start number : Nat} {built : List Built}
    (h : Built.lastMark? start built = some number) :
    ∃ front node, built = front ++ [.grown node] ∧
      number = node.mark (start + Built.sizes front) := by
  rcases List.eq_nil_or_concat built with rfl | ⟨front, last, rfl⟩
  · cases h
  · rw [List.concat_eq_append, lastMark?_append] at h
    cases last with
    | leaf token => cases h
    | grown node => exact ⟨front, node, List.concat_eq_append, (Option.some.inj h).symm⟩

theorem modify_length (front : List Event) (event : Event) (back : List Event)
    (f : Event → Event) :
    (front ++ event :: back).modify front.length f = front ++ f event :: back := by
  induction front with
  | nil => rfl
  | cons first more ih => exact congrArg (first :: ·) ih

theorem modify_mark (before : List Event) (g : Grown) (number : Nat) :
    (before ++ g.events before.length none).modify (g.mark before.length) (·.withParent number) =
      before ++ g.events before.length (some number) := by
  cases g with
  | node kind children => exact modify_length before _ _ _
  | wrap kind first rest =>
      let inner := first.events before.length (some (before.length + first.size))
      have hlength : (before ++ inner).length = before.length + first.size := by
        rw [List.length_append, length_events_grown]
      have hmodified := modify_length (before ++ inner) (.opened (some kind) none)
        (Built.eventsAll (before.length + first.size + 1) rest ++ [.closed]) (·.withParent number)
      rw [hlength, List.append_assoc, List.append_assoc] at hmodified
      exact hmodified

/-! ## Every reading can be recorded -/

/-- The elements are what the recorder has written behind the given events, and what the reading
has finished behind the given trees. -/
structure Recorded (before : List Event) (base : List Tree) (r : Recorder)
    (built : List Built) : Prop where
  events : r.events = before ++ Built.eventsAll before.length built
  done : r.state.done = (Built.trees built).reverse ++ base
  last : r.last = Built.lastMark? before.length built

/-- A rule has been recorded as it runs. After a success or a failure a node may be known to have
just been finished. -/
def Records (success failure : Bool) (before : List Event) (base : List Tree)
    (recorded : Option (Bool × Recorder)) (ran : Bool × State) : Prop :=
  ∃ t built, recorded = some (ran.1, t) ∧ t.state = ran.2 ∧ Recorded before base t built ∧
    ((if ran.1 then success else failure) = true → t.last.isSome = true)

/-- Whether a part of the grammar that succeeds has made a node. -/
def Category.makesNode : Category → Bool
  | .statement => false
  | _ => true

/-- The rule puts nodes only around nodes that have just been finished. One may be assumed when it
starts, and may be relied on after a success or a failure. -/
inductive Wraps : Bool → Rule → Bool → Bool → Prop
  | skip {assumed failure : Bool} : Wraps assumed .skip assumed failure
  | fail {assumed success : Bool} : Wraps assumed .fail success assumed
  | eat {assumed : Bool} (kind : TokenKind) : Wraps assumed (.eat kind) false assumed
  | report {assumed success : Bool} (problem : Problem) :
      Wraps assumed (.report problem) success assumed
  | look {assumed success failure : Bool} {choose : View → Rule} :
      (∀ v, Wraps assumed (choose v) success failure) →
      Wraps assumed (.look choose) success failure
  | seq {assumed s f success failure : Bool} {first second : Rule} :
      Wraps assumed first s f → Wraps false second success failure →
      Wraps assumed (.seq first second) success failure
  | andThen {assumed middle success failure : Bool} {first second : Rule} :
      Wraps assumed first middle failure → Wraps middle second success failure →
      Wraps assumed (.andThen first second) success failure
  | many {kept failure : Bool} {goOn : View → Bool} {round : Rule} :
      Wraps kept round kept kept → Wraps kept (.many goOn round) kept failure
  | node {assumed s f failure : Bool} {kind : NodeKind} {body : Rule} :
      Wraps false body s f → Wraps assumed (.node kind body) true failure
  | wrap {s f failure : Bool} {kind : NodeKind} {body : Rule} :
      Wraps false body s f → Wraps true (.wrap kind body) true failure
  | become {assumed failure : Bool} (kind : NodeKind) :
      Wraps assumed (.become kind) assumed failure
  | bracket {assumed s f : Bool} {what : Enclosure} {body : Rule} :
      Wraps false body s f → Wraps assumed (.bracket what body) false false
  | withNoIn {assumed success failure noIn : Bool} {body : Rule} :
      Wraps assumed body success failure →
      Wraps assumed (.withNoIn noIn body) success failure
  | call {assumed : Bool} (category : Category) :
      Wraps assumed (.call category) category.makesNode false
  | weaken {assumed success success' failure failure' : Bool} {rule : Rule} :
      Wraps assumed rule success failure → (success' = true → success = true) →
      (failure' = true → failure = true) → Wraps assumed rule success' failure'

theorem State.eat_cases (s : State) (kind : TokenKind) :
    s.eat kind = (false, s) ∨ ∃ t rest, s.eat kind =
      (true, { s with ahead := rest, taken := s.taken + 1, done := .leaf t :: s.done }) := by
  unfold State.eat
  split
  · exact .inl rfl
  · split
    · exact .inr ⟨_, _, rfl⟩
    · exact .inl rfl

section

variable {before : List Event} {base : List Tree} {r : Recorder} {built : List Built}

theorem Recorded.withState (h : Recorded before base r built) {s : State}
    (hdone : s.done = r.state.done) : Recorded before base { r with state := s } built :=
  ⟨h.events, hdone.trans h.done, h.last⟩

theorem State.done_note (s : State) (problem : Problem) (opener : Option Nat) :
    (s.note problem opener).done = s.done := by
  unfold State.note
  split <;> rfl

theorem records_eat (h : Recorded before base r built) (kind : TokenKind) :
    Records false r.last.isSome before base (some (r.eat kind)) (r.state.eat kind) := by
  unfold Recorder.eat
  rcases r.state.eat_cases kind with heat | ⟨t, rest, heat⟩
  · rw [heat]
    exact ⟨r, built, rfl, rfl, h, id⟩
  · rw [heat]
    refine ⟨_, built ++ [.leaf t], rfl, rfl, ⟨?_, ?_, ?_⟩, nofun⟩
    · rw [eventsAll_append, ← List.append_assoc, ← h.events]
      rfl
    · rw [trees_append, List.reverse_append]
      exact congrArg (Tree.leaf t :: ·) h.done
    · rw [lastMark?_append]
      rfl

theorem records_close (h : Recorded before base r built) (what : Enclosure) (opener : Nat) :
    Records false false before base (some (r.close what opener)) (r.state.close what opener) := by
  obtain ⟨t, after, heat, hstate, hrecorded, -⟩ := records_eat h what.closer
  unfold Recorder.close State.close
  rw [Option.some.inj heat]
  rcases hran : r.state.eat what.closer with ⟨_ | _, u⟩
  · rw [hran] at hstate
    refine ⟨_, after, rfl, ?_, hrecorded.withState (State.done_note _ _ _), nofun⟩
    simp only [hstate]
  · rw [hran] at hstate
    exact ⟨t, after, rfl, hstate, hrecorded, nofun⟩

theorem Recorded.length_events (h : Recorded before base r built) :
    r.events.length = before.length + Built.sizes built := by
  rw [h.events, List.length_append, length_eventsAll]

theorem events_leave {front : List Event} {inside : List Tree} {t : Recorder} {inner : List Built}
    (h : Recorded (front ++ [.opened none none]) inside t inner) (kind : NodeKind)
    (outside : List Tree) :
    (t.leave front.length kind outside).events =
      front ++ .opened (some t.state.kind) none ::
        (Built.eventsAll (front.length + 1) inner ++ [.closed]) := by
  have hevents := h.events
  rw [List.append_assoc, List.length_append] at hevents
  change t.events.modify front.length _ ++ [.closed] = _
  rw [hevents, List.singleton_append, modify_length, List.append_assoc]
  rfl

theorem recorded_node (h : Recorded before base r built) {t : Recorder} {inner : List Built}
    (hinner : Recorded (r.events ++ [.opened none none]) [] t inner) :
    Recorded before base (t.leave r.events.length r.state.kind r.state.done)
      (built ++ [.grown (.node t.state.kind inner)]) := by
  refine ⟨?_, ?_, ?_⟩
  · rw [events_leave hinner, eventsAll_append, ← List.append_assoc, ← h.events,
      eventsAll_singleton, ← h.length_events]
    rfl
  · have hchildren : t.state.done.reverse = Built.trees inner := by
      rw [hinner.done, List.append_nil, List.reverse_reverse]
    rw [trees_append, List.reverse_append, List.append_assoc, ← h.done]
    change Tree.node _ t.state.done.reverse :: _ = _
    rw [hchildren]
    rfl
  · rw [lastMark?_append, ← h.length_events]
    rfl

theorem recorded_wrap {front : List Built} {g : Grown}
    (h : Recorded before base r (front ++ [.grown g])) {t : Recorder} {inner : List Built}
    (hinner : Recorded
      ((r.adopt (g.mark (before.length + Built.sizes front))).events ++ [.opened none none])
      (r.state.done.take 1) t inner) :
    Recorded before base (t.leave r.events.length r.state.kind (r.state.done.drop 1))
      (front ++ [.grown (.wrap t.state.kind g inner)]) := by
  let earlier := before ++ Built.eventsAll before.length front
  have hearlier : earlier.length = before.length + Built.sizes front := by
    rw [List.length_append, length_eventsAll]
  have hevents : r.events = earlier ++ g.events earlier.length none := by
    rw [h.events, eventsAll_append, ← List.append_assoc, eventsAll_singleton, hearlier]
    rfl
  have hlength : r.events.length = earlier.length + g.size := by
    rw [hevents, List.length_append, length_events_grown]
  have hadopted : (r.adopt (g.mark (before.length + Built.sizes front))).events =
      earlier ++ g.events earlier.length (some (earlier.length + g.size)) := by
    change r.events.modify _ (·.withParent r.events.length) = _
    rw [← hearlier, hlength, hevents, modify_mark]
  have hnumber : r.events.length =
      (r.adopt (g.mark (before.length + Built.sizes front))).events.length := by
    rw [hadopted, hlength]
    exact (List.length_append.trans (congrArg _ (length_events_grown _ _ g))).symm
  have hdone : r.state.done = g.tree :: ((Built.trees front).reverse ++ base) := by
    rw [h.done, trees_append, List.reverse_append]
    rfl
  refine ⟨?_, ?_, ?_⟩
  · rw [hnumber, events_leave hinner, ← hnumber, hlength, hadopted, eventsAll_append,
      ← List.append_assoc before, eventsAll_singleton, ← hearlier, List.append_assoc]
    rfl
  · have hchildren : t.state.done.reverse = g.tree :: Built.trees inner := by
      rw [hinner.done, hdone, List.take_succ_cons, List.take_zero, List.reverse_append,
        List.reverse_reverse]
      rfl
    rw [trees_append, List.reverse_append]
    change Tree.node _ t.state.done.reverse :: r.state.done.drop 1 = _
    rw [hchildren, hdone]
    rfl
  · rw [lastMark?_append, ← hearlier]
    exact congrArg some hlength

end

theorem records_rounds {goOn : View → Bool} {record : Recording} {round : Step} {kept : Bool}
    {before : List Event} {base : List Tree}
    (hround : ∀ {r built}, Recorded before base r built → (kept = true → r.last.isSome = true) →
      Records kept kept before base (record r) (round r.state))
    (limit : Nat) {r : Recorder} {built : List Built} (h : Recorded before base r built)
    (hlast : kept = true → r.last.isSome = true) :
    ∃ t after, recordRounds goOn record limit r = some t ∧
      t.state = rounds goOn round limit r.state ∧ Recorded before base t after ∧
      (kept = true → t.last.isSome = true) := by
  induction limit generalizing r built with
  | zero => exact ⟨r, built, rfl, rfl, h, hlast⟩
  | succ limit ih =>
      rw [recordRounds, rounds]
      by_cases hgo : goOn r.state.view = true
      · rw [if_pos hgo, if_pos hgo]
        obtain ⟨t, after, hrecord, hstate, hrecorded, hkept⟩ := hround h hlast
        rcases hran : round r.state with ⟨_ | _, u⟩
        · rw [hran] at hrecord hstate hkept
          rw [hrecord]
          exact ⟨t, after, rfl, hstate, hrecorded, hkept⟩
        · rw [hran] at hrecord hstate hkept
          rw [hrecord]
          obtain ⟨v, later, hlater, hv, hrest⟩ := ih hrecorded hkept
          rw [hstate] at hv
          exact ⟨v, later, hlater, hv, hrest⟩
      · rw [if_neg hgo, if_neg hgo]
        exact ⟨r, built, rfl, rfl, h, hlast⟩

/-- A rule that puts nodes only around finished nodes can be recorded, and its events are those of
what it finishes. -/
theorem Wraps.records {assumed success failure : Bool} {rule : Rule}
    (h : Wraps assumed rule success failure) (limit : Nat) {record : Category → Recording}
    {refer : Category → Step}
    (hrefer : ∀ c {before base r built}, Recorded before base r built →
      Records c.makesNode false before base (record c r) (refer c r.state))
    {before : List Event} {base : List Tree} {r : Recorder} {built : List Built}
    (hr : Recorded before base r built) (hlast : assumed = true → r.last.isSome = true) :
    Records success failure before base (rule.record limit record r)
      (rule.exec limit refer r.state) := by
  induction h generalizing before base r built with
  | skip => exact ⟨r, built, rfl, rfl, hr, hlast⟩
  | fail => exact ⟨r, built, rfl, rfl, hr, hlast⟩
  | eat kind =>
      obtain ⟨t, after, heat, hstate, hrecorded, hkept⟩ := records_eat hr kind
      refine ⟨t, after, heat, hstate, hrecorded, fun hassumed => hkept ?_⟩
      change (if (r.state.eat kind).1 then _ else _) = true at hassumed
      split at hassumed
      · cases hassumed
      · rw [if_neg ‹_›]
        exact hlast hassumed
  | report problem => exact ⟨_, built, rfl, rfl, hr.withState (State.done_note _ _ _), hlast⟩
  | look _ ih => exact ih r.state.view hr hlast
  | @seq assumed s f success failure first second _ _ ihFirst ihSecond =>
      obtain ⟨t, after, hrecord, hstate, hrecorded, -⟩ := ihFirst hr hlast
      rw [Rule.record, hrecord, Rule.exec, ← hstate]
      exact ihSecond hrecorded nofun
  | @andThen assumed middle success failure first second _ _ ihFirst ihSecond =>
      obtain ⟨t, after, hrecord, hstate, hrecorded, hkept⟩ := ihFirst hr hlast
      rw [Rule.record, hrecord, Rule.exec]
      rcases hran : first.exec limit refer r.state with ⟨_ | _, u⟩
      · rw [hran] at hstate hkept
        exact ⟨t, after, rfl, hstate, hrecorded, hkept⟩
      · rw [hran] at hstate hkept
        obtain rfl : t.state = u := hstate
        exact ihSecond hrecorded hkept
  | @many kept failure goOn round _ ih =>
      obtain ⟨t, after, hrounds, hstate, hrecorded, hkept⟩ :=
        records_rounds (fun hr hlast => ih hr hlast) limit hr hlast
      rw [Rule.record, hrounds]
      exact ⟨t, after, rfl, hstate, hrecorded, hkept⟩
  | @node assumed s f failure kind body _ ih =>
      have henter : Recorded (r.events ++ [.opened none none]) [] (r.enter kind []) [] :=
        ⟨(List.append_nil _).symm, rfl, rfl⟩
      obtain ⟨t, inner, hrecord, hstate, hrecorded, -⟩ := ih henter nofun
      rw [Rule.record, hrecord, Rule.exec]
      refine ⟨_, _, rfl, ?_, recorded_node hr hrecorded, fun _ => rfl⟩
      exact congrArg (State.leave r.state.kind r.state.done) hstate
  | @wrap s f failure kind body _ ih =>
      obtain ⟨number, hnumber⟩ := Option.isSome_iff_exists.mp (hlast rfl)
      obtain ⟨front, g, rfl, rfl⟩ := exists_of_lastMark? (hr.last.symm.trans hnumber)
      have henter : Recorded
          ((r.adopt (g.mark (before.length + Built.sizes front))).events ++ [.opened none none])
          (r.state.done.take 1) ((r.adopt (g.mark (before.length + Built.sizes front))).enter kind
            (r.state.done.take 1)) [] := ⟨(List.append_nil _).symm, rfl, rfl⟩
      obtain ⟨t, inner, hrecord, hstate, hrecorded, -⟩ := ih henter nofun
      rw [Rule.record, hnumber, Rule.exec]
      simp only [hrecord]
      refine ⟨_, _, rfl, ?_, recorded_wrap hr hrecorded, fun _ => rfl⟩
      exact congrArg (State.leave r.state.kind (r.state.done.drop 1)) hstate
  | become kind => exact ⟨_, built, rfl, rfl, hr.withState rfl, hlast⟩
  | @bracket assumed s f what body _ ih =>
      obtain ⟨t, after, heat, hstate, hrecorded, -⟩ := records_eat hr what.opener
      rw [Rule.record, Option.some.inj heat, Rule.exec]
      rcases hran : r.state.eat what.opener with ⟨_ | _, u⟩
      · rw [hran] at hstate
        obtain rfl : t.state = u := hstate
        exact ⟨_, after, rfl, rfl, hrecorded.withState (State.done_note _ _ _), nofun⟩
      · rw [hran] at hstate
        obtain rfl : t.state = u := hstate
        obtain ⟨v, inner, hrecord, hv, hinner, -⟩ := ih hrecorded nofun
        simp only [hrecord]
        rcases hbody : body.exec limit refer t.state with ⟨_ | _, w⟩
        · rw [hbody] at hv
          exact ⟨v, inner, rfl, hv, hinner, nofun⟩
        · rw [hbody] at hv
          obtain rfl : v.state = w := hv
          exact records_close hinner what r.state.taken
  | @withNoIn assumed success failure noIn body _ ih =>
      have hset : Recorded before base { r with state := { r.state with noIn := noIn } } built :=
        hr.withState rfl
      obtain ⟨t, after, hrecord, hstate, hrecorded, hkept⟩ := ih hset hlast
      rw [Rule.record, hrecord, Rule.exec]
      refine ⟨_, after, rfl, ?_, hrecorded.withState rfl, hkept⟩
      exact congrArg (fun s : State => { s with noIn := r.state.noIn }) hstate
  | call category => exact hrefer category hr
  | @weaken assumed success success' failure failure' rule _ hsuccess hfailure ih =>
      obtain ⟨t, after, hrecord, hstate, hrecorded, hkept⟩ := ih hr hlast
      refine ⟨t, after, hrecord, hstate, hrecorded, fun hwanted => hkept ?_⟩
      split at hwanted
      · rw [if_pos ‹_›]
        exact hsuccess hwanted
      · rw [if_neg ‹_›]
        exact hfailure hwanted

end ShellAwait.Grammar
