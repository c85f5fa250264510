import ShellAwait.Proofs.Grammar.Marks
import ShellAwait.Proofs.Tree.OfScript

/-! # Trees from events

A tree is assembled from the events of a reading in one pass. Where a node begins that others were
put around, those begin first, the outermost of them before the rest; their own events are struck out
so that they begin once. Trivia goes in front of whatever comes next.

Main statement: the events of every text can be assembled, at each of them but the first and the last
some node is open, and the result is the tree of the text, which has all its tokens.
-/

namespace ShellAwait.Tree

open Grammar Token

variable {parent : Option Nat} {events left : List Event} {kinds : List NodeKind}

/-- The kinds of the nodes around one, from the inside out, and the events with these struck out.
There are none if the way leads to an event that begins no node, or does not end. -/
def follow : Nat → Option Nat → List Event → Option (List (Option NodeKind) × List Event)
  | _, none, events => some ([], events)
  | 0, some _, _ => none
  | fuel + 1, some number, events =>
      match events[number]? with
      | some (.opened kind parent) =>
          (follow fuel parent (events.set number (.opened none none))).map
            fun (kinds, left) => (kind :: kinds, left)
      | _ => none

structure Assembly where
  tokens : List Token
  /-- The elements of the innermost open node, the last one first. -/
  children : List Tree := []
  /-- The open nodes from the inside out, each with the elements in front of it. -/
  opened : List (NodeKind × List Tree) := []

namespace Assembly

/-- Put elements behind the others, with the tokens that are left after them. -/
def add (laid : List Tree × List Token) (a : Assembly) : Assembly :=
  { a with children := laid.1.reverse ++ a.children, tokens := laid.2 }

def trivia (a : Assembly) : Assembly := a.add (leadingTrivia a.tokens, afterTrivia a.tokens)

/-- Begin a node. The trivia in front of the root is left for it. -/
def begin (a : Assembly) (kind : NodeKind) : Assembly :=
  let b := if a.opened.isEmpty then a else a.trivia
  { b with children := [], opened := (kind, b.children) :: b.opened }

/-- Finish the innermost node. The root takes the trivia at the end. -/
def finish (a : Assembly) : Option Assembly :=
  let b := if a.opened.length = 1 then a.trivia else a
  match b.opened with
  | [] => none
  | (kind, front) :: outer =>
      some { b with children := .node kind b.children.reverse :: front, opened := outer }

def advance (a : Assembly) : Assembly :=
  match a.trivia.tokens with
  | [] => a.trivia
  | token :: rest => a.trivia.add ([.leaf token], rest)

/-- Carry out the event with the given number. -/
def step (number : Nat) : List Event × Assembly → Option (List Event × Assembly)
  | (events, a) =>
      match events[number]? with
      | some (.opened kind parent) =>
          (follow events.length parent events).map fun (kinds, left) =>
            (left, ((kind :: kinds).reverse.filterMap id).foldl begin a)
      | some .closed => a.finish.map (events, ·)
      | some .advanced => some (events, a.advance)
      | none => none

def run (number : Nat) : Nat → List Event × Assembly → Option (List Event × Assembly)
  | 0, s => some s
  | count + 1, s => (step number s).bind (run (number + 1) count)

end Assembly

/-! ## Nodes around a node -/

/-- The way from a node leads through events which begin nodes of the given kinds. They are struck
out of the events, of which the first has the given number. -/
inductive Leads : Nat → Option Nat → List Event → List NodeKind → List Event → Prop
  | nowhere (start : Nat) (events : List Event) : Leads start none events [] events
  | around {start : Nat} (front : List Event) (kind : NodeKind) {parent : Option Nat}
      {events left : List Event} {kinds : List NodeKind} :
      Leads (start + front.length + 1) parent events kinds left →
      Leads start (some (start + front.length)) (front ++ .opened (some kind) parent :: events)
        (kind :: kinds) (front ++ .opened none none :: left)

theorem Leads.length_le {start : Nat} (h : Leads start parent events kinds left) :
    kinds.length ≤ events.length := by
  induction h with
  | nowhere start events => exact Nat.zero_le _
  | around front kind _ ih =>
      simp only [List.length_append, List.length_cons]
      omega

theorem Leads.behind {start : Nat} (front : List Event)
    (h : Leads (start + front.length) parent events kinds left) :
    Leads start parent (front ++ events) kinds (front ++ left) := by
  cases h with
  | nowhere => exact .nowhere start _
  | around inner kind h =>
      rw [Nat.add_assoc start, ← List.length_append] at h
      have hall := Leads.around (front ++ inner) kind h
      rw [List.append_assoc, List.append_assoc, List.length_append, ← Nat.add_assoc] at hall
      exact hall

theorem Leads.behind_elements {number : Nat} (inside : List Built)
    (h : Leads (number + (Built.sizes inside + 1)) parent events kinds left) :
    Leads number parent (Built.eventsAll number inside ++ .closed :: events) kinds
      (Built.eventsAll number inside ++ .closed :: left) := by
  have hlength : (Built.eventsAll number inside ++ [Event.closed]).length =
      Built.sizes inside + 1 := by
    rw [List.length_append, length_eventsAll]
    rfl
  rw [← hlength] at h
  have hall := h.behind
  rw [List.append_assoc, List.append_assoc] at hall
  exact hall

theorem getElem?_length_append (earlier : List Event) (event : Event) (later : List Event) :
    (earlier ++ event :: later)[earlier.length]? = some event := by
  rw [List.getElem?_append_right (Nat.le_refl _), Nat.sub_self]
  rfl

theorem follow_of_leads {start : Nat} (h : Leads start parent events kinds left)
    {earlier : List Event} (hearlier : earlier.length = start) {fuel : Nat}
    (hfuel : kinds.length ≤ fuel) :
    follow fuel parent (earlier ++ events) = some (kinds.map some, earlier ++ left) := by
  induction h generalizing earlier fuel with
  | nowhere start events => cases fuel <;> rfl
  | @around start front kind parent events left kinds _ ih =>
      cases fuel with
      | zero => cases hfuel
      | succ fuel =>
          obtain ⟨past, hpast⟩ : ∃ past, past = earlier ++ front := ⟨_, rfl⟩
          have hnumber : start + front.length = past.length := by
            rw [hpast, List.length_append, hearlier]
          have hset : (past ++ .opened (some kind) parent :: events).set past.length
              (.opened none none) = past ++ [.opened none none] ++ events := by
            rw [List.set_append_right _ _ (Nat.le_refl _), Nat.sub_self, List.append_assoc]
            rfl
          have hlength : (past ++ [Event.opened none none]).length = start + front.length + 1 := by
            rw [List.length_append, hnumber]
            rfl
          have hrest := ih hlength (Nat.le_of_succ_le_succ hfuel)
          rw [hnumber, ← List.append_assoc, ← hpast, follow, getElem?_length_append]
          simp only [hset, hrest, Option.map_some, List.map_cons]
          simp only [hpast, List.append_assoc, List.singleton_append]

/-! ## Assembling the elements of a node -/

namespace Assembly

/-- From one event to another, with at least so many open nodes all the way. -/
inductive Reaches (depth : Nat) :
    Nat → List Event × Assembly → Nat → List Event × Assembly → Prop
  | here {number : Nat} {s : List Event × Assembly} :
      depth ≤ s.2.opened.length → Reaches depth number s number s
  | step {number last : Nat} {s t u : List Event × Assembly} :
      depth ≤ s.2.opened.length → Assembly.step number s = some t →
      Reaches depth (number + 1) t last u → Reaches depth number s last u

section

variable {depth first middle last : Nat} {s t u : List Event × Assembly}

theorem Reaches.trans (hst : Reaches depth first s middle t) (htu : Reaches depth middle t last u) :
    Reaches depth first s last u := by
  induction hst with
  | here _ => exact htu
  | step hdepth hstep _ ih => exact .step hdepth hstep (ih htu)

theorem Reaches.of_deeper {less : Nat} (h : Reaches depth first s last t) (hless : less ≤ depth) :
    Reaches less first s last t := by
  induction h with
  | here hdepth => exact .here (Nat.le_trans hless hdepth)
  | step hdepth hstep _ ih => exact .step (Nat.le_trans hless hdepth) hstep ih

/-- Every number of events up to the last can be carried out. -/
theorem Reaches.run (h : Reaches depth first s last t) :
    first ≤ last ∧ Assembly.run first (last - first) s = some t ∧
      ∀ count ≤ last - first, ∃ u, Assembly.run first count s = some u ∧
        depth ≤ u.2.opened.length := by
  induction h with
  | @here number s hdepth =>
      rw [Nat.sub_self]
      refine ⟨Nat.le_refl _, rfl, fun count hcount => ?_⟩
      rw [Nat.le_zero.mp hcount]
      exact ⟨s, rfl, hdepth⟩
  | @step number last s t u hdepth hstep _ ih =>
      obtain ⟨hle, hrun, hall⟩ := ih
      have hcount : last - number = last - (number + 1) + 1 := by omega
      refine ⟨by omega, ?_, fun count hle => ?_⟩
      · rw [hcount, Assembly.run, hstep]
        exact hrun
      · cases count with
        | zero => exact ⟨s, rfl, hdepth⟩
        | succ count =>
            rw [Assembly.run, hstep]
            exact hall count (by omega)

end

def beginAll (a : Assembly) (kinds : List NodeKind) : Assembly := kinds.reverse.foldl begin a

theorem beginAll_cons (a : Assembly) (kind : NodeKind) (kinds : List NodeKind) :
    a.beginAll (kind :: kinds) = (a.beginAll kinds).begin kind := by
  rw [beginAll, List.reverse_cons, List.foldl_append]
  rfl

theorem length_opened_begin (a : Assembly) (kind : NodeKind) :
    (a.begin kind).opened.length = a.opened.length + 1 := by
  unfold begin
  split <;> rfl

theorem length_opened_beginAll (a : Assembly) (kinds : List NodeKind) :
    (a.beginAll kinds).opened.length = a.opened.length + kinds.length := by
  induction kinds with
  | nil => rfl
  | cons kind kinds ih =>
      rw [beginAll_cons, length_opened_begin, ih]
      rfl

theorem add_add (a : Assembly) (first second : List Tree × List Token) :
    (a.add first).add second = a.add (first.1 ++ second.1, second.2) := by
  simp only [add, List.reverse_append, List.append_assoc]

section

variable (a : Assembly) (earlier : List Event) {later : List Event}

theorem step_opened (kind : NodeKind) (hleads : Leads (earlier.length + 1) parent later kinds left) :
    step earlier.length (earlier ++ .opened (some kind) parent :: later, a) =
      some (earlier ++ .opened (some kind) parent :: left, a.beginAll (kind :: kinds)) := by
  have hfollow : follow (earlier ++ .opened (some kind) parent :: later).length parent
      (earlier ++ .opened (some kind) parent :: later) =
        some (kinds.map some, earlier ++ .opened (some kind) parent :: left) := by
    have hlength := hleads.length_le
    apply follow_of_leads (hleads.behind [_]) rfl
    rw [List.length_append, List.length_cons]
    omega
  have hkinds : (some kind :: kinds.map some).reverse.filterMap id = (kind :: kinds).reverse := by
    rw [← List.map_cons, ← List.map_reverse, List.filterMap_map]
    exact List.filterMap_some
  simp only [step, getElem?_length_append, hfollow, Option.map_some, hkinds]
  rfl

theorem step_struck (later : List Event) :
    step earlier.length (earlier ++ .opened none none :: later, a) =
      some (earlier ++ .opened none none :: later, a) := by
  have hfollow (fuel : Nat) (events : List Event) : follow fuel none events = some ([], events) := by
    cases fuel <;> rfl
  simp only [step, getElem?_length_append, hfollow, Option.map_some]
  rfl

theorem step_closed :
    step earlier.length (earlier ++ .closed :: later, a) =
      a.finish.map (earlier ++ .closed :: later, ·) := by
  simp only [step, getElem?_length_append]

theorem step_advanced (token : Token) :
    step earlier.length (earlier ++ .advanced :: later, a) =
      some (earlier ++ .advanced :: later, a.add (lay (.leaf token) a.tokens)) := by
  have hadvance : a.advance = a.add (lay (.leaf token) a.tokens) := by
    simp only [advance, trivia, lay]
    change (match afterTrivia a.tokens with | [] => _ | token :: rest => _) = _
    cases afterTrivia a.tokens with
    | nil => rfl
    | cons next rest => exact add_add _ _ _
  simp only [step, getElem?_length_append, hadvance]

end

theorem finish_begin {a : Assembly} (ha : 0 < a.opened.length) (kind : NodeKind)
    (trees : List Tree) :
    ((a.begin kind).add (layAll trees (a.begin kind).tokens)).finish =
      some (a.add (lay (.node kind trees) a.tokens)) := by
  have hopened : a.opened.isEmpty = false := by
    cases ha' : a.opened with
    | nil => simp [ha'] at ha
    | cons => rfl
  have hdepth : ¬ (a.opened.length + 1 = 1) := by omega
  simp only [begin, hopened, finish, add, trivia, Bool.false_eq_true, if_false, List.length_cons,
    hdepth, lay]
  simp

theorem Reaches.closed {a : Assembly} (ha : 0 < a.opened.length) {kind : NodeKind}
    {trees : List Tree} {depth number : Nat} (hdepth : depth ≤ a.opened.length)
    {s : List Event × Assembly} {past later : List Event}
    (h : Reaches depth number s past.length
      (past ++ .closed :: later, (a.begin kind).add (layAll trees (a.begin kind).tokens))) :
    Reaches depth number s (past ++ [Event.closed]).length
      (past ++ [.closed] ++ later, a.add (lay (.node kind trees) a.tokens)) := by
  have hstep : Assembly.step past.length
      (past ++ .closed :: later, (a.begin kind).add (layAll trees (a.begin kind).tokens)) =
      some (past ++ .closed :: later, a.add (lay (.node kind trees) a.tokens)) := by
    rw [step_closed, finish_begin ha]
    rfl
  have hinner : depth ≤ (a.begin kind).opened.length := by
    rw [length_opened_begin]
    omega
  rw [List.append_assoc, List.length_append]
  exact h.trans (.step hinner hstep (.here hdepth))

end Assembly

open Assembly

mutual

theorem reaches_built (b : Built) (a : Assembly) (earlier later : List Event)
    (hopen : 0 < a.opened.length) :
    ∃ past, past.length = earlier.length + b.size ∧
      Reaches a.opened.length earlier.length
        (earlier ++ (b.events earlier.length ++ later), a) past.length
        (past ++ later, a.add (b.tree.lay a.tokens)) := by
  match b with
  | .leaf token =>
      refine ⟨earlier ++ [.advanced], List.length_append, ?_⟩
      rw [List.append_assoc, List.length_append]
      exact .step (Nat.le_refl _) (step_advanced a earlier token) (.here (Nat.le_refl _))
  | .grown g => exact reaches_grown g a earlier (.nowhere _ later) hopen

theorem reaches_grown (g : Grown) (a : Assembly) (earlier : List Event) {later left : List Event}
    {parent : Option Nat} {kinds : List NodeKind}
    (hleads : Leads (earlier.length + g.size) parent later kinds left)
    (hopen : 0 < a.opened.length) :
    ∃ past, past.length = earlier.length + g.size ∧
      Reaches a.opened.length earlier.length
        (earlier ++ (g.events earlier.length parent ++ later), a) past.length
        (past ++ left, (a.beginAll kinds).add (g.tree.lay (a.beginAll kinds).tokens)) := by
  have hdepth : a.opened.length ≤ (a.beginAll kinds).opened.length := by
    rw [length_opened_beginAll]
    omega
  have hinner (kind : NodeKind) : a.opened.length ≤ ((a.beginAll kinds).begin kind).opened.length := by
    rw [length_opened_begin]
    omega
  have houter : 0 < (a.beginAll kinds).opened.length := Nat.lt_of_lt_of_le hopen hdepth
  match g with
  | .node kind children =>
      have hsize : earlier.length + (Grown.node kind children).size =
          earlier.length + 1 + (Built.sizes children + 1) := by
        rw [Grown.size]
        omega
      rw [hsize] at hleads
      have hopened := step_opened a earlier kind (Leads.behind_elements children hleads)
      rw [beginAll_cons] at hopened
      obtain ⟨past, hpast, hreach⟩ := reaches_all children ((a.beginAll kinds).begin kind)
        (earlier ++ [.opened (some kind) parent]) (.closed :: left)
        (Nat.lt_of_lt_of_le hopen (hinner kind))
      rw [List.length_append] at hpast hreach
      rw [List.append_assoc] at hreach
      refine ⟨past ++ [.closed], ?_, ?_⟩
      · rw [List.length_append, hpast, hsize, ← Nat.add_assoc]
        rfl
      · rw [Grown.events, List.cons_append, List.append_assoc]
        have hall := Reaches.step (Nat.le_refl _) hopened (hreach.of_deeper (hinner kind))
        exact hall.closed houter hdepth
  | .wrap kind first rest =>
      let begun := (a.beginAll kinds).begin kind
      obtain ⟨number, hnumber⟩ : ∃ number, number = earlier.length + first.size := ⟨_, rfl⟩
      have hsize : earlier.length + (Grown.wrap kind first rest).size =
          number + 1 + (Built.sizes rest + 1) := by
        rw [hnumber, Grown.size]
        omega
      rw [hsize] at hleads
      have hbehind := Leads.around [] kind (Leads.behind_elements rest hleads)
      obtain ⟨middle, hmiddle, hfirst⟩ := reaches_grown first a earlier (hnumber ▸ hbehind) hopen
      rw [beginAll_cons] at hfirst
      -- The event of the node that was put around has been struck out by now.
      have hstruck := step_struck (begun.add (first.tree.lay begun.tokens)) middle
        (Built.eventsAll (number + 1) rest ++ .closed :: left)
      obtain ⟨past, hpast, hrest⟩ := reaches_all rest (begun.add (first.tree.lay begun.tokens))
        (middle ++ [.opened none none]) (.closed :: left) (Nat.lt_of_lt_of_le hopen (hinner kind))
      rw [List.length_append, hmiddle, ← hnumber] at hpast hrest
      rw [List.append_assoc, add_add] at hrest
      rw [hmiddle, ← hnumber] at hfirst hstruck
      refine ⟨past ++ [.closed], ?_, ?_⟩
      · rw [List.length_append, hpast, hsize, ← Nat.add_assoc]
        rfl
      · rw [Grown.events, ← hnumber, List.append_assoc, List.cons_append, List.append_assoc]
        have hall := hfirst.trans
          (.step (hinner kind) hstruck (hrest.of_deeper (hinner kind)))
        exact hall.closed houter hdepth

theorem reaches_all (bs : List Built) (a : Assembly) (earlier later : List Event)
    (hopen : 0 < a.opened.length) :
    ∃ past, past.length = earlier.length + Built.sizes bs ∧
      Reaches a.opened.length earlier.length
        (earlier ++ (Built.eventsAll earlier.length bs ++ later), a) past.length
        (past ++ later, a.add (layAll (Built.trees bs) a.tokens)) := by
  match bs with
  | [] => exact ⟨earlier, rfl, .here (Nat.le_refl _)⟩
  | first :: more =>
      obtain ⟨middle, hmiddle, hfirst⟩ := reaches_built first a earlier
        (Built.eventsAll (earlier.length + first.size) more ++ later) hopen
      obtain ⟨past, hpast, hmore⟩ := reaches_all more (a.add (first.tree.lay a.tokens)) middle later
        hopen
      rw [add_add, hmiddle] at hmore
      rw [hmiddle] at hfirst
      refine ⟨past, ?_, ?_⟩
      · rw [hpast, hmiddle, Built.sizes, Nat.add_assoc]
      · rw [Built.eventsAll, List.append_assoc]
        exact hfirst.trans hmore

end

/-! ## Whole texts -/

mutual

theorem kinded_built (b : Built) (start : Nat) (parent : Option Nat) :
    .opened none parent ∉ b.events start := by
  match b with
  | .leaf token => simp [Built.events]
  | .grown g => exact kinded_grown g start none parent

theorem kinded_grown (g : Grown) (start : Nat) (outer parent : Option Nat) :
    .opened none parent ∉ g.events start outer := by
  match g with
  | .node kind children =>
      have hinside := kinded_all children (start + 1) parent
      simp [Grown.events, hinside]
  | .wrap kind first rest =>
      have hfirst := kinded_grown first start (some (start + first.size)) parent
      have hinside := kinded_all rest (start + first.size + 1) parent
      simp [Grown.events, hfirst, hinside]

theorem kinded_all (bs : List Built) (start : Nat) (parent : Option Nat) :
    .opened none parent ∉ Built.eventsAll start bs := by
  match bs with
  | [] => exact List.not_mem_nil
  | first :: more =>
      have hfirst := kinded_built first start parent
      have hmore := kinded_all more (start + first.size) parent
      simp [Built.eventsAll, hfirst, hmore]

end

/-- All the events can be carried out. A node is open from the first of them to the last, and then
the tree is done and has taken all the tokens. -/
structure Assembles (events : List Event) (tokens : List Token) (tree : Tree) : Prop where
  result : ∃ left, run 0 events.length (events, { tokens := tokens }) =
    some (left, { tokens := [], children := [tree] })
  balanced : ∀ count ≤ events.length, ∃ s,
    run 0 count (events, { tokens := tokens }) = some s ∧
      (s.2.opened = [] ↔ count = 0 ∨ count = events.length)

theorem assembles_script (built : List Built) {tokens : List Token}
    (hrest : (layAll (Built.trees built) tokens).2 = []) :
    Assembles (Grown.events 0 none (.node .script built)) tokens
      (ofElements (Built.trees built) tokens) := by
  let root : Assembly := { tokens := tokens, opened := [(.script, [])] }
  let opening := Event.opened (some .script) none
  let events := Grown.events 0 none (.node .script built)
  have hbegin : Assembly.step 0 (events, { tokens := tokens }) = some (events, root) :=
    step_opened { tokens := tokens } [] .script (.nowhere _ _)
  obtain ⟨past, hpast, hreach⟩ := reaches_all built root [opening] [.closed] Nat.zero_lt_one
  have hend : Assembly.step past.length
      (past ++ [.closed], root.add (layAll (Built.trees built) tokens)) =
      some (past ++ [.closed],
        { tokens := [], children := [ofElements (Built.trees built) tokens] }) := by
    rw [step_closed]
    simp only [finish, root, add, hrest, List.length_singleton, if_true, trivia]
    simp [leadingTrivia, afterTrivia, ofElements]
  have hlength : events.length = past.length + 1 := by
    have hsize := length_events_grown 0 none (.node .script built)
    rw [hsize, hpast, Grown.size, List.length_singleton]
    omega
  have hall : Reaches 0 0 (events, { tokens := tokens }) (past.length + 1)
      (past ++ [.closed], { tokens := [], children := [ofElements (Built.trees built) tokens] }) :=
    .step (Nat.zero_le _) hbegin ((hreach.of_deeper (Nat.zero_le _)).trans
      (.step (Nat.zero_le _) hend (.here (Nat.zero_le _))))
  have hrun := hall.run.2.1
  rw [Nat.sub_zero, ← hlength] at hrun
  refine ⟨⟨_, hrun⟩, fun count hcount => ?_⟩
  rcases Nat.eq_zero_or_pos count with rfl | hpositive
  · exact ⟨_, rfl, by simp⟩
  · rcases Nat.lt_or_eq_of_le hcount with hless | rfl
    · -- Between the first event and the last the root is open.
      obtain ⟨before, rfl⟩ : ∃ before, count = before + 1 := ⟨count - 1, by omega⟩
      change before + 1 < events.length at hless
      obtain ⟨s, hs, hopen⟩ := hreach.run.2.2 before (by rw [List.length_singleton]; omega)
      refine ⟨s, ?_, ?_⟩
      · rw [run]
        exact (congrArg (·.bind (run 1 before)) hbegin).trans hs
      · have hne : s.2.opened ≠ [] := by
          intro hnil
          rw [hnil] at hopen
          exact Nat.not_succ_le_zero 0 hopen
        constructor
        · exact fun h => absurd h hne
        · change before + 1 = 0 ∨ before + 1 = events.length → _
          omega
    · exact ⟨_, hrun, by simp⟩

theorem assembles_parseTokens {body : List Token} {ending : Token} (hending : ending.kind = .eof)
    (hbody : ∀ t ∈ body, t.kind ≠ .eof) :
    ∃ events, events? (significant (body ++ [ending])) = some events ∧
      (∀ parent, .opened none parent ∉ events) ∧
      Assembles events (body ++ [ending]) (parseTokens (body ++ [ending])).tree := by
  obtain ⟨built, hevents, htrees⟩ := exists_events (significant (body ++ [ending]))
  have htree : (parseTokens (body ++ [ending])).tree =
      ofElements (Built.trees built) (body ++ [ending]) := by
    rw [htrees]
    rfl
  have hrest : (layAll (Built.trees built) (body ++ [ending])).2 = [] := by
    have hall := (lays_parseTokens hending hbody).leaves
    have hleaves := leaves_parseTokens hending hbody
    rw [htree] at hleaves
    change leavesAll (layAll (Built.trees built) (body ++ [ending])).1 = _ at hleaves
    rw [← htrees, hleaves] at hall
    exact List.append_right_eq_self.mp hall
  refine ⟨_, hevents, kinded_grown _ _ _, ?_⟩
  rw [htree]
  exact assembles_script built hrest

/-- Every text is read into one tree, which has all its tokens in order, and the way to it through
the events is balanced. -/
theorem lossless_parse (source : List Char) :
    ∃ children body events,
      (parse source).tree = .node .script children ∧
      (parse source).tree.leaves = tokenize source ∧
      tokenize source = body ++ [endOfText] ∧ (∀ t ∈ body, t.kind ≠ .eof) ∧
      (parse source).tree.text = source ∧
      events? (significant (tokenize source)) = some events ∧
      (∀ parent, .opened none parent ∉ events) ∧
      Assembles events (tokenize source) (parse source).tree := by
  obtain ⟨body, hsplit, hbody⟩ := exists_body_tokenize source
  obtain ⟨events, hevents⟩ := assembles_parseTokens kind_endOfText hbody
  rw [← hsplit] at hevents
  have hleaves := leaves_parse source
  refine ⟨_, body, events, rfl, hleaves, hsplit, hbody, ?_, hevents⟩
  rw [Tree.text, hleaves, textOf_tokenize]

end ShellAwait.Tree
