import ShellAwait.Proofs.Grammar.ArrowParameters
import ShellAwait.Proofs.Tree.Building

/-! # Reading by position

A parser holds the whole stream, trivia included, and the position up to which it has come. It finds
the significant tokens ahead, the line breaks between them and the places of its problems by
positions, and opens and closes nodes by events.

Main statement: it does what the machine does that sees the significant tokens only, so trivia does
not matter beyond line breaks.
-/

namespace ShellAwait

namespace Grammar

open Text Token

structure Parser where
  tokens : List (Span × Token)
  /-- The length of the text. -/
  size : Nat
  pos : Nat := 0
  events : List Event := []
  /-- The event that began the node which has just been closed. -/
  last : Option Nat := none
  fault : Option Fault := none
  noIn : Bool := false
  /-- The kind that the open node will have. -/
  kind : NodeKind := .script

/-- The position of the significant token with the number `n` from a position on. -/
def seek (n pos : Nat) : List (Span × Token) → Option Nat
  | [] => none
  | entry :: rest =>
      if entry.2.kind.isTrivia then seek n (pos + 1) rest
      else
        match n with
        | 0 => some pos
        | n + 1 => seek n (pos + 1) rest

namespace Parser

/-! ## Looking ahead -/

def significant (p : Parser) (n : Nat) : Option Nat := seek n p.pos (p.tokens.drop p.pos)

def element? (p : Parser) (n : Nat) : Option (Span × Token) := (p.significant n).bind (p.tokens[·]?)

def nth (p : Parser) (n : Nat) : TokenKind := ((p.element? n).map (·.2.kind)).getD .eof

/-- The span of the next token, or the end of the text. -/
def currentSpan (p : Parser) : Span := ((p.element? 0).map Prod.fst).getD (.emptyAt p.size)

/-- The position behind the token before the one with the number `n`. -/
def gapStart (p : Parser) : Nat → Nat
  | 0 => p.pos
  | n + 1 => ((p.significant n).map (· + 1)).getD p.pos

/-- Whether a line ends between the token with the number `n` and the one before it. -/
def lineBreakBefore (p : Parser) (n : Nat) : Bool :=
  match p.significant n with
  | none => false
  | some target => ((p.tokens.take target).drop (p.gapStart n)).any (·.2.endsLine)

/-- Whether the token with the number `n` opens the parameters of an arrow function. There is no
answer if the scan runs past the last token. -/
def arrowParametersAt (p : Parser) (n : Nat) : Option Bool :=
  match p.significant n with
  | none => some false
  | some start =>
      if p.nth n = .lParen then arrowFrom? (p.tokens.map Prod.snd) 0 start else some false

def lookahead? (p : Parser) (n : Nat) : Option Lookahead :=
  (p.element? n).map fun entry => ⟨entry.2.kind, entry.2.text, p.lineBreakBefore n⟩

def view (p : Parser) : View where
  ahead := (List.range p.tokens.length).filterMap p.lookahead?
  noIn := p.noIn
  failed := p.fault.isSome

/-! ## Moving on -/

/-- Take the next token together with the trivia before it. -/
def advance (p : Parser) : Parser :=
  match p.significant 0 with
  | some i => { p with pos := i + 1, events := p.events ++ [.advanced], last := none }
  | none => p

def eat (kind : TokenKind) (p : Parser) : Bool × Parser :=
  if p.nth 0 == kind then (true, p.advance) else (false, p)

/-- Only the first problem is kept. -/
def error (problem : Problem) (opener : Option Span) (p : Parser) : Parser :=
  match p.fault with
  | some _ => p
  | none => { p with fault := some ⟨problem, p.currentSpan, opener⟩ }

def expectClosing (what : Enclosure) (opener : Span) (p : Parser) : Bool × Parser :=
  match p.eat what.closer with
  | (true, q) => (true, q)
  | (false, q) =>
      (false, q.error (.unclosed what) (if what.pointsBack then some opener else none))

def openNode (kind : NodeKind) (p : Parser) : Parser :=
  { p with events := p.events ++ [.opened none none], last := none, kind := kind }

/-- Open a node around the closed one that the event began. -/
def openBefore (number : Nat) (kind : NodeKind) (p : Parser) : Parser :=
  openNode kind { p with events := p.events.modify number (·.withParent p.events.length) }

/-- Close the node that the event began. -/
def closeNode (number : Nat) (kind outer : NodeKind) (p : Parser) : Parser :=
  { p with
    events := p.events.modify number (·.withKind kind) ++ [.closed]
    last := some number
    kind := outer }

end Parser

abbrev Parsing := Parser → Option (Bool × Parser)

def parseRounds (goOn : View → Bool) (round : Parsing) : Nat → Parser → Option Parser
  | 0, p => some p
  | limit + 1, p =>
      if goOn p.view then
        match round p with
        | some (true, q) => parseRounds goOn round limit q
        | some (false, q) => some q
        | none => none
      else some p

/-- Run a rule. A node is closed on either way out of its body. -/
@[simp] def Rule.parse (limit : Nat) (refer : Category → Parsing) : Rule → Parsing
  | .skip, p => some (true, p)
  | .fail, p => some (false, p)
  | .eat kind, p => some (p.eat kind)
  | .report problem, p => some (false, p.error problem none)
  | .look choose, p => (choose p.view).parse limit refer p
  | .seq first second, p =>
      match first.parse limit refer p with
      | some (_, q) => second.parse limit refer q
      | none => none
  | .andThen first second, p =>
      match first.parse limit refer p with
      | some (true, q) => second.parse limit refer q
      | some (false, q) => some (false, q)
      | none => none
  | .many goOn round, p =>
      (parseRounds goOn (round.parse limit refer) limit p).map fun q => (true, q)
  | .node kind body, p =>
      match body.parse limit refer (p.openNode kind) with
      | some (true, q) => some (true, q.closeNode p.events.length q.kind p.kind)
      | some (false, q) => some (true, q.closeNode p.events.length q.kind p.kind)
      | none => none
  | .wrap kind body, p =>
      match p.last with
      | some number =>
          match body.parse limit refer (p.openBefore number kind) with
          | some (true, q) => some (true, q.closeNode p.events.length q.kind p.kind)
          | some (false, q) => some (true, q.closeNode p.events.length q.kind p.kind)
          | none => none
      | none => none
  | .become kind, p => some (true, { p with kind := kind })
  | .bracket what body, p =>
      match p.eat what.opener with
      | (false, q) => some (false, q.error (.expected what.opener) none)
      | (true, q) =>
          match body.parse limit refer q with
          | some (true, t) => some (t.expectClosing what p.currentSpan)
          | some (false, t) => some (false, t)
          | none => none
  | .withNoIn noIn body, p =>
      match body.parse limit refer { p with noIn := noIn } with
      | some (b, q) => some (b, { q with noIn := p.noIn })
      | none => none
  | .call category, p => refer category p

def parseRefer (table : Category → Rule) (limit : Nat) : Nat → Category → Parsing
  | 0, _, p => some (false, p)
  | depth + 1, category, p => (table category).parse limit (parseRefer table limit depth) p

def Parser.start (tokens : List Token) : Parser :=
  openNode .script { tokens := placed 0 tokens, size := byteLength (textOf tokens) }

/-- Read a whole stream. -/
def parseByPosition (tokens : List Token) : Option Parser :=
  let ahead := (Parser.start tokens).view.ahead
  let limit := ahead.length + 1
  (script.parse limit (parseRefer table limit (depthFor ahead)) (Parser.start tokens)).map
    fun ran => ran.2.closeNode 0 .script .script

/-! ## Positions of significant tokens -/

def isSignificant (entry : Span × Token) : Bool := !entry.2.kind.isTrivia

theorem seek_cons (n pos : Nat) (entry : Span × Token) (rest : List (Span × Token)) :
    seek n pos (entry :: rest) =
      if entry.2.kind.isTrivia then seek n (pos + 1) rest
      else if n = 0 then some pos else seek (n - 1) (pos + 1) rest := by
  cases n <;> rfl

theorem seek_trivia (n pos : Nat) {trivia : List (Span × Token)}
    (h : ∀ entry ∈ trivia, entry.2.kind.isTrivia = true) (rest : List (Span × Token)) :
    seek n pos (trivia ++ rest) = seek n (pos + trivia.length) rest := by
  induction trivia generalizing pos with
  | nil => rfl
  | cons entry trivia ih =>
      obtain ⟨hentry, htrivia⟩ := List.forall_mem_cons.mp h
      rw [List.cons_append, seek_cons, if_pos hentry, ih _ htrivia, List.length_cons]
      congr 1
      omega

theorem seek_succ_eq_none {n pos : Nat} {rest : List (Span × Token)} (h : seek n pos rest = none) :
    seek (n + 1) pos rest = none := by
  induction rest generalizing n pos with
  | nil => rfl
  | cons entry rest ih =>
      rw [seek_cons] at h ⊢
      split at h
      · rw [if_pos ‹_›]
        exact ih h
      · rw [if_neg ‹_›]
        cases n with
        | zero => cases h
        | succ n => exact ih h

namespace Parser

/-- The tokens from the position on. -/
def stream (p : Parser) : List Token := (p.tokens.drop p.pos).map Prod.snd

/-- What the grammar sees of them. -/
def ahead (p : Parser) : List Lookahead := Token.significant p.stream

/-- The significant tokens behind the position. -/
def passed (p : Parser) : List (Span × Token) := (p.tokens.take p.pos).filter isSignificant

/-- The next significant token of a parser, with the trivia before it. -/
structure Next (p : Parser) (i : Nat) (trivia : List (Span × Token)) (entry : Span × Token) :
    Prop where
  place : i = p.pos + trivia.length
  split : p.tokens.drop p.pos = trivia ++ entry :: p.tokens.drop (i + 1)
  blank : ∀ t ∈ trivia, t.2.kind.isTrivia = true
  solid : entry.2.kind.isTrivia = false

theorem ahead_cases (p : Parser) :
    (p.ahead = [] ∧ ∀ n, p.significant n = none) ∨ ∃ i trivia entry, p.Next i trivia entry := by
  cases hrest : (p.tokens.drop p.pos).dropWhile (·.2.kind.isTrivia) with
  | nil =>
      have hblank : ∀ t ∈ p.tokens.drop p.pos, t.2.kind.isTrivia = true :=
        List.dropWhile_eq_nil_iff.mp hrest
      refine .inl ⟨?_, fun n => ?_⟩
      · have htokens : ∀ t ∈ p.stream, t.kind.isTrivia = true := by
          intro t ht
          obtain ⟨entry, hentry, rfl⟩ := List.mem_map.mp ht
          exact hblank entry hentry
        have hnone := significantFrom_trivia false htokens []
        rwa [List.append_nil] at hnone
      · have hnone := seek_trivia n p.pos hblank []
        rwa [List.append_nil] at hnone
  | cons entry after =>
      let trivia := (p.tokens.drop p.pos).takeWhile (·.2.kind.isTrivia)
      have hsplit : p.tokens.drop p.pos = trivia ++ entry :: after := by
        rw [← hrest]
        exact List.takeWhile_append_dropWhile.symm
      have hafter : p.tokens.drop (p.pos + trivia.length + 1) = after := by
        rw [Nat.add_assoc, ← List.drop_drop, hsplit, ← List.drop_drop, List.drop_left]
        rfl
      refine .inr ⟨_, trivia, entry, rfl, by rw [hafter, hsplit], fun t ht => ?_, ?_⟩
      · exact List.mem_takeWhile_imp (p := fun t : Span × Token => t.2.kind.isTrivia) ht
      · have hhead := List.head?_dropWhile_not (·.2.kind.isTrivia) (p.tokens.drop p.pos)
        rw [hrest] at hhead
        simpa using hhead

namespace Next

variable {p : Parser} {i : Nat} {trivia : List (Span × Token)} {entry : Span × Token}

theorem significant_zero (h : p.Next i trivia entry) : p.significant 0 = some i := by
  rw [significant, h.split, seek_trivia 0 p.pos h.blank, seek, if_neg (by simp [h.solid]), h.place]

theorem significant_succ (h : p.Next i trivia entry) (n : Nat) :
    p.significant (n + 1) = { p with pos := i + 1 }.significant n := by
  rw [significant, h.split, seek_trivia (n + 1) p.pos h.blank, seek, if_neg (by simp [h.solid]),
    ← h.place]
  rfl

theorem tokens_eq (h : p.Next i trivia entry) :
    p.tokens = p.tokens.take p.pos ++ trivia ++ entry :: p.tokens.drop (i + 1) ∧
      (p.tokens.take p.pos).length = p.pos := by
  have hpos : p.pos < p.tokens.length := by
    have hlength := congrArg List.length h.split
    simp only [List.length_drop, List.length_append, List.length_cons] at hlength
    omega
  refine ⟨?_, List.length_take_of_le (Nat.le_of_lt hpos)⟩
  rw [List.append_assoc, ← h.split, List.take_append_drop]

theorem getElem?_eq (h : p.Next i trivia entry) : p.tokens[i]? = some entry := by
  have hdrop : (p.tokens.drop p.pos)[trivia.length]? = some entry := by
    rw [h.split]
    simp
  rwa [List.getElem?_drop, ← h.place] at hdrop

theorem element?_zero (h : p.Next i trivia entry) : p.element? 0 = some entry := by
  rw [element?, h.significant_zero, Option.bind_some, h.getElem?_eq]

theorem lineBreakBefore_zero (h : p.Next i trivia entry) :
    p.lineBreakBefore 0 = (trivia.map Prod.snd).any endsLine := by
  obtain ⟨htokens, hlength⟩ := h.tokens_eq
  have hslice : (p.tokens.take i).drop p.pos = trivia := by
    rw [List.drop_take, h.split, h.place, Nat.add_sub_cancel_left, List.take_left]
  rw [lineBreakBefore, h.significant_zero]
  simp only [gapStart, hslice, List.any_map]
  rfl

theorem lineBreakBefore_succ (h : p.Next i trivia entry) (n : Nat) :
    p.lineBreakBefore (n + 1) = { p with pos := i + 1 }.lineBreakBefore n := by
  rw [lineBreakBefore, lineBreakBefore, h.significant_succ]
  cases n with
  | zero => simp only [gapStart, h.significant_zero, Option.map_some, Option.getD_some]
  | succ n =>
      simp only [gapStart, h.significant_succ]
      cases hn : { p with pos := i + 1 }.significant n with
      | some j => rfl
      | none =>
          have hnext : { p with pos := i + 1 }.significant (n + 1) = none := seek_succ_eq_none hn
          rw [hnext]

theorem lookahead?_succ (h : p.Next i trivia entry) (n : Nat) :
    p.lookahead? (n + 1) = { p with pos := i + 1 }.lookahead? n := by
  rw [lookahead?, lookahead?, element?, element?, h.significant_succ, h.lineBreakBefore_succ]

theorem ahead_eq (h : p.Next i trivia entry) :
    p.ahead =
      ⟨entry.2.kind, entry.2.text, p.lineBreakBefore 0⟩ :: { p with pos := i + 1 }.ahead := by
  have hblank : ∀ t ∈ trivia.map Prod.snd, t.kind.isTrivia = true := by
    intro t ht
    obtain ⟨place, hplace, rfl⟩ := List.mem_map.mp ht
    exact h.blank place hplace
  rw [ahead, Token.significant, stream, h.split, List.map_append, significantFrom_trivia _ hblank,
    List.map_cons, significantFrom, if_neg (by simp [h.solid]), h.lineBreakBefore_zero]
  rfl

theorem passed_eq (h : p.Next i trivia entry) :
    { p with pos := i + 1 }.passed = p.passed ++ [entry] := by
  obtain ⟨htokens, hlength⟩ := h.tokens_eq
  have htake : p.tokens.take (i + 1) = p.tokens.take p.pos ++ trivia ++ [entry] := by
    have hfront : (p.tokens.take p.pos ++ trivia ++ [entry]).length = i + 1 := by
      rw [List.length_append, List.length_append, hlength, h.place]
      rfl
    conv_lhs => rw [htokens, List.append_cons, ← hfront, List.take_left]
  have hnone : trivia.filter isSignificant = [] := by
    refine List.filter_eq_nil_iff.mpr fun t ht => ?_
    simp [isSignificant, h.blank t ht]
  have hsolid : isSignificant entry = true := by simp [isSignificant, h.solid]
  rw [passed, htake, List.filter_append, List.filter_append, hnone, List.append_nil,
    List.filter_cons_of_pos hsolid]
  rfl

end Next

/-- What is seen ahead by positions is what the grammar sees of the stream. -/
theorem lookahead?_eq (p : Parser) (n : Nat) : p.lookahead? n = p.ahead[n]? := by
  induction n generalizing p with
  | zero =>
      rcases p.ahead_cases with ⟨hahead, hnone⟩ | ⟨i, trivia, entry, hnext⟩
      · rw [lookahead?, element?, hnone, hahead]
        rfl
      · rw [lookahead?, hnext.element?_zero, hnext.ahead_eq]
        rfl
  | succ n ih =>
      rcases p.ahead_cases with ⟨hahead, hnone⟩ | ⟨i, trivia, entry, hnext⟩
      · rw [lookahead?, element?, hnone, hahead]
        rfl
      · rw [hnext.lookahead?_succ, ih, hnext.ahead_eq, List.getElem?_cons_succ]

theorem length_ahead_le (p : Parser) : p.ahead.length ≤ p.tokens.length := by
  have hlength := congrArg List.length (map_token_significantFrom false p.stream)
  rw [List.length_map] at hlength
  calc p.ahead.length = _ := hlength
    _ ≤ p.stream.length := List.length_filter_le _ _
    _ ≤ p.tokens.length := by
      rw [stream, List.length_map, List.length_drop]
      exact Nat.sub_le _ _

theorem filterMap_range_getElem? {α : Type} (l : List α) {n : Nat} (h : l.length ≤ n) :
    (List.range n).filterMap (l[·]?) = l := by
  induction l generalizing n with
  | nil => simp
  | cons a rest ih =>
      obtain ⟨m, rfl⟩ : ∃ m, n = m + 1 := ⟨n - 1, by rw [List.length_cons] at h; omega⟩
      rw [List.range_succ_eq_map, List.filterMap_cons_some (List.getElem?_cons_zero ..),
        List.filterMap_map]
      exact congrArg (a :: ·) (ih (Nat.le_of_succ_le_succ h))

@[simp] theorem ahead_view (p : Parser) : p.view.ahead = p.ahead := by
  have hall : p.lookahead? = (p.ahead[·]?) := funext p.lookahead?_eq
  rw [view, hall]
  exact filterMap_range_getElem? _ p.length_ahead_le

end Parser

/-! ## The parser follows the machine -/

/-- The parser stands where the recorder stands among the significant tokens of a stream, and has
the same events and the same problem. -/
structure Follows (stream : List Token) (p : Parser) (r : Recorder) : Prop where
  tokens : p.tokens = placed 0 stream
  ahead : r.state.ahead = p.ahead
  taken : r.state.taken = p.passed.length
  noIn : r.state.noIn = p.noIn
  kind : r.state.kind = p.kind
  events : r.events = p.events
  last : r.last = p.last
  fault : p.fault = r.state.report.map (·.locate stream)

variable {stream : List Token} {p : Parser} {r : Recorder}

namespace Follows

theorem view (h : Follows stream p r) : p.view = r.state.view := by
  have hfailed : p.fault.isSome = r.state.report.isSome := by rw [h.fault, Option.isSome_map]
  have hahead : p.view.ahead = r.state.ahead := p.ahead_view.trans h.ahead.symm
  unfold State.view
  rw [← hahead, ← hfailed, h.noIn]
  rfl

theorem exists_next (h : Follows stream p r) (hahead : r.state.ahead ≠ []) :
    ∃ i trivia entry, p.Next i trivia entry := by
  rcases p.ahead_cases with ⟨hnil, -⟩ | hnext
  · exact absurd (h.ahead.trans hnil) hahead
  · exact hnext

theorem currentSpan (h : Follows stream p r) (hahead : r.state.ahead ≠ []) :
    p.currentSpan = (significantSpans stream).getD r.state.taken default := by
  obtain ⟨i, trivia, entry, hnext⟩ := h.exists_next hahead
  have hpassed : (p.tokens.take (i + 1)).filter isSignificant = p.passed ++ [entry] :=
    hnext.passed_eq
  have hspans : significantSpans stream =
      (p.passed ++ entry :: (p.tokens.drop (i + 1)).filter isSignificant).map Prod.fst := by
    change ((placed 0 stream).filter isSignificant).map Prod.fst = _
    rw [← h.tokens, ← List.singleton_append, ← List.append_assoc, ← hpassed, ← List.filter_append,
      List.take_append_drop]
  rw [Parser.currentSpan, hnext.element?_zero, hspans, h.taken, List.getD_eq_getElem?_getD]
  simp

theorem error (h : Follows stream p r) (hahead : r.state.ahead ≠ []) (problem : Problem)
    (opener : Option Nat) :
    Follows stream (p.error problem (opener.map ((significantSpans stream).getD · default)))
      { r with state := r.state.note problem opener } := by
  have hfault := h.fault
  unfold Parser.error State.note
  cases hreport : r.state.report with
  | some report =>
      rw [hreport] at hfault
      rw [hfault]
      exact h
  | none =>
      rw [hreport] at hfault
      rw [hfault]
      refine ⟨h.tokens, h.ahead, h.taken, h.noIn, h.kind, h.events, h.last, ?_⟩
      rw [h.currentSpan hahead]
      rfl

theorem eat (h : Follows stream p r) (hahead : r.state.ahead ≠ []) (kind : TokenKind) :
    (p.eat kind = (false, p) ∧ r.eat kind = (false, r)) ∨
      ∃ q t, p.eat kind = (true, q) ∧ r.eat kind = (true, t) ∧ Follows stream q t := by
  obtain ⟨i, trivia, entry, hnext⟩ := h.exists_next hahead
  have hstate := h.ahead.trans hnext.ahead_eq
  have hnth : p.nth 0 = entry.2.kind := by
    rw [Parser.nth, hnext.element?_zero]
    rfl
  unfold Parser.eat Recorder.eat State.eat
  rw [hnth, hstate]
  by_cases hkind : (entry.2.kind == kind) = true
  · simp only [hkind, if_true]
    refine .inr ⟨_, _, rfl, rfl, ?_⟩
    rw [Parser.advance, hnext.significant_zero]
    refine ⟨h.tokens, rfl, ?_, h.noIn, h.kind, ?_, rfl, h.fault⟩
    · have hpassed := congrArg List.length hnext.passed_eq
      rw [List.length_append] at hpassed
      exact (congrArg (· + 1) h.taken).trans hpassed.symm
    · exact congrArg (· ++ [Event.advanced]) h.events
  · simp only [hkind]
    exact .inl ⟨rfl, rfl⟩

theorem expectClosing (h : Follows stream p r) (hahead : r.state.ahead ≠ []) (what : Enclosure)
    (opener : Nat) :
    ∃ q, p.expectClosing what ((significantSpans stream).getD opener default) =
        ((r.close what opener).1, q) ∧ Follows stream q (r.close what opener).2 := by
  unfold Parser.expectClosing Recorder.close
  rcases h.eat hahead what.closer with ⟨hp, hr⟩ | ⟨q, t, hp, hr, hfollows⟩
  · have herror := h.error hahead (.unclosed what) (if what.pointsBack then some opener else none)
    rw [apply_ite (Option.map _)] at herror
    rw [hp, hr]
    exact ⟨_, rfl, herror⟩
  · rw [hp, hr]
    exact ⟨q, rfl, hfollows⟩

theorem openNode (h : Follows stream p r) (kind : NodeKind) (elements : List Tree) :
    Follows stream (p.openNode kind) (r.enter kind elements) :=
  ⟨h.tokens, h.ahead, h.taken, h.noIn, rfl, congrArg (· ++ [Event.opened none none]) h.events, rfl,
    h.fault⟩

theorem openBefore (h : Follows stream p r) (number : Nat) (kind : NodeKind)
    (elements : List Tree) :
    Follows stream (p.openBefore number kind) ((r.adopt number).enter kind elements) := by
  refine ⟨h.tokens, h.ahead, h.taken, h.noIn, rfl, ?_, rfl, h.fault⟩
  exact congrArg (fun events : List Event =>
    events.modify number (·.withParent events.length) ++ [.opened none none]) h.events

theorem closeNode (h : Follows stream p r) (number : Nat) (outer : NodeKind)
    (elements : List Tree) :
    Follows stream (p.closeNode number p.kind outer) (r.leave number outer elements) := by
  refine ⟨h.tokens, h.ahead, h.taken, h.noIn, rfl, ?_, rfl, h.fault⟩
  change r.events.modify number (·.withKind r.state.kind) ++ _ = _
  rw [h.events, h.kind]
  rfl

end Follows

/-! ## Rules -/

/-- Recording never goes back, and as long as the end of the stream is ahead parsing follows it. -/
def Simulates (stream : List Token) (recording : Recording) (parsing : Parsing) : Prop :=
  ∀ r b t, recording r = some (b, t) → t.state.ahead <:+ r.state.ahead ∧
    (t.state.ahead ≠ [] → ∀ p, Follows stream p r →
      ∃ q, parsing p = some (b, q) ∧ Follows stream q t)

theorem ne_nil_of_suffix {α : Type} {front back : List α} (h : back <:+ front) (hback : back ≠ []) :
    front ≠ [] := by
  rintro rfl
  exact hback (List.suffix_nil.mp h)

theorem state_eat (r : Recorder) (kind : TokenKind) :
    (r.eat kind).2.state = (r.state.eat kind).2 := by
  unfold Recorder.eat
  rcases r.state.eat kind with ⟨_ | _, t⟩ <;> rfl

theorem suffix_eat (r : Recorder) (kind : TokenKind) :
    (r.eat kind).2.state.ahead <:+ r.state.ahead := by
  rw [state_eat]
  exact (r.state.keeps_eat kind).ahead

theorem ahead_note (s : State) (problem : Problem) (opener : Option Nat) :
    (s.note problem opener).ahead = s.ahead := by
  unfold State.note
  split <;> rfl

theorem suffix_close (r : Recorder) (what : Enclosure) (opener : Nat) :
    (r.close what opener).2.state.ahead <:+ r.state.ahead := by
  have hsuffix := suffix_eat r what.closer
  unfold Recorder.close
  rcases heat : r.eat what.closer with ⟨_ | _, t⟩
  · rw [heat] at hsuffix
    simpa only [ahead_note] using hsuffix
  · rwa [heat] at hsuffix

theorem simulates_eat (kind : TokenKind) :
    Simulates stream (fun r => some (r.eat kind)) (fun p => some (p.eat kind)) := by
  intro r b t h
  have heat : r.eat kind = (b, t) := Option.some.inj h
  have hsuffix := suffix_eat r kind
  rw [heat] at hsuffix
  refine ⟨hsuffix, fun hahead p hp => ?_⟩
  rcases hp.eat (ne_nil_of_suffix hsuffix hahead) kind with ⟨hq, hr⟩ | ⟨q, u, hq, hr, hfollows⟩
  · obtain ⟨rfl, rfl⟩ := Prod.mk.inj (heat.symm.trans hr)
    exact ⟨p, congrArg some hq, hp⟩
  · obtain ⟨rfl, rfl⟩ := Prod.mk.inj (heat.symm.trans hr)
    exact ⟨q, congrArg some hq, hfollows⟩

theorem simulates_report (problem : Problem) :
    Simulates stream (fun r => some (false, { r with state := r.state.note problem none }))
      (fun p => some (false, p.error problem none)) := by
  intro r b t h
  cases h
  simp only [ahead_note]
  exact ⟨List.suffix_rfl, fun hahead p hp => ⟨_, rfl, hp.error hahead problem none⟩⟩

theorem simulates_stay (b : Bool) :
    Simulates stream (fun r => some (b, r)) (fun p => some (b, p)) := by
  intro r b t h
  cases h
  exact ⟨List.suffix_rfl, fun _ p hp => ⟨p, rfl, hp⟩⟩

theorem Simulates.trans {earlier later : Recording} {before after : Parsing} {b c : Bool}
    {u t : Recorder} (hfirst : Simulates stream earlier before)
    (hsecond : Simulates stream later after) (hu : earlier r = some (c, u))
    (ht : later u = some (b, t)) :
    t.state.ahead <:+ r.state.ahead ∧ (t.state.ahead ≠ [] → ∀ p, Follows stream p r →
      ∃ q v, before p = some (c, q) ∧ after q = some (b, v) ∧ Follows stream v t) := by
  obtain ⟨hfront, hfollows⟩ := hfirst r c u hu
  obtain ⟨hback, hlater⟩ := hsecond u b t ht
  refine ⟨hback.trans hfront, fun hahead p hp => ?_⟩
  obtain ⟨q, hq, hfq⟩ := hfollows (ne_nil_of_suffix hback hahead) p hp
  obtain ⟨v, hv, hfv⟩ := hlater hahead q hfq
  exact ⟨q, v, hq, hv, hfv⟩

variable {limit : Nat} {record : Category → Recording} {parse : Category → Parsing}
  {first second body : Rule}

theorem simulates_seq
    (hfirst : Simulates stream (first.record limit record) (first.parse limit parse))
    (hsecond : Simulates stream (second.record limit record) (second.parse limit parse)) :
    Simulates stream ((Rule.seq first second).record limit record)
      ((Rule.seq first second).parse limit parse) := by
  intro r b t h
  rw [Rule.record] at h
  split at h
  · rename_i c u hr
    obtain ⟨ht, hfollows⟩ := hfirst.trans hsecond hr h
    refine ⟨ht, fun hahead p hp => ?_⟩
    obtain ⟨q, v, hq, hv, hfv⟩ := hfollows hahead p hp
    exact ⟨v, by rw [Rule.parse, hq]; exact hv, hfv⟩
  · cases h

theorem simulates_andThen
    (hfirst : Simulates stream (first.record limit record) (first.parse limit parse))
    (hsecond : Simulates stream (second.record limit record) (second.parse limit parse)) :
    Simulates stream ((Rule.andThen first second).record limit record)
      ((Rule.andThen first second).parse limit parse) := by
  intro r b t h
  rw [Rule.record] at h
  split at h
  · rename_i u hr
    obtain ⟨ht, hfollows⟩ := hfirst.trans hsecond hr h
    refine ⟨ht, fun hahead p hp => ?_⟩
    obtain ⟨q, v, hq, hv, hfv⟩ := hfollows hahead p hp
    exact ⟨v, by rw [Rule.parse, hq]; exact hv, hfv⟩
  · rename_i u hr
    cases h
    obtain ⟨ht, hfollows⟩ := hfirst r false t hr
    refine ⟨ht, fun hahead p hp => ?_⟩
    obtain ⟨q, hq, hfq⟩ := hfollows hahead p hp
    exact ⟨q, by rw [Rule.parse, hq], hfq⟩
  · cases h

theorem simulates_rounds {goOn : View → Bool} {recording : Recording} {parsing : Parsing}
    (hround : Simulates stream recording parsing) (limit : Nat) :
    Simulates stream (fun r => (recordRounds goOn recording limit r).map fun t => (true, t))
      (fun p => (parseRounds goOn parsing limit p).map fun q => (true, q)) := by
  induction limit with
  | zero => exact simulates_stay true
  | succ limit ih =>
      intro r b t h
      simp only [recordRounds] at h
      by_cases hgo : goOn r.state.view = true
      · rw [if_pos hgo] at h
        split at h
        · rename_i u hr
          obtain ⟨ht, hfollows⟩ := hround.trans ih hr h
          refine ⟨ht, fun hahead p hp => ?_⟩
          obtain ⟨q, v, hq, hv, hfv⟩ := hfollows hahead p hp
          exact ⟨v, by simp only [parseRounds, hp.view, if_pos hgo, hq, hv], hfv⟩
        · rename_i u hr
          cases h
          obtain ⟨ht, hfollows⟩ := hround r false t hr
          refine ⟨ht, fun hahead p hp => ?_⟩
          obtain ⟨q, hq, hfq⟩ := hfollows hahead p hp
          exact ⟨q, by simp only [parseRounds, hp.view, if_pos hgo, hq, Option.map_some], hfq⟩
        · cases h
      · rw [if_neg hgo] at h
        cases h
        refine ⟨List.suffix_rfl, fun _ p hp => ⟨p, ?_, hp⟩⟩
        simp only [parseRounds, hp.view, if_neg hgo, Option.map_some]

theorem simulates_node (kind : NodeKind)
    (hbody : Simulates stream (body.record limit record) (body.parse limit parse)) :
    Simulates stream ((Rule.node kind body).record limit record)
      ((Rule.node kind body).parse limit parse) := by
  intro r b t h
  rw [Rule.record] at h
  split at h
  · rename_i c u hr
    cases h
    obtain ⟨hu, hfollows⟩ := hbody _ c u hr
    refine ⟨hu, fun hahead p hp => ?_⟩
    obtain ⟨q, hq, hfq⟩ := hfollows hahead _ (hp.openNode kind [])
    refine ⟨_, ?_, hfq.closeNode r.events.length r.state.kind r.state.done⟩
    rw [Rule.parse, hq, hp.events, hp.kind]
    cases c <;> rfl
  · cases h

theorem simulates_wrap (kind : NodeKind)
    (hbody : Simulates stream (body.record limit record) (body.parse limit parse)) :
    Simulates stream ((Rule.wrap kind body).record limit record)
      ((Rule.wrap kind body).parse limit parse) := by
  intro r b t h
  rw [Rule.record] at h
  cases hlast : r.last with
  | none =>
      rw [hlast] at h
      cases h
  | some number =>
      simp only [hlast] at h
      split at h
      · rename_i c u hr
        cases h
        obtain ⟨hu, hfollows⟩ := hbody _ c u hr
        refine ⟨hu, fun hahead p hp => ?_⟩
        obtain ⟨q, hq, hfq⟩ := hfollows hahead _ (hp.openBefore number kind _)
        refine ⟨_, ?_, hfq.closeNode r.events.length r.state.kind (r.state.done.drop 1)⟩
        rw [Rule.parse, ← hp.last, hlast, hp.events, hp.kind]
        simp only [hq]
        cases c <;> rfl
      · cases h

theorem simulates_bracket (what : Enclosure)
    (hbody : Simulates stream (body.record limit record) (body.parse limit parse)) :
    Simulates stream ((Rule.bracket what body).record limit record)
      ((Rule.bracket what body).parse limit parse) := by
  intro r b t h
  have hopener : Simulates stream _ _ := simulates_eat what.opener
  rw [Rule.record] at h
  split at h
  · rename_i u heat
    cases h
    simp only [ahead_note]
    obtain ⟨hopen, hfollows⟩ := hopener r false u (congrArg some heat)
    refine ⟨hopen, fun hahead p hp => ?_⟩
    obtain ⟨q, hq, hfq⟩ := hfollows hahead p hp
    exact ⟨_, by rw [Rule.parse, Option.some.inj hq]; rfl, hfq.error hahead _ none⟩
  · rename_i u heat
    split at h
    · rename_i v hr
      obtain ⟨hv, hinside⟩ := hopener.trans hbody (congrArg some heat) hr
      have hclose : v.close what r.state.taken = (b, t) := Option.some.inj h
      have ht := suffix_close v what r.state.taken
      rw [hclose] at ht
      refine ⟨ht.trans hv, fun hahead p hp => ?_⟩
      have hne := ne_nil_of_suffix ht hahead
      obtain ⟨q, w, hq, hw, hfw⟩ := hinside hne p hp
      obtain ⟨x, hx, hfx⟩ := hfw.expectClosing hne what r.state.taken
      rw [hclose] at hx hfx
      refine ⟨x, ?_, hfx⟩
      rw [Rule.parse, Option.some.inj hq, hp.currentSpan (ne_nil_of_suffix hv hne)]
      simp only [hw, hx]
    · rename_i v hr
      cases h
      obtain ⟨hv, hinside⟩ := hopener.trans hbody (congrArg some heat) hr
      refine ⟨hv, fun hahead p hp => ?_⟩
      obtain ⟨q, w, hq, hw, hfw⟩ := hinside hahead p hp
      exact ⟨w, by rw [Rule.parse, Option.some.inj hq]; simp only [hw], hfw⟩
    · cases h

theorem simulates_withNoIn (noIn : Bool)
    (hbody : Simulates stream (body.record limit record) (body.parse limit parse)) :
    Simulates stream ((Rule.withNoIn noIn body).record limit record)
      ((Rule.withNoIn noIn body).parse limit parse) := by
  intro r b t h
  rw [Rule.record] at h
  split at h
  · rename_i c u hr
    cases h
    obtain ⟨hu, hfollows⟩ := hbody _ b u hr
    refine ⟨hu, fun hahead p hp => ?_⟩
    have hset : Follows stream { p with noIn := noIn }
        { r with state := { r.state with noIn := noIn } } :=
      ⟨hp.tokens, hp.ahead, hp.taken, rfl, hp.kind, hp.events, hp.last, hp.fault⟩
    obtain ⟨q, hq, hfq⟩ := hfollows hahead _ hset
    refine ⟨_, by rw [Rule.parse, hq], ?_⟩
    exact ⟨hfq.tokens, hfq.ahead, hfq.taken, hp.noIn, hfq.kind, hfq.events, hfq.last, hfq.fault⟩
  · cases h

/-- Every rule is parsed as it is recorded. -/
theorem simulates_rule (hrefer : ∀ category, Simulates stream (record category) (parse category))
    (rule : Rule) : Simulates stream (rule.record limit record) (rule.parse limit parse) := by
  induction rule with
  | skip => exact simulates_stay true
  | fail => exact simulates_stay false
  | eat kind => exact simulates_eat kind
  | report problem => exact simulates_report problem
  | look choose ih =>
      intro r b t h
      obtain ⟨ht, hfollows⟩ := ih r.state.view r b t h
      refine ⟨ht, fun hahead p hp => ?_⟩
      rw [Rule.parse, hp.view]
      exact hfollows hahead p hp
  | seq first second ihFirst ihSecond => exact simulates_seq ihFirst ihSecond
  | andThen first second ihFirst ihSecond => exact simulates_andThen ihFirst ihSecond
  | many goOn round ih => exact simulates_rounds ih limit
  | node kind body ih => exact simulates_node kind ih
  | wrap kind body ih => exact simulates_wrap kind ih
  | become kind =>
      intro r b t h
      cases h
      refine ⟨List.suffix_rfl, fun _ p hp => ⟨_, rfl, ?_⟩⟩
      exact ⟨hp.tokens, hp.ahead, hp.taken, hp.noIn, rfl, hp.events, hp.last, hp.fault⟩
  | bracket what body ih => exact simulates_bracket what ih
  | withNoIn noIn body ih => exact simulates_withNoIn noIn ih
  | call category => exact hrefer category

theorem simulates_refer (table : Category → Rule) (limit depth : Nat) (category : Category) :
    Simulates stream (recordRefer table limit depth category)
      (parseRefer table limit depth category) := by
  induction depth generalizing category with
  | zero => exact simulates_stay false
  | succ depth ih => exact simulates_rule ih (table category)

/-! ## Whole streams -/

theorem stream_start (stream : List Token) : (Parser.start stream).stream = stream :=
  map_snd_placed 0 stream

theorem ahead_start (stream : List Token) :
    (Parser.start stream).ahead = Token.significant stream := by
  rw [Parser.ahead, stream_start]

theorem follows_start (stream : List Token) : Follows stream (Parser.start stream)
    { state := State.start (Token.significant stream), events := [.opened none none] } :=
  ⟨rfl, (ahead_start stream).symm, rfl, rfl, rfl, rfl, rfl, rfl⟩

/-- Reading by position comes to the same events and the same problem as reading the significant
tokens. -/
theorem exists_parseByPosition {stream : List Token}
    (hend : stream.getLast?.map Token.kind = some .eof) :
    ∃ p, parseByPosition stream = some p ∧ events? (Token.significant stream) = some p.events ∧
      p.fault = (parseTokens stream).fault := by
  let tokens := Token.significant stream
  let limit := tokens.length + 1
  let start : Recorder := { state := State.start tokens, events := [.opened none none] }
  have hstart : Recorded [.opened none none] [] start [] := ⟨rfl, rfl, rfl⟩
  obtain ⟨u, built, hrecord, hstate, -⟩ := unmarked_scriptBody.records limit
    (fun category _ _ _ _ h => records_refer limit (depthFor tokens) category h) hstart nofun
  obtain ⟨b, s, hrun, -, hfits⟩ := runs_scriptBody tokens
  -- The mark of the end is still ahead before the last token is taken.
  have hahead : u.state.ahead ≠ [] := by
    obtain ⟨t, ht, -⟩ := (hfits tokens.length
      ⟨Nat.zero_add _, Token.exists_eof_significant hend, nofun⟩).ending
    rw [hstate, show scriptBody.exec limit _ start.state = (b, s) from hrun]
    exact List.ne_nil_of_mem ht
  obtain ⟨q, hq, hfollows⟩ := (simulates_rule (simulates_refer table limit (depthFor tokens))
    scriptBody start _ u hrecord).2 hahead (Parser.start stream) (follows_start stream)
  let kind := u.state.view.kind
  have hlast : Follows stream (q.eat kind).2 (u.eat kind).2 := by
    rcases hfollows.eat hahead kind with ⟨hp, hr⟩ | ⟨v, w, hp, hr, hvw⟩
    · rw [hp, hr]
      exact hfollows
    · rw [hp, hr]
      exact hvw
  have hrecorded : events? tokens =
      some ((u.eat kind).2.events.modify 0 (·.withKind .script) ++ [.closed]) := by
    have hscript : script.record limit (recordRefer table limit (depthFor tokens)) start =
        some (u.eat kind) := by
      change (Rule.seq scriptBody Rule.takeAny).record _ _ _ = _
      rw [Rule.record, hrecord]
      rfl
    exact congrArg (Option.map _) hscript
  have hparsed : parseByPosition stream =
      some ((q.eat kind).2.closeNode 0 .script .script) := by
    have hscript : script.parse limit (parseRefer table limit (depthFor tokens))
        (Parser.start stream) = some (q.eat kind) := by
      change (Rule.seq scriptBody Rule.takeAny).parse _ _ _ = _
      rw [Rule.parse, hq]
      change some (q.eat q.view.kind) = _
      rw [hfollows.view]
    rw [parseByPosition, Parser.ahead_view, ahead_start]
    exact congrArg (Option.map _) hscript
  refine ⟨_, hparsed, ?_, ?_⟩
  · rw [hrecorded, hlast.events]
    rfl
  · have hread : (u.eat kind).2.state = read tokens := by
      rw [state_eat]
      simp only [kind, hstate]
      rfl
    have hfault := hlast.fault
    rw [hread] at hfault
    exact hfault

/-! ## Arrows -/

namespace Parser

theorem drop_ahead_of_significant {p : Parser} {n i : Nat} (h : p.significant n = some i) :
    ∃ broken, p.ahead.drop n = significantFrom broken ((p.tokens.map Prod.snd).drop i) := by
  induction n generalizing p with
  | zero =>
      rcases p.ahead_cases with ⟨-, hnone⟩ | ⟨j, trivia, entry, hnext⟩
      · rw [hnone] at h
        cases h
      · obtain rfl : j = i := Option.some.inj (hnext.significant_zero.symm.trans h)
        have hdrop : p.tokens.drop j = entry :: p.tokens.drop (j + 1) := by
          conv_lhs => rw [hnext.place, ← List.drop_drop, hnext.split, List.drop_left]
        refine ⟨p.lineBreakBefore 0, ?_⟩
        rw [List.drop_zero, hnext.ahead_eq, ← List.map_drop, hdrop, List.map_cons, significantFrom,
          if_neg (by simp [hnext.solid])]
        rfl
  | succ n ih =>
      rcases p.ahead_cases with ⟨-, hnone⟩ | ⟨j, trivia, entry, hnext⟩
      · rw [hnone] at h
        cases h
      · rw [hnext.significant_succ] at h
        rw [hnext.ahead_eq, List.drop_succ_cons]
        exact ih h

theorem nth_eq (p : Parser) (n : Nat) : p.nth n = p.view.kindAt n := by
  rw [View.kindAt, View.nth, ahead_view, List.getD_eq_getElem?_getD, ← p.lookahead?_eq, lookahead?,
    nth]
  cases p.element? n <;> rfl

/-- The scan over the stream finds the parameters that the view shows. -/
theorem arrowParametersAt_eq {p : Parser} (hend : p.tokens.getLast?.map (·.2.kind) = some .eof)
    (n : Nat) : p.arrowParametersAt n = some (p.view.parametersAt n) := by
  rw [arrowParametersAt, View.parametersAt, ← p.nth_eq, ahead_view]
  cases hplace : p.significant n with
  | none =>
      have hnth : p.nth n = .eof := by
        rw [nth, element?, hplace]
        rfl
      rw [hnth]
      rfl
  | some i =>
      by_cases hparen : p.nth n = .lParen
      · obtain ⟨broken, hahead⟩ := drop_ahead_of_significant hplace
        have hlt : i < p.tokens.length := by
          rw [nth, element?, hplace, Option.bind_some] at hparen
          cases hentry : p.tokens[i]? with
          | none =>
              rw [hentry] at hparen
              cases hparen
          | some entry => exact (List.getElem?_eq_some_iff.mp hentry).1
        have hmark : ∃ t ∈ (p.tokens.map Prod.snd).drop i, t.kind = .eof := by
          obtain ⟨entry, hentry, hkind⟩ := Option.map_eq_some_iff.mp hend
          rw [← List.map_drop]
          refine ⟨entry.2, List.mem_map_of_mem (List.mem_of_getLast? ?_), hkind⟩
          rw [List.getLast?_drop, if_neg (Nat.not_le.mpr hlt), hentry]
        simp only [hparen, if_true]
        rw [arrowFrom?_eq hmark, hahead, closesBeforeArrow_significantFrom]
        rfl
      · simp [hparen]

end Parser

end Grammar

/-! ## Streams that differ in their trivia -/

open Text Grammar

/-- The parser ends like this on a stream. Its events and its problem are those of the grammar, the
events are assembled to the tree if the stream has no mark of the end before its last token, and
wherever the parser stands a scan for an arrow finds what the grammar sees. -/
structure Grammar.Parser.Ends (p : Parser) (stream : List Token) : Prop where
  parsed : parseByPosition stream = some p
  events : events? (Token.significant stream) = some p.events
  fault : p.fault = (parseTokens stream).fault
  tree : (∀ t ∈ stream.dropLast, t.kind ≠ .eof) →
    Tree.Assembles p.events stream (parseTokens stream).tree
  arrows : ∀ q : Parser, q.tokens = Token.placed 0 stream → ∀ n,
    q.arrowParametersAt n = some (q.view.parametersAt n)

theorem Grammar.exists_ends {stream : List Token}
    (hend : stream.getLast?.map Token.kind = some .eof) : ∃ p : Parser, p.Ends stream := by
  obtain ⟨p, hparsed, hevents, hfault⟩ := exists_parseByPosition hend
  refine ⟨p, hparsed, hevents, hfault, fun hbody => ?_, fun q hq n => ?_⟩
  · obtain ⟨ending, hlast, hkind⟩ := Option.map_eq_some_iff.mp hend
    obtain ⟨body, rfl⟩ := List.getLast?_eq_some_iff.mp hlast
    rw [List.dropLast_concat] at hbody
    obtain ⟨events, hsame, -, hassembles⟩ := Tree.assembles_parseTokens hkind hbody
    rwa [Option.some.inj (hevents.symm.trans hsame)]
  · apply Parser.arrowParametersAt_eq
    have hkinds : (Token.placed 0 stream).map Prod.snd = stream := Token.map_snd_placed 0 stream
    rw [← hkinds, List.getLast?_map, Option.map_map] at hend
    rw [hq]
    exact hend

/-- Trivia does not matter beyond line breaks: the parser, which looks ahead and moves by positions
among all tokens, comes to the same events, to the same tree but for trivia, and to the same problem
at the same tokens. -/
theorem parse_ignores_trivia {a b : List Token} (h : Token.Alike a b)
    (ha : a.getLast?.map Token.kind = some .eof) (hb : b.getLast?.map Token.kind = some .eof) :
    ∃ p q : Parser, p.Ends a ∧ q.Ends b ∧ p.events = q.events ∧
      (parseTokens a).tree.strip = (parseTokens b).tree.strip ∧
      (p.fault = none ∧ q.fault = none ∨
        ∃ f g problem number opener, p.fault = some f ∧ q.fault = some g ∧
          f.At a problem number opener ∧ g.At b problem number opener) := by
  obtain ⟨p, hp⟩ := exists_ends ha
  obtain ⟨q, hq⟩ := exists_ends hb
  refine ⟨p, q, hp, hq, ?_, ?_, ?_⟩
  · have hevents := hq.events
    rw [← h.significant, hp.events] at hevents
    exact Option.some.inj hevents
  · rw [strip_parseTokens, strip_parseTokens, h.significant]
  · rw [hp.fault, hq.fault]
    cases hreport : (read (Token.significant a)).report with
    | none =>
        left
        rw [parseTokens, parseTokens, ← h.significant, hreport]
        exact ⟨rfl, rfl⟩
    | some report =>
        right
        obtain ⟨f, hf, hfa⟩ := fault_parseTokens ha hreport
        obtain ⟨g, hg, hgb⟩ := fault_parseTokens hb (h.significant ▸ hreport)
        exact ⟨f, g, _, _, _, hf, hg, hfa, hgb⟩

/-- A call that is never closed, over two lines. -/
def openCall : List Token := Token.tokenize "a\nf(\n1".toList

/-- The same call with comments and blanks, of which one spans the line break. -/
def openCallLoose : List Token := Token.tokenize "/* */ a /*\n*/ f ( // 0\n\n 1 ".toList

theorem parse_ignores_trivia_openCall :
    Token.Alike openCall openCallLoose ∧ openCall ≠ openCallLoose ∧
    (parseTokens openCall).tree.strip = (parseTokens openCallLoose).tree.strip ∧
    ∃ p q : Parser, parseByPosition openCall = some p ∧ parseByPosition openCallLoose = some q ∧
      p.pos ≠ q.pos ∧ p.events = q.events ∧
      ∃ f g problem number opener, p.fault = some f ∧ q.fault = some g ∧
        f.At openCall problem number opener ∧ g.At openCallLoose problem number opener := by
  have halike : Token.Alike openCall openCallLoose := by decide +kernel
  obtain ⟨p, q, hp, hq, hevents, hstrip, hfault⟩ :=
    parse_ignores_trivia halike (by decide +kernel) (by decide +kernel)
  have hbroken : (parseTokens openCall).fault ≠ none := by decide +kernel
  have hplaces : (parseByPosition openCall).map Parser.pos = some 7 ∧
      (parseByPosition openCallLoose).map Parser.pos = some 17 := by decide +kernel
  refine ⟨halike, by decide +kernel, hstrip, p, q, hp.parsed, hq.parsed, ?_, hevents,
    hfault.resolve_left fun hnone => hbroken (hp.fault.symm.trans hnone.1)⟩
  rw [hp.parsed, hq.parsed, Option.map_some, Option.map_some] at hplaces
  rw [Option.some.inj hplaces.1, Option.some.inj hplaces.2]
  decide

end ShellAwait
