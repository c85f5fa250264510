import ShellAwait.Proofs.Grammar.Precedence

/-! # Ends of statements and of lines

A statement that asks for a semicolon has one, or what follows shows that it has ended: a brace that
closes, the end of the text, or a new line. In turn no line ends where that would end a statement
too early: behind `return` and `throw`, in front of an operator that trails its operand, and behind
the word `async`.
-/

namespace ShellAwait

namespace Tree

def isTerminated : NodeKind → Bool
  | .varDecl | .exprStmt | .returnStmt | .breakStmt | .continueStmt | .throwStmt => true
  | _ => false

/-- Nodes whose first two elements stand on one line: `return` and `throw` with what they give, an
operand with the operator that trails it, and `async` with what it modifies. -/
def isTied (kind : NodeKind) (children : List Tree) : Bool :=
  match kind with
  | .returnStmt => !(kinds children).isEmpty
  | .throwStmt | .postfixExpr => true
  | .functionDecl | .functionExpr | .arrow | .method => startsAsync children
  | _ => false

theorem startsAsync_stripAll (trees : List Tree) :
    startsAsync (stripAll trees) = startsAsync trees := by
  induction trees with
  | nil => rfl
  | cons tree rest ih =>
      cases tree with
      | node kind children => rfl
      | leaf token =>
          rw [stripAll, isTrivia]
          cases htrivia : token.kind.isTrivia with
          | true => simpa [startsAsync, isTrivia, htrivia] using ih
          | false => simp [startsAsync, strip, isTrivia, htrivia]

theorem isTied_stripAll (kind : NodeKind) (trees : List Tree) :
    isTied kind (stripAll trees) = isTied kind trees := by
  simp only [isTied, kinds_stripAll, startsAsync_stripAll]

end Tree

namespace Grammar

open Phrase ShellAwait.Tree

variable {n : Bool} {kind : NodeKind} {parts : List Phrase} {rest : List Lookahead}

/-! ## Ends of statements -/

theorem Reads.terminated (h : Reads .statement n [.node kind parts] rest)
    (hkind : isTerminated kind = true) : ∃ d e, parts = d ++ e ∧ Reads .terminator n e rest := by
  cases h with
  | variableStatement _ he => exact ⟨_, _, rfl, he⟩
  | result _ _ _ he | throw _ _ _ he => exact ⟨[_, _], _, rfl, he⟩
  | noResult _ he | jump _ he | effect _ he => exact ⟨[_], _, rfl, he⟩
  | block h =>
      cases h with
      | group hgroup =>
          cases hgroup
          cases hkind
  | loop _ _ hhead => cases hhead <;> cases hkind
  | _ => cases hkind

theorem ReadAs.terminated {around : NodeKind} {later : List Phrase}
    (h : ReadAs around later kind parts rest) (hkind : isTerminated kind = true)
    (hhead : kind = .varDecl → Part.inHead around later = false) :
    ∃ n d e, parts = d ++ e ∧ Reads .terminator n e rest := by
  have hstatement : ∃ n, Reads .statement n [.node kind parts] rest := by
    obtain hminor | ⟨part, n, hmakes, h⟩ := h
    · cases kind <;> cases hkind <;> cases hminor
    · cases kind with
      | varDecl =>
          rcases hmakes with rfl | ⟨-, hin⟩
          · exact ⟨n, h⟩
          · rw [hhead rfl] at hin
            cases hin
      | exprStmt | returnStmt | breakStmt | continueStmt | throwStmt =>
          cases hmakes
          exact ⟨n, h⟩
      | _ => cases hkind
  obtain ⟨n, hreads⟩ := hstatement
  exact ⟨n, hreads.terminated hkind⟩

/-! ## Lines -/

theorem Reads.not_startsAsync {part : Part} {p : Phrase} {l : List Phrase} {wanted : SlotKind}
    (h : Reads part n [p] rest) (hpart : part.slots = [.one wanted]) :
    startsAsync (trees (p :: l)) = false := by
  obtain ⟨kind, children, htree, -⟩ := (hpart ▸ h.supplies).exists_node
  rw [trees_cons, htree]
  rfl

/-- The first two elements of a phrase, the second without a line break in front of it. -/
def Tied (parts : List Phrase) (rest : List Lookahead) : Prop :=
  ∃ p q l, parts = p :: q :: l ∧ (front (words (q :: l) ++ rest)).breakBefore = false

theorem Modifier.tied {a l : List Phrase} {p : Phrase} (ha : Modifier a)
    (hasync : startsAsync (trees (a ++ p :: l)) = true)
    (hfirst : startsAsync (trees (p :: l)) = false)
    (hline : a ≠ [] → (front (words (p :: l) ++ rest)).breakBefore = false) :
    Tied (a ++ p :: l) rest := by
  rcases ha with rfl | ⟨t, -, rfl⟩
  · exact absurd (hfirst.symm.trans hasync) Bool.false_ne_true
  · exact ⟨.leaf t, p, l, rfl, hline (List.cons_ne_nil _ _)⟩

theorem Reads.tied_function {needsName : Bool} {l : List Phrase}
    (h : Reads (.function needsName) n l rest) (hasync : startsAsync (trees l) = true) :
    Tied l rest := by
  cases h with
  | function ha hline hf =>
      refine ha.tied hasync ?_ hline
      simp [startsAsync, Phrase.tree, isTrivia, Lookahead.token, hf, TokenKind.isTrivia]

theorem Reads.tied_statement (h : Reads .statement n [.node kind parts] rest)
    (hkind : isTied kind (trees parts) = true) : Tied parts rest := by
  cases h with
  | result _ _ hline | throw _ _ hline => exact ⟨_, _, _, rfl, hline⟩
  | noResult _ he =>
      -- Nothing but a semicolon can follow.
      cases he <;> cases hkind
  | functionStatement h => exact h.tied_function hkind
  | block h =>
      cases h with
      | group hgroup =>
          cases hgroup
          cases hkind
  | loop _ _ hhead => cases hhead <;> cases hkind
  | jump hjump =>
      unfold jumpKind? at hjump
      split at hjump <;> cases hjump <;> cases hkind
  | _ => cases hkind

theorem front_concat (w : List Lookahead) (t : Lookahead) (rest : List Lookahead) :
    front (w ++ t :: rest) = front (w ++ [t]) := by
  cases w <;> rfl

theorem Enclosure.kind?_ne_functionExpr (what : Enclosure) : what.kind? ≠ some .functionExpr := by
  cases what <;> decide

theorem ReadAs.tied {around : NodeKind} {later : List Phrase}
    (h : ReadAs around later kind parts rest) (hkind : isTied kind (trees parts) = true) :
    Tied parts rest := by
  obtain hminor | ⟨part, n, hmakes, h⟩ := h
  · cases kind <;> cases hminor <;> cases hkind
  · cases kind with
    | returnStmt | throwStmt | functionDecl =>
        cases hmakes
        exact h.tied_statement hkind
    | postfixExpr =>
        cases hmakes
        cases h with
        | linked h => exact absurd (h.looseness_le rfl) (by decide)
        | trail _ _ hline => exact ⟨_, _, _, rfl, hline⟩
    | functionExpr =>
        cases hmakes
        cases h with
        | functionValue h => exact h.tied_function hkind
        | operandGroup _ h =>
            cases h with
            | group hgroup => exact absurd hgroup (Enclosure.kind?_ne_functionExpr _)
        | created h => cases h
    | arrow =>
        cases hmakes
        cases h with
        | arrow ha hline hps =>
            refine ha.tied hkind (hps.not_startsAsync rfl) fun hne => ?_
            have hfront := hline hne
            rw [← front_concat] at hfront
            simpa using hfront
        | unassigned h => exact absurd (h.looseness_le rfl) (by decide)
    | method =>
        cases hmakes
        cases h with
        | method ha hline hk => exact ha.tied hkind (hk.not_startsAsync rfl) hline
    | _ => cases hkind

end Grammar

namespace Spot

open ShellAwait.Tree

/-- In the head of a loop. That of a loop over a value is no node, but the body comes after it. -/
def inLoopHead (spot : Spot) : Bool :=
  spot.around = .forInit || spot.around = .forInStmt && !(kinds spot.later).isEmpty

def needsEnd (spot : Spot) : Bool :=
  isTerminated spot.kind && !(spot.kind = .varDecl && spot.inLoopHead)

def hasSemicolon (spot : Spot) : Bool := spot.children.getLast?.any (·.isLeafOf .semicolon)

/-- What follows shows that a statement has ended. -/
def EndsOpenly (spot : Spot) : Prop :=
  ∃ next rest, significantOnly spot.after = next :: rest ∧
    (next.kind = .rBrace ∨ next.kind = .eof ∨ Token.breaksBefore spot.after 0 = true)

end Spot

namespace Tree

open Grammar Phrase Token

theorem getLast?_of_strip {children init : List Tree} {token : Token}
    (h : stripAll children = init ++ [.leaf token])
    (hends : endsSignificant (leavesAll children) = true) :
    children.getLast? = some (.leaf token) := by
  rcases List.eq_nil_or_concat children with rfl | ⟨front, last, rfl⟩
  · simp [stripAll] at h
  · rw [List.concat_eq_append] at h hends ⊢
    rw [stripAll_append] at h
    rw [List.getLast?_concat]
    cases htrivia : last.isTrivia with
    | true =>
        cases last with
        | node => cases htrivia
        | leaf t =>
            rw [leavesAll_append] at hends
            simp [leavesAll, leaves, endsSignificant] at hends
            rw [isTrivia, hends] at htrivia
            cases htrivia
    | false =>
        rw [stripAll, htrivia] at h
        have hlast := (List.append_inj' h rfl).2
        cases last with
        | node => cases hlast
        | leaf t => simpa [stripAll, strip] using hlast

theorem endsOpenly {n : Bool} {spot : Spot} {rest : List Lookahead}
    (hafter : significant spot.after = rest) (hrest : rest ≠ [])
    (hends : (viewOf n rest).endsStatement = true) (hnext : (front rest).kind ≠ .semicolon) :
    spot.EndsOpenly := by
  cases rest with
  | nil => exact absurd rfl hrest
  | cons next more =>
      have htokens : significantOnly spot.after = next.token :: more.map Lookahead.token := by
        rw [← map_token_significantFrom false, ← significant, hafter]
        rfl
      have hbreak : next.breakBefore = breaksBefore spot.after 0 := by
        have hfirst := getElem?_significant spot.after 0
        rw [hafter, htokens] at hfirst
        exact congrArg Lookahead.breakBefore (Option.some.inj hfirst)
      refine ⟨next.token, _, htokens, ?_⟩
      rw [View.endsStatement, nextIn_viewOf, breakAt_viewOf, front_cons, hbreak] at hends
      rw [front_cons] at hnext
      simpa [hnext, or_assoc, Lookahead.token] using hends

theorem inLoopHead_eq {spot : Spot} {later : List Phrase} (h : stripAll spot.later = trees later) :
    Part.inHead spot.around later = spot.inLoopHead := by
  rw [Part.inHead, hasNode, ← h, kinds_stripAll, Spot.inLoopHead]

/-- Every statement that asks for a semicolon ends with one, or in front of a brace that closes, the
end of the text or a new line; and no line ends in trivia that has to stay on one line. -/
theorem statements_end_where_lines_may {source : List Char} (h : (parse source).fault = none) :
    ∀ spot ∈ (parse source).tree.spots,
      (spot.needsEnd = true → spot.hasSemicolon = true ∨ spot.EndsOpenly) ∧
      (isTied spot.kind spot.children = true → (gap spot.children).any endsLine = false) := by
  intro spot hspot
  obtain ⟨parts, later, rest, hphrase⟩ := isPhrase_spot h hspot
  refine ⟨fun hneeds => ?_, fun htied => ?_⟩
  · rw [Spot.needsEnd, Bool.and_eq_true, ← inLoopHead_eq hphrase.later] at hneeds
    have hsolid : spot.kind.mayBeEmpty = false := by
      have hkind := hneeds.1
      revert hkind
      cases spot.kind <;> decide
    obtain ⟨n, d, e, rfl, hend⟩ := hphrase.readAs.terminated hneeds.1
      (fun hkind => by simpa [hkind] using hneeds.2)
    cases hend with
    | ended hends hnext =>
        exact .inr (endsOpenly (hphrase.after hsolid) hphrase.follows hends hnext)
    | @semicolon _ t _ ht =>
        have htext : spot.text ≠ [] := fun hempty =>
          absurd (mayBeEmpty_spot h hspot hempty) (by rw [hsolid]; exact Bool.false_ne_true)
        have hchildren := hphrase.children
        rw [Phrase.trees_append] at hchildren
        have hlast := getLast?_of_strip hchildren (endsSignificant_spot h hspot htext)
        left
        simp [Spot.hasSemicolon, hlast, isLeafOf, Lookahead.token, ht]
  · rw [← isTied_stripAll, hphrase.children] at htied
    obtain ⟨p, q, l, hparts, hline⟩ := hphrase.readAs.tied htied
    exact hphrase.gap p q l hparts hline

def withoutSemicolons : List Char :=
  "async function f() { for (var a of b) var c
 x++ /* */
 return x } throw 1;".toList

theorem statements_end_where_lines_may_withoutSemicolons :
    (parse withoutSemicolons).fault = none ∧
    ((parse withoutSemicolons).tree.spots.filter (·.needsEnd)).map
        (fun spot => (spot.kind, spot.hasSemicolon)) =
      [(.varDecl, false), (.exprStmt, false), (.returnStmt, false), (.throwStmt, true)] ∧
    ((parse withoutSemicolons).tree.spots.filter fun spot =>
        isTied spot.kind spot.children).map Spot.kind =
      [.functionDecl, .postfixExpr, .returnStmt, .throwStmt] ∧
    ∃ spot ∈ (parse withoutSemicolons).tree.spots, spot.kind = .returnStmt ∧
      spot.EndsOpenly ∧ (gap spot.children).any endsLine = false := by
  have hreturn : (parse withoutSemicolons).fault = none ∧
      ∃ spot ∈ (parse withoutSemicolons).tree.spots, spot.kind = .returnStmt ∧
        spot.needsEnd = true ∧ spot.hasSemicolon = false ∧
        isTied spot.kind spot.children = true := by decide +kernel
  obtain ⟨hclean, spot, hspot, hkind, hneeds, hnone, htied⟩ := hreturn
  obtain ⟨hends, hline⟩ := statements_end_where_lines_may hclean spot hspot
  refine ⟨hclean, by decide +kernel, by decide +kernel, spot, hspot, hkind, ?_, hline htied⟩
  exact (hends hneeds).resolve_left (by rw [hnone]; exact Bool.false_ne_true)

end Tree

end ShellAwait
