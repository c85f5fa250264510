import ShellAwait.Proofs.Grammar.Pairs
import ShellAwait.Proofs.Tree.Trivia

/-! # The place of a problem

A problem is at a token that is no trivia. If it points back, it is the end of something that is
missing, and it points at the innermost bracket that is open there.
-/

namespace ShellAwait

open Text Grammar

namespace Token

/-- One more token: what it opens is put on a stack, and what it closes is taken off. -/
def bracketStep (stack : List (Span × Token)) (entry : Span × Token) : List (Span × Token) :=
  if (closer? entry.2.kind).isSome then entry :: stack
  else match stack with
    | [] => []
    | top :: below => if closer? top.2.kind = some entry.2.kind then below else stack

def openAfter (entries : List (Span × Token)) : List (Span × Token) := entries.foldl bracketStep []

/-- Brackets that are written by themselves, and not in templates. -/
def isPlainOpener : TokenKind → Bool
  | .lParen | .lBracket | .lBrace => true
  | _ => false

theorem isCloser_of_closer? {opener closer : TokenKind} (h : closer? opener = some closer) :
    isCloser closer = true := by
  cases opener <;> cases h <;> rfl

theorem closer?_eq_none_of_isCloser {kind : TokenKind} (h : isCloser kind = true) :
    closer? kind = none := by
  cases kind <;> cases h <;> rfl

theorem bracketStep_opener {entry : Span × Token} (h : (closer? entry.2.kind).isSome = true)
    (stack : List (Span × Token)) : bracketStep stack entry = entry :: stack := by
  unfold bracketStep
  exact if_pos h

theorem foldl_bracketStep {entries : List (Span × Token)}
    (h : Bracketed (entries.map (·.2.kind))) (stack : List (Span × Token)) :
    entries.foldl bracketStep stack = stack := by
  generalize hkinds : entries.map (·.2.kind) = kinds at h
  induction h generalizing entries stack with
  | nil => rw [List.map_eq_nil_iff.mp hkinds, List.foldl_nil]
  | plain hplain _ ih =>
      obtain ⟨entry, rest, rfl, rfl, hrest⟩ := List.map_eq_cons_iff.mp hkinds
      obtain ⟨hopens, hcloses⟩ := Bool.or_eq_false_iff.mp hplain
      have hstep : bracketStep stack entry = stack := by
        unfold bracketStep
        rw [hopens, if_neg Bool.false_ne_true]
        cases stack with
        | nil => rfl
        | cons top below =>
            refine if_neg fun hcloser => ?_
            rw [isCloser_of_closer? hcloser] at hcloses
            cases hcloses
      rw [List.foldl_cons, hstep]
      exact ih stack hrest
  | enclosed hcloser _ _ ihv ihw =>
      obtain ⟨opener, rest, rfl, rfl, hrest⟩ := List.map_eq_cons_iff.mp hkinds
      obtain ⟨v, tail, rfl, hv, htail⟩ := List.map_eq_append_iff.mp hrest
      obtain ⟨closer, w, rfl, rfl, hw⟩ := List.map_eq_cons_iff.mp htail
      have hopen : bracketStep stack opener = opener :: stack :=
        bracketStep_opener (by rw [hcloser]; rfl) stack
      have hclose : bracketStep (opener :: stack) closer = stack := by
        rw [bracketStep, closer?_eq_none_of_isCloser (isCloser_of_closer? hcloser)]
        exact if_pos hcloser
      rw [List.foldl_cons, hopen, List.foldl_append, ihv (opener :: stack) hv, List.foldl_cons,
        hclose]
      exact ihw stack hw

/-- The innermost bracket that is open is the last one behind which all others are closed. -/
theorem head?_openAfter {before inner : List (Span × Token)} {opener : Span × Token}
    (hopener : (closer? opener.2.kind).isSome = true)
    (hinner : Bracketed (inner.map (·.2.kind))) :
    (openAfter (before ++ opener :: inner)).head? = some opener := by
  rw [openAfter, List.foldl_append, List.foldl_cons, foldl_bracketStep hinner,
    bracketStep_opener hopener, List.head?_cons]

def significantPlaced (tokens : List Token) : List (Span × Token) :=
  (placed 0 tokens).filter (!·.2.kind.isTrivia)

theorem kinds_significantPlaced (tokens : List Token) :
    (significantPlaced tokens).map (·.2.kind) = (significant tokens).map (·.kind) := by
  have hplaced : (significantPlaced tokens).map Prod.snd = Tree.significantOnly tokens := by
    conv_rhs => rw [Tree.significantOnly, ← map_snd_placed 0 tokens, List.filter_map]
    rfl
  rw [← map_token_significantFrom false, ← significant] at hplaced
  simpa [Lookahead.token, Function.comp_def] using congrArg (List.map Token.kind) hplaced

end Token

open Token

theorem Grammar.Enclosure.plain_of_pointsBack {what : Enclosure} (h : what.pointsBack = true) :
    isPlainOpener what.opener = true ∧
      (Problem.unclosed what).message = "expected " ++ spelling what.closer := by
  cases what <;> cases h <;> exact ⟨rfl, rfl⟩

theorem Grammar.Report.PointsFrom.opener {report : Report} {tokens : List Token}
    (h : report.PointsFrom (State.start (significant tokens))) {number : Nat}
    (hnumber : report.opener = some number) :
    ∃ opener closer, (significantPlaced tokens)[number]? = some opener ∧
      (openAfter ((significantPlaced tokens).take report.token)).head? = some opener ∧
      isPlainOpener opener.2.kind = true ∧ closer? opener.2.kind = some closer ∧
      report.problem.message = "expected " ++ spelling closer := by
  obtain ⟨what, before, o, inner, after, hproblem, hback, ho, hahead, hplace, htoken, hclosed⟩ :=
    h number hnumber
  obtain ⟨hplain, hmessage⟩ := Enclosure.plain_of_pointsBack hback
  -- The tokens with their spans are split where those of the grammar are.
  have hkinds := kinds_significantPlaced tokens
  rw [show significant tokens = _ from hahead, List.map_append, List.map_cons,
    List.map_append] at hkinds
  obtain ⟨front, behind, hsplit, hfront, hbehind⟩ := List.map_eq_append_iff.mp hkinds
  obtain ⟨opener, tail, rfl, hopener, htail⟩ := List.map_eq_cons_iff.mp hbehind
  obtain ⟨middle, rest, rfl, hmiddle, -⟩ := List.map_eq_append_iff.mp htail
  have hfrontLength : front.length = before.length := by simpa using congrArg List.length hfront
  have hmiddleLength : middle.length = inner.length := by simpa using congrArg List.length hmiddle
  have hstart : (State.start (significant tokens)).taken = 0 := rfl
  have hcloser : closer? opener.2.kind = some what.closer := by
    rw [hopener, ho, Enclosure.closer?_opener]
  refine ⟨opener, what.closer, ?_, ?_, ?_, hcloser, ?_⟩
  · rw [hsplit, List.getElem?_append_right (by omega), show number - front.length = 0 by omega]
    rfl
  · have htaken : (significantPlaced tokens).take report.token = front ++ opener :: middle := by
      have hlength : report.token = (front ++ opener :: middle).length := by
        rw [List.length_append, List.length_cons]
        omega
      rw [hsplit, hlength, ← List.cons_append, ← List.append_assoc, List.take_left]
    rw [htaken]
    exact head?_openAfter (by rw [hcloser]; rfl) (hmiddle ▸ hclosed)
  · rw [hopener, ho, hplain]
  · rw [hproblem, hmessage]

end ShellAwait
