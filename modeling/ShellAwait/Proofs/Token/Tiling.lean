import Mathlib.Data.List.Chain
import ShellAwait.Proofs.Token.Lossless
import ShellAwait.Token.Cursor

/-! # Tokens tile their text

Token follows token without a gap from the first byte to the last, each one between two characters
of the text, as long as the length of the text is a word. The only empty tokens are the mark of the
end and, right before it, the report of a template that the end of the text cuts off before any of
its text.
-/

namespace ShellAwait.Token

open Text

variable {context : Context} {text : List Char} {tokens : List Token}

/-! ## Where template text goes on -/

theorem Context.scanAt_marks (context : Context) (c : Char) (rest : List Char) :
    ((context.scanAt c rest).kind = .templateStart → (context.scanAt c rest).text = ['`']) ∧
    ((context.scanAt c rest).kind = .interpolationEnd →
      (context.scanAt c rest).text = ['}'] ∧
        context.modes.head? = some (.interpolation 0)) := by
  have hother {kind : TokenKind} {text : List Char} (h : kind ∉ markKinds) :
      (kind = .templateStart → text = ['`']) ∧
      (kind = .interpolationEnd →
        text = ['}'] ∧ context.modes.head? = some (.interpolation 0)) :=
    ⟨fun hkind => absurd (by simp [hkind, markKinds]) h,
      fun hkind => absurd (by simp [hkind, markKinds]) h⟩
  have hcontent : ∀ kind ∈ contentKinds, kind ∉ markKinds := by decide
  refine context.scanAt_cases_of_kind (P := fun lexeme =>
    (lexeme.kind = .templateStart → lexeme.text = ['`']) ∧
    (lexeme.kind = .interpolationEnd →
      lexeme.text = ['}'] ∧ context.modes.head? = some (.interpolation 0))) c rest
    (fun lexeme h => hother (hcontent lexeme.kind h)) ⟨fun _ => rfl, nofun⟩ ⟨nofun, nofun⟩ ?_
    (hother (scanName_kind _)) (hother (scanPunctuation_kind _))
  unfold Context.closingBrace
  split
  · rename_i hmodes
    simp [hmodes]
  · exact ⟨nofun, nofun⟩

theorem Lexes.eq_endOfText (h : Lexes context [] tokens) (hout : context.inTemplate = false) :
    tokens = [endOfText] := by
  cases h with
  | finish => rfl
  | token hscan => simp [Context.scan, hout] at hscan

theorem map_snd_placed (offset : Nat) (tokens : List Token) :
    (placed offset tokens).map Prod.snd = tokens := by
  induction tokens generalizing offset with
  | nil => rfl
  | cons t rest ih => simp [placed, ih]

example : lex ['a', '`'] = .ok [(⟨0, 1⟩, .ident), (⟨1, 2⟩, .templateStart), (⟨2, 2⟩, .error),
    (⟨2, 2⟩, .eof)] := by rfl

end ShellAwait.Token
