import ShellAwait.Text.Blank

/-! # Cutting a prefix off a text

Every scanner takes some characters from the front of a text and leaves the rest. The two parts
together are always the text it was given.
-/

namespace ShellAwait.Token

structure Cut where
  taken : List Char
  rest : List Char
deriving DecidableEq, Repr

namespace Cut

def Of (cut : Cut) (text : List Char) : Prop := cut.taken ++ cut.rest = text

def nothing (text : List Char) : Cut := ⟨[], text⟩

def push (c : Char) (cut : Cut) : Cut := ⟨c :: cut.taken, cut.rest⟩

/-- Cut the rest again and keep both parts that were taken. -/
def follow (cut : Cut) (next : List Char → Cut) : Cut :=
  ⟨cut.taken ++ (next cut.rest).taken, (next cut.rest).rest⟩

def run (p : Char → Bool) (text : List Char) : Cut := ⟨text.takeWhile p, text.dropWhile p⟩

def one (p : Char → Bool) : List Char → Cut
  | [] => nothing []
  | c :: rest => if p c then ⟨[c], rest⟩ else nothing (c :: rest)

theorem of_nothing (text : List Char) : (nothing text).Of text := rfl

theorem of_push {c : Char} {cut : Cut} {text : List Char} (h : cut.Of text) :
    (push c cut).Of (c :: text) := by
  simpa [Of, push] using h

theorem of_follow {cut : Cut} {text : List Char} {next : List Char → Cut} (h : cut.Of text)
    (hn : (next cut.rest).Of cut.rest) : (cut.follow next).Of text := by
  simp only [Of, follow, List.append_assoc] at *
  rw [hn, h]

theorem of_run (p : Char → Bool) (text : List Char) : (run p text).Of text := by
  simp [Of, run]

theorem of_one (p : Char → Bool) (text : List Char) : (one p text).Of text := by
  cases text with
  | nil => rfl
  | cons c rest => by_cases h : p c <;> simp [one, h, Of, nothing]

end Cut

/-- A literal that may lack its end. -/
structure Literal where
  closed : Bool
  cut : Cut
deriving DecidableEq, Repr

def Literal.push (c : Char) (literal : Literal) : Literal :=
  { literal with cut := literal.cut.push c }

end ShellAwait.Token
