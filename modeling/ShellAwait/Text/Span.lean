import ShellAwait.Search

/-! # Byte spans

Positions in a script are offsets into its UTF-8 text. A span holds the bytes from `start` up to, and
not including, `stop`.
-/

namespace ShellAwait.Text

def byteLength : List Char → Nat
  | [] => 0
  | c :: rest => c.utf8Size + byteLength rest

@[simp] theorem byteLength_append (a b : List Char) :
    byteLength (a ++ b) = byteLength a + byteLength b := by
  induction a with
  | nil => simp [byteLength]
  | cons c rest ih => simp [byteLength, ih, Nat.add_assoc]

structure Span where
  start : Nat
  stop : Nat
deriving DecidableEq, Repr, Inhabited

namespace Span

def emptyAt (offset : Nat) : Span := ⟨offset, offset⟩

def length (s : Span) : Nat := s.stop - s.start

def isEmpty (s : Span) : Bool := s.start == s.stop

def merge (a b : Span) : Span := ⟨min a.start b.start, max a.stop b.stop⟩

def mergeAll : List Span → Option Span
  | [] => none
  | s :: rest => some (rest.foldl merge s)

/-- Source order: by start, and of two spans with one start the enclosing one first. -/
def before (a b : Span) : Bool :=
  a.start < b.start || (a.start == b.start && b.stop < a.stop)

def foundIn (span : Span) (spans : List Span) : Bool :=
  spans[partitionPoint (·.before span) spans]? == some span

end Span

end ShellAwait.Text
