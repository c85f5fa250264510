import ShellAwait.Text.Span
import ShellAwait.Text.Word

/-! # Lines and columns

A line starts at offset zero and after every line feed. Lines and columns count from one, and columns
count bytes. The starts of lines are cut off to words, so they are right in texts that are not too long.
-/

namespace ShellAwait.Text

structure Position where
  line : Nat
  column : Nat
deriving DecidableEq, Repr

/-- The offsets just after the line feeds of a text that stands at `offset`. -/
def lineStartsFrom (offset : Nat) : List Char → List Nat
  | [] => []
  | c :: rest =>
      let next := offset + c.utf8Size
      if c = '\n' then next % wordSize :: lineStartsFrom next rest else lineStartsFrom next rest

def lineStarts (source : List Char) : List Nat := 0 :: lineStartsFrom 0 source

def lineCount (source : List Char) : Nat := (lineStarts source).length

/-- The line that an offset is on and its column there. An offset past the end is on the last line. -/
def position (source : List Char) (offset : Nat) : Except Overflow Position := do
  let starts := lineStarts source
  let index := partitionPoint (· ≤ offset) starts - 1
  let line ← addWord (index % wordSize) 1
  let passed ← subWord offset (starts.getD index 0)
  let column ← addWord passed 1
  return ⟨line, column⟩

end ShellAwait.Text
