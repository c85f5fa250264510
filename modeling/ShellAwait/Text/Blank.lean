import ShellAwait.Text.Ranges

/-! # Blanks and line terminators

The characters with the Unicode property `White_Space`, the byte order mark, and the four line
terminators of a script.
-/

namespace ShellAwait.Text

/-- Ranges of the property `White_Space`, in increasing order. -/
def whiteSpaceRanges : Ranges :=
  [(0x9, 0xD), (0x20, 0x20), (0x85, 0x85), (0xA0, 0xA0), (0x1680, 0x1680), (0x2000, 0x200A),
   (0x2028, 0x2029), (0x202F, 0x202F), (0x205F, 0x205F), (0x3000, 0x3000)]

def isLineTerminator (c : Char) : Bool :=
  c = '\n' || c = '\r' || c = '\u2028' || c = '\u2029'

/-- White space and the byte order mark, which may stand anywhere between tokens. -/
def isBlank (c : Char) : Bool := whiteSpaceRanges.contains c.toNat || c = '\uFEFF'

end ShellAwait.Text
