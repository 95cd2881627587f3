/-!
White space in the sense of the Unicode property White_Space, and the two characters of it that
end a line. A source text treats the two groups differently: blanks only separate, line breaks
also count.
-/

namespace PlZero.Text

/-- Ascending, disjoint ranges of the code points with the property White_Space. -/
def whiteSpaceRanges : List (Nat × Nat) := [
  (0x9, 0xD), (0x20, 0x20), (0x85, 0x85), (0xA0, 0xA0), (0x1680, 0x1680), (0x2000, 0x200A),
  (0x2028, 0x2029), (0x202F, 0x202F), (0x205F, 0x205F), (0x3000, 0x3000)]

def isWhiteSpace (c : Char) : Bool :=
  whiteSpaceRanges.any fun range => range.1 ≤ c.toNat && c.toNat ≤ range.2

/-- Does `c` end a line? A carriage return followed by a line feed ends one line, not two; that is
the business of whoever reads the pair. -/
def isLineBreak (c : Char) : Bool := c == '\n' || c == '\r'

/-- White space that does not end a line. -/
def isBlank (c : Char) : Bool := isWhiteSpace c && !isLineBreak c

end PlZero.Text
