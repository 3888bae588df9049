/-!
# Blanks: the characters that only separate

The characters of the Unicode property White_Space. It holds the line and paragraph separators and the no-break spaces, and
does not hold the information separators U+001C to U+001F, the zero width space or the byte order mark.
-/

namespace Scriptlet.Text

/-- The code points of White_Space as closed ranges, in increasing order. -/
def blankRanges : List (Nat × Nat) :=
  [(0x9, 0xD), (0x20, 0x20), (0x85, 0x85), (0xA0, 0xA0), (0x1680, 0x1680), (0x2000, 0x200A), (0x2028, 0x2029),
   (0x202F, 0x202F), (0x205F, 0x205F), (0x3000, 0x3000)]

/-- A blank is a character of White_Space. -/
def isBlank (c : Char) : Bool := blankRanges.any fun (lo, hi) => lo ≤ c.toNat && c.toNat ≤ hi

end Scriptlet.Text
