/-!
# `SchemaAtlas.Text.CodeRange`: sets of characters as ranges of code points

The classes of characters that the scanners ask about are data of the Unicode standard. Each is
held as a list of closed ranges of code points, in ascending order.
-/

set_option autoImplicit false

namespace SchemaAtlas.Text

/-- Holds when one of the closed ranges contains the code point. -/
def covers (ranges : List (Nat × Nat)) (n : Nat) : Bool :=
  ranges.any fun r => r.1 ≤ n && n ≤ r.2

end SchemaAtlas.Text
