namespace LeastContext.Text

/-- The code points that count as white space, as runs `(first, last)` in ascending order. -/
def whitespaceRuns : List (Nat × Nat) :=
  [(0x9, 0xD), (0x20, 0x20), (0x85, 0x85), (0xA0, 0xA0), (0x1680, 0x1680), (0x2000, 0x200A),
   (0x2028, 0x2029), (0x202F, 0x202F), (0x205F, 0x205F), (0x3000, 0x3000)]

def isWhitespace (c : Char) : Bool :=
  whitespaceRuns.any fun (first, last) => first ≤ c.toNat && c.toNat ≤ last

end LeastContext.Text
