/-!
# White space

A character is blank when it has the Unicode property `White_Space`.  The property is a table of
ten ranges, twenty-five characters in all; zero-width characters such as U+200B are not in it.
-/

namespace EffectLang.Text

/-- The ranges of `White_Space`, first and last code point, in ascending order. -/
def blankRanges : List (Nat × Nat) :=
  [(0x09, 0x0D), (0x20, 0x20), (0x85, 0x85), (0xA0, 0xA0), (0x1680, 0x1680), (0x2000, 0x200A),
    (0x2028, 0x2029), (0x202F, 0x202F), (0x205F, 0x205F), (0x3000, 0x3000)]

/-- White space, of any script. -/
def isBlank (c : Char) : Bool :=
  blankRanges.any fun r => r.1 ≤ c.toNat && c.toNat ≤ r.2

end EffectLang.Text
