/-!
# Blank characters

The characters with the Unicode property `White_Space`. They separate the words of a
text.
-/

namespace NamedSets

/-- Whether a character has the Unicode property `White_Space`. -/
def isBlank (char : Char) : Bool :=
  let code := char.toNat
  (0x9 ≤ code && code ≤ 0xD) || code = 0x20 || code = 0x85 || code = 0xA0 || code = 0x1680 ||
    (0x2000 ≤ code && code ≤ 0x200A) || code = 0x2028 || code = 0x2029 || code = 0x202F ||
    code = 0x205F || code = 0x3000

def blankSeparated (text : List Char) : List (List Char) :=
  text.splitOnP isBlank |>.filter (· ≠ [])

end NamedSets
