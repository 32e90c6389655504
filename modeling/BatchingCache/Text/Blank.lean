/-!
# Blank characters

The characters with the Unicode property White_Space, and a text without those at its ends.
-/

namespace BatchingCache.Text

/-- First and last code points of the ranges with the property White_Space. -/
def whiteSpace : List (Nat × Nat) :=
  [(0x09, 0x0D), (0x20, 0x20), (0x85, 0x85), (0xA0, 0xA0), (0x1680, 0x1680), (0x2000, 0x200A),
   (0x2028, 0x2029), (0x202F, 0x202F), (0x205F, 0x205F), (0x3000, 0x3000)]

def isBlank (c : Char) : Bool :=
  whiteSpace.any fun (lo, hi) => lo ≤ c.toNat && c.toNat ≤ hi

def trimList {α : Type} (p : α → Bool) (xs : List α) : List α :=
  ((xs.dropWhile p).reverse.dropWhile p).reverse

def trim (s : String) : String :=
  String.ofList (trimList isBlank s.toList)

end BatchingCache.Text
