/-!
# Blank characters

The characters with the Unicode property White_Space, and the text that remains
when they are taken from both ends.
-/

namespace TypeInference.Blank

/-- The code points with the property White_Space, as inclusive ranges. -/
def ranges : List (Nat × Nat) :=
  [(0x09, 0x0D), (0x20, 0x20), (0x85, 0x85), (0xA0, 0xA0), (0x1680, 0x1680), (0x2000, 0x200A),
   (0x2028, 0x2029), (0x202F, 0x202F), (0x205F, 0x205F), (0x3000, 0x3000)]

/-- Whether a character is blank. -/
def isBlank (character : Char) : Bool :=
  ranges.any fun range => range.1 ≤ character.toNat && character.toNat ≤ range.2

/-- A text without the blank characters at its ends. -/
def trim (text : String) : String :=
  String.ofList
    (((text.toList.dropWhile isBlank).reverse.dropWhile isBlank).reverse)

/-- What counts as white space among the first characters is blank. -/
theorem isBlank_of_isWhitespace (character : Char) (blank : character.isWhitespace = true) :
    isBlank character = true := by
  simp only [Char.isWhitespace, Bool.or_eq_true, decide_eq_true_eq] at blank
  rcases blank with ((same | same) | same) | same <;> subst same <;> decide

end TypeInference.Blank
