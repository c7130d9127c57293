import TypeInference.Text.Visible

/-!
# Quoted text

A text between double quotes, in which quotes, backslashes and characters that
do not show are escaped: the common controls by a letter, all others by their
code point.
-/

namespace TypeInference.Quoted

/-- One character inside the quotes. -/
def escape (character : Char) : List Char :=
  if character = '"' then ['\\', '"']
  else if character = '\\' then ['\\', '\\']
  else if character = '\n' then ['\\', 'n']
  else if character = '\r' then ['\\', 'r']
  else if character = '\t' then ['\\', 't']
  else if character = Char.ofNat 0 then ['\\', '0']
  else if Visible.isVisible character then [character]
  else ['\\', 'u', '\x7b'] ++ Nat.toDigits 16 character.toNat ++ ['\x7d']

/-- The text between quotes. -/
def quote (text : String) : String :=
  "\"" ++ String.ofList (text.toList.flatMap escape) ++ "\""

end TypeInference.Quoted
