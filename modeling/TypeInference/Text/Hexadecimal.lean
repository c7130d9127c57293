/-!
# Hexadecimal digits

Words and bytes are written with lowercase digits, most significant first, and
always with all digits of their width. Reading the digits of a number gives the
number back.
-/

namespace TypeInference.Hexadecimal

/-- The digit of a value below sixteen. -/
def digit (value : Nat) : Char :=
  if value < 10 then Char.ofNat (48 + value) else Char.ofNat (87 + value)

/-- The last digits of a number, most significant first. -/
def digits (number : Nat) : Nat → List Char
  | 0 => []
  | width + 1 => digits (number / 16) width ++ [digit (number % 16)]

/-- A word as sixteen digits. -/
def word (value : UInt64) : String :=
  String.ofList (digits value.toNat 16)

/-- A byte as two digits. -/
def byte (value : UInt8) : String :=
  String.ofList (digits value.toNat 2)

/-- The value of a digit, whichever case it is written in; other characters count
as zero. -/
def valueOf (digit : Char) : Nat :=
  if '0' ≤ digit ∧ digit ≤ '9' then digit.toNat - 48
  else if 'a' ≤ digit ∧ digit ≤ 'f' then digit.toNat - 87
  else if 'A' ≤ digit ∧ digit ≤ 'F' then digit.toNat - 55
  else 0

/-- The number that some digits write. -/
def number (digits : List Char) : Nat :=
  digits.foldl (fun number digit => 16 * number + valueOf digit) 0

/-- The bytes that some digits write, two digits each. -/
def bytes : List Char → List UInt8
  | first :: second :: rest => UInt8.ofNat (number [first, second]) :: bytes rest
  | _ => []

/-- A number is written with exactly the asked width. -/
@[simp] theorem length_digits (number width : Nat) : (digits number width).length = width := by
  induction width generalizing number with
  | zero => rfl
  | succ width inductionHypothesis => simp [digits, inductionHypothesis]

/-- A digit stands for the value it was chosen for. -/
theorem valueOf_digit (value : Nat) (small : value < 16) : valueOf (digit value) = value := by
  have every : ∀ candidate : Fin 16, valueOf (digit candidate) = candidate := by decide
  exact every ⟨value, small⟩

/-- The digits of a number read back to it, as far as the width reaches. -/
theorem number_digits (value width : Nat) :
    number (digits value width) = value % Nat.pow 16 width := by
  induction width generalizing value with
  | zero => simp [digits, number, Nat.mod_one]
  | succ width inductionHypothesis =>
    have last : valueOf (digit (value % 16)) = value % 16 :=
      valueOf_digit _ (Nat.mod_lt _ (by decide))
    have rest : number (digits (value / 16) width) = value / 16 % Nat.pow 16 width :=
      inductionHypothesis (value / 16)
    unfold number at rest ⊢
    simp only [digits, List.foldl_append, List.foldl_cons, List.foldl_nil, rest, last]
    have grown : Nat.pow 16 (width + 1) = 16 * Nat.pow 16 width := Nat.pow_succ'
    rw [grown, Nat.mod_mul]
    omega

end TypeInference.Hexadecimal
