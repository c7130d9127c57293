/-!
# Reading bytes as text

Bytes are read as UTF-8. What is not well formed does not stop the reading: the
longest start of a character that is cut short, or one byte that can start no
character, becomes one replacement character.
-/

namespace TypeInference.Utf8

/-- The character that stands for ill-formed bytes. -/
def replacement : Char := Char.ofNat 0xFFFD

/-- Whether a byte continues a character. -/
def isContinuation (byte : UInt8) : Bool :=
  0x80 ≤ byte && byte ≤ 0xBF

/-- Whether a second byte may follow the first of a three-byte character: no
overlong form and no surrogate. -/
def continuesThree (first second : UInt8) : Bool :=
  (if first = 0xE0 then 0xA0 else 0x80) ≤ second
    && second ≤ (if first = 0xED then 0x9F else 0xBF)

/-- Whether a second byte may follow the first of a four-byte character: no
overlong form and nothing above the last code point. -/
def continuesFour (first second : UInt8) : Bool :=
  (if first = 0xF0 then 0x90 else 0x80) ≤ second
    && second ≤ (if first = 0xF4 then 0x8F else 0xBF)

/-- The six bits that a continuation byte carries. -/
def bits (byte : UInt8) : Nat :=
  byte.toNat % 64

/-- The number of bytes of the character that a byte starts; none if it starts
no character. -/
def width (first : UInt8) : Option Nat :=
  if first ≤ 0x7F then some 1
  else if 0xC2 ≤ first && first ≤ 0xDF then some 2
  else if 0xE0 ≤ first && first ≤ 0xEF then some 3
  else if 0xF0 ≤ first && first ≤ 0xF4 then some 4
  else none

/-- The first character of some bytes and how many bytes it takes after the first. -/
def decodeFirst (first : UInt8) (rest : List UInt8) : Char × Nat :=
  match width first, rest with
  | some 1, _ => (Char.ofNat first.toNat, 0)
  | some 2, second :: _ =>
    if isContinuation second then (Char.ofNat (first.toNat % 32 * 64 + bits second), 1)
    else (replacement, 0)
  | some 3, second :: rest =>
    if continuesThree first second then
      match rest with
      | third :: _ =>
        if isContinuation third then
          (Char.ofNat ((first.toNat % 16 * 64 + bits second) * 64 + bits third), 2)
        else (replacement, 1)
      | [] => (replacement, 1)
    else (replacement, 0)
  | some 4, second :: rest =>
    if continuesFour first second then
      match rest with
      | third :: rest =>
        if isContinuation third then
          match rest with
          | fourth :: _ =>
            if isContinuation fourth then
              (Char.ofNat (((first.toNat % 8 * 64 + bits second) * 64 + bits third) * 64
                + bits fourth), 3)
            else (replacement, 2)
          | [] => (replacement, 2)
        else (replacement, 1)
      | [] => (replacement, 1)
    else (replacement, 0)
  | _, _ => (replacement, 0)

/-- Reads characters while passing over the bytes that a character has taken. -/
def decodeAfter : Nat → List UInt8 → List Char
  | _, [] => []
  | 0, first :: rest =>
    let (character, taken) := decodeFirst first rest
    character :: decodeAfter taken rest
  | skip + 1, _ :: rest => decodeAfter skip rest

/-- The characters of some bytes. -/
def decode (bytes : List UInt8) : List Char :=
  decodeAfter 0 bytes

end TypeInference.Utf8
