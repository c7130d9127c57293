/-!
# A 64-bit digest of bytes

The xxh64 function: a seed and some bytes give one word. The bytes are read as
little-endian words. Thirty-two bytes or more first pass through four lanes, a
word for each in turn; what is left over is mixed in by words of eight bytes, of
four, and single bytes; a last step spreads every bit over the word. Arithmetic
is modulo the word size, as the function defines it.
-/

namespace TypeInference.Digest

/-- The first multiplier. -/
def prime1 : UInt64 := 0x9E3779B185EBCA87

/-- The second multiplier. -/
def prime2 : UInt64 := 0xC2B2AE3D27D4EB4F

/-- The third multiplier. -/
def prime3 : UInt64 := 0x165667B19E3779F9

/-- The fourth multiplier. -/
def prime4 : UInt64 := 0x85EBCA77C2B2AE63

/-- The fifth multiplier. -/
def prime5 : UInt64 := 0x27D4EB2F165667C5

/-- The word turned to the left by some bits, below the word size. -/
def rotate (word : UInt64) (bits : Nat) : UInt64 :=
  (word <<< UInt64.ofNat bits) ||| (word >>> UInt64.ofNat (64 - bits))

/-- Little-endian value of some bytes. -/
def littleEndian : List UInt8 → UInt64
  | [] => 0
  | byte :: rest => byte.toUInt64 ||| (littleEndian rest <<< 8)

/-- The bytes of a word, least significant first. -/
def bytesOf (word : UInt64) : List UInt8 :=
  [word.toUInt8, (word >>> 8).toUInt8, (word >>> 16).toUInt8, (word >>> 24).toUInt8,
   (word >>> 32).toUInt8, (word >>> 40).toUInt8, (word >>> 48).toUInt8, (word >>> 56).toUInt8]

/-- The full words at the start, and the up to seven bytes after them. -/
def wordsOf : List UInt8 → List UInt64 × List UInt8
  | a :: b :: c :: d :: e :: f :: g :: h :: rest =>
    let (words, tail) := wordsOf rest
    (littleEndian [a, b, c, d, e, f, g, h] :: words, tail)
  | tail => ([], tail)

/-- One word taken into one lane. -/
def round (lane word : UInt64) : UInt64 :=
  rotate (lane + word * prime2) 31 * prime1

/-- The four lanes that long input passes through. -/
structure Lanes where
  first : UInt64
  second : UInt64
  third : UInt64
  fourth : UInt64

/-- The lanes before any word. -/
def Lanes.start (seed : UInt64) : Lanes :=
  ⟨seed + prime1 + prime2, seed + prime2, seed, seed - prime1⟩

/-- Takes the words four at a time; up to three words are left over. -/
def Lanes.absorb (lanes : Lanes) : List UInt64 → Lanes × List UInt64
  | a :: b :: c :: d :: rest =>
    Lanes.absorb ⟨round lanes.first a, round lanes.second b, round lanes.third c,
      round lanes.fourth d⟩ rest
  | rest => (lanes, rest)

/-- One lane taken into the joined lanes. -/
def merge (joined lane : UInt64) : UInt64 :=
  (joined ^^^ round 0 lane) * prime1 + prime4

/-- The four lanes as one word. -/
def Lanes.join (lanes : Lanes) : UInt64 :=
  let turned := rotate lanes.first 1 + rotate lanes.second 7 + rotate lanes.third 12
    + rotate lanes.fourth 18
  [lanes.first, lanes.second, lanes.third, lanes.fourth].foldl merge turned

/-- Mixes in a word that no lane took. -/
def mixWord (state word : UInt64) : UInt64 :=
  rotate (state ^^^ round 0 word) 27 * prime1 + prime4

/-- Mixes in four bytes. -/
def mixHalf (state half : UInt64) : UInt64 :=
  rotate (state ^^^ half * prime1) 23 * prime2 + prime3

/-- Mixes in one byte. -/
def mixByte (state : UInt64) (byte : UInt8) : UInt64 :=
  rotate (state ^^^ byte.toUInt64 * prime5) 11 * prime1

/-- Mixes in fewer than eight bytes: four together if there are as many. -/
def mixTail (state : UInt64) : List UInt8 → UInt64
  | a :: b :: c :: d :: rest => rest.foldl mixByte (mixHalf state (littleEndian [a, b, c, d]))
  | rest => rest.foldl mixByte state

/-- Spreads every bit over the whole word. -/
def avalanche (state : UInt64) : UInt64 :=
  let state := (state ^^^ (state >>> 33)) * prime2
  let state := (state ^^^ (state >>> 29)) * prime3
  state ^^^ (state >>> 32)

/-- The digest of some bytes under a seed. -/
def digest (seed : UInt64) (bytes : List UInt8) : UInt64 :=
  let (words, tail) := wordsOf bytes
  let (start, words) :=
    if bytes.length < 32 then (seed + prime5, words)
    else
      let (lanes, words) := (Lanes.start seed).absorb words
      (lanes.join, words)
  let state := start + UInt64.ofNat bytes.length
  avalanche (mixTail (words.foldl mixWord state) tail)

end TypeInference.Digest
