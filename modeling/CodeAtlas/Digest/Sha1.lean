namespace CodeAtlas

/-- The five words of the state of the digest. -/
structure Sha1 where
  a : UInt32
  b : UInt32
  c : UInt32
  d : UInt32
  e : UInt32
  deriving DecidableEq, Inhabited, Repr

def Sha1.start : Sha1 :=
  ⟨0x67452301, 0xEFCDAB89, 0x98BADCFE, 0x10325476, 0xC3D2E1F0⟩

def rotateLeft (x : UInt32) (n : UInt32) : UInt32 :=
  (x <<< n) ||| (x >>> (32 - n))

/-- A number as bytes, the highest first. -/
def bigEndian (count n : Nat) : List Nat :=
  (List.range count).map fun i => n / Nat.pow 256 (count - 1 - i) % 256

/-- The message with a one bit, zeros up to a multiple of 64 bytes, and its length in bits. -/
def padMessage (bytes : List Nat) : List Nat :=
  let gap := (119 - bytes.length % 64) % 64
  bytes ++ 0x80 :: List.replicate gap 0 ++ bigEndian 8 (8 * bytes.length)

/-- The words of a message, four bytes each. -/
def wordsOf : List Nat → List UInt32
  | a :: b :: c :: d :: rest => UInt32.ofNat (((a * 256 + b) * 256 + c) * 256 + d) :: wordsOf rest
  | _ => []

/-- The round function and the constant of a round. -/
def roundOf (t : Nat) (s : Sha1) : UInt32 × UInt32 :=
  if t < 20 then ((s.b &&& s.c) ||| (~~~s.b &&& s.d), 0x5A827999)
  else if t < 40 then (s.b ^^^ s.c ^^^ s.d, 0x6ED9EBA1)
  else if t < 60 then ((s.b &&& s.c) ||| (s.b &&& s.d) ||| (s.c &&& s.d), 0x8F1BBCDC)
  else (s.b ^^^ s.c ^^^ s.d, 0xCA62C1D6)

/-- The rounds from `t` on. The window holds the sixteen next words; each round takes its first and
appends a new one. -/
def rounds (s : Sha1) (window : List UInt32) (t : Nat) : Nat → Sha1
  | 0 => s
  | fuel + 1 =>
    match window with
    | w :: rest =>
      let (f, k) := roundOf t s
      let next := rotateLeft s.a 5 + f + s.e + k + w
      let word := rotateLeft ((rest.getD 12 0) ^^^ (rest.getD 7 0) ^^^ (rest.getD 1 0) ^^^ w) 1
      rounds ⟨next, s.a, rotateLeft s.b 30, s.c, s.d⟩ (rest ++ [word]) (t + 1) fuel
    | [] => s

def Sha1.add (s t : Sha1) : Sha1 :=
  ⟨s.a + t.a, s.b + t.b, s.c + t.c, s.d + t.d, s.e + t.e⟩

/-- Takes in the blocks of sixteen words one after the other. -/
def Sha1.absorb (s : Sha1) (words : List UInt32) : Nat → Sha1
  | 0 => s
  | blocks + 1 => (s.add (rounds s (words.take 16) 0 80)).absorb (words.drop 16) blocks

/-- The twenty bytes of the digest. -/
def sha1 (bytes : List Nat) : List Nat :=
  let words := wordsOf (padMessage bytes)
  let s := Sha1.start.absorb words (words.length / 16)
  [s.a, s.b, s.c, s.d, s.e].flatMap fun w => bigEndian 4 w.toNat

end CodeAtlas
