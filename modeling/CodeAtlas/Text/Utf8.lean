namespace CodeAtlas

def replacement : Char := '\ufffd'

/-- What a first byte asks for: how many more bytes, the bounds of the first of them, and the bits it
gives itself. -/
def leadByte? (b : Nat) : Option (Nat × Nat × Nat × Nat) :=
  if 0xC2 ≤ b ∧ b ≤ 0xDF then some (1, 0x80, 0xBF, b - 0xC0)
  else if b = 0xE0 then some (2, 0xA0, 0xBF, 0)
  else if b = 0xED then some (2, 0x80, 0x9F, 0xD)
  else if 0xE1 ≤ b ∧ b ≤ 0xEF then some (2, 0x80, 0xBF, b - 0xE0)
  else if b = 0xF0 then some (3, 0x90, 0xBF, 0)
  else if 0xF1 ≤ b ∧ b ≤ 0xF3 then some (3, 0x80, 0xBF, b - 0xF0)
  else if b = 0xF4 then some (3, 0x80, 0x8F, 4)
  else none

/-- Reads the bytes that a first byte asks for. The answer counts the bytes that fit, and gives the
character when all of them do. -/
def followBytes : Nat → Nat → Nat → Nat → List Nat → Nat × Option Char
  | 0, _, _, bits, _ => (0, some (Char.ofNat bits))
  | _ + 1, _, _, _, [] => (0, none)
  | need + 1, low, high, bits, b :: rest =>
    if low ≤ b ∧ b ≤ high then
      let (taken, c) := followBytes need 0x80 0xBF (bits * 64 + (b - 0x80)) rest
      (taken + 1, c)
    else (0, none)

/-- The characters of a byte sequence; each longest piece that starts no character becomes one
replacement character. -/
def decodeUtf8 : List Nat → List Char
  | [] => []
  | b :: rest =>
    if b < 0x80 then Char.ofNat b :: decodeUtf8 rest
    else match leadByte? b with
      | none => replacement :: decodeUtf8 rest
      | some (need, low, high, bits) =>
        let (taken, c) := followBytes need low high bits rest
        c.getD replacement :: decodeUtf8 (rest.drop taken)
termination_by bytes => bytes.length
decreasing_by all_goals simp only [List.length_cons, List.length_drop]; omega

/-- The bytes of a text. -/
def encodeUtf8 (s : String) : List Nat :=
  s.toUTF8.toList.map (·.toNat)

end CodeAtlas
