import CodeAtlas.Digest.Sha1
import CodeAtlas.Text.Quoted
import CodeAtlas.Text.Utf8

namespace CodeAtlas

/-- The name space of addresses. -/
def addressSpace : List Nat :=
  [0x6B, 0xA7, 0xB8, 0x11, 0x9D, 0xAD, 0x11, 0xD1, 0x80, 0xB4, 0x00, 0xC0, 0x4F, 0xD4, 0x30, 0xC8]

/-- Marks sixteen bytes as an identifier of version five. -/
def markVersion (bytes : List Nat) : List Nat :=
  (bytes.modify 6 fun b => 0x50 + b % 16).modify 8 fun b => 0x80 + b % 64

/-- Bytes in hexadecimal, in groups of eight, four, four, four and twelve digits. -/
def groupedHex (bytes : List Nat) : String :=
  let hex := bytes.flatMap (hexText 2)
  String.ofList (hex.take 8 ++ '-' :: (hex.drop 8).take 4 ++ '-' :: (hex.drop 12).take 4 ++ '-' ::
    (hex.drop 16).take 4 ++ '-' :: hex.drop 20)

/-- The identifier of a name in the name space of addresses: it depends on the name alone. -/
def nameId (name : String) : String :=
  groupedHex (markVersion ((sha1 (addressSpace ++ encodeUtf8 name)).take 16))

/-- The text of the `n`-th drawn identifier. -/
def drawnId (n : Nat) : String :=
  String.ofList (hexText 8 n) ++ "-0000-4000-8000-" ++ String.ofList (hexText 12 n)

end CodeAtlas
