import RdfMapping.Text.Hex

/-!
Percent-encoding of texts for use in IRIs.

Each byte of the UTF-8 form of a text is written as itself, if it is one of the kept bytes, and as
`%` with two upper-case hexadecimal digits otherwise. `Percent.decode?` reads an encoded text back.
-/

namespace RdfMapping.Percent

def utf8 (s : String) : List UInt8 := s.toList.flatMap String.utf8EncodeChar

/-- Letters, digits and `-`, `.`, `_`, `~`. -/
def isUnreserved (b : UInt8) : Bool :=
  let n := b.toNat
  (0x41 ≤ n && n ≤ 0x5A) || (0x61 ≤ n && n ≤ 0x7A) || (0x30 ≤ n && n ≤ 0x39) ||
    n == 0x2D || n == 0x2E || n == 0x5F || n == 0x7E

/-- The unreserved bytes, `:` and `/`. -/
def isUnreservedOrPath (b : UInt8) : Bool := isUnreserved b || b.toNat == 0x3A || b.toNat == 0x2F

/-- One byte, encoded unless it is kept. -/
def encodeByte (keep : UInt8 → Bool) (b : UInt8) : List Char :=
  if keep b then [Char.ofNat b.toNat] else '%' :: Hex.upper b

def encode (keep : UInt8 → Bool) (s : String) : String :=
  String.ofList ((utf8 s).flatMap (encodeByte keep))

/-- The bytes that an encoded text stands for. -/
def decode? : List Char → Option (List UInt8)
  | [] => some []
  | '%' :: hi :: lo :: rest => do
    let h ← Hex.digitValue? hi
    let l ← Hex.digitValue? lo
    let bytes ← decode? rest
    some (UInt8.ofNat (16 * h + l) :: bytes)
  | c :: rest =>
    if c = '%' then none else (decode? rest).map (String.utf8EncodeChar c ++ ·)

theorem encode_append (keep : UInt8 → Bool) (s t : String) :
    encode keep (s ++ t) = encode keep s ++ encode keep t := by
  simp [encode, utf8, String.toList_append, List.flatMap_append]

end RdfMapping.Percent
