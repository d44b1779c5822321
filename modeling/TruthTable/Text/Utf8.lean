import TruthTable.Text.Quoted

/-!
# UTF-8

Decoding of a file's bytes. The bytes come in blocks of `blockSize`; a character cut off by the end
of a block is carried over to the next one. A fault tells its position counted from the first byte
that was carried over, or from the first byte of the block when none was, so the position of a
fault behind the first block is not counted from the start of the file.
-/

namespace TruthTable.Text

/-- Why bytes do not decode. -/
inductive DecodeReason where
  | invalidStart
  | invalidContinuation
  | unexpectedEnd

/-- The words for a reason. -/
def DecodeReason.message : DecodeReason → String
  | .invalidStart => "invalid start byte"
  | .invalidContinuation => "invalid continuation byte"
  | .unexpectedEnd => "unexpected end of data"

/-- Bytes that do not decode: the first of them, its position, and how many they are. -/
structure DecodeFault where
  byte : UInt8
  position : Nat
  count : Nat
  reason : DecodeReason

/-- The message for bytes that do not decode. -/
def DecodeFault.message (f : DecodeFault) : String :=
  let place :=
    if f.count == 1 then
      "byte 0x" ++ String.ofList (hexadecimal 2 f.byte.toNat) ++ " in position " ++
        toString f.position
    else
      "bytes in position " ++ toString f.position ++ "-" ++ toString (f.position + f.count - 1)
  "'utf-8' codec can't decode " ++ place ++ ": " ++ f.reason.message

/-- The number of bytes read at a time. -/
def blockSize : Nat := 8192

/-- What the bytes at the head of a text are. -/
inductive Utf8Head where
  /-- A character, and the number of bytes after the first one that belong to it. -/
  | char (c : Char) (more : Nat)
  /-- The start of a character whose other bytes are missing. -/
  | cut
  /-- Bytes that do not decode, and how many. -/
  | bad (count : Nat) (reason : DecodeReason)

/-- The byte lies in the given range. -/
def between (low high : Nat) (b : UInt8) : Bool :=
  low ≤ b.toNat && b.toNat ≤ high

/-- A byte that may follow the second byte of a character. -/
def isTail (b : UInt8) : Bool :=
  between 0x80 0xBF b

/-- The six bits that a following byte adds to a code point. -/
def addTail (n : Nat) (b : UInt8) : Nat :=
  n * 64 + b.toNat % 64

/-- A character of two bytes. -/
def twoBytes (first : UInt8) : List UInt8 → Utf8Head
  | [] => .cut
  | b :: _ =>
    if isTail b then .char (Char.ofNat (addTail (first.toNat % 32) b)) 1
    else .bad 1 .invalidContinuation

/-- A character of three bytes; the second one lies between `low` and `high`. -/
def threeBytes (low high : Nat) (first : UInt8) : List UInt8 → Utf8Head
  | [] => .cut
  | b :: rest =>
    if between low high b then
      match rest with
      | [] => .cut
      | c :: _ =>
        if isTail c then .char (Char.ofNat (addTail (addTail (first.toNat % 16) b) c)) 2
        else .bad 2 .invalidContinuation
    else .bad 1 .invalidContinuation

/-- A character of four bytes; the second one lies between `low` and `high`. -/
def fourBytes (low high : Nat) (first : UInt8) : List UInt8 → Utf8Head
  | [] => .cut
  | b :: rest =>
    if between low high b then
      match rest with
      | [] => .cut
      | c :: rest =>
        if isTail c then
          match rest with
          | [] => .cut
          | d :: _ =>
            if isTail d then
              .char (Char.ofNat (addTail (addTail (addTail (first.toNat % 8) b) c) d)) 3
            else .bad 3 .invalidContinuation
        else .bad 2 .invalidContinuation
    else .bad 1 .invalidContinuation

/-- Reads the character at the head of a text. The range of the second byte depends on the first:
it keeps out overlong forms, surrogates and numbers beyond the last code point. -/
def utf8Head (first : UInt8) (rest : List UInt8) : Utf8Head :=
  let n := first.toNat
  if n < 0x80 then .char (Char.ofNat n) 0
  else if n < 0xC2 then .bad 1 .invalidStart
  else if n < 0xE0 then twoBytes first rest
  else if n < 0xF0 then
    threeBytes (if n = 0xE0 then 0xA0 else 0x80) (if n = 0xED then 0x9F else 0xBF) first rest
  else if n < 0xF5 then
    fourBytes (if n = 0xF0 then 0x90 else 0x80) (if n = 0xF4 then 0x8F else 0xBF) first rest
  else .bad 1 .invalidStart

/-- The first two bytes of a surrogate, with nothing after them. They do not decode, but this is
found out only when the next block is there. -/
def isCutSurrogate (first : UInt8) : List UInt8 → Bool
  | [b] => first.toNat == 0xED && isTail b
  | _ => false

/-- Decodes the bytes from `position` on; `decoded` holds the characters before them, last one
first. The second component of the result are the bytes of a character cut off by the end. -/
def decodeBlock (position : Nat) (decoded : List Char) (bytes : List UInt8) :
    Except DecodeFault (List Char × List UInt8) :=
  match bytes with
  | [] => .ok (decoded, [])
  | first :: rest =>
    match utf8Head first rest with
    | .char c more => decodeBlock (position + 1 + more) (c :: decoded) (rest.drop more)
    | .cut => .ok (decoded, first :: rest)
    | .bad count reason =>
      if isCutSurrogate first rest then .ok (decoded, first :: rest)
      else .error ⟨first, position, count, reason⟩
termination_by bytes.length
decreasing_by simp only [List.length_drop, List.length_cons]; omega

/-- Decodes block after block; `carried` are the bytes of a character cut off by the end of the
block before. -/
def decodeBlocks (decoded : List Char) (carried bytes : List UInt8) :
    Except DecodeFault (List Char) :=
  match bytes with
  | [] =>
    match carried with
    | [] => .ok decoded.reverse
    | first :: rest =>
      match utf8Head first rest with
      | .bad count reason => .error ⟨first, 0, count, reason⟩
      | _ => .error ⟨first, 0, rest.length + 1, .unexpectedEnd⟩
  | first :: rest =>
    match decodeBlock 0 decoded (carried ++ first :: rest.take (blockSize - 1)) with
    | .error fault => .error fault
    | .ok (decoded, carried) => decodeBlocks decoded carried (rest.drop (blockSize - 1))
termination_by bytes.length
decreasing_by simp only [List.length_drop, List.length_cons]; omega

/-- Decodes the bytes of a file. -/
def decode (bytes : List UInt8) : Except DecodeFault (List Char) :=
  decodeBlocks [] [] bytes

end TruthTable.Text
