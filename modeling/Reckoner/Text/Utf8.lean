/-!
# Decoding UTF-8

Bytes are decoded strictly: overlong forms, surrogates and values past the last code point are
refused. The first fault is reported with its place and the longest valid beginning of the bad
sequence.
-/

namespace Reckoner.Text.Utf8

/-- What is wrong with a sequence of bytes. -/
inductive Reason
  /-- The byte cannot start a sequence. -/
  | startByte
  /-- The byte after the reported ones cannot continue their sequence. -/
  | continuationByte
  /-- The bytes end inside a sequence. -/
  | endOfData
  deriving DecidableEq, Repr

/-- A fault: the first byte of the bad sequence, its place, and how many bytes are reported. -/
structure Fault where
  byte : UInt8
  place : Nat
  count : Nat
  reason : Reason
  deriving DecidableEq, Repr

/-- The wording of a reason. -/
def Reason.text : Reason → String
  | .startByte => "invalid start byte"
  | .continuationByte => "invalid continuation byte"
  | .endOfData => "unexpected end of data"

/-- A byte in two hexadecimal digits. -/
def byteText (byte : UInt8) : String :=
  let digits := Nat.toDigits 16 byte.toNat
  String.ofList (List.replicate (2 - digits.length) '0' ++ digits)

/-- The wording of a fault. A single byte is shown; of several the places are given. -/
def Fault.message (fault : Fault) : String :=
  let subject :=
    if fault.count ≤ 1 then
      "byte 0x" ++ byteText fault.byte ++ " in position " ++ toString fault.place
    else
      "bytes in position " ++ toString fault.place ++ "-" ++
        toString (fault.place + fault.count - 1)
  "'utf-8' codec can't decode " ++ subject ++ ": " ++ fault.reason.text

/-- Least and greatest second byte after the given first byte. -/
def secondRange (first : Nat) : Nat × Nat :=
  if first = 0xE0 then (0xA0, 0xBF)
  else if first = 0xED then (0x80, 0x9F)
  else if first = 0xF0 then (0x90, 0xBF)
  else if first = 0xF4 then (0x80, 0x8F)
  else (0x80, 0xBF)

/-- Whether a byte may stand second after the given first byte. -/
def isSecond (first : Nat) (byte : UInt8) : Bool :=
  let range := secondRange first
  decide (range.1 ≤ byte.toNat) && decide (byte.toNat ≤ range.2)

/-- Whether a byte may stand third or fourth. -/
def isTail (byte : UInt8) : Bool :=
  decide (0x80 ≤ byte.toNat) && decide (byte.toNat ≤ 0xBF)

/-- The six bits that a continuation byte carries. -/
def tailBits (byte : UInt8) : Nat :=
  byte.toNat - 0x80

/-- Decodes bytes of which the first stands at the given place. -/
def decodeFrom : Nat → List UInt8 → Except Fault (List Char)
  | _, [] => .ok []
  | place, first :: rest =>
    let n := first.toNat
    let fail (count : Nat) (reason : Reason) : Except Fault (List Char) :=
      .error ⟨first, place, count, reason⟩
    if n < 0x80 then
      (decodeFrom (place + 1) rest).map (Char.ofNat n :: ·)
    else if n < 0xC2 then fail 1 .startByte
    else if n < 0xE0 then
      match rest with
      | [] => fail 1 .endOfData
      | second :: rest =>
        if isSecond n second then
          let c := Char.ofNat ((n - 0xC0) * 0x40 + tailBits second)
          (decodeFrom (place + 2) rest).map (c :: ·)
        else fail 1 .continuationByte
    else if n < 0xF0 then
      match rest with
      | [] => fail 1 .endOfData
      | second :: rest =>
        if isSecond n second then
          match rest with
          | [] => fail 2 .endOfData
          | third :: rest =>
            if isTail third then
              let c := Char.ofNat (((n - 0xE0) * 0x40 + tailBits second) * 0x40 + tailBits third)
              (decodeFrom (place + 3) rest).map (c :: ·)
            else fail 2 .continuationByte
        else fail 1 .continuationByte
    else if n < 0xF5 then
      match rest with
      | [] => fail 1 .endOfData
      | second :: rest =>
        if isSecond n second then
          match rest with
          | [] => fail 2 .endOfData
          | third :: rest =>
            if isTail third then
              match rest with
              | [] => fail 3 .endOfData
              | fourth :: rest =>
                if isTail fourth then
                  let c := Char.ofNat
                    ((((n - 0xF0) * 0x40 + tailBits second) * 0x40 + tailBits third) * 0x40
                      + tailBits fourth)
                  (decodeFrom (place + 4) rest).map (c :: ·)
                else fail 3 .continuationByte
            else fail 2 .continuationByte
        else fail 1 .continuationByte
    else fail 1 .startByte

/-- The characters that a sequence of bytes encodes, or the first fault in it. -/
def decode (bytes : List UInt8) : Except Fault (List Char) :=
  decodeFrom 0 bytes

end Reckoner.Text.Utf8
