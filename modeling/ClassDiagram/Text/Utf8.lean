import ClassDiagram.Text.Basic

/-!
# UTF-8

Encoding of text and decoding of bytes. A malformed sequence is reported with the place and the
length of its longest valid part and with the reason why it ends there.
-/

namespace ClassDiagram

namespace Utf8

/-- The bytes of a text. -/
def encode (text : Text) : List UInt8 := text.flatMap String.utf8EncodeChar

/-- Why a sequence of bytes is no character. -/
inductive Reason where
  | startByte
  | continuationByte
  | endOfData
  deriving DecidableEq, Repr

/-- A reason in words. -/
def Reason.message : Reason → String
  | .startByte => "invalid start byte"
  | .continuationByte => "invalid continuation byte"
  | .endOfData => "unexpected end of data"

/-- The malformed sequence that stops decoding: its first byte, its place, its length, and the
reason. -/
structure DecodeError where
  byte : UInt8
  position : Nat
  length : Nat
  reason : Reason
  deriving DecidableEq, Repr

/-- Two hexadecimal digits of a byte. -/
def hex (byte : UInt8) : String :=
  String.ofList [Nat.digitChar (byte.toNat / 16), Nat.digitChar (byte.toNat % 16)]

/-- A decoding error in words. -/
def DecodeError.message (error : DecodeError) : String :=
  let first := error.position
  let last := error.position + error.length - 1
  let place :=
    if error.length = 1 then s!"byte 0x{hex error.byte} in position {first}"
    else s!"bytes in position {first}-{last}"
  s!"'utf-8' codec can't decode {place}: {error.reason.message}"

/-- What a byte announces at the start of a sequence: the number of bytes that follow, the bits
it carries itself, and the range of the byte behind it. -/
structure Lead where
  count : Nat
  bits : Nat
  low : UInt8 := 0x80
  high : UInt8 := 0xBF

/-- The reading of a start byte, if it is one. -/
def lead? (byte : UInt8) : Option Lead :=
  if byte < 0x80 then some { count := 0, bits := byte.toNat }
  else if byte < 0xC2 then none
  else if byte < 0xE0 then some { count := 1, bits := byte.toNat - 0xC0 }
  else if byte < 0xF0 then
    some {
      count := 2
      bits := byte.toNat - 0xE0
      low := if byte = 0xE0 then 0xA0 else 0x80
      high := if byte = 0xED then 0x9F else 0xBF }
  else if byte < 0xF5 then
    some {
      count := 3
      bits := byte.toNat - 0xF0
      low := if byte = 0xF0 then 0x90 else 0x80
      high := if byte = 0xF4 then 0x8F else 0xBF }
  else none

/-- Reads `count` more bytes of a sequence, of which `length` are read already. The first of them
lies between `low` and `high`, all others are plain continuation bytes. -/
def continue? (count length bits : Nat) (low high : UInt8) (bytes : List UInt8) :
    Except (Nat × Reason) (Nat × List UInt8) :=
  match count, bytes with
  | 0, rest => .ok (bits, rest)
  | _ + 1, [] => .error (length, .endOfData)
  | count + 1, byte :: rest =>
    if low ≤ byte ∧ byte ≤ high then
      continue? count (length + 1) (bits * 64 + (byte.toNat - 0x80)) 0x80 0xBF rest
    else .error (length, .continuationByte)

theorem length_le_of_continue? {count length bits value : Nat} {low high : UInt8}
    {bytes rest : List UInt8} (h : continue? count length bits low high bytes = .ok (value, rest)) :
    rest.length ≤ bytes.length := by
  fun_induction continue? count length bits low high bytes with
  | case1 =>
    simp only [Except.ok.injEq, Prod.mk.injEq] at h
    simp [h.2]
  | case2 => simp at h
  | case3 _ _ _ _ _ _ _ _ ih => exact Nat.le_succ_of_le (ih h)
  | case4 => simp at h

/-- Decodes bytes that go on at `position`. -/
def decodeFrom (position : Nat) (bytes : List UInt8) : Except DecodeError Text :=
  match bytes with
  | [] => .ok []
  | byte :: tail =>
    match lead? byte with
    | none => .error ⟨byte, position, 1, .startByte⟩
    | some lead =>
      match h : continue? lead.count 1 lead.bits lead.low lead.high tail with
      | .error (length, reason) => .error ⟨byte, position, length, reason⟩
      | .ok (value, rest) =>
        (decodeFrom (position + (1 + tail.length - rest.length)) rest).map (Char.ofNat value :: ·)
termination_by bytes.length
decreasing_by exact Nat.lt_succ_of_le (length_le_of_continue? h)

/-- Decodes bytes. -/
def decode (bytes : List UInt8) : Except DecodeError Text := decodeFrom 0 bytes

end Utf8

end ClassDiagram
