/-! UTF-8 as bytes: writing a text, reading it back, and the exact place and cause where bytes are
no text. The reader takes one byte at a time; between characters it owes nothing, inside one it
knows how many bytes are still owed and between which bounds the next one lies. -/
namespace EventCodegen.Text

/-- The bytes of one character. -/
def encodeChar (c : Char) : List UInt8 :=
  let n := c.toNat
  if n < 0x80 then [.ofNat n]
  else if n < 0x800 then [.ofNat (0xC0 + n / 64), .ofNat (0x80 + n % 64)]
  else if n < 0x10000 then
    [.ofNat (0xE0 + n / 4096), .ofNat (0x80 + n / 64 % 64), .ofNat (0x80 + n % 64)]
  else
    [.ofNat (0xF0 + n / 262144), .ofNat (0x80 + n / 4096 % 64), .ofNat (0x80 + n / 64 % 64),
     .ofNat (0x80 + n % 64)]

/-- The bytes of a text. -/
def encode (s : List Char) : List UInt8 := s.flatMap encodeChar

/-- Why bytes are no text. -/
inductive DecodeReason
  | invalidStart
  | invalidContinuation
  | unexpectedEnd
deriving DecidableEq, Repr

/-- The bytes `start` to `stop - 1`, of which `byte` is the first, are no text. -/
structure DecodeFault where
  reason : DecodeReason
  start : Nat
  stop : Nat
  byte : Nat
deriving DecidableEq, Repr

def DecodeReason.message : DecodeReason → String
  | invalidStart => "invalid start byte"
  | invalidContinuation => "invalid continuation byte"
  | unexpectedEnd => "unexpected end of data"

/-- The wording of a fault: one byte is shown, several are only counted. -/
def DecodeFault.message (f : DecodeFault) : String :=
  let place :=
    if f.stop = f.start + 1 then
      "byte 0x" ++ String.ofList [nibble (f.byte / 16), nibble (f.byte % 16)] ++
        " in position " ++ toString f.start
    else "bytes in position " ++ toString f.start ++ "-" ++ toString (f.stop - 1)
  "'utf-8' codec can't decode " ++ place ++ ": " ++ f.reason.message
where
  nibble (n : Nat) : Char := if n < 10 then Char.ofNat (48 + n) else Char.ofNat (87 + n)

/-- A character of which `got` bytes are read and `owed` are still to come, the next of them
between `low` and `high`. `first` is its first byte, `value` what its bytes say so far. -/
structure Pending where
  first : Nat
  got : Nat
  owed : Nat
  low : Nat
  high : Nat
  value : Nat

/-- What a first byte above 7F announces. -/
def Pending.ofFirst (b : Nat) : Option Pending :=
  if b < 0xC2 then none
  else if b < 0xE0 then some ⟨b, 1, 1, 0x80, 0xBF, b - 0xC0⟩
  else if b < 0xF0 then
    some ⟨b, 1, 2, if b = 0xE0 then 0xA0 else 0x80, if b = 0xED then 0x9F else 0xBF, b - 0xE0⟩
  else if b < 0xF5 then
    some ⟨b, 1, 3, if b = 0xF0 then 0x90 else 0x80, if b = 0xF4 then 0x8F else 0xBF, b - 0xF0⟩
  else none

/-- Reads on at `position`, with the characters read so far in reverse. -/
def decodeFrom (position : Nat) (read : List Char) :
    Option Pending → List UInt8 → Except DecodeFault (List Char)
  | none, [] => .ok read.reverse
  | some p, [] => .error ⟨.unexpectedEnd, position - p.got, position, p.first⟩
  | none, b :: rest =>
    if b.toNat < 0x80 then decodeFrom (position + 1) (Char.ofNat b.toNat :: read) none rest
    else match Pending.ofFirst b.toNat with
      | some p => decodeFrom (position + 1) read (some p) rest
      | none => .error ⟨.invalidStart, position, position + 1, b.toNat⟩
  | some p, b :: rest =>
    if p.low ≤ b.toNat ∧ b.toNat ≤ p.high then
      let value := p.value * 64 + (b.toNat - 0x80)
      if p.owed ≤ 1 then decodeFrom (position + 1) (Char.ofNat value :: read) none rest
      else decodeFrom (position + 1) read
        (some ⟨p.first, p.got + 1, p.owed - 1, 0x80, 0xBF, value⟩) rest
    else .error ⟨.invalidContinuation, position - p.got, position, p.first⟩

/-- The text that the bytes hold. -/
def decode (bytes : List UInt8) : Except DecodeFault (List Char) := decodeFrom 0 [] none bytes

end EventCodegen.Text
