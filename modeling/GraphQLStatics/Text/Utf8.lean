/-!
# UTF-8

Decoding of bytes, with the place and the extent of the first ill-formed
sequence.

## Main Definitions

* `Utf8.Fault`, `Utf8.Fault.message`
* `Utf8.decode`
-/

namespace GraphQLStatics.Utf8

/-- The first ill-formed sequence of some bytes: the offset of its first byte,
and the number of bytes that could begin a character before the one that cannot
continue it.  There is no such number if the bytes end within the sequence. -/
structure Fault where
  index : Nat
  length : Option Nat
  deriving DecidableEq, Repr

/-- The text of a fault. -/
def Fault.message (f : Fault) : String :=
  match f.length with
  | some n =>
    "invalid utf-8 sequence of " ++ toString n ++ " bytes from index " ++ toString f.index
  | none => "incomplete utf-8 byte sequence from index " ++ toString f.index

/-- A sequence of which some bytes have been read. -/
structure Pending where
  /-- The offset of its first byte. -/
  start : Nat
  /-- The number of bytes read. -/
  seen : Nat
  /-- The number of bytes that come after the next one. -/
  later : Nat
  /-- The least next byte. -/
  low : UInt8
  /-- The greatest next byte. -/
  high : UInt8
  /-- The code point as far as it is read. -/
  code : Nat
  deriving DecidableEq, Repr

/-- The sequence that a byte above the ASCII range begins.  The bounds on the
byte after it exclude overlong forms, surrogates and code points above the
greatest. -/
def begin? (index : Nat) (b : UInt8) : Option Pending :=
  let sequence (later : Nat) (low high : UInt8) (mask : Nat) : Option Pending :=
    some { start := index, seen := 1, later, low, high, code := b.toNat % mask }
  if 0xC2 ≤ b && b ≤ 0xDF then sequence 0 0x80 0xBF 32
  else if b = 0xE0 then sequence 1 0xA0 0xBF 16
  else if b = 0xED then sequence 1 0x80 0x9F 16
  else if 0xE1 ≤ b && b ≤ 0xEF then sequence 1 0x80 0xBF 16
  else if b = 0xF0 then sequence 2 0x90 0xBF 8
  else if 0xF1 ≤ b && b ≤ 0xF3 then sequence 2 0x80 0xBF 8
  else if b = 0xF4 then sequence 2 0x80 0x8F 8
  else none

/-- Decode the bytes from offset `index` on, within a sequence or between two.
The characters read before are in `done`, latest first. -/
def decodeFrom (done : List Char) (pending : Option Pending) (index : Nat) :
    List UInt8 → Except Fault (List Char)
  | [] =>
    match pending with
    | none => .ok done.reverse
    | some p => .error ⟨p.start, none⟩
  | b :: rest =>
    match pending with
    | none =>
      if b < 0x80 then decodeFrom (Char.ofNat b.toNat :: done) none (index + 1) rest
      else match begin? index b with
        | some p => decodeFrom done (some p) (index + 1) rest
        | none => .error ⟨index, some 1⟩
    | some p =>
      if p.low ≤ b && b ≤ p.high then
        let code := 64 * p.code + b.toNat % 64
        match p.later with
        | 0 => decodeFrom (Char.ofNat code :: done) none (index + 1) rest
        | later + 1 =>
          let p := { p with seen := p.seen + 1, later, low := 0x80, high := 0xBF, code }
          decodeFrom done (some p) (index + 1) rest
      else .error ⟨p.start, some p.seen⟩

/-- The text of some bytes. -/
def decode (bytes : List UInt8) : Except Fault String :=
  (decodeFrom [] none 0 bytes).map String.ofList

end GraphQLStatics.Utf8
