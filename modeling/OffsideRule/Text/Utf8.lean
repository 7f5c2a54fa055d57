import OffsideRule.Text.Basic
import OffsideRule.Text.Quoted

/-! Strict UTF-8. Bytes are read one at a time; a byte that cannot begin or continue a character
ends the reading, and so does the end of the bytes inside a character. -/

namespace OffsideRule

abbrev Bytes := List UInt8

namespace Utf8

inductive Reason
  | invalidStart
  | invalidContinuation
  | unexpectedEnd
  deriving DecidableEq, Repr

/-- Bytes that are no text: where the bad sequence begins, its bytes read so far, and why. -/
structure Malformed where
  position : Nat
  first : UInt8
  length : Nat
  reason : Reason
  deriving DecidableEq, Repr

def Reason.message : Reason → String
  | invalidStart => "invalid start byte"
  | invalidContinuation => "invalid continuation byte"
  | unexpectedEnd => "unexpected end of data"

def Malformed.message (m : Malformed) : String :=
  let place :=
    if m.length = 1 then
      "byte 0x" ++ String.ofList (Text.hex 2 m.first.toNat) ++ " in position " ++
        toString m.position
    else
      "bytes in position " ++ toString m.position ++ "-" ++ toString (m.position + m.length - 1)
  "'utf-8' codec can't decode " ++ place ++ ": " ++ m.reason.message

/-- A character begun: its first byte, how many bytes were read and how many are owed, the range of
the next byte, and the value of the bits so far. -/
structure Pending where
  first : UInt8
  read : Nat
  owed : Nat
  low : Nat
  high : Nat
  value : Nat
  deriving DecidableEq, Repr

/-- The character that a byte above `0x7f` begins. -/
def begin? (b : UInt8) : Option Pending :=
  let n := b.toNat
  if 0xc2 ≤ n && n ≤ 0xdf then some ⟨b, 1, 1, 0x80, 0xbf, n - 0xc0⟩
  else if n = 0xe0 then some ⟨b, 1, 2, 0xa0, 0xbf, n - 0xe0⟩
  else if n = 0xed then some ⟨b, 1, 2, 0x80, 0x9f, n - 0xe0⟩
  else if 0xe1 ≤ n && n ≤ 0xef then some ⟨b, 1, 2, 0x80, 0xbf, n - 0xe0⟩
  else if n = 0xf0 then some ⟨b, 1, 3, 0x90, 0xbf, n - 0xf0⟩
  else if 0xf1 ≤ n && n ≤ 0xf3 then some ⟨b, 1, 3, 0x80, 0xbf, n - 0xf0⟩
  else if n = 0xf4 then some ⟨b, 1, 3, 0x80, 0x8f, n - 0xf0⟩
  else none

def Pending.accepts (p : Pending) (b : UInt8) : Bool :=
  p.low ≤ b.toNat && b.toNat ≤ p.high

/-- The character with one more byte read. -/
def Pending.take (p : Pending) (b : UInt8) : Pending :=
  ⟨p.first, p.read + 1, p.owed - 1, 0x80, 0xbf, p.value * 64 + (b.toNat - 0x80)⟩

/-- Decodes from `position` on, where the character `pending` may have been begun. -/
def decodeFrom : (position : Nat) → (pending : Option Pending) → Bytes → Except Malformed Text
  | _, none, [] => .ok []
  | position, some p, [] => .error ⟨position - p.read, p.first, p.read, .unexpectedEnd⟩
  | position, none, b :: rest =>
    if b.toNat < 0x80 then
      (decodeFrom (position + 1) none rest).map (Char.ofNat b.toNat :: ·)
    else match begin? b with
      | none => .error ⟨position, b, 1, .invalidStart⟩
      | some p => decodeFrom (position + 1) (some p) rest
  | position, some p, b :: rest =>
    if !p.accepts b then .error ⟨position - p.read, p.first, p.read, .invalidContinuation⟩
    else if p.owed = 1 then
      (decodeFrom (position + 1) none rest).map (Char.ofNat (p.take b).value :: ·)
    else decodeFrom (position + 1) (some (p.take b)) rest

def decode (bytes : Bytes) : Except Malformed Text :=
  decodeFrom 0 none bytes

def encode (s : String) : Bytes :=
  s.toUTF8.toList

end Utf8

end OffsideRule
