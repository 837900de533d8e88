/-! Reading bytes as UTF-8.

    A character is one byte below 0x80, or a lead byte followed by one to three bytes, each within
    the range that the lead allows at its place: so overlong forms, surrogates and values above
    0x10FFFF never begin to be read. A fault names the longest run of bytes from the lead on that
    begins some character, or the lead alone when none does. -/

namespace ExprLang.Text.Utf8

/-- Why some bytes are no character. -/
inductive Reason where
  | invalidStart
  | invalidContinuation
  | unexpectedEnd
  deriving DecidableEq, Repr

/-- The wording of a reason. -/
def Reason.text : Reason → String
  | .invalidStart => "invalid start byte"
  | .invalidContinuation => "invalid continuation byte"
  | .unexpectedEnd => "unexpected end of data"

/-- The first bytes of a text that are no character: the first of them, its place, their number. -/
structure Fault where
  byte : UInt8
  start : Nat
  length : Nat
  reason : Reason
  deriving DecidableEq, Repr

/-- The wording of a fault. -/
def Fault.message (f : Fault) : String :=
  let which :=
    if f.length ≤ 1 then
      "byte 0x" ++ String.ofList (Nat.toDigits 16 f.byte.toNat) ++ " in position " ++ toString f.start
    else
      "bytes in position " ++ toString f.start ++ "-" ++ toString (f.start + f.length - 1)
  "'utf-8' codec can't decode " ++ which ++ ": " ++ f.reason.text

/-- A character that lacks bytes: its lead and where that stands, how many of its bytes were read,
    the value they give, and the ranges that the others must lie in. -/
structure Partial where
  lead : UInt8
  start : Nat
  read : Nat
  value : Nat
  missing : List (Nat × Nat)
  deriving Repr

/-- The range of an ordinary continuation byte. -/
def anyTail : Nat × Nat := (0x80, 0xBF)

/-- The bits that a lead byte adds to its character, and the ranges of the bytes after it. -/
def leads (b : Nat) : Option (Nat × List (Nat × Nat)) :=
  if b < 0x80 then some (b, [])
  else if b < 0xC2 then none
  else if b < 0xE0 then some (b - 0xC0, [anyTail])
  else if b < 0xF0 then
    let second := if b = 0xE0 then (0xA0, 0xBF) else if b = 0xED then (0x80, 0x9F) else anyTail
    some (b - 0xE0, [second, anyTail])
  else if b < 0xF5 then
    let second := if b = 0xF0 then (0x90, 0xBF) else if b = 0xF4 then (0x80, 0x8F) else anyTail
    some (b - 0xF0, [second, anyTail, anyTail])
  else none

/-- The characters that the bytes from place `offset` on spell, a character being begun already. -/
def decodeFrom (offset : Nat) : Option Partial → List UInt8 → Except Fault (List Char)
  | none, [] => .ok []
  | some p, [] => .error ⟨p.lead, p.start, p.read, .unexpectedEnd⟩
  | none, b :: bs =>
    match leads b.toNat with
    | none => .error ⟨b, offset, 1, .invalidStart⟩
    | some (v, []) => (decodeFrom (offset + 1) none bs).map (Char.ofNat v :: ·)
    | some (v, r :: rs) => decodeFrom (offset + 1) (some ⟨b, offset, 1, v, r :: rs⟩) bs
  | some p, b :: bs =>
    match p.missing with
    | [] => .error ⟨p.lead, p.start, p.read, .invalidContinuation⟩
    | r :: rs =>
      if r.1 ≤ b.toNat ∧ b.toNat ≤ r.2 then
        let v := p.value * 64 + (b.toNat - 0x80)
        match rs with
        | [] => (decodeFrom (offset + 1) none bs).map (Char.ofNat v :: ·)
        | _ :: _ => decodeFrom (offset + 1) (some ⟨p.lead, p.start, p.read + 1, v, rs⟩) bs
      else .error ⟨p.lead, p.start, p.read, .invalidContinuation⟩

/-- The characters that bytes spell. -/
def decode (bytes : List UInt8) : Except Fault (List Char) := decodeFrom 0 none bytes

/-- The bytes that spell a text. -/
def encode (s : String) : List UInt8 := s.toByteArray.data.toList

end ExprLang.Text.Utf8
