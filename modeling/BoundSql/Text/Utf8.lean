namespace BoundSql.Utf8

abbrev Bytes := List UInt8

def encode (s : String) : Bytes := s.toByteArray.data.toList

def decode? (bytes : Bytes) : Option String := String.fromUTF8? ⟨bytes.toArray⟩

theorem decode?_encode (s : String) : decode? (encode s) = some s := by
  have h : (⟨(encode s).toArray⟩ : ByteArray) = s.toByteArray := by simp [encode]
  have hv := s.isValidUTF8
  simp only [decode?, h, String.fromUTF8?, hv, ↓reduceDIte]
  rfl

theorem eq_encode_of_decode? {bytes : Bytes} {s : String} (h : decode? bytes = some s) :
    bytes = encode s := by
  simp only [decode?, String.fromUTF8?] at h
  split at h
  · simp only [Option.some.injEq] at h
    subst h
    simp [encode, String.fromUTF8]
  · simp at h

/-- How a byte sequence starts: with a character of so many bytes, with a malformed part of so many
bytes, or with the beginning of a character that is cut off by the end. -/
inductive Lead
  | char (size : Nat)
  | malformed (size : Nat)
  | cut
  deriving Repr, DecidableEq

def isContinuation (b : UInt8) : Bool := 0x80 ≤ b && b ≤ 0xBF

def second? (b : UInt8) : Option (UInt8 × UInt8 × Nat) :=
  if 0xC2 ≤ b ∧ b ≤ 0xDF then some (0x80, 0xBF, 0)
  else if b = 0xE0 then some (0xA0, 0xBF, 1)
  else if b = 0xED then some (0x80, 0x9F, 1)
  else if 0xE1 ≤ b ∧ b ≤ 0xEF then some (0x80, 0xBF, 1)
  else if b = 0xF0 then some (0x90, 0xBF, 2)
  else if 0xF1 ≤ b ∧ b ≤ 0xF3 then some (0x80, 0xBF, 2)
  else if b = 0xF4 then some (0x80, 0x8F, 2)
  else none

def continuation (seen : Nat) : Nat → Bytes → Lead
  | 0, _ => .char seen
  | _ + 1, [] => .cut
  | n + 1, b :: r => if isContinuation b then continuation (seen + 1) n r else .malformed seen

def lead (b : UInt8) (r : Bytes) : Lead :=
  if b < 0x80 then .char 1
  else
    match second? b with
    | none => .malformed 1
    | some (lo, hi, more) =>
      match r with
      | [] => .cut
      | c :: r => if lo ≤ c ∧ c ≤ hi then continuation 2 more r else .malformed 1

/-- The first malformed part: where it begins and how long it is, or nothing for its length when the
bytes end within a character. -/
structure Malformed where
  index : Nat
  size : Option Nat
  deriving Repr, DecidableEq

namespace Malformed

def message (m : Malformed) : String :=
  match m.size with
  | some n => s!"invalid utf-8 sequence of {n} bytes from index {m.index}"
  | none => s!"incomplete utf-8 byte sequence from index {m.index}"

end Malformed

def findMalformed (fuel index : Nat) (bytes : Bytes) : Option Malformed :=
  match fuel, bytes with
  | 0, _ => none
  | _, [] => none
  | fuel + 1, b :: r =>
    match lead b r with
    | .char n => findMalformed fuel (index + n) ((b :: r).drop n)
    | .malformed n => some ⟨index, some n⟩
    | .cut => some ⟨index, none⟩

def malformed? (bytes : Bytes) : Option Malformed := findMalformed bytes.length 0 bytes

def replacement : String := "\ufffd"

def lossyParts (fuel : Nat) (bytes : Bytes) : List String :=
  match fuel, bytes with
  | 0, _ => []
  | _, [] => []
  | fuel + 1, b :: r =>
    match lead b r with
    | .char n =>
      ((decode? ((b :: r).take n)).getD replacement) :: lossyParts fuel ((b :: r).drop n)
    | .malformed n => replacement :: lossyParts fuel ((b :: r).drop n)
    | .cut => [replacement]

/-- Decodes every sequence of bytes; what is no text becomes replacement characters. -/
def decodeLossy (bytes : Bytes) : String :=
  match decode? bytes with
  | some s => s
  | none => String.join (lossyParts bytes.length bytes)

theorem decodeLossy_encode (s : String) : decodeLossy (encode s) = s := by
  simp [decodeLossy, decode?_encode]

end BoundSql.Utf8
