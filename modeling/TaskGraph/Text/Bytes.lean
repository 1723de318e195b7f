/-!
Texts as bytes, and bytes read as text: each longest part of a broken sequence is replaced by one
mark.
-/

namespace TaskGraph.Text

def bytes (s : String) : List UInt8 := s.toUTF8.toList

def replacement : Char := Char.ofNat 0xFFFD

/-- For a leading byte: how many bytes follow, and the range of the first of them. -/
def follow? (b : Nat) : Option (Nat × Nat × Nat) :=
  if 0xC2 ≤ b ∧ b ≤ 0xDF then some (1,0x80,0xBF)
  else if b = 0xE0 then some (2,0xA0,0xBF)
  else if b = 0xED then some (2,0x80,0x9F)
  else if 0xE1 ≤ b ∧ b ≤ 0xEF then some (2,0x80,0xBF)
  else if b = 0xF0 then some (3,0x90,0xBF)
  else if 0xF1 ≤ b ∧ b ≤ 0xF3 then some (3,0x80,0xBF)
  else if b = 0xF4 then some (3,0x80,0x8F)
  else none

/-- The bytes that continue a sequence: their low bits added to `code`, and what follows. The flag
tells whether the sequence is whole. -/
def continued : Nat → Nat → Nat → Nat → List UInt8 → Nat × Bool × List UInt8
  | 0, _, _, code, rest => (code,true,rest)
  | n+1, low, high, code, b::rest =>
    if low ≤ b.toNat ∧ b.toNat ≤ high then continued n 0x80 0xBF (code*64+b.toNat%64) rest
    else (code,false,b::rest)
  | _+1, _, _, code, [] => (code,false,[])

def decodeWithin : Nat → List UInt8 → List Char
  | 0, _ => []
  | _+1, [] => []
  | n+1, b::rest =>
    if b.toNat < 0x80 then Char.ofNat b.toNat::decodeWithin n rest
    else match follow? b.toNat with
      | none => replacement::decodeWithin n rest
      | some (count,low,high) =>
        let start := if count = 1 then b.toNat%32 else if count = 2 then b.toNat%16 else b.toNat%8
        match continued count low high start rest with
        | (code,true,rest) => Char.ofNat code::decodeWithin n rest
        | (_,false,rest) => replacement::decodeWithin n rest

/-- Bytes as text. -/
def decodeBytes (bs : List UInt8) : String := String.ofList (decodeWithin bs.length bs)

end TaskGraph.Text
