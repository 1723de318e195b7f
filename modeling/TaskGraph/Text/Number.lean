/-!
Numbers read from text.
-/

namespace TaskGraph.Text

def digitsValue? (cs : List Char) : Option Nat :=
  if cs.isEmpty then none
  else cs.foldlM (fun n c => if c.isDigit then some (n*10+(c.toNat-48)) else none) 0

/-- A decimal number below 2^64, with an optional plus sign. -/
def unsigned? (s : String) : Option Nat := do
  let n ← digitsValue? (match s.toList with
    | '+'::cs => cs
    | cs => cs)
  if n < Nat.pow 2 64 then some n else none

end TaskGraph.Text
