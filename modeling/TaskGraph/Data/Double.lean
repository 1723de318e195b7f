/-!
Binary64 numbers held as their bits, so that equality is decidable and says what a reader of the
bits can see. The decimal text of a number is the shortest that reads back to the same bits; a
`DecimalStyle` fixes where the point goes and when an exponent is written.
-/

namespace TaskGraph

/-- A binary64 number, by its bits. -/
structure Double where
  bits : UInt64
  deriving DecidableEq, Inhabited, Repr

namespace Double

def ofFloat (f : Float) : Double := ⟨f.toBits⟩

def toFloat (d : Double) : Float := Float.ofBits d.bits

def ofNat (n : Nat) : Double := ofFloat (Float.ofNat n)

def zero : Double := ⟨0⟩

def one : Double := ofNat 1

def isNegative (d : Double) : Bool := decide (Nat.pow 2 63 ≤ d.bits.toNat)

/-- The exponent field, 2047 for the infinities and for what is no number. -/
def exponentField (d : Double) : Nat := d.bits.toNat / Nat.pow 2 52 % 2048

def fractionField (d : Double) : Nat := d.bits.toNat % Nat.pow 2 52

def isFinite (d : Double) : Bool := d.exponentField != 2047

def isNaN (d : Double) : Bool := d.exponentField == 2047 && d.fractionField != 0

def isZero (d : Double) : Bool := d.exponentField == 0 && d.fractionField == 0

/-- Greater than zero: the sign bit is clear, and it is neither a zero nor what is no number. -/
def isPositive (d : Double) : Bool := !d.isNegative && !d.isZero && !d.isNaN

def neg (d : Double) : Double := ofFloat (-d.toFloat)

def mul (a b : Double) : Double := ofFloat (a.toFloat*b.toFloat)

def div (a b : Double) : Double := ofFloat (a.toFloat/b.toFloat)

/-- The number is `mantissa`·2^`exponent` up to its sign. -/
def mantissa (d : Double) : Nat :=
  if d.exponentField = 0 then d.fractionField else d.fractionField+Nat.pow 2 52

def exponent (d : Double) : Int :=
  if d.exponentField = 0 then -1074 else (d.exponentField : Int)-1075

/-- `a`^`n` by squaring, multiplying in the order of the bits of `n` from the lowest. -/
def powNat (a : Double) (n : Nat) : Double :=
  go 64 a.toFloat n 1.0
where
  go : Nat → Float → Nat → Float → Double
    | 0, _, _, r => ofFloat r
    | fuel+1, a, n, r =>
      let r := if n%2 = 1 then r*a else r
      if n/2 = 0 then ofFloat r else go fuel (a*a) (n/2) r

/-- The binary64 number nearest to `digits`·10^`exp`. Decimals far outside the range are zero or
infinite without the power being computed. -/
def ofDecimal (negative : Bool) (digits : Nat) (exp : Int) : Double :=
  let size : Int := (Nat.toDigits 10 digits).length
  let f : Float :=
    if digits = 0 ∨ size+exp < -400 then 0.0
    else if size+exp > 400 then 1.0/0.0
    else Float.ofScientific digits (decide (exp < 0)) exp.natAbs
  ofFloat (if negative then -f else f)

/-- Compares `x`·2^`q` with `f`·10^`e` as integers, after clearing the denominators. -/
def scaled (x : Nat) (q e : Int) : Nat := x*Nat.pow 2 q.toNat*Nat.pow 10 (-e).toNat

def scaledDecimal (f : Nat) (q e : Int) : Nat := f*Nat.pow 10 e.toNat*Nat.pow 2 (-q).toNat

/-- The `k` with 10^`k` ≤ `m`·2^`q` < 10^(`k`+1), for positive `m`. -/
def decimalExponent (m : Nat) (q : Int) : Int :=
  let guess := (((m.log2 : Int)+q)*30103).fdiv 100000
  if scaledDecimal 1 q (guess+1) ≤ scaled m q (guess+1) then guess+1 else guess

/-- The one of the two grid neighbours `f` and `f+1` at 10^`e` that reads back to the number, and of
two the nearer. The reals that read back lie between `low`/4 and `high`/4 units of 2^`q`. -/
def gridHit (m low high : Nat) (closed : Bool) (q e : Int) : Option Nat :=
  let f := scaled (4*m) (q-2) e/scaledDecimal 1 (q-2) e
  let inside (g : Nat) : Bool :=
    let b := scaledDecimal g (q-2) e
    let lo := scaled low (q-2) e
    let hi := scaled high (q-2) e
    if closed then decide (lo ≤ b ∧ b ≤ hi) else decide (lo < b ∧ b < hi)
  let v := scaled (4*m) (q-2) e
  match inside f, inside (f+1) with
  | true, true =>
    let below := v-scaledDecimal f (q-2) e
    let above := scaledDecimal (f+1) (q-2) e-v
    some (if below < above ∨ (below = above ∧ f%2 = 0) then f else f+1)
  | true, false => some f
  | false, true => some (f+1)
  | false, false => none

/-- Removes trailing zeros of a positive decimal, moving them into the exponent. -/
def trimZeros : Nat → Nat → Int → Nat × Int
  | 0, f, e => (f,e)
  | fuel+1, f, e => if f%10 = 0 ∧ f ≠ 0 then trimZeros fuel (f/10) (e+1) else (f,e)

/-- The shortest decimal `digits`·10^`exp` that reads back to a positive finite number. -/
def shortest (d : Double) : Nat × Int :=
  let m := d.mantissa
  let q := d.exponent
  let low := if m = Nat.pow 2 52 ∧ d.exponentField > 1 then 4*m-1 else 4*m-2
  let k := decimalExponent m q
  let hit := (List.range 17).findSome? fun (n : Nat) =>
    let e := k-Int.ofNat n
    (gridHit m low (4*m+2) (m%2 = 0) q e).map fun f => trimZeros 20 f e
  hit.getD (scaled m q 0/scaledDecimal 1 q 0,0)

end Double

/-- Where a decimal point stands and when an exponent is written. The position of the point is
counted in digits from the first. -/
structure DecimalStyle where
  /-- The greatest position written without an exponent. -/
  maxPoint : Int
  /-- The least position written without an exponent. -/
  minPoint : Int

namespace DecimalStyle

/-- The style of data texts: `1.0`, `1e16`, `0.00001`, `1e-6`. -/
def data : DecimalStyle := ⟨16,-4⟩

/-- No exponent at all. -/
def positional : DecimalStyle := ⟨400,-400⟩

def zeros (n : Int) : String := String.ofList (List.replicate n.toNat '0')

/-- A finite number in a style; a whole number keeps `.0`. -/
def render (style : DecimalStyle) (d : Double) : String :=
  let sign := if d.isNegative then "-" else ""
  if d.isZero then sign ++ "0.0"
  else
    let (f,e) := d.shortest
    let digits := toString f
    let size : Int := digits.length
    let point := size+e
    if style.minPoint ≤ point ∧ point ≤ style.maxPoint then
      if 0 ≤ e then sign ++ digits ++ zeros e ++ ".0"
      else if 0 < point then
        sign ++ String.ofList (digits.toList.take point.toNat) ++ "."
          ++ String.ofList (digits.toList.drop point.toNat)
      else sign ++ "0." ++ zeros (-point) ++ digits
    else
      let exp := toString (point-1)
      match digits.toList with
      | [] => sign
      | [c] => sign ++ String.singleton c ++ "e" ++ exp
      | c::cs => sign ++ String.singleton c ++ "." ++ String.ofList cs ++ "e" ++ exp

end DecimalStyle

end TaskGraph
