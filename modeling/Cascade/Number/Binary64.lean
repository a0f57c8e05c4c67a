/-!
Numbers with 53 bits: rounding a quotient to the nearest one, a tie to the even one, and the fewest
decimal digits that lead back to a number. All arithmetic is on `Nat`, so it is exact.
-/

namespace Cascade

/-- The finite number `mantissa * 2 ^ exponent`, negated if `negative`. The mantissa is below
`2^53`, and at least `2^52` unless the exponent is the lowest. -/
structure Binary64 where
  negative : Bool
  mantissa : Nat
  exponent : Int
  deriving DecidableEq, Repr

namespace Binary64

def lowestExponent : Int := -1074
def highestExponent : Int := 971

def zero (negative : Bool) : Binary64 := ⟨negative, 0, lowestExponent⟩

/-- `num / den * 2 ^ -e` as a fraction. -/
def shift (num den : Nat) (e : Int) : Nat × Nat :=
  if 0 ≤ e then (num, den * Nat.pow 2 e.toNat) else (num * Nat.pow 2 (-e).toNat, den)

/-- The quotient rounded to the nearest integer, a half to the even one. -/
def roundHalfEven (num den : Nat) : Nat :=
  let q := num / den
  let r := num % den
  if den < 2 * r then q + 1
  else if 2 * r < den then q
  else if q % 2 = 0 then q else q + 1

/-- The number nearest to `num / den`; none if that is too large. -/
def ofRatio (negative : Bool) (num den : Nat) : Option Binary64 :=
  if num = 0 then some (zero negative)
  else
    let estimate := max lowestExponent ((num.log2 : Int) - den.log2 - 53)
    let (n, d) := shift num den estimate
    let exponent := if n / d < Nat.pow 2 53 then estimate else estimate + 1
    let (n, d) := shift num den exponent
    let mantissa := roundHalfEven n d
    let (mantissa, exponent) :=
      if mantissa = Nat.pow 2 53 then (Nat.pow 2 52, exponent + 1) else (mantissa, exponent)
    if highestExponent < exponent then none else some ⟨negative, mantissa, exponent⟩

/-- The magnitude as a fraction. -/
def ratio (x : Binary64) : Nat × Nat :=
  if 0 ≤ x.exponent then (x.mantissa * Nat.pow 2 x.exponent.toNat, 1)
  else (x.mantissa, Nat.pow 2 (-x.exponent).toNat)

/-- The product, rounded. -/
def mul (x y : Binary64) : Option Binary64 :=
  ofRatio (x.negative != y.negative) (x.ratio.1 * y.ratio.1) (x.ratio.2 * y.ratio.2)

/-- The quotient by a number other than zero, rounded. -/
def div (x y : Binary64) : Option Binary64 :=
  ofRatio (x.negative != y.negative) (x.ratio.1 * y.ratio.2) (x.ratio.2 * y.ratio.1)

/-- The number nearest to `digits * 10 ^ exponent`; none if that is too large. Exponents far outside
the range of all numbers are not computed. -/
def ofDecimal (negative : Bool) (digits : Nat) (length : Nat) (exponent : Int) : Option Binary64 :=
  if digits = 0 then some (zero negative)
  else if 400 < exponent + length then none
  else if exponent + length < -400 then some (zero negative)
  else if 0 ≤ exponent then ofRatio negative (digits * Nat.pow 10 exponent.toNat) 1
  else ofRatio negative digits (Nat.pow 10 (-exponent).toNat)

/-- Whether the decimal `digits * 10 ^ e` reads back as `x`: it lies between the middles to the two
neighbours of `x`, the middles included if the mantissa is even. -/
def readsBack (x : Binary64) (digits : Nat) (e : Int) : Bool :=
  let (vn, vd) := x.ratio
  let (cn, cd) :=
    if 0 ≤ e then (digits * Nat.pow 10 e.toNat, 1) else (digits, Nat.pow 10 (-e).toNat)
  -- one unit in the last place is `vn / vd / mantissa`; the unit below a power of two is half of it
  let narrow := x.mantissa = Nat.pow 2 52 && lowestExponent < x.exponent
  let m := x.mantissa
  let even := m % 2 = 0
  let c := cn * vd * 4 * m
  let high := vn * cd * (4 * m + 2)
  let low := vn * cd * (4 * m - (if narrow then 1 else 2))
  if even then low ≤ c && c ≤ high else low < c && c < high

/-- The number of digits in front of the decimal point of `num / den`, at most zero if it starts
behind the point. -/
def magnitude (num den : Nat) : Int :=
  -- the estimate from the binary lengths is at most one too low
  let estimate := (((num.log2 : Int) - den.log2 - 1) * 30103) / 100000
  let above (k : Int) : Bool :=
    if 0 ≤ k then den * Nat.pow 10 k.toNat ≤ num else den ≤ num * Nat.pow 10 (-k).toNat
  let rec climb : Nat → Int → Int
    | 0, k => k
    | fuel + 1, k => if above k then climb fuel (k + 1) else k
  climb 4 estimate

/-- The better of the two decimals of a grid around `x`, if one of them reads back. -/
def onGrid (x : Binary64) (e : Int) : Option Nat :=
  let (vn, vd) := x.ratio
  let (n, d) := if 0 ≤ e then (vn, vd * Nat.pow 10 e.toNat) else (vn * Nat.pow 10 (-e).toNat, vd)
  let below := n / d
  let nearest := roundHalfEven n d
  let other := if nearest = below then below + 1 else below
  if readsBack x nearest e then some nearest
  else if readsBack x other e then some other
  else none

/-- The fewest digits that read back as `x`, the nearest of those, and the exponent of the last. -/
def shortest (x : Binary64) : Nat × Int :=
  if x.mantissa = 0 then (0, 0)
  else
    let top := magnitude x.ratio.1 x.ratio.2
    let rec search : Nat → Nat → Nat × Int
      | 0, _ => (x.mantissa, x.exponent)
      | fuel + 1, count =>
        match onGrid x (top - count) with
        | some digits => (digits, top - count)
        | none => search fuel (count + 1)
    search 17 1

/-- A number with zeros at the end of its digits moved into the exponent. -/
def trimZeros : Nat → Nat → Int → Nat × Int
  | 0, digits, e => (digits, e)
  | fuel + 1, digits, e =>
    if digits ≠ 0 && digits % 10 = 0 then trimZeros fuel (digits / 10) (e + 1) else (digits, e)

/-- Digits are written out up to sixteen places in front of the point, and behind it with up to four
zeros in front of them; all other numbers have an exponent. -/
def render (x : Binary64) : String :=
  let sign := if x.negative then "-" else ""
  let (digits, e) := shortest x
  let (digits, e) := trimZeros 20 digits e
  if digits = 0 then sign ++ "0.0"
  else
    let ds := Nat.toDigits 10 digits
    let point := e + ds.length
    let body :=
      if 0 ≤ e && point ≤ 16 then
        ds ++ List.replicate e.toNat '0' ++ ['.', '0']
      else if 0 < point && point ≤ 16 then
        ds.take point.toNat ++ '.' :: ds.drop point.toNat
      else if -5 < point && point ≤ 0 then
        '0' :: '.' :: (List.replicate (-point).toNat '0' ++ ds)
      else
        let mantissa :=
          match ds with
          | [d] => [d]
          | d :: rest => d :: '.' :: rest
          | [] => []
        mantissa ++ 'e' :: (toString (point - 1)).toList
    sign ++ String.ofList body

end Binary64

end Cascade
