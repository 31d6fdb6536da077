namespace TableIntake.Decimal

/-! Floating point numbers of 64 bits, taken apart into whole numbers. -/

/-- The finite number `mantissa * 2 ^ exponent` under a sign. -/
structure Binary64 where
  negative : Bool
  mantissa : Nat
  exponent : Int
  /-- The number below is nearer than the one above. -/
  narrowBelow : Bool
  deriving DecidableEq, Repr

def Binary64.ofBits (bits : UInt64) : Binary64 :=
  let fraction := (bits &&& 0xfffffffffffff).toNat
  let field := ((bits >>> 52) &&& 0x7ff).toNat
  { negative := bits >>> 63 == 1
    mantissa := if field = 0 then fraction else fraction + 0x10000000000000
    exponent := (if field = 0 then (1 : Int) else field) - 1075
    narrowBelow := fraction == 0 && 1 < field }

/-- The fraction `n * 2 ^ two * 10 ^ ten` as a numerator over a denominator. -/
def ratio (n : Nat) (two ten : Int) : Nat × Nat :=
  (n * Nat.pow 2 two.toNat * Nat.pow 10 ten.toNat,
    Nat.pow 2 (-two).toNat * Nat.pow 10 (-ten).toNat)

/-- The power of ten that is the first above `n * 2 ^ two`, for the numbers of `Binary64`. -/
def magnitude (n : Nat) (two : Int) : Int :=
  let exponents := (List.range 700).map fun i => Int.ofNat i - 350
  (exponents.find? fun k =>
    let (num, den) := ratio n two (-k)
    num < den).getD 350

/-- Whether the decimal `digits * 10 ^ ten` reads back as the number. An end of the interval
that rounds to the number belongs to it if the mantissa is even. -/
def Binary64.readsBack (x : Binary64) (digits : Nat) (ten : Int) : Bool :=
  let (num, den) := ratio digits (2 - x.exponent) ten
  let low := 4 * x.mantissa - (if x.narrowBelow then 1 else 2)
  let high := 4 * x.mantissa + 2
  if x.mantissa % 2 = 0 then low * den ≤ num && num ≤ high * den
  else low * den < num && num < high * den

/-- A decimal with the given count of digits that reads back as the number: of the two next to
it the nearer one, and of two as near the even one. -/
def Binary64.withDigits? (x : Binary64) (count : Nat) : Option (Nat × Int) :=
  let ten := magnitude x.mantissa x.exponent - count
  let (num, den) := ratio x.mantissa x.exponent (-ten)
  let below := num / den
  let twice := 2 * (num % den)
  let down := twice < den || twice = den && below % 2 = 0
  let (nearer, farther) := if down then (below, below + 1) else (below + 1, below)
  if x.readsBack nearer ten then some (nearer, ten)
  else if x.readsBack farther ten then some (farther, ten)
  else none

def dropZeros : Nat → Nat × Int → Nat × Int
  | 0, d => d
  | fuel + 1, (digits, ten) =>
      if digits ≠ 0 ∧ digits % 10 = 0 then dropZeros fuel (digits / 10, ten + 1)
      else (digits, ten)

/-- The decimal of fewest digits that reads back as the number, as digits and a power of ten. -/
def Binary64.shortest (x : Binary64) : Nat × Int :=
  if x.mantissa = 0 then (0, 0)
  else
    let counts := (List.range 17).map (· + 1)
    dropZeros 20 ((counts.findSome? x.withDigits?).getD (x.mantissa, 0))

end TableIntake.Decimal
