import TableIntake.Decimal.Binary64

namespace TableIntake.Decimal

/-! How a decimal is laid out: with a point among its digits, or with a power of ten. -/

/-- The least and greatest place of the point, counted from the first digit, that are written
without a power of ten. -/
structure Layout where
  least : Int
  greatest : Int
  deriving DecidableEq, Repr

/-- A point up to four zeros before the digits or sixteen digits after their start, else a power
of ten. -/
def Layout.compact : Layout :=
  ⟨-4, 16⟩

def Layout.isPositional (layout : Layout) (point : Int) : Bool :=
  layout.least ≤ point && point ≤ layout.greatest

def zeros (n : Nat) : List Char :=
  List.replicate n '0'

/-- The digits with the point after the first `point` of them, zeros filling either side. -/
def pointed (digits : List Char) (point : Int) : List Char :=
  if point ≤ 0 then '0' :: '.' :: (zeros (-point).toNat ++ digits)
  else if digits.length ≤ point.toNat then
    digits ++ zeros (point.toNat - digits.length) ++ ['.', '0']
  else digits.take point.toNat ++ '.' :: digits.drop point.toNat

def exponent (n : Int) : List Char :=
  (if n < 0 then '-' else '+') :: Nat.toDigits 10 n.natAbs

def powered (digits : List Char) (point : Int) : List Char :=
  let mantissa := match digits with
    | [] => []
    | [d] => [d]
    | d :: rest => d :: '.' :: rest
  mantissa ++ 'e' :: exponent (point - 1)

/-- The shortest text that reads back as the number, always with a point or a power of ten. -/
def Layout.write (layout : Layout) (bits : UInt64) : String :=
  let x := Binary64.ofBits bits
  let sign := if x.negative then ['-'] else []
  let (digits, ten) := x.shortest
  if digits = 0 then String.ofList (sign ++ ['0', '.', '0'])
  else
    let digits := Nat.toDigits 10 digits
    let point := digits.length + ten
    String.ofList (sign ++
      if layout.isPositional point then pointed digits point else powered digits point)

end TableIntake.Decimal
