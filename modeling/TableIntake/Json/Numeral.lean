import TableIntake.Json.Basic

namespace TableIntake.Json

/-! Numerals: their written form and the number they stand for. -/

structure Numeral where
  negative : Bool
  whole : List Char
  fraction : Option (List Char)
  /-- The power of ten, if there is one: whether it is negative, and its digits. -/
  power : Option (Bool × List Char)
  deriving DecidableEq, Repr

namespace Numeral

def digits? (cs : List Char) : Option (List Char × List Char) :=
  match cs.takeWhile Char.isDigit with
  | [] => none
  | ds => some (ds, cs.dropWhile Char.isDigit)

def fraction? : List Char → Option (Option (List Char) × List Char)
  | '.' :: cs => (digits? cs).map fun (ds, rest) => (some ds, rest)
  | cs => some (none, cs)

def signed : List Char → Bool × List Char
  | '-' :: cs => (true, cs)
  | '+' :: cs => (false, cs)
  | cs => (false, cs)

def power? : List Char → Option (Option (Bool × List Char) × List Char)
  | [] => some (none, [])
  | c :: cs =>
      if c = 'e' ∨ c = 'E' then
        let (negative, cs) := signed cs
        (digits? cs).map fun (ds, rest) => (some (negative, ds), rest)
      else some (none, c :: cs)

/-- The numeral at the start of a text and what follows it. A zero stands alone before the
point. -/
def lex? (cs : List Char) : Option (Numeral × List Char) := do
  let (negative, cs) := match cs with
    | '-' :: cs => (true, cs)
    | cs => (false, cs)
  let (whole, cs) ← digits? cs
  if 1 < whole.length ∧ whole.head? = some '0' then none
  let (fraction, cs) ← fraction? cs
  let (power, cs) ← power? cs
  return (⟨negative, whole, fraction, power⟩, cs)

/-- Appends digits to a number while it stays below `2^64`, and gives the digits left over. -/
def fill : Nat → List Char → Nat × List Char
  | n, [] => (n, [])
  | n, d :: ds =>
      let m := n * 10 + (d.toNat - 48)
      if m < UInt64.size then fill m ds else (n, d :: ds)

/-- A float times a power of ten, by one multiplication or division with a power that a float
holds; smaller powers are taken in steps of `10^308`. No answer is infinite. -/
def scale? : Nat → Float → Int → Option Float
  | steps, f, ten =>
      if ten.natAbs ≤ 308 then
        let power := Float.ofScientific 1 false ten.natAbs
        if 0 ≤ ten then
          let product := f * power
          if product.isInf then none else some product
        else some (f / power)
      else if f == 0 then some f
      else if 0 ≤ ten then none
      else match steps with
        | 0 => some 0
        | steps + 1 => scale? steps (f / 1e308) (ten + 308)

def decimal (negative : Bool) (f : Float) : Number :=
  .decimal (if negative then -f else f).toBits

/-- A float from the first digits that fit 64 bits and a power of ten for the others. -/
def scaled? (x : Numeral) : Option Float :=
  let (n, rest) := fill 0 x.whole
  let (n, ten) := match x.fraction with
    | none => (n, (rest.length : Int))
    | some ds =>
        let (n, unread) := fill n ds
        (n, (rest.length : Int) - (ds.length - unread.length))
  match x.power with
  | none => scale? 3 n.toUInt64.toFloat ten
  | some (negative, ds) =>
      let power := Nat.ofDigitChars 10 ds 0
      if 1 <<< 31 ≤ power then
        if n = 0 ∨ negative then some 0 else none
      else scale? 3 n.toUInt64.toFloat (if negative then ten - power else ten + power)

/-- The number that is meant, or nothing if it is too large for a float. -/
def value? (x : Numeral) : Option Number :=
  match fill 0 x.whole, x.fraction, x.power with
  | (n, []), none, none =>
      if !x.negative then some (.integer n)
      else if 0 < n ∧ n ≤ 1 <<< 63 then some (.integer (-n))
      else some (decimal true n.toUInt64.toFloat)
  | _, _, _ => x.scaled?.map (decimal x.negative)

end Numeral

end TableIntake.Json
