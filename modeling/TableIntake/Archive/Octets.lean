namespace TableIntake.Archive

/-! Fields of octets. -/

abbrev Octets := List UInt8

def field (start length : Nat) (octets : Octets) : Octets :=
  (octets.drop start).take length

def littleEndian (octets : Octets) : Nat :=
  octets.foldr (fun octet n => octet.toNat + 256 * n) 0

def bigEndian (octets : Octets) : Nat :=
  octets.foldl (fun n octet => 256 * n + octet.toNat) 0

def numberAt (start length : Nat) (octets : Octets) : Nat :=
  littleEndian (field start length octets)

def untilNul (octets : Octets) : Octets :=
  octets.takeWhile (· ≠ 0)

/-- The number that a text writes to a base up to ten; a plus sign may stand before it. -/
def numeral? (base : Nat) (cs : List Char) : Option Nat :=
  let digits := match cs with
    | '+' :: rest => rest
    | cs => cs
  if digits.isEmpty then none
  else digits.foldlM (fun n c =>
    if c.isDigit && c.toNat - '0'.toNat < base then some (n * base + (c.toNat - '0'.toNat))
    else none) 0

end TableIntake.Archive
