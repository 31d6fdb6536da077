namespace TableIntake.Scratch

/-! Tags: random identifiers of version 4, as scratch directories have them in their names. -/

def hexDigits (octet : UInt8) : List Char :=
  [Nat.digitChar (octet.toNat / 16), Nat.digitChar (octet.toNat % 16)]

def marked (octets : List UInt8) : List UInt8 :=
  octets.zipIdx.map fun (octet, i) =>
    if i = 6 then octet % 16 + 0x40
    else if i = 8 then octet % 64 + 0x80
    else octet

def tagOf (octets : List UInt8) : String :=
  let digits := (marked octets).flatMap hexDigits
  let group (start length : Nat) := String.ofList ((digits.drop start).take length)
  "-".intercalate [group 0 8, group 8 4, group 12 4, group 16 4, group 20 12]

end TableIntake.Scratch
