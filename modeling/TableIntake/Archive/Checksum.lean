import TableIntake.Archive.Octets

namespace TableIntake.Archive

/-! The cyclic redundancy check of 32 bits. -/

def checksumStep (n : UInt32) : UInt32 :=
  if n &&& 1 = 1 then (n >>> 1) ^^^ 0xedb88320 else n >>> 1

def checksumOctet (n : UInt32) (octet : UInt8) : UInt32 :=
  Nat.repeat checksumStep 8 (n ^^^ octet.toUInt32)

def checksum (octets : Octets) : UInt32 :=
  octets.foldl checksumOctet 0xffffffff ^^^ 0xffffffff

end TableIntake.Archive
