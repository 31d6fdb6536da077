import TableIntake.Archive.Octets

namespace TableIntake.Archive.Inflate

/-! Streams of bits, the lowest of each octet first. -/

/-- What is wrong with a stream. -/
inductive Defect where
  /-- It goes on behind the last octet. -/
  | incomplete
  | corrupt
  deriving DecidableEq, Repr

def Defect.message : Defect → String
  | .incomplete => "incomplete deflate stream"
  | .corrupt => "corrupt deflate stream"

structure Bits where
  held : Nat := 0
  count : Nat := 0
  rest : Octets

namespace Bits

def next (bits : Bits) : Except Defect (Nat × Bits) :=
  match bits with
  | ⟨held, count + 1, rest⟩ => .ok (held % 2, ⟨held / 2, count, rest⟩)
  | ⟨_, 0, octet :: rest⟩ => .ok (octet.toNat % 2, ⟨octet.toNat / 2, 7, rest⟩)
  | ⟨_, 0, []⟩ => .error .incomplete

def take : Nat → Bits → Except Defect (Nat × Bits)
  | 0, bits => .ok (0, bits)
  | width + 1, bits => do
      let (low, bits) ← bits.next
      let (high, bits) ← take width bits
      return (low + 2 * high, bits)

def align (bits : Bits) : Octets :=
  bits.rest

/-- No more bits than this can be read. -/
def bound (bits : Bits) : Nat :=
  bits.count + 8 * bits.rest.length

end Bits

end TableIntake.Archive.Inflate
