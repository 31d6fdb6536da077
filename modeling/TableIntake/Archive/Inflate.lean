import TableIntake.Archive.Inflate.Code

namespace TableIntake.Archive.Inflate

/-! Deflated data: blocks of literals and of references to what came before them. -/

/-! Lengths and distances: a base for each symbol, and a count of further bits. -/

def lengthTable : List (Nat × Nat) :=
  [(3, 0), (4, 0), (5, 0), (6, 0), (7, 0), (8, 0), (9, 0), (10, 0), (11, 1), (13, 1),
    (15, 1), (17, 1), (19, 2), (23, 2), (27, 2), (31, 2), (35, 3), (43, 3), (51, 3), (59, 3),
    (67, 4), (83, 4), (99, 4), (115, 4), (131, 5), (163, 5), (195, 5), (227, 5), (258, 0)]

def distanceTable : List (Nat × Nat) :=
  [(1, 0), (2, 0), (3, 0), (4, 0), (5, 1), (7, 1), (9, 2), (13, 2), (17, 3), (25, 3),
    (33, 4), (49, 4), (65, 5), (97, 5), (129, 6), (193, 6), (257, 7), (385, 7), (513, 8),
    (769, 8), (1025, 9), (1537, 9), (2049, 10), (3073, 10), (4097, 11), (6145, 11),
    (8193, 12), (12289, 12), (16385, 13), (24577, 13)]

def scaled (table : List (Nat × Nat)) (symbol : Nat) (bits : Bits) :
    Except Defect (Nat × Bits) := do
  match table[symbol]? with
  | none => .error .corrupt
  | some (base, width) =>
      let (more, bits) ← bits.take width
      return (base + more, bits)

/-! Blocks. A defect leaves the octets that were read before it. -/

/-- Repeats what was written so far from a distance on. Before the start there are zeros. -/
def copy (distance : Nat) : Nat → Array UInt8 → Array UInt8
  | 0, out => out
  | length + 1, out =>
      let octet := if distance ≤ out.size then out.getD (out.size - distance) 0 else 0
      copy distance length (out.push octet)

inductive Item where
  | literal (octet : UInt8)
  | reference (length distance : Nat)
  | finish
  deriving DecidableEq, Repr

def readItem (literals distances : Code) (bits : Bits) : Except Defect (Item × Bits) := do
  let (symbol, bits) ← literals.read bits
  if symbol < 256 then return (.literal (UInt8.ofNat symbol), bits)
  else if symbol = 256 then return (.finish, bits)
  else
    let (length, bits) ← scaled lengthTable (symbol - 257) bits
    let (symbol, bits) ← distances.read bits
    let (distance, bits) ← scaled distanceTable symbol bits
    return (.reference length distance, bits)

def readItems (literals distances : Code) :
    Nat → Array UInt8 → Bits → Array UInt8 × Except Defect Bits
  | 0, out, _ => (out, .error .incomplete)
  | fuel + 1, out, bits =>
      match readItem literals distances bits with
      | .error defect => (out, .error defect)
      | .ok (.literal octet, bits) => readItems literals distances fuel (out.push octet) bits
      | .ok (.reference length distance, bits) =>
          readItems literals distances fuel (copy distance length out) bits
      | .ok (.finish, bits) => (out, .ok bits)

def fixedLiterals : Code :=
  .ofLengths <|
    List.replicate 144 8 ++ List.replicate 112 9 ++ List.replicate 24 7 ++ List.replicate 8 8

def fixedDistances : Code :=
  .ofLengths (List.replicate 32 5)

/-! Codes that a block declares: the lengths of their words are coded themselves. -/

/-- The symbols for lengths, in the order in which their own lengths stand. -/
def lengthOrder : List Nat :=
  [16, 17, 18, 0, 8, 7, 9, 6, 10, 5, 11, 4, 12, 3, 13, 2, 14, 1, 15]

def readWidths : Nat → Bits → Except Defect (List Nat × Bits)
  | 0, bits => .ok ([], bits)
  | count + 1, bits => do
      let (width, bits) ← bits.take 3
      let (widths, bits) ← readWidths count bits
      return (width :: widths, bits)

/-- Lengths until there are `total` of them, the last one first. -/
def readLengths (code : Code) (total : Nat) :
    Nat → List Nat → Bits → Except Defect (List Nat × Bits)
  | 0, _, _ => .error .incomplete
  | fuel + 1, lengths, bits =>
      if total < lengths.length then .error .corrupt
      else if lengths.length = total then .ok (lengths, bits)
      else do
        let (symbol, bits) ← code.read bits
        if symbol < 16 then readLengths code total fuel (symbol :: lengths) bits
        else if symbol = 16 then
          match lengths with
          | [] => .error .corrupt
          | last :: _ =>
              let (more, bits) ← bits.take 2
              readLengths code total fuel (List.replicate (3 + more) last ++ lengths) bits
        else if symbol = 17 then
          let (more, bits) ← bits.take 3
          readLengths code total fuel (List.replicate (3 + more) 0 ++ lengths) bits
        else
          let (more, bits) ← bits.take 7
          readLengths code total fuel (List.replicate (11 + more) 0 ++ lengths) bits

/-- The code of the lengths has to be complete; each of the other two may also be meagre. -/
def readCodes (bits : Bits) : Except Defect (Code × Code × Bits) := do
  let (literals, bits) ← bits.take 5
  let (distances, bits) ← bits.take 5
  let (widths, bits) ← bits.take 4
  let literals := literals + 257
  let distances := distances + 1
  if 286 < literals ∨ 30 < distances then .error .corrupt
  else
    let (widths, bits) ← readWidths (widths + 4) bits
    let named := lengthOrder.zip widths
    let code := Code.ofLengths ((List.range 19).map fun symbol => (named.lookup symbol).getD 0)
    if !code.isComplete then .error .corrupt
    else
      let (lengths, bits) ← readLengths code (literals + distances) (bits.bound + 1) [] bits
      let lengths := lengths.reverse
      let codes := (Code.ofLengths (lengths.take literals), Code.ofLengths (lengths.drop literals))
      if [codes.1, codes.2].all fun code => code.isComplete || code.isMeagre then
        return (codes.1, codes.2, bits)
      else .error .corrupt

def readStored (out : Array UInt8) (bits : Bits) : Array UInt8 × Except Defect Bits :=
  let octets := bits.align
  let length := numberAt 0 2 octets
  if octets.length < 4 then (out, .error .incomplete)
  else if length + numberAt 2 2 octets ≠ 0xffff then (out, .error .corrupt)
  else
    ((field 4 length octets).foldl Array.push out,
      if octets.length < 4 + length then .error .incomplete
      else .ok ⟨0, 0, octets.drop (4 + length)⟩)

def readBlock (kind : Nat) (out : Array UInt8) (bits : Bits) :
    Array UInt8 × Except Defect Bits :=
  if kind = 0 then readStored out bits
  else if kind = 1 then readItems fixedLiterals fixedDistances (bits.bound + 1) out bits
  else if kind = 2 then
    match readCodes bits with
    | .error defect => (out, .error defect)
    | .ok (literals, distances, bits) =>
        readItems literals distances (bits.bound + 1) out bits
  else (out, .error .corrupt)

def readMark (bits : Bits) : Except Defect (Bool × Nat × Bits) := do
  let (last, bits) ← bits.next
  let (kind, bits) ← bits.take 2
  return (last = 1, kind, bits)

def readBlocks : Nat → Array UInt8 → Bits → Array UInt8 × Option Defect
  | 0, out, _ => (out, some .incomplete)
  | fuel + 1, out, bits =>
      match readMark bits with
      | .error defect => (out, some defect)
      | .ok (last, kind, bits) =>
          match readBlock kind out bits with
          | (out, .error defect) => (out, some defect)
          | (out, .ok bits) => if last then (out, none) else readBlocks fuel out bits

/-- Octets are handed on a window at a time. -/
def windowSize : Nat := 1 <<< 15

end Inflate

structure Inflated where
  octets : Octets
  defect : Option Inflate.Defect
  deriving DecidableEq, Repr

/-- The data at the start of the octets. If they end too early all that was read is handed on;
where they are corrupt, only the windows before the one that was being filled. -/
def inflate (octets : Octets) : Inflated :=
  match Inflate.readBlocks (8 * octets.length + 1) #[] ⟨0, 0, octets⟩ with
  | (out, some .corrupt) =>
      let whole := (out.size - 1) / Inflate.windowSize * Inflate.windowSize
      ⟨(out.take whole).toList, some .corrupt⟩
  | (out, defect) => ⟨out.toList, defect⟩

end TableIntake.Archive
