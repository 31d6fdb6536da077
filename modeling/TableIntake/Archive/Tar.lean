import TableIntake.Archive.Entry
import TableIntake.Archive.Octets
import TableIntake.Text.Blank

namespace TableIntake.Archive.Tar

open TableIntake.Text

/-! Tar archives: blocks of 512 octets, a header and then a body for each entry. -/

def blockSize : Nat := 512

def padded (size : Nat) : Nat :=
  (size + blockSize - 1) / blockSize * blockSize

/-! Numbers in headers. -/

def octal? (octets : Octets) : Option Nat := do
  let text ← ofUtf8? (untilNul octets)
  let n ← numeral? 8 (trim text.toList)
  if n < UInt64.size then return n else none

/-- Octal digits, or a binary number behind a mark. -/
def number? : Octets → Option Nat
  | [] => none
  | first :: rest =>
      if first < 0x80 then octal? (first :: rest)
      else if rest.length = 7 then some (bigEndian ((first - 0x80) :: rest))
      else some (bigEndian (rest.drop (rest.length - 8)))

def orBadNumber (n : Option Nat) : Except Fault Nat :=
  match n with
  | some n => .ok n
  | none => .error .badNumber

/-! Headers. -/

structure Header where
  block : Octets

namespace Header

def flag (header : Header) : UInt8 :=
  header.block.getD 156 0

def size (header : Header) : Except Fault Nat :=
  orBadNumber (number? (field 124 12 header.block))

def isGnu (header : Header) : Bool :=
  field 257 8 header.block = utf8 "ustar  " ++ [0]

def isUstar (header : Header) : Bool :=
  field 257 8 header.block = utf8 "ustar" ++ [0] ++ utf8 "00"

def name (header : Header) : Octets :=
  let name := untilNul (field 0 100 header.block)
  let directory := untilNul (field 345 155 header.block)
  if header.isUstar && !directory.isEmpty then directory ++ utf8 "/" ++ name else name

/-- The sum of the octets, those of the sum itself taken as blanks. -/
def sum (header : Header) : Nat :=
  let blanked := header.block.take 148 ++ List.replicate 8 0x20 ++ header.block.drop 156
  blanked.foldl (fun sum octet => sum + octet.toNat) 0

def isSound (header : Header) : Except Fault Bool := do
  let declared ← orBadNumber (octal? (field 148 8 header.block))
  return declared % UInt32.size = header.sum

end Header

/-! Extended headers: lines of a length, a key and a value. -/

/-- The key and the value of a line that is as long as it says. -/
def attribute? (line : Octets) : Option (Octets × Octets) := do
  let length ← ofUtf8? (line.takeWhile (· ≠ 0x20))
  let declared ← numeral? 10 length.toList
  let rest ← (line.dropWhile (· ≠ 0x20)).tail?
  let value ← (rest.dropWhile (· ≠ 0x3d)).tail?
  if declared = line.length + 1 ∧ declared < UInt64.size then
    return (rest.takeWhile (· ≠ 0x3d), value)
  else none

def lines (octets : Octets) : List Octets :=
  octets.foldr (fun octet lines =>
    if octet = 0x0a then [] :: lines else lines.modifyHead (octet :: ·)) [[]]

/-- The attributes up to an empty line; a line that is no attribute stands for itself. -/
def attributes (octets : Octets) : List (Option (Octets × Octets)) :=
  ((lines octets).takeWhile (!·.isEmpty)).map attribute?

def path? (octets : Octets) : Option Octets :=
  ((attributes octets).filterMap id).lookup (utf8 "path")

def firstSize? : List (Option (Octets × Octets)) → Option Nat
  | [] => none
  | none :: _ => none
  | some (key, value) :: rest =>
      if key = utf8 "size" then do
        let text ← ofUtf8? value
        let n ← numeral? 10 text.toList
        if n < UInt64.size then return n else none
      else firstSize? rest

/-- A size is known only if all lines before it are attributes. -/
def size? (octets : Octets) : Option Nat :=
  firstSize? (attributes octets)

/-! Sparse files: maps of the pieces that are not filled with zeros. -/

structure Piece where
  offset : Nat
  length : Nat
  deriving DecidableEq, Repr

def pieces : Nat → Octets → Except Fault (List Piece)
  | 0, _ => .ok []
  | count + 1, octets => do
      let rest := octets.drop 24
      if octets.getD 0 0 = 0 || octets.getD 12 0 = 0 then pieces count rest
      else
        let offset ← orBadNumber (number? (field 0 12 octets))
        let length ← orBadNumber (number? (field 12 12 octets))
        return ⟨offset, length⟩ :: (← pieces count rest)

def morePieces : Nat → Octets → Except Fault (List Piece × Octets)
  | 0, _ => .error .unfinishedBlock
  | fuel + 1, octets => do
      if octets.length < blockSize then .error .unfinishedBlock
      else
        let own ← pieces 21 octets
        let rest := octets.drop blockSize
        if octets.getD 504 0 = 1 then
          let (further, rest) ← morePieces fuel rest
          return (own ++ further, rest)
        else return (own, rest)

/-- Pieces go up, do not overlap, and each begins at a whole block of what is stored. -/
def isMap : (position taken : Nat) → List Piece → Bool
  | _, _, [] => true
  | position, taken, piece :: rest =>
      (piece.length = 0 || taken % blockSize = 0) && position ≤ piece.offset
        && isMap (piece.offset + piece.length) (taken + piece.length) rest

def finish (map : List Piece) : Nat :=
  match map.getLast? with
  | none => 0
  | some piece => piece.offset + piece.length

/-- The rest of a file from a position on, with zeros before each of the stored pieces. -/
def unfold : (position : Nat) → (stored : Octets) → List Piece → Octets
  | _, _, [] => []
  | position, stored, piece :: rest =>
      List.replicate (piece.offset - position) 0 ++ stored.take piece.length
        ++ unfold (piece.offset + piece.length) (stored.drop piece.length) rest

def sparseBody (header : Header) (size : Nat) (octets : Octets) :
    Except Fault (Octets × Octets) := do
  if !header.isGnu then .error .badSparseMap
  else
    let own ← pieces 4 (field 386 96 header.block)
    let (further, stored) ←
      if header.block.getD 482 0 = 1 then morePieces (octets.length + 1) octets
      else pure ([], octets)
    let map := own ++ further
    let real ← orBadNumber (number? (field 483 12 header.block))
    let held := map.foldl (fun sum piece => sum + piece.length) 0
    if isMap 0 0 map && finish map = real && held = size then
      return (unfold 0 stored map, stored)
    else .error .badSparseMap

/-! Records: entries with the names and the bodies that they turn out to have. -/

structure Record where
  flag : UInt8
  name : String
  body : Octets
  deriving DecidableEq, Repr

/-- Regular files are those of the flags `0`, NUL, `7` and `S`; links, devices and pipes have
the flags from `1` to `4` and `6`. -/
def Record.entry (record : Record) : Entry :=
  if record.flag ∈ [0x30, 0, 0x37, 0x53] then .member record.name true ⟨record.body, none⟩
  else if record.flag ∈ [0x31, 0x32, 0x33, 0x34, 0x36] then
    .member record.name false ⟨record.body, none⟩
  else .skipped

structure Description where
  longName : Option Octets := none
  longLink : Bool := false
  attributes : Option Octets := none
  deriving DecidableEq, Repr

namespace Description

def isEmpty (description : Description) : Bool :=
  description.longName.isNone && !description.longLink && description.attributes.isNone

def name (description : Description) (header : Header) : Octets :=
  match description.longName, description.attributes.bind path? with
  | some name, _ => if name.getLast? = some 0 then name.dropLast else name
  | none, some path => path
  | none, none => header.name

/-- A described size replaces the declared one, but not that of an entry which describes others
itself: those have the flags `L`, `K`, `x` and `g`. -/
def size (description : Description) (header : Header) (declared : Nat) : Nat :=
  if header.flag ∈ [0x4c, 0x4b, 0x78, 0x67] then declared
  else (description.attributes.bind size?).getD declared

def extend? (description : Description) (flag : UInt8) (body : Octets) :
    Option (Except Fault Description) :=
  if flag = 0x4c then
    some (if description.longName.isSome then .error .repeatedDescription
      else .ok { description with longName := some body })
  else if flag = 0x4b then
    some (if description.longLink then .error .repeatedDescription
      else .ok { description with longLink := true })
  else if flag = 0x78 then
    some (if description.attributes.isSome then .error .repeatedDescription
      else .ok { description with attributes := some body })
  else none

end Description

/-- The header at the start, if there is one, and what follows it. A block of zeros ends the
archive. -/
def header? (octets : Octets) : Except Fault (Option (Header × Octets)) := do
  let block := octets.take blockSize
  if block.isEmpty then return none
  else if block.length < blockSize then .error .unfinishedBlock
  else if block.all (· = 0) then return none
  else
    let header : Header := ⟨block⟩
    if ← header.isSound then return some (header, octets.drop blockSize)
    else .error .headerChecksum

def behind (size : Nat) (octets : Octets) : Option Octets :=
  if octets.length < padded size then none else some (octets.drop (padded size))

structure Step where
  record : Option Record
  description : Description
  rest : Option Octets

def step (description : Description) (header : Header) (octets : Octets) :
    Except Fault Step := do
  let size := description.size header (← header.size)
  let extension :=
    if header.isGnu || header.isUstar then
      description.extend? header.flag (octets.take size)
    else none
  match extension with
  | some extended => return ⟨none, ← extended, behind size octets⟩
  | none =>
      let (body, octets) ←
        if header.flag = 0x53 then sparseBody header size octets
        else pure (octets.take size, octets)
      let name := ofUtf8Lossy (description.name header)
      return ⟨some ⟨header.flag, name, body⟩, {}, behind size octets⟩

/-- Reads entries from octets, of which there are fewer after each one. -/
def readFrom : Nat → Description → Octets → Contents
  | 0, _, _ => ⟨[], some .unfinishedBlock⟩
  | fuel + 1, description, octets =>
      match header? octets with
      | .error fault => ⟨[], some fault⟩
      | .ok none => ⟨[], if description.isEmpty then none else some .missingMember⟩
      | .ok (some (header, octets)) =>
          match step description header octets with
          | .error fault => ⟨[], some fault⟩
          | .ok ⟨record, description, rest⟩ =>
              let further := match rest with
                | none => ⟨[], some .endInEntry⟩
                | some octets => readFrom fuel description octets
              match record with
              | none => further
              | some record => .cons record.entry further

def read (octets : Octets) : Contents :=
  readFrom (octets.length + 1) {} octets

end TableIntake.Archive.Tar
