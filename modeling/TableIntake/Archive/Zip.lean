import TableIntake.Archive.Checksum
import TableIntake.Archive.Entry
import TableIntake.Archive.Inflate
import TableIntake.Text.CodePage

namespace TableIntake.Archive.Zip

open TableIntake.Text

/-! Zip archives: the directory at the end says where the entries are. -/

def localSignature : Octets := [0x50, 0x4b, 3, 4]
def directorySignature : Octets := [0x50, 0x4b, 1, 2]
def endSignature : Octets := [0x50, 0x4b, 5, 6]
def wideEndSignature : Octets := [0x50, 0x4b, 6, 6]
def wideLocatorSignature : Octets := [0x50, 0x4b, 6, 7]

/-- The greatest number of a field of four octets; in its place stands a wider field. -/
def wideMark : Nat := 0xffffffff

/-! The record at the end. -/

def endRecordSize : Nat := 22

structure EndRecord where
  position : Nat
  octets : Octets

namespace EndRecord

def disk (r : EndRecord) : Nat := numberAt 4 2 r.octets
def directoryDisk (r : EndRecord) : Nat := numberAt 6 2 r.octets
def countHere (r : EndRecord) : Nat := numberAt 8 2 r.octets
def count (r : EndRecord) : Nat := numberAt 10 2 r.octets
def size (r : EndRecord) : Nat := numberAt 12 4 r.octets
def offset (r : EndRecord) : Nat := numberAt 16 4 r.octets
def commentLength (r : EndRecord) : Nat := numberAt 20 2 r.octets

def isNarrow (r : EndRecord) : Bool :=
  [r.disk, r.directoryDisk, r.countHere, r.count].contains 0xffff
    || [r.size, r.offset].contains wideMark

end EndRecord

/-- The last place where the signature of the record stands, not further from the end than the
longest comment. Places are tried from `position` downwards; `tail` is what is there. -/
def searchEnd (lowest : Nat) : (position : Nat) → (before tail : Octets) →
    Option EndRecord
  | position, before, tail =>
      if position < lowest then none
      else if endSignature.isPrefixOf tail then some ⟨position, tail⟩
      else match before with
        | [] => none
        | octet :: before => searchEnd lowest (position - 1) before (octet :: tail)
termination_by _ before _ => before.length

def endRecord (octets : Octets) : Except Fault EndRecord :=
  let last := octets.length - endRecordSize
  if octets.length < endRecordSize then .error .noEndRecord
  else
    match searchEnd (last - 0xffff) last (octets.take last).reverse (octets.drop last) with
    | none => .error .noEndRecord
    | some r =>
        if r.octets.length < endRecordSize + r.commentLength then .error .noEndRecord
        else .ok r

/-- Where the directory is: how far all offsets are shifted, its place, and its length. -/
structure Directory where
  shift : Nat
  start : Nat
  count : Nat
  deriving Repr

/-- The wide record, searched from its nominal place to the last one that it can have. -/
def searchWide : (tries : Nat) → (shift : Nat) → Octets → Except Fault (Nat × Octets)
  | 0, _, _ => .error .badEndRecord
  | tries + 1, shift, octets =>
      if octets.length < 4 then .error .badEndRecord
      else if wideEndSignature.isPrefixOf octets then
        if octets.length < 56 then .error .badEndRecord else .ok (shift, octets)
      else searchWide tries (shift + 1) (octets.drop 1)

def wideDirectory (r : EndRecord) (locator octets : Octets) : Except Fault Directory := do
  if locator.length < 20 then .error .badEndRecord
  else if !r.isNarrow && r.disk ≠ numberAt 4 4 locator then .error .manyDisks
  else if r.position < 60 then .error .badEndRecord
  else
    let nominal := numberAt 8 8 locator
    let (shift, wide) ← searchWide (r.position - 60 + 1 - nominal) 0 (octets.drop nominal)
    if numberAt 16 4 wide ≠ numberAt 20 4 wide then .error .manyDisks
    else
      let start := numberAt 48 8 wide + shift
      if 1 <<< 63 ≤ start then .error .badEndRecord
      else return ⟨shift, start, numberAt 32 8 wide⟩

def directory (octets : Octets) : Except Fault Directory := do
  let r ← endRecord octets
  if !r.isNarrow && r.disk ≠ r.directoryDisk then .error .manyDisks
  else
    let locator := octets.drop (octets.length - (20 + endRecordSize + r.commentLength))
    if 20 + endRecordSize + r.commentLength ≤ octets.length
        && wideLocatorSignature.isPrefixOf locator then
      wideDirectory r locator octets
    else if r.position < r.size + r.offset then .error .badEndRecord
    else
      let shift := r.position - r.size - r.offset
      return ⟨shift, r.offset + shift, r.countHere⟩

/-! Members of the directory. -/

structure Member where
  system : Nat
  encrypted : Bool
  enveloped : Bool := false
  method : Nat
  checksum : Nat
  size : Nat
  fullSize : Nat
  name : String
  attributes : Nat
  offset : Nat
  deriving Repr

namespace Member

def applyEnvelope (member : Member) (octets : Octets) :
    Except Fault Member := do
  if numberAt 2 2 octets ≠ 7 then .error .badExtraField
  else if octets.length < 11 then return member
  else if numberAt 6 2 octets ≠ 0x4541 then .error .badExtraField
  else if numberAt 4 2 octets ∉ [1, 2] then .error .badExtraField
  else if numberAt 8 1 octets ∉ [1, 2, 3] then .error .badExtraField
  else return { member with enveloped := true, method := numberAt 9 2 octets }

/-- Replaces a number by the wide one at the front, if it is marked. -/
def widen (value : Nat) (octets : Octets) : Option (Nat × Octets) :=
  if value ≠ wideMark then some (value, octets)
  else if octets.length < 8 then none
  else some (numberAt 0 8 octets, octets.drop 8)

def applyWidths (member : Member) (octets : Octets) : Member × Option Octets :=
  match widen member.fullSize octets with
  | none => (member, none)
  | some (fullSize, octets) =>
      let member := { member with fullSize }
      match widen member.size octets with
      | none => (member, none)
      | some (size, octets) =>
          let member := { member with size }
          match widen member.offset octets with
          | none => (member, none)
          | some (offset, octets) => ({ member with offset }, some octets)

/-- The member as its extra fields alter it. A field that is cut off ends them. -/
def applyExtra : Nat → Member → Octets → Except Fault Member
  | 0, member, _ => .ok member
  | fuel + 1, member, octets => do
      if octets.length < 4 then return member
      else
        let length := numberAt 2 2 octets
        if numberAt 0 2 octets = 1 then
          match applyWidths member (octets.drop 4) with
          | (member, none) => return member
          | (member, some rest) =>
              let used := octets.length - 4 - rest.length
              applyExtra fuel member (rest.drop (length - used))
        else if numberAt 0 2 octets = 0x9901 then
          let member ← applyEnvelope member octets
          applyExtra fuel member (octets.drop (11 + length))
        else applyExtra fuel member (octets.drop (4 + length))

def read (shift : Nat) (octets : Octets) : Except Fault (Member × Octets) := do
  let nameLength := numberAt 28 2 octets
  let extraLength := numberAt 30 2 octets
  let total := 46 + nameLength + extraLength + numberAt 32 2 octets
  if !directorySignature.isPrefixOf octets || octets.length < total then
    .error .badDirectory
  else
    let flags := numberAt 8 2 octets
    let name := field 46 nameLength octets
    let member ← applyExtra (extraLength + 1)
      { system := numberAt 5 1 octets
        encrypted := flags % 2 = 1
        method := numberAt 10 2 octets
        checksum := numberAt 16 4 octets
        size := numberAt 20 4 octets
        fullSize := numberAt 24 4 octets
        name := if flags / 2048 % 2 = 1 then ofUtf8Lossy name else ofCodePage437 name
        attributes := numberAt 38 4 octets
        offset := numberAt 42 4 octets }
      (field (46 + nameLength) extraLength octets)
    if member.method = 99 && !member.enveloped then .error .badExtraField
    else if UInt64.size ≤ member.offset + shift then .error .badDirectory
    else return ({ member with offset := member.offset + shift }, octets.drop total)

def format? (member : Member) : Option Nat :=
  if member.attributes = 0 then none
  else if member.system = 3 then some (member.attributes >>> 28)
  else if member.system = 0 then
    if member.attributes % 2 = 1 then some 0
    else if member.attributes / 16 % 2 = 1 then some 4
    else some 8
  else none

/-- The member is not known to be anything else. -/
def isRegular (member : Member) : Bool :=
  match member.format? with
  | none => true
  | some format => format = 0 || format = 8

def isDirectory (member : Member) : Bool :=
  match member.name.toList.getLast? with
  | none => false
  | some c => c = '/' || c = '\\'

def data (member : Member) (octets : Octets) : Octets :=
  let start := 30 + numberAt 26 2 octets + numberAt 28 2 octets
  (octets.drop start).take member.size

def content (member : Member) (data : Octets) : Content :=
  let ⟨octets, defect⟩ := if member.method = 8 then inflate data else ⟨data, none⟩
  match defect with
  | some defect => ⟨octets, some defect.message⟩
  | none =>
      if (Archive.checksum octets).toNat = member.checksum then ⟨octets, none⟩
      else ⟨octets, some "Invalid checksum"⟩

def entry (member : Member) (octets : Octets) : Except Fault Entry :=
  let rest := octets.drop member.offset
  if member.encrypted then .ok (.sealed "Password required to decrypt file")
  else if !localSignature.isPrefixOf rest || rest.length < 30 then .error .badLocalHeader
  else if member.method ≠ 0 ∧ member.method ≠ 8 then
    .ok (.sealed "Compression method not supported")
  -- It is not encrypted, and yet in an envelope that takes a password: reading ends here.
  else if member.enveloped then .error .badExtraField
  else if member.isDirectory then .ok .skipped
  else .ok (.member member.name member.isRegular (member.content (member.data rest)))

end Member

def members (shift : Nat) : Nat → Octets → Except Fault (List Member)
  | 0, _ => .ok []
  | count + 1, octets => do
      let (member, rest) ← Member.read shift octets
      return member :: (← members shift count rest)

def entries (octets : Octets) : List Member → Contents
  | [] => ⟨[], none⟩
  | member :: rest =>
      match member.entry octets with
      | .error fault => ⟨[], some fault⟩
      | .ok entry => .cons entry (entries octets rest)

/-- All members are known before the first entry is opened. -/
def read (octets : Octets) : Contents :=
  let found := do
    let directory ← directory octets
    members directory.shift directory.count (octets.drop directory.start)
  match found with
  | .error fault => ⟨[], some fault⟩
  | .ok members => entries octets members

end TableIntake.Archive.Zip
