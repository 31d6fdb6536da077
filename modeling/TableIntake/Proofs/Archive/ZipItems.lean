import TableIntake.Archive.Zip
import TableIntake.Proofs.Archive.Items
import TableIntake.Proofs.Outcomes

namespace TableIntake.Archive

open TableIntake.Text

/-! Items packed as a zip archive are read as what they are. -/

def Kind.mode : Kind → Nat
  | .file => 0o100644
  | .symlink => 0o120777
  | .char => 0o020644
  | .block => 0o060644
  | .fifo => 0o010644
  | .directory => 0o040755

namespace Zip

/-! Packing: bodies are stored as they are, names are UTF-8, and modes are those of Unix. -/

def sumOf (item : Item) : Nat :=
  (Archive.checksum item.body).toNat

def localFields (item : Item) : List (Nat × Nat) :=
  [(4, 0x04034b50), (2, 20), (2, 0x0800), (2, 0), (2, 0), (2, 0x21), (4, sumOf item),
    (4, item.body.length), (4, item.body.length), (2, item.name.length), (2, 0)]

def packLocal (item : Item) : Octets :=
  encode (localFields item) ++ (item.name ++ item.body)

def centralFields (offset : Nat) (item : Item) : List (Nat × Nat) :=
  [(4, 0x02014b50), (1, 20), (1, 3), (2, 20), (2, 0x0800), (2, 0), (2, 0), (2, 0x21),
    (4, sumOf item), (4, item.body.length), (4, item.body.length), (2, item.name.length), (2, 0),
    (2, 0), (2, 0), (2, 0), (4, item.kind.mode * 65536), (4, offset)]

def packCentral (offset : Nat) (item : Item) : Octets :=
  encode (centralFields offset item) ++ item.name

def packLocals (items : List Item) : Octets :=
  items.flatMap packLocal

def packCentrals : (offset : Nat) → List Item → Octets
  | _, [] => []
  | offset, item :: items =>
      packCentral offset item ++ packCentrals (offset + (packLocal item).length) items

def endFields (count size offset : Nat) : List (Nat × Nat) :=
  [(4, 0x06054b50), (2, 0), (2, 0), (2, count), (2, count), (4, size), (4, offset), (2, 0)]

def packEnd (items : List Item) : Octets :=
  encode (endFields items.length (packCentrals 0 items).length (packLocals items).length)

def pack (items : List Item) : Octets :=
  packLocals items ++ (packCentrals 0 items ++ packEnd items)

/-- No number is too great for its field, and what stands where a wide archive has its locator is
none. -/
structure Fits (items : List Item) : Prop where
  count : items.length < 256 ^ 2
  names : ∀ item ∈ items, item.name.length < 256 ^ 2
  front : (packLocals items).length < 256 ^ 4
  directory : (packCentrals 0 items).length < 256 ^ 4
  locator : wideLocatorSignature.isPrefixOf ((pack items).drop ((pack items).length - 42)) = false

/-! Members of the directory. -/

def memberOf (offset : Nat) (item : Item) : Member where
  system := 3
  encrypted := false
  method := 0
  checksum := sumOf item
  size := item.body.length
  fullSize := item.body.length
  name := item.text
  attributes := item.kind.mode * 65536
  offset := offset

theorem isPrefixOf_encode {signature : Octets} {number : Nat} (h : littleOf 4 number = signature)
    (fields : List (Nat × Nat)) (rest : Octets) :
    signature.isPrefixOf (encode ((4, number) :: fields) ++ rest) = true := by
  rw [encode, List.map_cons, List.flatten_cons, encodeField, h, List.append_assoc,
    List.isPrefixOf_iff_prefix]
  exact List.prefix_append _ _

def localWidths : List Nat := [4, 2, 2, 2, 2, 2, 4, 4, 4, 2, 2]

def centralWidths : List Nat := [4, 1, 1, 2, 2, 2, 2, 2, 4, 4, 4, 2, 2, 2, 2, 2, 4, 4]

def endWidths : List Nat := [4, 2, 2, 2, 2, 4, 4, 2]

theorem map_fst_localFields (item : Item) : (localFields item).map Prod.fst = localWidths := rfl

theorem map_fst_centralFields (offset : Nat) (item : Item) :
    (centralFields offset item).map Prod.fst = centralWidths := rfl

theorem map_fst_endFields (count size offset : Nat) :
    (endFields count size offset).map Prod.fst = endWidths := rfl

theorem length_localFields (item : Item) : (encode (localFields item)).length = 30 := by
  rw [length_encode (map_fst_localFields item)]
  rfl

theorem length_centralFields (offset : Nat) (item : Item) :
    (encode (centralFields offset item)).length = 46 := by
  rw [length_encode (map_fst_centralFields offset item)]
  rfl

theorem length_endFields (count size offset : Nat) :
    (encode (endFields count size offset)).length = 22 := by
  rw [length_encode (map_fst_endFields count size offset)]
  rfl

theorem length_packLocal (item : Item) :
    (packLocal item).length = 30 + (item.name.length + item.body.length) := by
  rw [packLocal, List.length_append, length_localFields, List.length_append]

theorem length_packCentral (offset : Nat) (item : Item) :
    (packCentral offset item).length = 46 + item.name.length := by
  rw [packCentral, List.length_append, length_centralFields]

section Central

variable {item : Item} {offset : Nat}

theorem isPrefixOf_packCentral (offset : Nat) (item : Item) (rest : Octets) :
    directorySignature.isPrefixOf (packCentral offset item ++ rest) = true := by
  rw [packCentral, List.append_assoc]
  exact isPrefixOf_encode (by decide) _ _

theorem numberAt_packCentral {start width n : Nat} (i : Nat)
    (h : (centralFields offset item)[i]? = some (width, n))
    (hstart : (centralWidths.take i).sum = start) (hn : n < 256 ^ width) (rest : Octets) :
    numberAt start width (packCentral offset item ++ rest) = n := by
  rw [packCentral, List.append_assoc]
  exact numberAt_encode (map_fst_centralFields offset item) h hstart hn _

theorem name_packCentral (offset : Nat) (item : Item) (rest : Octets) :
    field 46 item.name.length (packCentral offset item ++ rest) = item.name := by
  rw [field, ← length_centralFields offset item, packCentral, List.append_assoc, List.drop_left,
    List.take_left]

theorem read_packCentral (hname : item.name.length < 256 ^ 2) (hbody : item.body.length < 256 ^ 4)
    (hoffset : offset < 256 ^ 4) (rest : Octets) :
    Member.read 0 (packCentral offset item ++ rest) = .ok (memberOf offset item, rest) := by
  let octets := packCentral offset item ++ rest
  have hmode : item.kind.mode * 65536 < 256 ^ 4 := by cases item.kind <;> decide
  have hsystem : numberAt 5 1 octets = 3 := numberAt_packCentral 2 rfl rfl (by decide) rest
  have hflags : numberAt 8 2 octets = 0x0800 := numberAt_packCentral 4 rfl rfl (by decide) rest
  have hmethod : numberAt 10 2 octets = 0 := numberAt_packCentral 5 rfl rfl (by decide) rest
  have hsum : numberAt 16 4 octets = sumOf item :=
    numberAt_packCentral 8 rfl rfl (UInt32.toNat_lt _) rest
  have hsize : numberAt 20 4 octets = item.body.length := numberAt_packCentral 9 rfl rfl hbody rest
  have hfull : numberAt 24 4 octets = item.body.length := numberAt_packCentral 10 rfl rfl hbody rest
  have hnamed : numberAt 28 2 octets = item.name.length :=
    numberAt_packCentral 11 rfl rfl hname rest
  have hextra : numberAt 30 2 octets = 0 := numberAt_packCentral 12 rfl rfl (by decide) rest
  have hcomment : numberAt 32 2 octets = 0 := numberAt_packCentral 13 rfl rfl (by decide) rest
  have hattributes : numberAt 38 4 octets = item.kind.mode * 65536 :=
    numberAt_packCentral 16 rfl rfl hmode rest
  have hplace : numberAt 42 4 octets = offset := numberAt_packCentral 17 rfl rfl hoffset rest
  have hsignature : directorySignature.isPrefixOf octets = true :=
    isPrefixOf_packCentral offset item rest
  have hread : field 46 item.name.length octets = item.name := name_packCentral offset item rest
  have hlength := length_packCentral offset item
  have hdrop : octets.drop (46 + item.name.length) = rest := by
    rw [← hlength]
    exact List.drop_left
  have hshort : ¬octets.length < 46 + item.name.length := by
    rw [List.length_append, hlength]
    omega
  have hfit : ¬UInt64.size ≤ offset :=
    Nat.not_le.mpr (Nat.lt_trans hoffset (by decide))
  have hextras : field (46 + item.name.length) 0 octets = [] := List.take_zero
  have hunextended (member : Member) : Member.applyExtra (0 + 1) member [] = .ok member := rfl
  change Member.read 0 octets = _
  simp only [Member.read, hnamed, hextra, hcomment, hsignature, hsystem, hflags, hmethod, hsum,
    hsize, hfull, hattributes, hplace, hread, hextras, hunextended, Nat.add_zero, hdrop, hshort,
    hfit, bind, Except.bind, pure, Except.pure]
  simp [memberOf, Item.text]

end Central

/-! The directory and the entries that it leads to. -/

def membersOf : (offset : Nat) → List Item → List Member
  | _, [] => []
  | offset, item :: items =>
      memberOf offset item :: membersOf (offset + (packLocal item).length) items

theorem packLocals_cons (item : Item) (items : List Item) :
    packLocals (item :: items) = packLocal item ++ packLocals items :=
  List.flatMap_cons

theorem members_packCentrals {items : List Item} {offset : Nat}
    (hnames : ∀ item ∈ items, item.name.length < 256 ^ 2)
    (hfront : offset + (packLocals items).length < 256 ^ 4) (rest : Octets) :
    members 0 items.length (packCentrals offset items ++ rest) = .ok (membersOf offset items) := by
  induction items generalizing offset with
  | nil => rfl
  | cons item items ih =>
      obtain ⟨hname, hothers⟩ := List.forall_mem_cons.mp hnames
      rw [packLocals_cons, List.length_append] at hfront
      have hlength := length_packLocal item
      have hread := read_packCentral hname (show item.body.length < 256 ^ 4 by omega)
        (show offset < 256 ^ 4 by omega)
        (packCentrals (offset + (packLocal item).length) items ++ rest)
      have hmembers := ih hothers (show offset + (packLocal item).length +
        (packLocals items).length < 256 ^ 4 by omega)
      rw [packCentrals, List.append_assoc, List.length_cons, members, bind_of_ok hread]
      simp only [hmembers, bind, Except.bind, pure, Except.pure, membersOf]

theorem isRegular_iff (offset : Nat) (item : Item) :
    (memberOf offset item).isRegular = true ↔ item.kind = .file := by
  have hattributes : (memberOf offset item).attributes ≠ 0 := by
    change item.kind.mode * 65536 ≠ 0
    cases item.kind <;> decide
  have hsystem : (memberOf offset item).system = 3 := rfl
  have hformat : (memberOf offset item).format? = some ((item.kind.mode * 65536) >>> 28) := by
    rw [Member.format?, if_neg hattributes, if_pos hsystem]
    rfl
  rw [Member.isRegular, hformat]
  cases item.kind <;> decide

theorem isRegular_memberOf (offset : Nat) (item : Item) :
    (memberOf offset item).isRegular = (memberOf 0 item).isRegular :=
  Bool.eq_iff_iff.mpr ((isRegular_iff offset item).trans (isRegular_iff 0 item).symm)

theorem isDirectory_memberOf (offset : Nat) (item : Item) :
    (memberOf offset item).isDirectory = (memberOf 0 item).isDirectory := by
  simp only [Member.isDirectory, memberOf]

theorem isDirectory_iff (item : Item) :
    (memberOf 0 item).isDirectory = true ↔
      ∃ c, item.text.toList.getLast? = some c ∧ (c = '/' ∨ c = '\\') := by
  rw [Member.isDirectory, memberOf]
  cases item.text.toList.getLast? with
  | none => simp
  | some c => simp

/-- The entry that an item is read as. -/
def entryOf (item : Item) : Entry :=
  if (memberOf 0 item).isDirectory then .skipped
  else .member item.text (memberOf 0 item).isRegular ⟨item.body, none⟩

theorem isPrefixOf_packLocal (item : Item) (rest : Octets) :
    localSignature.isPrefixOf (packLocal item ++ rest) = true := by
  rw [packLocal, List.append_assoc]
  exact isPrefixOf_encode (by decide) _ _

theorem numberAt_packLocal {item : Item} {start width n : Nat} (i : Nat)
    (h : (localFields item)[i]? = some (width, n)) (hstart : (localWidths.take i).sum = start)
    (hn : n < 256 ^ width) (rest : Octets) :
    numberAt start width (packLocal item ++ rest) = n := by
  rw [packLocal, List.append_assoc]
  exact numberAt_encode (map_fst_localFields item) h hstart hn _

theorem data_packLocal {item : Item} (hname : item.name.length < 256 ^ 2) (offset : Nat)
    (rest : Octets) : (memberOf offset item).data (packLocal item ++ rest) = item.body := by
  have hnamed : numberAt 26 2 (packLocal item ++ rest) = item.name.length :=
    numberAt_packLocal 9 rfl rfl hname rest
  have hextra : numberAt 28 2 (packLocal item ++ rest) = 0 :=
    numberAt_packLocal 10 rfl rfl (by decide) rest
  have hheader : 30 + item.name.length = (encode (localFields item) ++ item.name).length := by
    rw [List.length_append, length_localFields]
  rw [Member.data, hnamed, hextra, Nat.add_zero, hheader, packLocal]
  simp only [← List.append_assoc]
  rw [List.append_assoc _ item.body, List.drop_left]
  exact List.take_left

theorem content_memberOf (offset : Nat) (item : Item) :
    (memberOf offset item).content item.body = ⟨item.body, none⟩ := by
  simp [Member.content, memberOf, sumOf]

theorem entry_packLocal {item : Item} {offset : Nat} {octets rest : Octets}
    (hname : item.name.length < 256 ^ 2)
    (h : octets.drop offset = packLocal item ++ rest) :
    (memberOf offset item).entry octets = .ok (entryOf item) := by
  have hplace : octets.drop (memberOf offset item).offset = packLocal item ++ rest := h
  have hlong : ¬(packLocal item ++ rest).length < 30 := by
    rw [List.length_append, length_packLocal]
    omega
  have hopen : (memberOf offset item).encrypted = false := rfl
  have hbare : (memberOf offset item).enveloped = false := rfl
  have hstored : ¬((memberOf offset item).method ≠ 0 ∧ (memberOf offset item).method ≠ 8) :=
    fun hmethod => hmethod.1 rfl
  have hnamed : (memberOf offset item).name = item.text := rfl
  simp only [Member.entry, hplace, hopen, hbare, isPrefixOf_packLocal, hlong, if_neg hstored,
    data_packLocal hname, content_memberOf, isDirectory_memberOf offset, isRegular_memberOf offset,
    hnamed, entryOf]
  cases (memberOf 0 item).isDirectory with
  | true => simp
  | false => simp

theorem entries_membersOf {items : List Item} {offset : Nat} {octets rest : Octets}
    (hnames : ∀ item ∈ items, item.name.length < 256 ^ 2)
    (h : octets.drop offset = packLocals items ++ rest) :
    entries octets (membersOf offset items) = ⟨items.map entryOf, none⟩ := by
  induction items generalizing offset with
  | nil => rfl
  | cons item items ih =>
      obtain ⟨hname, hothers⟩ := List.forall_mem_cons.mp hnames
      rw [packLocals_cons, List.append_assoc] at h
      have hbehind : octets.drop (offset + (packLocal item).length) = packLocals items ++ rest := by
        rw [← List.drop_drop, h, List.drop_left]
      rw [membersOf, entries, entry_packLocal hname h]
      simp only [ih hothers hbehind, Contents.cons, List.map_cons]

/-! The record at the end. -/

theorem isPrefixOf_endFields (count size offset : Nat) (rest : Octets) :
    endSignature.isPrefixOf (encode (endFields count size offset) ++ rest) = true :=
  isPrefixOf_encode (by decide) _ rest

section End

variable {count size offset : Nat}

theorem numberAt_endFields {start width n : Nat} (i : Nat)
    (h : (endFields count size offset)[i]? = some (width, n))
    (hstart : (endWidths.take i).sum = start) (hn : n < 256 ^ width) :
    numberAt start width (encode (endFields count size offset)) = n := by
  have hnumber := numberAt_encode (map_fst_endFields count size offset) h hstart hn []
  rwa [List.append_nil] at hnumber

theorem endRecord_append (octets : Octets) :
    endRecord (octets ++ encode (endFields count size offset)) =
      .ok ⟨octets.length, encode (endFields count size offset)⟩ := by
  have hlength := length_endFields count size offset
  have htotal : (octets ++ encode (endFields count size offset)).length = octets.length + 22 := by
    rw [List.length_append, hlength]
  have hsignature : endSignature.isPrefixOf (encode (endFields count size offset)) = true := by
    have hprefix := isPrefixOf_endFields count size offset []
    rwa [List.append_nil] at hprefix
  have hcomment : numberAt 20 2 (encode (endFields count size offset)) = 0 :=
    numberAt_endFields 7 rfl rfl (by decide)
  generalize encode (endFields count size offset) = fields at *
  have hsearch (before : Octets) :
      searchEnd (octets.length - 0xffff) octets.length before fields =
        some ⟨octets.length, fields⟩ := by
    have hlowest : ¬octets.length < octets.length - 0xffff := Nat.not_lt.mpr (Nat.sub_le ..)
    unfold searchEnd
    simp only [if_neg hlowest, hsignature, if_true]
  have hshort : ¬octets.length + 22 < 22 := by omega
  simp only [endRecord, htotal, endRecordSize, Nat.add_sub_cancel, if_neg hshort, List.drop_left,
    hsearch, EndRecord.commentLength, hcomment, hlength, Nat.add_zero, Nat.lt_irrefl, if_false]

end End

theorem directory_pack {items : List Item} (h : Fits items) :
    directory (pack items) = .ok ⟨0, (packLocals items).length, items.length⟩ := by
  let r : EndRecord := ⟨(packLocals items ++ packCentrals 0 items).length, packEnd items⟩
  have hrecord : endRecord (pack items) = .ok r := by
    rw [pack, ← List.append_assoc]
    exact endRecord_append _
  have hdisk : r.disk = 0 := numberAt_endFields 1 rfl rfl (by decide)
  have hdirectoryDisk : r.directoryDisk = 0 := numberAt_endFields 2 rfl rfl (by decide)
  have hcount : r.countHere = items.length := numberAt_endFields 3 rfl rfl h.count
  have hsize : r.size = (packCentrals 0 items).length := numberAt_endFields 5 rfl rfl h.directory
  have hoffset : r.offset = (packLocals items).length := numberAt_endFields 6 rfl rfl h.front
  have hcomment : r.commentLength = 0 := numberAt_endFields 7 rfl rfl (by decide)
  have hposition : r.position = (packLocals items).length + (packCentrals 0 items).length :=
    List.length_append
  have hbehind : ¬(packLocals items).length + (packCentrals 0 items).length <
      (packCentrals 0 items).length + (packLocals items).length := by omega
  have hshift : (packLocals items).length + (packCentrals 0 items).length -
      (packCentrals 0 items).length - (packLocals items).length = 0 := by omega
  rw [directory, bind_of_ok hrecord]
  simp only [hdisk, hdirectoryDisk, hcomment, hsize, hoffset, hposition, hcount, h.locator, hshift,
    if_neg hbehind, endRecordSize, ne_eq, not_true, decide_false, Bool.and_false,
    Bool.false_eq_true, if_false, Nat.add_zero, Nat.reduceAdd, pure, Except.pure]

/-- Items are read as they were packed. -/
theorem read_pack {items : List Item} (h : Fits items) :
    read (pack items) = ⟨items.map entryOf, none⟩ := by
  have hmembers : members 0 items.length ((pack items).drop (packLocals items).length) =
      .ok (membersOf 0 items) := by
    rw [pack, List.drop_left]
    exact members_packCentrals h.names (by rw [Nat.zero_add]; exact h.front) _
  rw [read, bind_of_ok (directory_pack h)]
  simp only [hmembers]
  exact entries_membersOf h.names rfl

end Zip

end TableIntake.Archive
