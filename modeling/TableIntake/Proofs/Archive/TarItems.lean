import Mathlib.Algebra.Order.BigOperators.Group.List
import Mathlib.Algebra.Order.Group.Nat
import TableIntake.Archive.Tar
import TableIntake.Proofs.Archive.Items
import TableIntake.Proofs.Outcomes

namespace TableIntake.Archive

open TableIntake.Text

/-! Items packed as a tar archive are read as what they are. -/

def Kind.flag : Kind → UInt8
  | .file => 0x30
  | .symlink => 0x32
  | .char => 0x33
  | .block => 0x34
  | .directory => 0x35
  | .fifo => 0x36

namespace Tar

/-! Packing. -/

/-- The fields before the sum of a header. -/
def front (name : Octets) (size : Nat) : List Octets :=
  [filled 100 name, utf8 "0000644" ++ [0], utf8 "0000000" ++ [0], utf8 "0000000" ++ [0],
    octal 11 size ++ [0], utf8 "00000000000" ++ [0]]

/-- The fields behind the sum of a header. -/
def back (flag : UInt8) : List Octets :=
  [[flag], filled 100 (if flag = 0x32 then utf8 "target" else []), utf8 "ustar  " ++ [0],
    List.replicate 247 0]

def parts (name : Octets) (flag : UInt8) (size : Nat) (sum : Octets) : List Octets :=
  front name size ++ sum :: back flag

def sumOf (octets : Octets) : Nat :=
  octets.foldl (fun sum octet => sum + octet.toNat) 0

/-- The sum of a header whose own field is blank. -/
def blankSum (name : Octets) (flag : UInt8) (size : Nat) : Nat :=
  sumOf (parts name flag size (List.replicate 8 0x20)).flatten

def block (name : Octets) (flag : UInt8) (size : Nat) : Octets :=
  (parts name flag size (octal 6 (blankSum name flag size) ++ [0, 0x20])).flatten

def packBody (body : Octets) : Octets :=
  filled (padded body.length) body

/-- A name that is too long for a header stands before it as the body of an entry of its own. -/
def describe (name : Octets) : Octets :=
  if name.length ≤ 100 then []
  else block (utf8 "././@LongLink") 0x4c (name.length + 1) ++ packBody (name ++ [0])

def packItem (item : Item) : Octets :=
  describe item.name ++ block (item.name.take 100) item.kind.flag item.body.length
    ++ packBody item.body

def pack (items : List Item) : Octets :=
  items.flatMap packItem ++ List.replicate 1024 0

/-! Numbers. -/

theorem octal?_octal {width n : Nat} (hwidth : 0 < width) (h : n < 8 ^ width)
    (hword : n < UInt64.size) (rest : Octets) : octal? (octal width n ++ 0 :: rest) = some n := by
  have hnul : 0 ∉ octal width n := fun hmem => (mem_octal hmem).1 rfl
  rw [octal?, untilNul_append_nul hnul, octal, ofUtf8?_utf8]
  simp only [Option.bind_eq_bind, Option.bind_some, String.toList_ofList,
    trim_of_not_blank (not_blank_octalDigits width n), numeral?_octalDigits hwidth h, if_pos hword]
  rfl

theorem number?_octal {width n : Nat} (hwidth : 0 < width) (h : n < 8 ^ width)
    (hword : n < UInt64.size) (rest : Octets) : number? (octal width n ++ 0 :: rest) = some n := by
  have hoctal := octal?_octal hwidth h hword rest
  have hlength := length_octal width n
  have hplain : ∀ octet ∈ octal width n, octet < 0x80 := fun _ hmem => (mem_octal hmem).2
  generalize octal width n = digits at hoctal hlength hplain ⊢
  cases digits with
  | nil => exact absurd hlength (Nat.ne_of_lt hwidth)
  | cons first others =>
      rw [List.cons_append, number?, if_pos (hplain first List.mem_cons_self)]
      exact hoctal

/-! Headers. -/

section Block

variable {name : Octets} {flag : UInt8} {size : Nat} {sum : Octets}

theorem map_length_front (hname : name.length ≤ 100) :
    (front name size).map List.length = [100, 8, 8, 8, 12, 12] := by
  have hmode : (utf8 "0000644").length = 7 := by decide
  have howner : (utf8 "0000000").length = 7 := by decide
  have htime : (utf8 "00000000000").length = 11 := by decide
  simp only [front, List.map_cons, List.map_nil, length_filled hname, List.length_append,
    length_octal, List.length_singleton, hmode, howner, htime]

theorem map_length_back (flag : UInt8) : (back flag).map List.length = [1, 100, 8, 247] := by
  have hlink : (if flag = 0x32 then utf8 "target" else []).length ≤ 100 := by
    split <;> decide
  have hmagic : (utf8 "ustar  ").length = 7 := by decide
  simp only [back, List.map_cons, List.map_nil, length_filled hlink, List.length_append,
    List.length_singleton, hmagic, List.length_replicate]

theorem map_length_parts (hname : name.length ≤ 100) (hsum : sum.length = 8) :
    (parts name flag size sum).map List.length = [100, 8, 8, 8, 12, 12, 8, 1, 100, 8, 247] := by
  rw [parts, List.map_append, List.map_cons, map_length_front hname, map_length_back, hsum]
  rfl

theorem length_front (hname : name.length ≤ 100) : (front name size).flatten.length = 148 := by
  rw [List.length_flatten, map_length_front hname]
  rfl

theorem length_parts (hname : name.length ≤ 100) (hsum : sum.length = 8) :
    (parts name flag size sum).flatten.length = 512 := by
  rw [List.length_flatten, map_length_parts hname hsum]
  rfl

theorem length_sumField (n : Nat) : (octal 6 n ++ [0, 0x20]).length = 8 := by
  rw [List.length_append, length_octal]
  rfl

theorem length_block (hname : name.length ≤ 100) : (block name flag size).length = 512 :=
  length_parts hname (length_sumField _)

/-- A field of a header is read where it was written. -/
theorem field_block (hname : name.length ≤ 100) {part : Octets} {i start length : Nat}
    (hpart : (parts name flag size (octal 6 (blankSum name flag size) ++ [0, 0x20]))[i]? =
      some part)
    (hstart : ([100, 8, 8, 8, 12, 12, 8, 1, 100, 8, 247].take i).sum = start)
    (hlength : part.length = length) : field start length (block name flag size) = part := by
  have hfield := field_part hpart []
  rw [List.append_nil, List.map_take, map_length_parts hname (length_sumField _), hstart,
    hlength] at hfield
  exact hfield

theorem getD_of_field {start : Nat} {octets : Octets} {octet : UInt8}
    (h : field start 1 octets = [octet]) : octets.getD start 0 = octet := by
  have hdrop : (octets.drop start)[0]? = some octet := by
    rw [field] at h
    cases hrest : octets.drop start with
    | nil => simp [hrest] at h
    | cons first rest => simpa [hrest] using h
  rw [List.getElem?_drop, Nat.add_zero] at hdrop
  rw [List.getD_eq_getElem?_getD, hdrop, Option.getD_some]

theorem field_flag (hname : name.length ≤ 100) : field 156 1 (block name flag size) = [flag] :=
  field_block hname (show _[7]? = _ from rfl) rfl rfl

theorem flag_block (hname : name.length ≤ 100) : Header.flag ⟨block name flag size⟩ = flag :=
  getD_of_field (field_flag hname)

theorem size_block (hname : name.length ≤ 100) (hsize : size < 8 ^ 11) :
    Header.size ⟨block name flag size⟩ = .ok size := by
  have hlength : (octal 11 size ++ [0]).length = 12 := by
    rw [List.length_append, length_octal]
    rfl
  have hfield : field 124 12 (block name flag size) = octal 11 size ++ [0] :=
    field_block hname (show _[4]? = _ from rfl) rfl hlength
  have hword : size < UInt64.size := Nat.lt_trans hsize (by decide)
  rw [Header.size, hfield, number?_octal (by decide) hsize hword]
  rfl

theorem field_magic (hname : name.length ≤ 100) :
    field 257 8 (block name flag size) = utf8 "ustar  " ++ [0] :=
  field_block hname (show _[9]? = _ from rfl) rfl (by decide)

theorem isGnu_block (hname : name.length ≤ 100) : Header.isGnu ⟨block name flag size⟩ = true := by
  rw [Header.isGnu, field_magic hname]
  decide

theorem isUstar_block (hname : name.length ≤ 100) :
    Header.isUstar ⟨block name flag size⟩ = false := by
  rw [Header.isUstar, field_magic hname]
  decide

theorem name_block (hname : name.length ≤ 100) (hnul : 0 ∉ name) :
    Header.name ⟨block name flag size⟩ = name := by
  have hfield : field 0 100 (block name flag size) = filled 100 name :=
    field_block hname (show _[0]? = _ from rfl) rfl (length_filled hname)
  simp only [Header.name, isUstar_block hname, Bool.false_and, Bool.false_eq_true, if_false,
    hfield, untilNul_filled hnul]

/-! Sums. -/

theorem sumOf_le (octets : Octets) : sumOf octets ≤ 255 * octets.length := by
  have hfold (start : Nat) : octets.foldl (fun sum octet => sum + octet.toNat) start ≤
      start + 255 * octets.length := by
    induction octets generalizing start with
    | nil => exact Nat.le_refl _
    | cons octet octets ih =>
        have hoctet := octet.toNat_lt
        have hrest := ih (start + octet.toNat)
        rw [List.foldl_cons, List.length_cons]
        omega
  have h := hfold 0
  rwa [Nat.zero_add] at h

theorem blankSum_lt (hname : name.length ≤ 100) : blankSum name flag size < 8 ^ 6 := by
  have hle := sumOf_le (parts name flag size (List.replicate 8 0x20)).flatten
  rw [length_parts hname List.length_replicate] at hle
  exact Nat.lt_of_le_of_lt hle (by decide)

theorem sum_block (hname : name.length ≤ 100) :
    Header.sum ⟨block name flag size⟩ = blankSum name flag size := by
  have hsplit (sum : Octets) : (parts name flag size sum).flatten =
      (front name size).flatten ++ (sum ++ (back flag).flatten) := by
    rw [parts, List.flatten_append, List.flatten_cons]
  have hfront : (front name size).flatten.length = 148 := length_front hname
  have hsum := length_sumField (blankSum name flag size)
  rw [Header.sum, blankSum, sumOf, hsplit, block, hsplit]
  have htake (rest : Octets) : ((front name size).flatten ++ rest).take 148 =
      (front name size).flatten := by rw [← hfront, List.take_left]
  have hdrop (field rest : Octets) (hfield : field.length = 8) :
      ((front name size).flatten ++ (field ++ rest)).drop 156 = rest := by
    rw [← List.append_assoc]
    have hlength : ((front name size).flatten ++ field).length = 156 := by
      rw [List.length_append, hfront, hfield]
    rw [← hlength, List.drop_left]
  rw [htake, hdrop _ _ hsum, List.append_assoc]

theorem isSound_block (hname : name.length ≤ 100) :
    Header.isSound ⟨block name flag size⟩ = .ok true := by
  have hlt : blankSum name flag size < 8 ^ 6 := blankSum_lt hname
  have hfield : field 148 8 (block name flag size) =
      octal 6 (blankSum name flag size) ++ [0, 0x20] :=
    field_block hname (show _[6]? = _ from rfl) rfl (length_sumField _)
  have hword : blankSum name flag size < UInt64.size := Nat.lt_trans hlt (by decide)
  have hsmall : blankSum name flag size % UInt32.size = blankSum name flag size :=
    Nat.mod_eq_of_lt (Nat.lt_trans hlt (by decide))
  have hoctal := octal?_octal (by decide) hlt hword [0x20]
  simp only [Header.isSound, hfield, hoctal, orBadNumber, sum_block hname, hsmall, bind,
    Except.bind, pure, Except.pure, decide_true]

theorem header?_block (hname : name.length ≤ 100) (hflag : flag ≠ 0) (rest : Octets) :
    header? (block name flag size ++ rest) = .ok (some (⟨block name flag size⟩, rest)) := by
  have hlength : (block name flag size).length = blockSize := length_block hname
  have hmem : flag ∈ block name flag size := by
    have hfield : flag ∈ field 156 1 (block name flag size) := by
      rw [field_flag hname]
      exact List.mem_cons_self
    exact List.mem_of_mem_drop (List.mem_of_mem_take hfield)
  have hzeros : (block name flag size).all (· = 0) = false :=
    List.all_eq_false.mpr ⟨flag, hmem, by simpa using hflag⟩
  have hempty : (block name flag size).isEmpty = false := by
    rw [List.isEmpty_eq_false_iff]
    exact List.ne_nil_of_mem hmem
  have htake : (block name flag size ++ rest).take blockSize = block name flag size := by
    rw [← hlength, List.take_left]
  have hdrop : (block name flag size ++ rest).drop blockSize = rest := by
    rw [← hlength, List.drop_left]
  simp only [header?, htake, hdrop, hempty, hlength, hzeros, isSound_block hname, bind,
    Except.bind, pure, Except.pure, Bool.false_eq_true, if_false, Nat.lt_irrefl, if_true]

end Block

/-! Bodies. -/

theorem length_le_padded (size : Nat) : size ≤ padded size := by
  unfold padded blockSize
  omega

theorem length_packBody (body : Octets) : (packBody body).length = padded body.length :=
  length_filled (length_le_padded body.length)

theorem take_packBody (body rest : Octets) : (packBody body ++ rest).take body.length = body := by
  rw [packBody, filled, List.append_assoc, List.take_left]

theorem behind_packBody (body rest : Octets) :
    behind body.length (packBody body ++ rest) = some rest := by
  rw [behind, List.length_append, length_packBody, if_neg (by omega), ← length_packBody body,
    List.drop_left]

/-! Entries. -/

theorem size_of_no_attributes {description : Description} (h : description.attributes = none)
    (header : Header) (declared : Nat) : description.size header declared = declared := by
  rw [Description.size, h]
  split <;> rfl

theorem step_longName {name body : Octets} (hname : name.length ≤ 100)
    (hsize : body.length < 8 ^ 11) (rest : Octets) :
    step {} ⟨block name 0x4c body.length⟩ (packBody body ++ rest) =
      .ok ⟨none, { longName := some body }, some rest⟩ := by
  have hheader : Header.size ⟨block name 0x4c body.length⟩ = .ok body.length :=
    size_block hname hsize
  have hextend : Description.extend? {} 0x4c body = some (.ok { longName := some body }) := rfl
  have hdeclared : Description.size {} ⟨block name 0x4c body.length⟩ body.length =
      body.length := size_of_no_attributes rfl _ _
  rw [step, bind_of_ok hheader]
  simp only [hdeclared, isGnu_block hname, Bool.true_or, if_true, flag_block hname, take_packBody,
    behind_packBody, hextend, bind, Except.bind, pure, Except.pure]

/-- The flag is that of an entry for itself, whose body is as it is stored. -/
def IsPlain (flag : UInt8) : Prop :=
  flag ∉ [0, 0x4b, 0x4c, 0x53, 0x78]

theorem isPlain_flag (kind : Kind) : IsPlain kind.flag := by
  cases kind <;> unfold IsPlain <;> decide

theorem step_plain {name body : Octets} {flag : UInt8} (hname : name.length ≤ 100)
    (hflag : IsPlain flag) (hsize : body.length < 8 ^ 11) {description : Description}
    (hattributes : description.attributes = none) (rest : Octets) :
    step description ⟨block name flag body.length⟩ (packBody body ++ rest) =
      .ok ⟨some ⟨flag, ofUtf8Lossy (description.name ⟨block name flag body.length⟩), body⟩, {},
        some rest⟩ := by
  have hheader : Header.size ⟨block name flag body.length⟩ = .ok body.length :=
    size_block hname hsize
  simp only [IsPlain, List.mem_cons, List.not_mem_nil, or_false, not_or] at hflag
  obtain ⟨-, hlink, hlong, hsparse, hattribute⟩ := hflag
  have hextend : description.extend? flag body = none := by
    rw [Description.extend?, if_neg hlong, if_neg hlink, if_neg hattribute]
  rw [step, bind_of_ok hheader]
  simp only [size_of_no_attributes hattributes, isGnu_block hname, Bool.true_or, if_true,
    flag_block hname, take_packBody, behind_packBody, hextend, if_neg hsparse, bind, Except.bind,
    pure, Except.pure]

def record (item : Item) : Record :=
  ⟨item.kind.flag, item.text, item.body⟩

/-- The entry that an item is read as. -/
theorem entry_record (item : Item) :
    (record item).entry =
      if item.kind = .directory then .skipped
      else .member item.text (item.kind = .file) ⟨item.body, none⟩ := by
  obtain ⟨kind, name, body⟩ := item
  cases kind <;> rfl

/-- The body and a long name are not too long for the sizes in headers. -/
structure Fits (item : Item) : Prop where
  body : item.body.length < 8 ^ 11
  name : item.name.length + 1 < 8 ^ 11

instance (item : Item) : Decidable (Fits item) :=
  decidable_of_iff (item.body.length < 8 ^ 11 ∧ item.name.length + 1 < 8 ^ 11)
    ⟨fun h => ⟨h.1, h.2⟩, fun h => ⟨h.body, h.name⟩⟩

/-- How many entries an item is stored as. -/
def weight (item : Item) : Nat :=
  if item.name.length ≤ 100 then 1 else 2

theorem readFrom_longName {name body : Octets} (hname : name.length ≤ 100)
    (hsize : body.length < 8 ^ 11) (fuel : Nat) (rest : Octets) :
    readFrom (fuel + 1) {} (block name 0x4c body.length ++ (packBody body ++ rest)) =
      readFrom fuel { longName := some body } rest := by
  rw [readFrom, header?_block hname (by decide)]
  simp only [step_longName hname hsize]

theorem readFrom_plain {name body : Octets} {flag : UInt8} (hname : name.length ≤ 100)
    (hflag : IsPlain flag) (hsize : body.length < 8 ^ 11) {description : Description}
    (hattributes : description.attributes = none) (fuel : Nat) (rest : Octets) :
    readFrom (fuel + 1) description (block name flag body.length ++ (packBody body ++ rest)) =
      .cons (Record.mk flag (ofUtf8Lossy (description.name ⟨block name flag body.length⟩))
        body).entry (readFrom fuel {} rest) := by
  have hne : flag ≠ 0 := fun hzero => hflag (by simp [hzero])
  rw [readFrom, header?_block hname hne]
  simp only [step_plain hname hflag hsize hattributes]

theorem readFrom_packItem {item : Item} (hsound : item.Sound) (hfits : Fits item)
    (fuel : Nat) (rest : Octets) :
    readFrom (fuel + weight item) {} (packItem item ++ rest) =
      .cons (record item).entry (readFrom fuel {} rest) := by
  have hplain := isPlain_flag item.kind
  by_cases hname : item.name.length ≤ 100
  · rw [weight, if_pos hname, packItem, describe, if_pos hname, List.nil_append,
      List.take_of_length_le hname, List.append_assoc, readFrom_plain hname hplain hfits.body rfl,
      Description.name, Option.bind_none, name_block hname hsound.noNul]
    rfl
  · have hlabel : (utf8 "././@LongLink").length ≤ 100 := by decide
    have hshort : (item.name.take 100).length ≤ 100 := List.length_take_le ..
    have hlength : (item.name ++ [0]).length = item.name.length + 1 := List.length_append
    have hlong : (item.name ++ [0]).length < 8 ^ 11 := hlength ▸ hfits.name
    rw [weight, if_neg hname, packItem, describe, if_neg hname, ← hlength]
    simp only [List.append_assoc]
    rw [readFrom_longName hlabel hlong, readFrom_plain hshort hplain hfits.body rfl]
    -- The name is the described one, less the NUL that ends it.
    simp only [Description.name, List.getLast?_concat, if_true, List.dropLast_concat]
    rfl

theorem readFrom_end (fuel : Nat) :
    readFrom (fuel + 1) {} (List.replicate 1024 0) = ⟨[], none⟩ := by
  have hheader : header? (List.replicate 1024 0) = .ok none := by
    have htake : (List.replicate 1024 (0 : UInt8)).take blockSize = .replicate blockSize 0 :=
      List.take_replicate
    have hempty : (List.replicate blockSize (0 : UInt8)).isEmpty = false := rfl
    simp only [header?, htake, hempty, List.length_replicate, Nat.lt_irrefl, List.all_replicate,
      decide_true, ite_self, if_true, if_false, Bool.false_eq_true, pure, Except.pure]
  rw [readFrom, hheader]
  rfl

theorem readFrom_pack {items : List Item} (hsound : ∀ item ∈ items, item.Sound)
    (hfits : ∀ item ∈ items, Fits item) (fuel : Nat) :
    readFrom ((items.map weight).sum + (fuel + 1)) {} (pack items) =
      ⟨items.map fun item => (record item).entry, none⟩ := by
  induction items generalizing fuel with
  | nil =>
      rw [List.map_nil, List.sum_nil, Nat.zero_add]
      exact readFrom_end fuel
  | cons item items ih =>
      obtain ⟨hfirst, hothers⟩ := List.forall_mem_cons.mp hsound
      obtain ⟨hfit, hfitting⟩ := List.forall_mem_cons.mp hfits
      have hpack : pack (item :: items) = packItem item ++ pack items := by
        rw [pack, List.flatMap_cons, List.append_assoc, pack]
      have hread := readFrom_packItem hfirst hfit ((items.map weight).sum + (fuel + 1)) (pack items)
      have hfuel : ((item :: items).map weight).sum + (fuel + 1) =
          (items.map weight).sum + (fuel + 1) + weight item := by
        rw [List.map_cons, List.sum_cons]
        omega
      rw [hfuel, hpack, hread, ih hothers hfitting]
      rfl

theorem weight_le_length_packItem (item : Item) : weight item ≤ (packItem item).length := by
  have hblock : (block (item.name.take 100) item.kind.flag item.body.length).length = 512 :=
    length_block (List.length_take_le ..)
  have hweight : weight item ≤ 2 := by
    unfold weight
    split <;> decide
  rw [packItem, List.length_append, List.length_append, hblock]
  omega

/-- Items of any number and sizes that headers have room for are read as they were packed. -/
theorem read_pack {items : List Item} (hsound : ∀ item ∈ items, item.Sound)
    (hfits : ∀ item ∈ items, Fits item) :
    read (pack items) = ⟨items.map fun item => (record item).entry, none⟩ := by
  have hweight : (items.map weight).sum ≤ (items.flatMap packItem).length := by
    rw [List.length_flatMap]
    exact List.sum_le_sum fun item _ => weight_le_length_packItem item
  have hlength : (pack items).length + 1 = (items.map weight).sum +
      ((pack items).length - (items.map weight).sum + 1) := by
    have hpack : (pack items).length = (items.flatMap packItem).length + 1024 := by
      rw [pack, List.length_append, List.length_replicate]
    omega
  rw [read, hlength, readFrom_pack hsound hfits]

end Tar

end TableIntake.Archive
