import Mathlib.Algebra.GroupWithZero.Nat
import Mathlib.Data.List.TakeWhile
import TableIntake.Archive.Entry
import TableIntake.Archive.Octets
import TableIntake.Proofs.Text.Pieces
import TableIntake.Text.Utf8

namespace TableIntake.Archive

open TableIntake.Text

/-! What archives are packed from, and the fields that are written into them and read again. -/

inductive Kind where
  | file
  | symlink
  | char
  | block
  | fifo
  | directory
  deriving DecidableEq, Repr

structure Item where
  kind : Kind
  name : Octets
  body : Octets
  deriving DecidableEq, Repr

/-- The name of a directory ends in a slash, and no name has a NUL in it. -/
structure Item.Sound (item : Item) : Prop where
  noNul : 0 ∉ item.name
  slash : item.kind = .directory → item.name.getLast? = some 0x2f

instance (item : Item) : Decidable item.Sound :=
  decidable_of_iff (0 ∉ item.name ∧ (item.kind = .directory → item.name.getLast? = some 0x2f))
    ⟨fun h => ⟨h.1, h.2⟩, fun h => ⟨h.noNul, h.slash⟩⟩

def Item.text (item : Item) : String :=
  ofUtf8Lossy item.name

/-! Names in octets that are no text. -/

theorem low_of_lead? {octet low high : UInt8} {due bits : Nat}
    (h : lead? octet = some (due, low, high, bits)) : 0x80 ≤ low := by
  unfold lead? at h
  repeat' split at h
  all_goals cases h
  all_goals decide

/-- What goes on with a sequence is no octet of plain text. -/
theorem low_of_proceed {octet : UInt8} {state : Option Unfinished} {next : Unfinished}
    (h : (proceed octet state).2 = some next) : 0x80 ≤ next.low := by
  have hbegin (h : (begin octet).2 = some next) : 0x80 ≤ next.low := by
    unfold begin at h
    split at h
    case h_1 => cases h
    case h_2 => cases h
    case h_3 hlead =>
        cases h
        exact low_of_lead? hlead
  unfold proceed at h
  split at h
  case h_1 => exact hbegin h
  case h_2 =>
      split at h
      case isFalse => exact hbegin h
      case isTrue =>
          split at h
          case isTrue => cases h
          case isFalse =>
              cases h
              exact UInt8.le_refl _

theorem getLast?_lossyChars {state : Option Unfinished}
    (h : ∀ next, state = some next → 0x80 ≤ next.low) (octets : Octets) :
    (lossyChars state (octets ++ [0x2f])).getLast? = some '/' := by
  induction octets generalizing state with
  | nil =>
      cases state with
      | none => decide
      | some next =>
          have hlow : ¬next.low ≤ 0x2f := by
            have hbound := h next rfl
            grind
          have hproceed : proceed 0x2f (some next) = (['\ufffd', '/'], none) := by
            simp only [proceed, hlow, decide_false, Bool.false_and, Bool.false_eq_true, if_false]
            rfl
          rw [List.nil_append, lossyChars, hproceed]
          decide
  | cons octet octets ih =>
      have hrest := ih fun next (hnext : (proceed octet state).2 = some next) =>
        low_of_proceed hnext
      rw [List.cons_append, lossyChars, List.getLast?_append, hrest]
      rfl

theorem getLast?_text {item : Item} (h : item.name.getLast? = some 0x2f) :
    item.text.toList.getLast? = some '/' := by
  obtain ⟨octets, hname⟩ := List.getLast?_eq_some_iff.mp h
  rw [Item.text, ofUtf8Lossy, String.toList_ofList, hname]
  exact getLast?_lossyChars (fun _ hnone => by cases hnone) octets

/-! Fields. -/

theorem field_part {parts : List Octets} {i : Nat} {part : Octets} (h : parts[i]? = some part)
    (rest : Octets) :
    field ((parts.take i).map List.length).sum part.length (parts.flatten ++ rest) = part := by
  have hparts : parts.flatten =
      (parts.take i).flatten ++ (part ++ (parts.drop (i + 1)).flatten) := by
    obtain ⟨hi, hpart⟩ := List.getElem?_eq_some_iff.mp h
    rw [← hpart, ← List.flatten_cons, List.getElem_cons_drop, ← List.flatten_append,
      List.take_append_drop]
  rw [← List.length_flatten, hparts, field, List.append_assoc, List.drop_left, List.append_assoc,
    List.take_left]

/-! Numbers, lowest octet first. -/

def littleOf : (width n : Nat) → Octets
  | 0, _ => []
  | width + 1, n => UInt8.ofNat (n % 256) :: littleOf width (n / 256)

@[simp] theorem length_littleOf (width n : Nat) : (littleOf width n).length = width := by
  induction width generalizing n with
  | zero => rfl
  | succ width ih => rw [littleOf, List.length_cons, ih]

theorem littleEndian_littleOf {width n : Nat} (h : n < 256 ^ width) :
    littleEndian (littleOf width n) = n := by
  induction width generalizing n with
  | zero =>
      rw [Nat.pow_zero, Nat.lt_one_iff] at h
      exact h.symm
  | succ width ih =>
      have hrest : n / 256 < 256 ^ width := by
        rw [Nat.pow_succ, Nat.mul_comm] at h
        exact Nat.div_lt_of_lt_mul h
      have hvalue := ih hrest
      have hdigit : (UInt8.ofNat (n % 256)).toNat = n % 256 :=
        UInt8.toNat_ofNat_of_lt' (Nat.mod_lt n (by decide))
      rw [littleEndian] at hvalue
      rw [littleOf, littleEndian, List.foldr_cons, hvalue, hdigit]
      exact Nat.mod_add_div n 256

/-- A field of that many octets with that number in it. -/
def encodeField (field : Nat × Nat) : Octets :=
  littleOf field.1 field.2

/-- Numbers by their widths, one behind the other. -/
def encode (fields : List (Nat × Nat)) : Octets :=
  (fields.map encodeField).flatten

theorem map_length_encodeField (fields : List (Nat × Nat)) :
    (fields.map encodeField).map List.length = fields.map Prod.fst := by
  rw [List.map_map]
  exact List.map_congr_left fun field _ => length_littleOf field.1 field.2

theorem length_encode {fields : List (Nat × Nat)} {widths : List Nat}
    (hwidths : fields.map Prod.fst = widths) : (encode fields).length = widths.sum := by
  rw [encode, List.length_flatten, map_length_encodeField, hwidths]

theorem numberAt_encode {fields : List (Nat × Nat)} {widths : List Nat}
    (hwidths : fields.map Prod.fst = widths) {i start width n : Nat}
    (h : fields[i]? = some (width, n)) (hstart : (widths.take i).sum = start)
    (hn : n < 256 ^ width) (rest : Octets) :
    numberAt start width (encode fields ++ rest) = n := by
  have hpart : (fields.map encodeField)[i]? = some (littleOf width n) := by
    rw [List.getElem?_map, h]
    rfl
  have hfield := field_part hpart rest
  rw [List.map_take, map_length_encodeField, hwidths, hstart, length_littleOf] at hfield
  rw [numberAt, encode, hfield, littleEndian_littleOf hn]

/-! Texts of plain characters. -/

theorem ofUtf8?_utf8 (s : String) : ofUtf8? (utf8 s) = some s := by
  have hvalid : s.toByteArray.IsValidUTF8 := s.isValidUTF8
  simp only [ofUtf8?, utf8, String.toUTF8_eq_toByteArray, String.fromUTF8?]
  rw [dif_pos hvalid]
  rfl

theorem utf8_ofList {cs : List Char} (h : ∀ c ∈ cs, c.toNat < 128) :
    utf8 (String.ofList cs) = cs.map fun c => UInt8.ofNat c.toNat := by
  rw [utf8, String.toUTF8_eq_toByteArray, String.toByteArray_ofList, List.utf8Encode,
    List.toList_data_toByteArray]
  induction cs with
  | nil => rfl
  | cons c cs ih =>
      obtain ⟨hc, hcs⟩ := List.forall_mem_cons.mp h
      have hsize : c.utf8Size = 1 :=
        Char.utf8Size_eq_one_iff.mpr (UInt32.le_iff_toNat_le.mpr (Nat.le_of_lt_succ hc))
      rw [List.flatMap_cons, String.utf8EncodeChar_eq_singleton hsize, ih hcs, List.map_cons]
      rfl

/-! Numbers, in octal digits with the greatest first. -/

def octalDigits : (width n : Nat) → List Char
  | 0, _ => []
  | width + 1, n => octalDigits width (n / 8) ++ [Nat.digitChar (n % 8)]

def octal (width n : Nat) : Octets :=
  utf8 (String.ofList (octalDigits width n))

theorem mem_octalDigits {width n : Nat} {c : Char} (h : c ∈ octalDigits width n) :
    c ∈ ['0', '1', '2', '3', '4', '5', '6', '7'] := by
  induction width generalizing n with
  | zero => cases h
  | succ width ih =>
      rcases List.mem_append.mp h with h | h
      · exact ih h
      · have hall : ∀ m < 8, Nat.digitChar m ∈ ['0', '1', '2', '3', '4', '5', '6', '7'] := by
          decide
        rw [List.mem_singleton.mp h]
        exact hall (n % 8) (Nat.mod_lt n (by decide))

/-- What holds of each of the eight digits holds of those of a number. -/
theorem of_mem_octalDigits {p : Char → Bool} {width n : Nat} {c : Char}
    (hall : ['0', '1', '2', '3', '4', '5', '6', '7'].all p = true)
    (h : c ∈ octalDigits width n) : p c = true :=
  List.all_eq_true.mp hall c (mem_octalDigits h)

@[simp] theorem length_octalDigits (width n : Nat) : (octalDigits width n).length = width := by
  induction width generalizing n with
  | zero => rfl
  | succ width ih => rw [octalDigits, List.length_append, ih, List.length_singleton]

theorem octal_eq (width n : Nat) :
    octal width n = (octalDigits width n).map fun c => UInt8.ofNat c.toNat := by
  refine utf8_ofList fun c hc => ?_
  have hplain := of_mem_octalDigits (p := fun c => c.toNat < 128) (by decide) hc
  exact of_decide_eq_true hplain

@[simp] theorem length_octal (width n : Nat) : (octal width n).length = width := by
  rw [octal_eq, List.length_map, length_octalDigits]

/-- Octal digits are octets of plain text. -/
theorem mem_octal {width n : Nat} {octet : UInt8} (h : octet ∈ octal width n) :
    octet ≠ 0 ∧ octet < 0x80 := by
  rw [octal_eq] at h
  obtain ⟨c, hc, rfl⟩ := List.mem_map.mp h
  have hplain := of_mem_octalDigits
    (p := fun c => UInt8.ofNat c.toNat ≠ 0 ∧ UInt8.ofNat c.toNat < 0x80) (by decide) hc
  exact of_decide_eq_true hplain

theorem not_blank_octalDigits (width n : Nat) :
    ∀ c ∈ octalDigits width n, ¬isBlank c = true := by
  intro c hc
  have hblank := of_mem_octalDigits (p := fun c => !isBlank c) (by decide) hc
  simpa using hblank

theorem foldlM_octalDigits {width n : Nat} (h : n < 8 ^ width) (start : Nat) :
    (octalDigits width n).foldlM (fun n c =>
      if c.isDigit && c.toNat - '0'.toNat < 8 then some (n * 8 + (c.toNat - '0'.toNat))
      else none) start = some (start * 8 ^ width + n) := by
  induction width generalizing n with
  | zero =>
      rw [Nat.pow_zero, Nat.lt_one_iff] at h
      simp [octalDigits, h]
  | succ width ih =>
      have hrest : n / 8 < 8 ^ width := by
        rw [Nat.pow_succ, Nat.mul_comm] at h
        exact Nat.div_lt_of_lt_mul h
      have hall : ∀ m < 8, (Nat.digitChar m).isDigit = true ∧
          (Nat.digitChar m).toNat - '0'.toNat = m := by decide
      obtain ⟨hdigit, hvalue⟩ := hall (n % 8) (Nat.mod_lt n (by decide))
      have hlast := Nat.mod_lt n (show 8 > 0 by decide)
      rw [octalDigits, List.foldlM_append, ih hrest]
      simp only [Option.bind_eq_bind, Option.bind_some, List.foldlM_cons, List.foldlM_nil, hdigit,
        hvalue, hlast, decide_true, Bool.and_self, if_true, Option.pure_def]
      have hn := Nat.div_add_mod n 8
      rw [Nat.pow_succ]
      grind

theorem numeral?_octalDigits {width n : Nat} (hwidth : 0 < width) (h : n < 8 ^ width) :
    numeral? 8 (octalDigits width n) = some n := by
  have hplus : '+' ∉ octalDigits width n := fun hmem =>
    absurd (mem_octalDigits hmem) (by decide)
  have hfold := foldlM_octalDigits h 0
  have hlength := length_octalDigits width n
  generalize octalDigits width n = digits at hplus hfold hlength
  unfold numeral?
  split
  case h_1 rest => exact absurd List.mem_cons_self hplus
  case h_2 =>
      cases digits with
      | nil => exact absurd hlength (Nat.ne_of_lt hwidth)
      | cons c cs =>
          simp only [List.isEmpty_cons, Bool.false_eq_true, if_false, hfold, Nat.zero_mul,
            Nat.zero_add]

/-- What stands before a NUL is all that counts of a text. -/
theorem untilNul_append_nul {octets : Octets} (h : 0 ∉ octets) (rest : Octets) :
    untilNul (octets ++ 0 :: rest) = octets := by
  rw [untilNul, List.takeWhile_append_of_pos]
  · simp
  · intro octet hoctet
    exact decide_eq_true fun heq => h (heq ▸ hoctet)

theorem untilNul_of_noNul {octets : Octets} (h : 0 ∉ octets) : untilNul octets = octets :=
  List.takeWhile_eq_self_iff.mpr fun _ hoctet => decide_eq_true fun heq => h (heq ▸ hoctet)

/-! Octets that are filled up with zeros. -/

def filled (size : Nat) (octets : Octets) : Octets :=
  octets ++ List.replicate (size - octets.length) 0

theorem length_filled {size : Nat} {octets : Octets} (h : octets.length ≤ size) :
    (filled size octets).length = size := by
  rw [filled, List.length_append, List.length_replicate, Nat.add_sub_cancel' h]

theorem untilNul_filled {octets : Octets} (h : 0 ∉ octets) (size : Nat) :
    untilNul (filled size octets) = octets := by
  unfold filled
  cases size - octets.length with
  | zero => rw [List.replicate_zero, List.append_nil, untilNul_of_noNul h]
  | succ count => rw [List.replicate_succ, untilNul_append_nul h]

end TableIntake.Archive
