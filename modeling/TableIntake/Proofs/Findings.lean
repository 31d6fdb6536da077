import Mathlib
import TableIntake.Finding
import TableIntake.Proofs.Json.Kept
import TableIntake.Proofs.Json.RoundTrip

namespace TableIntake

open TableIntake.Json (Value Reader Outline FitsWord)

/-! Findings are read from their wire form as what they are. -/

theorem fitsWord_toInt (row : Int64) : FitsWord row.toInt :=
  ⟨row.minValue_le_toInt, Int.lt_of_le_of_lt row.toInt_le (by decide)⟩

theorem fitsWord_natCast {n : Nat} (h : n < UInt64.size) : FitsWord n :=
  ⟨Int.le_trans (by decide) (Int.natCast_nonneg n), Int.ofNat_lt.mpr h⟩

namespace Place

theorem toJson_fits (place : Place) : place.toJson.Everywhere Value.Fits := by
  cases place with
  | index i => exact Value.everywhere_number.mpr (fitsWord_natCast i.toNat_lt)
  | common => exact Value.everywhere_string.mpr trivial

theorem toJson_noDecimal (place : Place) : place.toJson.Everywhere Value.NoDecimal := by
  cases place with
  | index i => exact Value.everywhere_number.mpr trivial
  | common => exact Value.everywhere_string.mpr trivial

theorem reader_toJson (place : Place) (rest : List Char) :
    reader (place.toJson.outline rest) = .ok place := by
  cases place with
  | index i =>
      have hzero : (0 : Int) ≤ i.toNat := Int.natCast_nonneg _
      simp only [toJson, Value.natural, Value.outline, reader, if_pos hzero, Int.toNat_natCast]
      rw [UInt64.ofNat_toNat]
  | common => rfl

end Place

namespace Finding

variable {finding : Finding}

theorem toJson_fits (h : finding.data.Everywhere Value.Fits) :
    finding.toJson.Everywhere Value.Fits := by
  refine Value.everywhere_object.mpr ⟨trivial, ?_⟩
  have hcode : finding.code.toNat < UInt64.size := Nat.lt_trans finding.code.toNat_lt (by decide)
  simp only [List.forall_mem_cons]
  exact ⟨Value.everywhere_number.mpr (fitsWord_toInt finding.row), finding.place.toJson_fits,
    Value.everywhere_number.mpr (fitsWord_natCast hcode), Value.everywhere_string.mpr trivial, h,
    nofun⟩

theorem toJson_noDecimal (h : finding.data.Everywhere Value.NoDecimal) :
    finding.toJson.Everywhere Value.NoDecimal := by
  refine Value.everywhere_object.mpr ⟨trivial, ?_⟩
  simp only [List.forall_mem_cons]
  exact ⟨Value.everywhere_number.mpr trivial, finding.place.toJson_noDecimal,
    Value.everywhere_number.mpr trivial, Value.everywhere_string.mpr trivial, h, nofun⟩

theorem integer_row (row : Int64) (rest : List Char) :
    Reader.integer Int64.minValue.toInt Int64.maxValue.toInt "i64"
      ((Value.number (.integer row.toInt)).outline rest) = .ok row.toInt :=
  if_pos ⟨row.minValue_le_toInt, row.toInt_le⟩

theorem integer_code (code : UInt16) (rest : List Char) :
    Reader.integer 0 65535 "u16" ((Value.natural code.toNat).outline rest) = .ok code.toNat :=
  if_pos ⟨Int.natCast_nonneg _, Int.ofNat_le.mpr (Nat.le_of_lt_succ code.toNat_lt)⟩

theorem reader_toJson (h : finding.data.Kept dataDepth) (rest : List Char) :
    reader (finding.toJson.outline rest) = .ok finding := by
  have hdata := Json.recovered h.ordered dataDepth
  rw [reader, toJson, Value.outline, Json.Record.read]
  simp only [Value.memberOutlines]
  rw [Json.Record.members_field rfl (by decide) (bind_of_ok (integer_row finding.row _)),
    Json.Record.members_field rfl (by decide) (bind_of_ok (finding.place.reader_toJson _)),
    Json.Record.members_field rfl (by decide) (bind_of_ok (integer_code finding.code _)),
    Json.Record.members_field rfl (by decide) rfl,
    Json.Record.members_field rfl (by decide) (bind_of_ok (hdata _ h.depth))]
  simp only [Json.Record.members, Int64.ofInt_toInt, Int.toNat_natCast, UInt16.ofNat_toNat]
  rfl

theorem read_render (h : finding.data.Kept dataDepth)
    (hdecimal : finding.data.Everywhere Value.NoDecimal) :
    read finding.toJson.render = .ok finding :=
  Json.read_render (toJson_noDecimal hdecimal) (toJson_fits h.fits) (reader_toJson h [])

theorem kept_of_read {text : String} (h : read text = .ok finding) :
    finding.data.Kept dataDepth := by
  refine Json.Record.read_keeps (P := fun finding => finding.data.Kept dataDepth) ?_
    (Value.kept_null dataDepth) (Json.Outline.ofChars_fits _) (Json.read_eq_ok h)
  intro field hfield record next outline hrecord houtline hnext
  simp only [List.mem_cons, List.not_mem_nil, or_false] at hfield
  obtain rfl | rfl | rfl | rfl | rfl := hfield
  all_goals obtain ⟨v, hv, ⟨⟩⟩ := bind_eq_ok.mp hnext
  -- the last field is the data, the others leave it
  case inr.inr.inr.inr => exact Reader.value_kept houtline hv
  all_goals exact hrecord

/-- The findings that the wire form is made for: their data is kept data without floating point
numbers. -/
structure Portable (finding : Finding) : Prop where
  kept : finding.data.Kept dataDepth
  noDecimal : finding.data.Everywhere Value.NoDecimal

/-- A finding is read back from its wire form, so the wire form tells findings apart; and what is
read from any text at all is read again from its own wire form. -/
theorem read_wire :
    (∀ finding : Finding, finding.Portable → read finding.toJson.render = .ok finding) ∧
    (∀ a b : Finding, a.Portable → b.Portable → a.toJson.render = b.toJson.render → a = b) ∧
    (∀ (text : String) (finding : Finding), read text = .ok finding →
      finding.data.Everywhere Value.NoDecimal →
        finding.Portable ∧ read finding.toJson.render = .ok finding) := by
  refine ⟨?_, ?_, ?_⟩
  · intro finding h
    exact read_render h.kept h.noDecimal
  · intro a b ha hb hwire
    have hread := read_render ha.kept ha.noDecimal
    rw [hwire, read_render hb.kept hb.noDecimal] at hread
    exact (Except.ok.inj hread).symm
  · intro text finding htext hdecimal
    exact ⟨⟨kept_of_read htext, hdecimal⟩, read_render (kept_of_read htext) hdecimal⟩

/-- A finding at the ends of all ranges. -/
def outermost : Finding :=
  ⟨Int64.minValue, .index 18446744073709551615, 65535, "\"\\\x00\x1f/é😀",
    .array [.number (.integer (-9223372036854775808)), .number (.integer 18446744073709551615),
      .object [("", .null), ("\n", .bool true), ("a", .array [])]]⟩

theorem outermost_portable : outermost.Portable :=
  ⟨⟨by decide +kernel, by decide +kernel, by decide⟩, by decide +kernel⟩

def sorted : Finding :=
  ⟨-1, .common, 7, "", .object [("a", .natural 2), ("b", .natural 1)]⟩

/-- A text with blanks, as an array, and with members in another order. -/
theorem read_unsorted :
    read "[-1, \"common\", 7, \"\", \x7b\"b\": 1, \"a\": 2\x7d]" = .ok sorted := by
  cbv

theorem read_wire_outermost :
    read outermost.toJson.render = .ok outermost ∧
      outermost.toJson.render ≠ sorted.toJson.render ∧
      read sorted.toJson.render = .ok sorted := by
  have hdecimal : sorted.data.Everywhere Value.NoDecimal := by decide +kernel
  obtain ⟨hsorted, hread⟩ := read_wire.2.2 _ sorted read_unsorted hdecimal
  refine ⟨read_wire.1 outermost outermost_portable, ?_, hread⟩
  intro hwire
  have heq := read_wire.2.1 outermost sorted outermost_portable hsorted hwire
  exact absurd (congrArg Finding.code heq) (by decide)

end Finding

end TableIntake
