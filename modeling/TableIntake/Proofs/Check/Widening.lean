import Mathlib.Data.List.Forall2
import TableIntake.Proofs.Check.Embedded
import TableIntake.Proofs.Check.Untyped

namespace TableIntake

open TableIntake.Grammar
open TableIntake.Json (Value)
open TableIntake.Lexical (conforms conforms_iff)

/-! Rows under two schemas, one of which admits whatever the other one does. -/

namespace Grammar

namespace Column

/-- Types in the order of what they admit. Texts and columns without a type admit everything. -/
def latitude : Option DataType → Nat
  | some .integer => 0
  | some .number => 1
  | some .string => 2
  | none => 2

structure Widens (narrow wide : Column) : Prop where
  name_eq : narrow.name = wide.name
  latitude_le : latitude narrow.dataType ≤ latitude wide.dataType

end Column

namespace Schema

/-- The same columns by name, each of them at least as permissive in the second schema. -/
abbrev Widens (narrow wide : Schema) : Prop :=
  List.Forall₂ Column.Widens narrow.columns wide.columns

/-- The type of a column of the schema, if it has one. -/
def typeAt (schema : Schema) (column : Nat) : Option (Option DataType) :=
  schema.columns[column]?.map (·.dataType)

/-- A column at this place has another type. -/
def Changed (narrow wide : Schema) (place : Place) : Prop :=
  ∃ column, Place.index (UInt64.ofNat column) = place ∧ narrow.typeAt column ≠ wide.typeAt column

variable {narrow wide : Schema}

theorem Widens.width_eq (h : narrow.Widens wide) : narrow.width = wide.width :=
  h.length_eq

theorem Widens.names_eq (h : narrow.Widens wide) :
    narrow.columns.map (·.name) = wide.columns.map (·.name) := by
  have hnames := h.imp fun _ _ hcolumn => hcolumn.name_eq
  rwa [← List.forall₂_eq_eq_eq, List.forall₂_map_left_iff, List.forall₂_map_right_iff]

theorem Widens.isHeader_eq (h : narrow.Widens wide) (texts : List String) :
    narrow.isHeader texts = wide.isHeader texts := by
  have hempty : narrow.columns.isEmpty = wide.columns.isEmpty := by
    rw [Bool.eq_iff_iff, List.isEmpty_iff_length_eq_zero, List.isEmpty_iff_length_eq_zero,
      h.length_eq]
  rw [isHeader, isHeader, hempty, h.names_eq]

end Schema

end Grammar

namespace Check

variable {dialect : Dialect} {narrow wide : Schema}

theorem place_of_mark {finding other : Finding} (h : mark finding = mark other) :
    finding.place = other.place :=
  congrArg (fun mark : Mark => mark.2.1) h

/-! Findings of which some are gone, and some have other words. -/

inductive Relaxed (changed : Place → Prop) : List Finding → List Finding → Prop where
  | nil : Relaxed changed [] []
  | same {before after : List Finding} (finding : Finding) (h : Relaxed changed before after) :
      Relaxed changed (finding :: before) (finding :: after)
  | reworded {before after : List Finding} {finding other : Finding}
      (hmark : mark finding = mark other) (hplace : changed finding.place)
      (h : Relaxed changed before after) : Relaxed changed (finding :: before) (other :: after)
  | gone {before after : List Finding} {finding : Finding} (hplace : changed finding.place)
      (h : Relaxed changed before after) : Relaxed changed (finding :: before) after

namespace Relaxed

variable {changed : Place → Prop} {before after : List Finding}

theorem refl (changed : Place → Prop) (findings : List Finding) :
    Relaxed changed findings findings := by
  induction findings with
  | nil => exact .nil
  | cons finding findings ih => exact .same finding ih

theorem append {others rest : List Finding} (h : Relaxed changed before after)
    (hothers : Relaxed changed others rest) :
    Relaxed changed (before ++ others) (after ++ rest) := by
  induction h with
  | nil => exact hothers
  | same finding _ ih => exact .same finding ih
  | reworded hmark hplace _ ih => exact .reworded hmark hplace ih
  | gone hplace _ ih => exact .gone hplace ih

theorem flatMap {α : Type} {first second : α → List Finding}
    (h : ∀ a, Relaxed changed (first a) (second a)) (as : List α) :
    Relaxed changed (as.flatMap first) (as.flatMap second) := by
  induction as with
  | nil => exact .nil
  | cons a as ih =>
      rw [List.flatMap_cons, List.flatMap_cons]
      exact (h a).append ih

theorem sublist (h : Relaxed changed before after) :
    (after.map mark).Sublist (before.map mark) := by
  induction h with
  | nil => exact .slnil
  | same finding _ ih => exact ih.cons_cons (mark finding)
  | @reworded _ _ finding other hmark _ _ ih =>
      rw [List.map_cons, List.map_cons, hmark]
      exact ih.cons_cons (mark other)
  | @gone _ _ finding _ _ ih => exact ih.cons (mark finding)

theorem filter_place (h : Relaxed changed before after) {place : Place} (hplace : ¬ changed place) :
    after.filter (·.place = place) = before.filter (·.place = place) := by
  have helse {finding : Finding} (hchanged : changed finding.place) : finding.place ≠ place := by
    intro heq
    exact hplace (heq ▸ hchanged)
  induction h with
  | nil => rfl
  | same finding _ ih => simp only [List.filter_cons, ih]
  | reworded hmark hchanged _ ih =>
      have hsame := place_of_mark hmark
      have hother := helse (hsame ▸ hchanged)
      rw [List.filter_cons_of_neg (by simpa using hother),
        List.filter_cons_of_neg (by simpa using helse hchanged), ih]
  | gone hchanged _ ih =>
      rw [List.filter_cons_of_neg (by simpa using helse hchanged), ih]

end Relaxed

/-! What is found in rows under a wider schema. -/

def admits (dataType : Option DataType) (cell : String) : Bool :=
  match dataType with
  | none => true
  | some dataType => conforms cell dataType

theorem admits_of_latitude_le {first second : Option DataType} {cell : String}
    (hle : Column.latitude first ≤ Column.latitude second) (h : admits first cell = true) :
    admits second cell = true := by
  match second, first with
  | none, _ => rfl
  | some .string, _ => rfl
  | some .number, some .number => exact h
  | some .integer, some .integer => exact h
  | some .number, some .integer =>
      have hform := (conforms_iff cell .integer).mp h
      exact (conforms_iff cell .number).mpr hform.numberForm
  | some .number, none => exact absurd hle (by decide)
  | some .number, some .string => exact absurd hle (by decide)
  | some .integer, none => exact absurd hle (by decide)
  | some .integer, some .string => exact absurd hle (by decide)
  | some .integer, some .number => exact absurd hle (by decide)

section Cell

variable {line : Line} {index : Nat} {column : Column} {cell : String}

theorem cell?_of_admits (h : admits column.dataType cell = true) :
    cell? dialect line index column cell = none := by
  unfold cell?
  cases hdataType : column.dataType with
  | none => rfl
  | some dataType =>
      rw [hdataType] at h
      exact if_pos h

theorem cell?_of_not_admits (dialect : Dialect) (line : Line) (index : Nat)
    (h : admits column.dataType cell = false) :
    ∃ dataType, column.dataType = some dataType ∧
      cell? dialect line index column cell =
        some (invalidValue dialect line index column.name cell dataType) := by
  cases hdataType : column.dataType with
  | none =>
      rw [hdataType] at h
      cases h
  | some dataType =>
      rw [hdataType] at h
      exact ⟨dataType, rfl, cell?_eq_some.mpr ⟨dataType, hdataType, h, rfl⟩⟩

theorem relaxed_cell? {changed : Place → Prop} (dialect : Dialect) (line : Line) (cell : String)
    {first second : Column} (h : first.Widens second)
    (hchanged : first.dataType ≠ second.dataType → changed (.index (UInt64.ofNat index))) :
    Relaxed changed (cell? dialect line index first cell).toList
      (cell? dialect line index second cell).toList := by
  cases hsecond : admits second.dataType cell with
  | true =>
      rw [cell?_of_admits hsecond]
      cases hfirst : admits first.dataType cell with
      | true =>
          rw [cell?_of_admits hfirst]
          exact .nil
      | false =>
          obtain ⟨dataType, -, hfound⟩ := cell?_of_not_admits dialect line index hfirst
          have hne : first.dataType ≠ second.dataType := by
            intro heq
            rw [heq, hsecond] at hfirst
            cases hfirst
          rw [hfound]
          exact .gone (hchanged hne) .nil
  | false =>
      have hfirst : admits first.dataType cell = false := by
        apply (Bool.not_eq_true _).mp
        intro hadmits
        rw [admits_of_latitude_le h.latitude_le hadmits] at hsecond
        cases hsecond
      obtain ⟨narrowType, hnarrow, hfound⟩ := cell?_of_not_admits dialect line index hfirst
      obtain ⟨wideType, hwide, hother⟩ := cell?_of_not_admits dialect line index hsecond
      rw [hfound, hother, h.name_eq]
      by_cases heq : first.dataType = second.dataType
      · rw [hnarrow, hwide] at heq
        rw [Option.some.inj heq]
        exact .refl _ _
      · have hmark : mark (invalidValue dialect line index second.name cell narrowType) =
            mark (invalidValue dialect line index second.name cell wideType) := by
          rw [mark_invalidValue, mark_invalidValue]
        exact .reworded hmark (hchanged heq) .nil

end Cell

theorem relaxed_cellsFrom {changed : Place → Prop} {line : Line} {columns others : List Column}
    (h : List.Forall₂ Column.Widens columns others) (texts : List String) (start : Nat)
    (hchanged : ∀ (i : Nat) (first second : Column), columns[i]? = some first →
      others[i]? = some second → first.dataType ≠ second.dataType →
        changed (.index (UInt64.ofNat (start + i)))) :
    Relaxed changed
      (((columns.zip texts).zipIdx start).filterMap fun ((column, cell), index) =>
        cell? dialect line index column cell)
      (((others.zip texts).zipIdx start).filterMap fun ((column, cell), index) =>
        cell? dialect line index column cell) := by
  induction h generalizing texts start with
  | nil => exact .nil
  | @cons column other columns others hcolumn _ ih =>
      cases texts with
      | nil => exact .nil
      | cons text texts =>
          have hfirst := relaxed_cell? dialect line text hcolumn (hchanged 0 column other rfl rfl)
          have hrest := ih texts (start + 1) fun i first second hone htwo hne => by
            rw [Nat.add_assoc, Nat.add_comm 1 i]
            exact hchanged (i + 1) first second hone htwo hne
          have happend := hfirst.append hrest
          simp only [List.zip_cons_cons, List.zipIdx_cons, List.filterMap_cons]
          revert happend
          cases cell? dialect line start column text <;>
            cases cell? dialect line start other text <;> exact id

theorem relaxed_row (h : narrow.Widens wide) (line : Line) :
    Relaxed (narrow.Changed wide) (row dialect narrow line) (row dialect wide line) := by
  unfold row
  rw [h.width_eq]
  split
  case isFalse => exact .refl _ _
  case isTrue =>
      apply relaxed_cellsFrom h line.cells 0
      intro i first second hfirst hsecond hne
      refine ⟨0 + i, rfl, ?_⟩
      rw [Nat.zero_add, Schema.typeAt, Schema.typeAt, hfirst, hsecond]
      exact fun heq => hne (Option.some.inj heq)

theorem body_of_widens (h : narrow.Widens wide) (lines : List Line) :
    body narrow lines = body wide lines := by
  cases lines with
  | nil => rfl
  | cons first lines => rw [body, body, h.isHeader_eq]

theorem relaxed_rows (h : narrow.Widens wide) (lines : List Line) :
    Relaxed (narrow.Changed wide) (rows dialect narrow lines) (rows dialect wide lines) := by
  rw [rows, rows, body_of_widens h]
  exact .flatMap (relaxed_row h) _

/-! Findings about the width of a row are those that show all of its cells. -/

def showsRow (finding : Finding) : Bool :=
  match finding.data with
  | .array _ => true
  | _ => false

theorem filter_showsRow_row (schema : Schema) (line : Line) :
    (row dialect schema line).filter showsRow =
      if line.width = schema.width then [] else [wrongWidth dialect schema.width line] := by
  unfold row
  split
  case isFalse => rfl
  case isTrue =>
      apply List.filter_eq_nil_iff.mpr
      intro finding hfinding
      obtain ⟨⟨⟨column, cell⟩, index⟩, -, hcell⟩ := List.mem_filterMap.mp hfinding
      obtain ⟨dataType, -, -, rfl⟩ := cell?_eq_some.mp hcell
      exact Bool.false_ne_true

theorem filter_showsRow_rows (schema : Schema) (lines : List Line) :
    (rows dialect schema lines).filter showsRow =
      ((body schema lines).filter (·.width ≠ schema.width)).map
        (wrongWidth dialect schema.width) := by
  rw [rows, List.filter_flatMap]
  induction body schema lines with
  | nil => rfl
  | cons line lines ih =>
      rw [List.flatMap_cons, filter_showsRow_row, ih]
      by_cases hwidth : line.width = schema.width
      · simp [hwidth]
      · simp [hwidth]

/-- Under a schema that admits more, no rows have more findings: each is where one under the first
schema is, with the same code and the same data, in the same order. The findings about widths are
the same, and so are all findings at a place where no column has another type. -/
theorem rows_widened (dialect : Dialect) {narrow wide : Schema} (h : narrow.Widens wide)
    (lines : List Line) :
    ((rows dialect wide lines).map mark).Sublist ((rows dialect narrow lines).map mark) ∧
    (∀ schema ∈ [narrow, wide], (rows dialect schema lines).filter showsRow =
      ((body narrow lines).filter (·.width ≠ narrow.width)).map
        (wrongWidth dialect narrow.width)) ∧
    ∀ place, (∀ column, Place.index (UInt64.ofNat column) = place →
        narrow.typeAt column = wide.typeAt column) →
      (rows dialect wide lines).filter (·.place = place) =
        (rows dialect narrow lines).filter (·.place = place) := by
  have hrelaxed : Relaxed (narrow.Changed wide) (rows dialect narrow lines)
      (rows dialect wide lines) := relaxed_rows h lines
  refine ⟨hrelaxed.sublist, ?_, ?_⟩
  · intro schema hschema
    rw [filter_showsRow_rows]
    rcases List.mem_pair.mp hschema with rfl | rfl
    · rfl
    · rw [body_of_widens h, h.width_eq]
  · intro place hsame
    apply hrelaxed.filter_place
    intro hchanged
    obtain ⟨column, hcolumn, hne⟩ := hchanged
    exact hne (hsame column hcolumn)

/-- A column of integers is read as numbers, one of numbers as texts, and the third one stays. -/
theorem rows_widened_twoColumns :
    let narrow : Schema :=
      ⟨[⟨"n", some .integer, .primaryKey⟩, ⟨"m", some .number, .none⟩, ⟨"k", some .integer, .none⟩]⟩
    let wide : Schema :=
      ⟨[⟨"n", some .number, .primaryKey⟩, ⟨"m", none, .none⟩, ⟨"k", some .integer, .none⟩]⟩
    let lines : List Line := [⟨1, ["1.5", "x", "y"]⟩, ⟨2, ["1"]⟩]
    narrow.Widens wide ∧
      ((rows .dimension wide lines).map mark).Sublist ((rows .dimension narrow lines).map mark) ∧
      (rows .dimension wide lines).length = 2 ∧ (rows .dimension narrow lines).length = 4 ∧
      (rows .dimension wide lines).filter showsRow =
        (rows .dimension narrow lines).filter showsRow ∧
      (rows .dimension wide lines).filter (·.place = .index 2) =
        (rows .dimension narrow lines).filter (·.place = .index 2) := by
  intro narrow wide lines
  have hwidens : narrow.Widens wide :=
    .cons ⟨rfl, by decide⟩ (.cons ⟨rfl, by decide⟩ (.cons ⟨rfl, by decide⟩ .nil))
  obtain ⟨hsublist, hwidths, hplaces⟩ := rows_widened .dimension hwidens lines
  refine ⟨hwidens, hsublist, rfl, rfl, ?_, ?_⟩
  · rw [hwidths wide (by simp), hwidths narrow (by simp)]
  · apply hplaces
    intro column hcolumn
    match column with
    | 0 => exact absurd hcolumn (by decide)
    | 1 => exact absurd hcolumn (by decide)
    | 2 => rfl
    | column + 3 => rfl

end Check

end TableIntake
