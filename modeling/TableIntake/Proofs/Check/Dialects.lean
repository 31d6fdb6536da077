import Mathlib.Data.List.Forall2
import TableIntake.Proofs.Check.Origins

namespace TableIntake

open TableIntake.Grammar
open TableIntake.Json (Value)

/-! Dialects differ in their roles and in their codes. Roles apart, all of them find the same. -/

namespace Grammar

namespace Dialect

def kind? (dialect : Dialect) (code : UInt16) : Option FindingKind :=
  FindingKind.all.find? fun kind => dialect.code kind = code

/-- The code of a finding tells its kind. -/
def Telling (dialect : Dialect) : Prop :=
  ∀ kind, dialect.kind? (dialect.code kind) = some kind

theorem Telling.code_ne {dialect : Dialect} (h : dialect.Telling) {kind other : FindingKind}
    (hne : kind ≠ other) : dialect.code kind ≠ dialect.code other := by
  intro heq
  have hkind := h kind
  rw [heq, h other] at hkind
  exact hne (Option.some.inj hkind).symm

end Dialect

theorem telling_dialect (variant : Variant) : variant.dialect.Telling := by
  intro kind
  cases variant <;> cases kind <;> rfl

def Schema.withoutRoles (schema : Schema) : Schema :=
  ⟨schema.columns.map fun column => { column with role := .none }⟩

/-- A dialect decides about nothing but the roles of a schema. -/
theorem Schema.withoutRoles_ofDocument (document : Document) (dialect other : Dialect) :
    (Schema.ofDocument document dialect).withoutRoles =
      (Schema.ofDocument document other).withoutRoles := by
  simp only [withoutRoles, ofDocument, List.map_map]
  rfl

end Grammar

namespace Check

/-! Roles play no part in the checks of rows. -/

section Roles

variable (dialect : Dialect) (schema : Schema)

theorem width_withoutRoles : schema.withoutRoles.width = schema.width :=
  List.length_map _

theorem isHeader_withoutRoles (texts : List String) :
    schema.withoutRoles.isHeader texts = schema.isHeader texts := by
  simp only [Schema.isHeader, Schema.withoutRoles, List.map_map, List.isEmpty_map]
  rfl

theorem body_withoutRoles (lines : List Line) :
    body schema.withoutRoles lines = body schema lines := by
  cases lines with
  | nil => rfl
  | cons first lines => rw [body, body, isHeader_withoutRoles]

theorem cells_withoutRoles (line : Line) :
    cells dialect schema.withoutRoles line = cells dialect schema line := by
  simp only [cells, Schema.withoutRoles, List.zip_map_left, List.zipIdx_map, List.filterMap_map]
  rfl

theorem row_withoutRoles : row dialect schema.withoutRoles = row dialect schema := by
  funext line
  rw [row, row, width_withoutRoles, cells_withoutRoles]

theorem rows_withoutRoles (lines : List Line) :
    rows dialect schema.withoutRoles lines = rows dialect schema lines := by
  simp only [rows, body_withoutRoles, row_withoutRoles]

theorem embeddedRows_withoutRoles (lines : List Line) :
    embeddedRows dialect schema.withoutRoles lines = embeddedRows dialect schema lines := by
  simp only [embeddedRows, body_withoutRoles, width_withoutRoles, row_withoutRoles]

end Roles

/-! Findings that say the same under two codes. -/

/-- A finding with its kind in the place of its code. -/
structure Remark where
  row : Int64
  place : Place
  kind : Option FindingKind
  message : String
  data : Value

def remark (dialect : Dialect) (finding : Finding) : Remark :=
  ⟨finding.row, finding.place, dialect.kind? finding.code, finding.message, finding.data⟩

/-- What the findings say about anything but roles. -/
def remarks (dialect : Dialect) (findings : List Finding) : List Remark :=
  (findings.filter fun finding => finding.code ≠ dialect.code .invalidRole).map (remark dialect)

structure Counterparts (dialect other : Dialect) (finding counterpart : Finding) : Prop where
  keeps : finding.code ≠ dialect.code .invalidRole
  keepsOther : counterpart.code ≠ other.code .invalidRole
  same : remark dialect finding = remark other counterpart

abbrev AllCounterparts (dialect other : Dialect) : List Finding → List Finding → Prop :=
  List.Forall₂ (Counterparts dialect other)

theorem remarks_append (dialect : Dialect) (first second : List Finding) :
    remarks dialect (first ++ second) = remarks dialect first ++ remarks dialect second := by
  simp only [remarks, List.filter_append, List.map_append]

/-! The codes that findings have. -/

def IsCoded (dialect : Dialect) (finding : Finding) : Prop :=
  ∃ kind, finding.code = dialect.code kind

section Codes

variable {dialect : Dialect} {finding : Finding}

theorem Origin.isCoded (h : Origin dialect finding) : IsCoded dialect finding := by
  cases h with
  | width expected line => exact ⟨.columnCount, rfl⟩
  | role line marker column => exact ⟨.invalidRole, rfl⟩
  | key line => exact ⟨.invalidRole, rfl⟩
  | type line literal column => exact ⟨.invalidDataType, rfl⟩
  | value line column name cell dataType => exact ⟨.dataConformance, rfl⟩

/-- The code of whatever is left is that of another kind. -/
theorem kind_of_mem_remarks {findings : List Finding} {said : Remark} (htells : dialect.Telling)
    (hcoded : ∀ finding ∈ findings, IsCoded dialect finding)
    (h : said ∈ remarks dialect findings) : ∃ kind ≠ .invalidRole, said.kind = some kind := by
  obtain ⟨finding, hkept, rfl⟩ := List.mem_map.mp h
  obtain ⟨hfinding, hcode⟩ := List.mem_filter.mp hkept
  obtain ⟨kind, hkind⟩ := hcoded finding hfinding
  refine ⟨kind, ?_, ?_⟩
  · rintro rfl
    exact of_decide_eq_true hcode hkind
  · rw [remark, hkind, htells kind]

theorem remarks_roleMarkers (dialect : Dialect) (line : Line) :
    remarks dialect (roleMarkers dialect line) = [] := by
  have hnone : (roleMarkers dialect line).filter
      (fun finding => finding.code ≠ dialect.code .invalidRole) = [] := by
    refine List.filter_eq_nil_iff.mpr fun finding hfinding hcode => of_decide_eq_true hcode ?_
    rcases mem_roleMarkers hfinding with ⟨marker, column, rfl⟩ | rfl
    · rfl
    · rfl
  rw [remarks, hnone, List.map_nil]

end Codes

/-! The same checks in two dialects. -/

section Counterparts

variable {dialect other : Dialect}

theorem AllCounterparts.remarks_eq {findings counterparts : List Finding}
    (h : AllCounterparts dialect other findings counterparts) :
    remarks dialect findings = remarks other counterparts := by
  induction h with
  | nil => rfl
  | @cons finding counterpart _ _ hfirst _ ih =>
      have hkeeps : (decide (finding.code ≠ dialect.code .invalidRole)) = true :=
        decide_eq_true hfirst.keeps
      have hother : (decide (counterpart.code ≠ other.code .invalidRole)) = true :=
        decide_eq_true hfirst.keepsOther
      simp only [remarks, List.filter_cons, hkeeps, hother, if_true, List.map_cons,
        hfirst.same] at ih ⊢
      rw [ih]

variable (htells : dialect.Telling) (hother : other.Telling)
include htells hother

theorem counterparts {kind : FindingKind} (hkind : kind ≠ .invalidRole) (row : Int64)
    (place : Place) (message : String) (data : Value) :
    Counterparts dialect other ⟨row, place, dialect.code kind, message, data⟩
      ⟨row, place, other.code kind, message, data⟩ where
  keeps := htells.code_ne hkind
  keepsOther := hother.code_ne hkind
  same := by rw [remark, remark, htells kind, hother kind]

theorem counterparts_wrongWidth (expected : Nat) (line : Line) :
    Counterparts dialect other (wrongWidth dialect expected line)
      (wrongWidth other expected line) :=
  counterparts htells hother (by decide) ..

theorem counterparts_columnCounts (document : Document) :
    AllCounterparts dialect other (columnCounts dialect document)
      (columnCounts other document) :=
  List.forall₂_map_left_iff.mpr <| List.forall₂_map_right_iff.mpr <|
    List.forall₂_same.mpr fun line _ => counterparts_wrongWidth htells hother document.width line

/-- Types are checked alike where they have the same literals. -/
theorem counterparts_dataTypes (htypes : dialect.dataTypes = other.dataTypes) (line : Line) :
    AllCounterparts dialect other (dataTypes dialect line) (dataTypes other line) := by
  have hknown : dialect.dataType? = other.dataType? := by
    funext literal
    rw [Dialect.dataType?, Dialect.dataType?, htypes]
  have hlisted : dialect.typeVocabulary = other.typeVocabulary := by
    rw [Dialect.typeVocabulary, Dialect.typeVocabulary, htypes]
  simp only [dataTypes, hknown, List.forall₂_map_left_iff, List.forall₂_map_right_iff,
    List.forall₂_same]
  rintro ⟨literal, column⟩ -
  simp only [invalidType, hlisted]
  exact counterparts htells hother (by decide) ..

theorem counterparts_cell? (line : Line) (index : Nat) (column : Column) (cell : String) :
    Option.Rel (Counterparts dialect other) (cell? dialect line index column cell)
      (cell? other line index column cell) := by
  unfold cell?
  cases column.dataType with
  | none => exact .none
  | some dataType =>
      simp only
      split
      · exact .none
      · exact .some (counterparts htells hother (by decide) ..)

theorem counterparts_row (schema : Schema) (line : Line) :
    AllCounterparts dialect other (row dialect schema line) (row other schema line) := by
  unfold row
  split
  · refine List.rel_filterMap (R := Eq) ?_ (List.forall₂_refl _)
    rintro ⟨⟨column, cell⟩, index⟩ _ rfl
    exact counterparts_cell? htells hother line index column cell
  · exact .cons (counterparts_wrongWidth htells hother schema.width line) .nil

theorem counterparts_rows (schema : Schema) (lines : List Line) :
    AllCounterparts dialect other (lines.flatMap (row dialect schema))
      (lines.flatMap (row other schema)) :=
  List.rel_flatMap (R := Eq) (List.forall₂_refl lines) fun line _ heq =>
    heq ▸ counterparts_row htells hother schema line

theorem remarks_grammar (htypes : dialect.dataTypes = other.dataTypes) (document : Document) :
    remarks dialect (grammar dialect document) = remarks other (grammar other document) := by
  have hwidths := counterparts_columnCounts htells hother document
  have hnames := counterparts_dataTypes htells hother htypes document.typeLine
  simp only [grammar, remarks_append, remarks_roleMarkers, hwidths.remarks_eq, hnames.remarks_eq]

theorem remarks_rows (document : Document) (lines : List Line) :
    remarks dialect (rows dialect (Schema.ofDocument document dialect) lines) =
      remarks other (rows other (Schema.ofDocument document other) lines) := by
  rw [← rows_withoutRoles, ← rows_withoutRoles other,
    Schema.withoutRoles_ofDocument document dialect other]
  exact (counterparts_rows htells hother _ _).remarks_eq

theorem remarks_embeddedRows (document : Document) (lines : List Line) :
    remarks dialect (embeddedRows dialect (Schema.ofDocument document dialect) lines) =
      remarks other (embeddedRows other (Schema.ofDocument document other) lines) := by
  rw [← embeddedRows_withoutRoles, ← embeddedRows_withoutRoles other,
    Schema.withoutRoles_ofDocument document dialect other]
  exact (counterparts_rows htells hother _ _).remarks_eq

end Counterparts

theorem remarks_dataFindings (first second : Variant) (grammar data : String) :
    remarks first.dialect (first.dataFindings grammar data) =
      remarks second.dialect (second.dataFindings grammar data) := by
  have htells := telling_dialect first
  have hother := telling_dialect second
  have htypes : first.dialect.dataTypes = second.dialect.dataTypes := by
    cases first <;> cases second <;> rfl
  simp only [Variant.dataFindings, Variant.grammarFindings, Variant.rowFindings, remarks_append,
    remarks_grammar htells hother htypes, remarks_embeddedRows htells hother,
    remarks_rows htells hother]

theorem code_dimension_ne_event (kind other : FindingKind) :
    Variant.dimension.dialect.code kind ≠ Variant.event.dialect.code other := by
  cases kind <;> cases other <;> decide

theorem fst_run_checkData (variant : Variant) (grammar data : String) (journal : Log.Journal) :
    ((variant.checkData grammar data).run journal).1 = variant.dataFindings grammar data := rfl

/-- Checked as a dimension and as an event, the same texts have the same findings, except for
those about roles, if each code is replaced by the kind that it stands for. No code is one of both
variants. -/
theorem checkData_dimension_event (grammar data grammar' data' : String)
    (journal : Log.Journal) :
    remarks Variant.dimension.dialect ((Variant.dimension.checkData grammar data).run journal).1 =
        remarks Variant.event.dialect ((Variant.event.checkData grammar data).run journal).1 ∧
      (∀ said ∈ remarks Variant.dimension.dialect
          ((Variant.dimension.checkData grammar data).run journal).1,
        ∃ kind ≠ .invalidRole, said.kind = some kind) ∧
      List.Disjoint
        (((Variant.dimension.checkData grammar data).run journal).1.map Finding.code)
        (((Variant.event.checkData grammar' data').run journal).1.map Finding.code) := by
  rw [fst_run_checkData, fst_run_checkData, fst_run_checkData]
  refine ⟨remarks_dataFindings .dimension .event grammar data, fun said hsaid => ?_,
    fun code hdimension hevent => ?_⟩
  · exact kind_of_mem_remarks (telling_dialect .dimension)
      (fun _ hfinding => (origin_of_mem_dataFindings hfinding).isCoded) hsaid
  · obtain ⟨first, hfirst, rfl⟩ := List.mem_map.mp hdimension
    obtain ⟨second, hsecond, heq⟩ := List.mem_map.mp hevent
    obtain ⟨kind, hkind⟩ := (origin_of_mem_dataFindings hfirst).isCoded
    obtain ⟨other, hother⟩ := (origin_of_mem_dataFindings hsecond).isCoded
    rw [hkind, hother] at heq
    exact code_dimension_ne_event kind other heq.symm

end Check

end TableIntake
