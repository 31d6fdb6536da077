import TableIntake.Check.Rows
import TableIntake.Proofs.Check.Acceptance
import TableIntake.Proofs.Lexical.Forms

namespace TableIntake.Check

open TableIntake.Grammar

/-! Columns without a type, and columns whose type the check of a grammar rejects. -/

/-! Messages tell columns apart. -/

theorem toDigits_append_cancel {m n : Nat} {separator : String} {rest others : List Char}
    (hseparator : separator.toList.head?.map Char.isDigit = some false)
    (h : Nat.toDigits 10 m ++ (separator.toList ++ rest) =
      Nat.toDigits 10 n ++ (separator.toList ++ others)) : m = n ∧ rest = others := by
  -- The separator begins with no digit, so that the digits of both numbers end before it.
  have hstop : ∀ others c tail, separator.toList ++ others = c :: tail → c.isDigit = false := by
    intro others c tail heq
    cases hlist : separator.toList with
    | nil => simp [hlist] at hseparator
    | cons first more =>
        rw [hlist] at heq hseparator
        cases heq
        simpa using hseparator
  have hdigits (n : Nat) : ∀ c ∈ Nat.toDigits 10 n, c.isDigit = true :=
    fun _ hc => Nat.isDigit_of_mem_toDigits (by decide) (by decide) hc
  obtain ⟨hfirst, hafter⟩ := Lexical.takeWhile_digits (hdigits m) (hstop rest)
  obtain ⟨hsecond, hbehind⟩ := Lexical.takeWhile_digits (hdigits n) (hstop others)
  rw [h] at hfirst hafter
  constructor
  · have hvalue := congrArg (Nat.ofDigitChars 10 · 0) (hfirst.symm.trans hsecond)
    simpa using hvalue
  · exact List.append_cancel_left (hafter.symm.trans hbehind)

variable {dialect : Dialect}

theorem column_of_invalidType_eq {line : Line} {literal other : String} {column place : Nat}
    (h : invalidType dialect line literal column = invalidType dialect line other place) :
    column = place := by
  have hmessage := congrArg (String.toList ∘ Finding.message) h
  simp [invalidType, Finding.atLine] at hmessage
  exact Nat.succ.inj (toDigits_append_cancel rfl hmessage).1

theorem column_of_invalidValue_eq {line row : Line} {name other cell value : String}
    {type dataType : DataType} {column place : Nat}
    (h : invalidValue dialect line column name cell type =
      invalidValue dialect row place other value dataType) : column = place := by
  have hmessage := congrArg (String.toList ∘ Finding.message) h
  have hdata := congrArg Finding.data h
  simp [invalidValue, Finding.atLine] at hmessage hdata
  subst hdata
  have hbehind := (toDigits_append_cancel rfl hmessage).2
  have hposition := List.append_cancel_left (List.append_cancel_left hbehind)
  exact Nat.succ.inj (toDigits_append_cancel rfl hposition).1

/-! Columns. -/

/-- The schema has a column there, and admits every cell in it. -/
def Untyped (schema : Schema) (column : Nat) : Prop :=
  ∃ declared, schema.columns[column]? = some declared ∧ declared.dataType = none

/-- The check of the types reports the column. -/
def Rejected (dialect : Dialect) (line : Line) (column : Nat) : Prop :=
  ∃ literal, invalidType dialect line literal column ∈ dataTypes dialect line

/-- The column declares a type that is not in the vocabulary of the dialect. -/
def Foreign (dialect : Dialect) (line : Line) (column : Nat) : Prop :=
  ∃ dataType, dataType ∉ dialect.dataTypes ∧ line.cells[column]? = some dataType.literal

theorem rejected_iff {line : Line} {column : Nat} :
    Rejected dialect line column ↔
      ∃ literal, line.cells[column]? = some literal ∧ dialect.dataType? literal = none := by
  simp only [Rejected, dataTypes, List.mem_map, List.mem_filter, Prod.exists,
    List.mk_mem_zipIdx_iff_getElem?, Option.isNone_iff_eq_none]
  constructor
  · rintro ⟨literal, other, place, ⟨hcell, hnone⟩, heq⟩
    obtain rfl := column_of_invalidType_eq heq
    exact ⟨other, hcell, hnone⟩
  · rintro ⟨literal, hcell, hnone⟩
    exact ⟨literal, literal, column, ⟨hcell, hnone⟩, rfl⟩

theorem untyped_ofDocument_iff (dialect : Dialect) (document : Document) {column : Nat}
    (h : column < document.width) :
    Untyped (Schema.ofDocument document dialect) column ↔
      document.typeLine.cells[column]?.bind DataType.ofLiteral? = none := by
  have hmarker : document.roleLine.cells[column]? =
      some (document.roleLine.cells.get ⟨column, h⟩) :=
    List.getElem?_eq_getElem h
  simp [Untyped, Schema.ofDocument, hmarker, Column.ofCells]

theorem dataType?_eq_none_iff {literal : String} :
    dialect.dataType? literal = none ↔
      ∀ dataType, DataType.ofLiteral? literal = some dataType → dataType ∉ dialect.dataTypes := by
  simp [Dialect.dataType?, Option.filter_eq_none_iff]

theorem foreign_iff {line : Line} {column : Nat} :
    Foreign dialect line column ↔
      ∃ literal dataType, line.cells[column]? = some literal ∧
        DataType.ofLiteral? literal = some dataType ∧ dataType ∉ dialect.dataTypes := by
  simp only [DataType.ofLiteral?_eq_some]
  constructor
  · rintro ⟨dataType, hout, hcell⟩
    exact ⟨_, dataType, hcell, rfl, hout⟩
  · rintro ⟨_, dataType, hcell, rfl, hout⟩
    exact ⟨dataType, hout, hcell⟩

/-- What the check rejects and what has no type come apart only at a type that the dialect leaves
out. -/
theorem untyped_iff_rejected {document : Document} {column : Nat}
    (h : column < document.width) :
    (Untyped (Schema.ofDocument document dialect) column ↔
        document.typeLine.cells[column]? = none ∨ Rejected dialect document.typeLine column) ↔
      ¬ Foreign dialect document.typeLine column := by
  rw [untyped_ofDocument_iff dialect document h, rejected_iff, foreign_iff]
  cases hcell : document.typeLine.cells[column]? with
  | none => simp
  | some literal =>
      cases htype : DataType.ofLiteral? literal with
      | none => simp [htype, dataType?_eq_none_iff]
      | some dataType => simp [htype, dataType?_eq_none_iff]

theorem cell?_eq_some {line : Line} {index : Nat} {column : Column} {cell : String}
    {finding : Finding} :
    cell? dialect line index column cell = some finding ↔
      ∃ dataType, column.dataType = some dataType ∧ Lexical.conforms cell dataType = false ∧
        invalidValue dialect line index column.name cell dataType = finding := by
  unfold cell?
  cases column.dataType with
  | none => simp
  | some dataType => simp

/-- Only columns with a type have cells that do not conform to it. -/
theorem not_untyped_of_mem_row {schema : Schema} {line row : Line} {column : Nat}
    {name cell : String} {dataType : DataType}
    (h : invalidValue dialect line column name cell dataType ∈ Check.row dialect schema row) :
    ¬ Untyped schema column := by
  unfold Check.row at h
  split at h
  case isFalse => simp [invalidValue, wrongWidth, Finding.atLine, Json.Value.strings] at h
  case isTrue =>
      obtain ⟨⟨⟨declared, other⟩, place⟩, hmem, hcell⟩ := List.mem_filterMap.mp h
      obtain ⟨type, htype, -, heq⟩ := cell?_eq_some.mp hcell
      obtain rfl := column_of_invalidValue_eq heq
      have hzip := List.mk_mem_zipIdx_iff_getElem?.mp hmem
      rintro ⟨untyped, hcolumn, hnone⟩
      have hdeclared : schema.columns[place]? = some declared :=
        (List.getElem?_zip_eq_some.mp hzip).1
      cases hcolumn.symm.trans hdeclared
      cases htype.symm.trans hnone

theorem not_untyped_of_mem {schema : Schema} {lines : List Line} {line : Line} {column : Nat}
    {name cell : String} {dataType : DataType}
    (h : invalidValue dialect line column name cell dataType ∈ rows dialect schema lines ∨
      invalidValue dialect line column name cell dataType ∈ embeddedRows dialect schema lines) :
    ¬ Untyped schema column := by
  rcases h with h | h
  · obtain ⟨row, -, hrow⟩ := List.mem_flatMap.mp h
    exact not_untyped_of_mem_row hrow
  · obtain ⟨row, -, hrow⟩ := List.mem_flatMap.mp h
    exact not_untyped_of_mem_row hrow

/-- A column has no type just when none is declared for it or the check of the types reports it,
and then no row has a cell that does not conform, but for columns that declare a type which the
dialect leaves out. A dialect with all types has no such column. -/
theorem rejected_unchecked (dialect : Dialect) (document : Document) {column : Nat}
    (h : column < document.width) :
    ((Untyped (Schema.ofDocument document dialect) column ↔
        document.typeLine.cells[column]? = none ∨ Rejected dialect document.typeLine column) ↔
      ¬ Foreign dialect document.typeLine column) ∧
    (Rejected dialect document.typeLine column → ¬ Foreign dialect document.typeLine column →
      ∀ lines line name cell dataType,
        invalidValue dialect line column name cell dataType ∉
            rows dialect (Schema.ofDocument document dialect) lines ∧
          invalidValue dialect line column name cell dataType ∉
            embeddedRows dialect (Schema.ofDocument document dialect) lines) ∧
    ((∀ dataType, dataType ∈ dialect.dataTypes) → ¬ Foreign dialect document.typeLine column) := by
  have hiff := @untyped_iff_rejected dialect document column h
  refine ⟨hiff, fun hrejected hforeign lines line name cell dataType => ?_, fun hall => ?_⟩
  · have huntyped := (hiff.mpr hforeign).mpr (Or.inr hrejected)
    exact ⟨fun hmem => not_untyped_of_mem (Or.inl hmem) huntyped,
      fun hmem => not_untyped_of_mem (Or.inr hmem) huntyped⟩
  · rintro ⟨dataType, hout, -⟩
    exact hout (hall dataType)

/-- The second column declares no type at all, the third one has no cell to declare one in. -/
theorem rejected_unchecked_boolean :
    let document := Document.parse "PK,,\nstring,boolean\nid,flag,note"
    (Untyped (Schema.ofDocument document .dimension) 1 ↔
        document.typeLine.cells[1]? = none ∨ Rejected .dimension document.typeLine 1) ∧
      (Untyped (Schema.ofDocument document .dimension) 2 ↔
        document.typeLine.cells[2]? = none ∨ Rejected .dimension document.typeLine 2) := by
  intro document
  have hone : 1 < document.width := by decide +kernel
  have htwo : 2 < document.width := by decide +kernel
  obtain ⟨hsecond, -, hall⟩ := rejected_unchecked .dimension document hone
  obtain ⟨hthird, -, hnone⟩ := rejected_unchecked .dimension document htwo
  have htypes : ∀ dataType, dataType ∈ Dialect.dimension.dataTypes := by
    intro dataType
    cases dataType <;> decide
  exact ⟨hsecond.mpr (hall htypes), hthird.mpr (hnone htypes)⟩

/-- A dialect of texts alone. -/
def textual : Dialect :=
  { Dialect.dimension with dataTypes := [.string] }

/-- The check of a dialect without integers reports a column of integers, and the cells of the
column are checked all the same. -/
theorem rejected_checked :
    let document := Document.parse "PK\ninteger\nid"
    ¬ (Untyped (Schema.ofDocument document textual) 0 ↔
        document.typeLine.cells[0]? = none ∨ Rejected textual document.typeLine 0) ∧
      ∃ line, invalidValue textual line 0 "id" "x" .integer ∈
        rows textual (Schema.ofDocument document textual) (dataRows "x") := by
  intro document
  refine ⟨fun hiff => (untyped_iff_rejected (by decide +kernel)).mp hiff ?_, ⟨1, ["x"]⟩, ?_⟩
  · exact ⟨.integer, by decide, by decide +kernel⟩
  · have hrows : rows textual (Schema.ofDocument document textual) (dataRows "x") =
        [invalidValue textual ⟨1, ["x"]⟩ 0 "id" "x" .integer] := by
      rfl
    rw [hrows]
    exact List.mem_singleton_self _

end TableIntake.Check
