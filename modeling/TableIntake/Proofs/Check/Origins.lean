import TableIntake.Variant

namespace TableIntake.Check

open TableIntake.Grammar

/-! Where findings come from: each of them is about a width, a role, a key, a type or a value. -/

inductive Origin (dialect : Dialect) : Finding → Prop where
  | width (expected : Nat) (line : Line) : Origin dialect (wrongWidth dialect expected line)
  | role (line : Line) (marker : String) (column : Nat) :
      Origin dialect (invalidRole dialect line marker column)
  | key (line : Line) : Origin dialect (missingKey dialect line)
  | type (line : Line) (literal : String) (column : Nat) :
      Origin dialect (invalidType dialect line literal column)
  | value (line : Line) (column : Nat) (name cell : String) (dataType : DataType) :
      Origin dialect (invalidValue dialect line column name cell dataType)

variable {dialect : Dialect} {finding : Finding}

theorem origin_of_mem_columnCounts {document : Document}
    (h : finding ∈ columnCounts dialect document) : Origin dialect finding := by
  obtain ⟨line, -, rfl⟩ := List.mem_map.mp h
  exact .width document.width line

theorem mem_roleMarkers {line : Line} (h : finding ∈ roleMarkers dialect line) :
    (∃ marker column, finding = invalidRole dialect line marker column) ∨
      finding = missingKey dialect line := by
  rcases List.mem_append.mp h with hmarker | hkey
  · obtain ⟨⟨marker, column⟩, -, rfl⟩ := List.mem_map.mp hmarker
    exact Or.inl ⟨marker, column, rfl⟩
  · split at hkey
    · exact Or.inr (List.mem_singleton.mp hkey)
    · cases hkey

theorem origin_of_mem_dataTypes {line : Line} (h : finding ∈ dataTypes dialect line) :
    Origin dialect finding := by
  obtain ⟨⟨literal, column⟩, -, rfl⟩ := List.mem_map.mp h
  exact .type line literal column

theorem origin_of_mem_grammar {document : Document} (h : finding ∈ grammar dialect document) :
    Origin dialect finding := by
  rcases List.mem_append.mp h with h | htype
  · rcases List.mem_append.mp h with hwidth | hrole
    · exact origin_of_mem_columnCounts hwidth
    · rcases mem_roleMarkers hrole with ⟨marker, column, rfl⟩ | rfl
      · exact .role document.roleLine marker column
      · exact .key document.roleLine
  · exact origin_of_mem_dataTypes htype

theorem origin_of_cell? {line : Line} {index : Nat} {column : Column} {cell : String}
    (h : cell? dialect line index column cell = some finding) : Origin dialect finding := by
  unfold cell? at h
  split at h
  · cases h
  · split at h
    · cases h
    · cases h
      exact .value line index column.name cell _

theorem origin_of_mem_row {schema : Schema} {line : Line}
    (h : finding ∈ row dialect schema line) : Origin dialect finding := by
  unfold row at h
  split at h
  · obtain ⟨⟨⟨column, cell⟩, index⟩, -, hcell⟩ := List.mem_filterMap.mp h
    exact origin_of_cell? hcell
  · rw [List.mem_singleton.mp h]
    exact .width schema.width line

theorem origin_of_mem_flatMap_row {schema : Schema} {lines : List Line}
    (h : finding ∈ lines.flatMap (row dialect schema)) : Origin dialect finding := by
  obtain ⟨line, -, hline⟩ := List.mem_flatMap.mp h
  exact origin_of_mem_row hline

theorem origin_of_mem_dataFindings {variant : Variant} {grammar data : String}
    (h : finding ∈ variant.dataFindings grammar data) : Origin variant.dialect finding := by
  rcases List.mem_append.mp h with hgrammar | hrows
  · exact origin_of_mem_grammar hgrammar
  · rcases List.mem_append.mp hrows with hrow | hrow
    · exact origin_of_mem_flatMap_row hrow
    · exact origin_of_mem_flatMap_row hrow

end TableIntake.Check
