import TableIntake.Proofs.Check.Sites
import TableIntake.Proofs.Grammar.Joining

namespace TableIntake

open TableIntake.Grammar
open TableIntake.Text

/-! Rows that stand in a grammar behind its three lines, and the same rows in a text of their
own. -/

/-- The finding as it is about a line so many rows further down. -/
def Finding.moved (rows : Nat) (finding : Finding) : Finding :=
  { finding with row := finding.row + Int64.ofNat rows }

namespace Check

/-- Where a finding is, and what it is called. -/
def spot (finding : Finding) : Int64 × Place × UInt16 :=
  (finding.row, finding.place, finding.code)

theorem mark_moved (rows : Nat) (finding : Finding) :
    mark (finding.moved rows) =
      ((mark finding).1 + Int64.ofNat rows, (mark finding).2) := rfl

theorem spot_eq (finding : Finding) :
    spot finding = ((mark finding).1, (mark finding).2.1, (mark finding).2.2.1) := rfl

theorem map_spot_eq (findings : List Finding) :
    findings.map spot = (findings.map mark).map fun mark => (mark.1, mark.2.1, mark.2.2.1) := by
  rw [List.map_map]
  rfl

section Relocated

variable (dialect : Dialect) (schema : Schema)

theorem mark_invalidValue (line : Line) (index : Nat) (name cell : String)
    (dataType : DataType) :
    mark (invalidValue dialect line index name cell dataType) =
      (Int64.ofNat line.number, .index (UInt64.ofNat index), dialect.code .dataConformance,
        .string cell) := rfl

theorem mark_wrongWidth (expected : Nat) (line : Line) :
    mark (wrongWidth dialect expected line) =
      (Int64.ofNat line.number, .index 0, dialect.code .columnCount,
        .strings line.cells) := rfl

theorem body_map {relocate : Line → Line}
    (hheader : ∀ line, schema.isHeader (relocate line).cells = schema.isHeader line.cells)
    (lines : List Line) : body schema (lines.map relocate) = (body schema lines).map relocate := by
  cases lines with
  | nil => rfl
  | cons first lines =>
      simp only [List.map_cons, body, hheader]
      split
      · rfl
      · rfl

theorem map_rows {relocate : Line → Line} {view other : Finding → α}
    (hheader : ∀ line, schema.isHeader (relocate line).cells = schema.isHeader line.cells)
    (hrow : ∀ line, (row dialect schema (relocate line)).map view =
      (row dialect schema line).map other) (lines : List Line) :
    (rows dialect schema (lines.map relocate)).map view =
      (rows dialect schema lines).map other := by
  simp only [rows, body_map schema hheader, List.flatMap_map, List.map_flatMap, hrow]

theorem cells_map {relocate : Line → Line} {view other : Finding → α} (edit : String → String)
    {line : Line} (hcells : (relocate line).cells = line.cells.map edit)
    (hcell : ∀ index column cell,
      (cell? dialect (relocate line) index column (edit cell)).map view =
        (cell? dialect line index column cell).map other) :
    (cells dialect schema (relocate line)).map view =
      (cells dialect schema line).map other := by
  simp only [cells, hcells, List.zip_map_right, List.zipIdx_map, List.filterMap_map,
    List.map_filterMap]
  apply List.filterMap_congr
  intro entry _
  exact hcell entry.2 entry.1.1 entry.1.2

theorem map_mark_row_moved (count : Nat) (line : Line) :
    (row dialect schema (line.moved count)).map mark =
      (row dialect schema line).map fun finding => mark (finding.moved count) := by
  have hcell (index : Nat) (column : Column) (cell : String) :
      (cell? dialect (line.moved count) index column cell).map mark =
        (cell? dialect line index column cell).map fun finding => mark (finding.moved count) := by
    simp only [cell?]
    cases column.dataType with
    | none => rfl
    | some dataType =>
        simp only
        split
        · rfl
        · simp only [Option.map_some, mark_moved, mark_invalidValue, Line.moved, Int64.ofNat_add]
  have hwidth : (line.moved count).width = line.width := rfl
  simp only [row, hwidth]
  split
  case isTrue => exact cells_map dialect schema id (List.map_id _).symm hcell
  case isFalse =>
      simp only [List.map_singleton, mark_moved, mark_wrongWidth, Line.moved, Int64.ofNat_add]

theorem conforms_trimmed (cell : String) (dataType : DataType) :
    Lexical.conforms (trimmed cell) dataType = Lexical.conforms cell dataType := by
  cases dataType with
  | string => rfl
  | number => simp only [Lexical.conforms, Lexical.isNumber, toList_trimmed, trim_trim]
  | integer => simp only [Lexical.conforms, Lexical.isInteger, toList_trimmed, trim_trim]

theorem map_spot_row_trimmedCells (line : Line) :
    (row dialect schema line.trimmedCells).map spot = (row dialect schema line).map spot := by
  have hcell (index : Nat) (column : Column) (cell : String) :
      (cell? dialect line.trimmedCells index column (trimmed cell)).map spot =
        (cell? dialect line index column cell).map spot := by
    simp only [cell?]
    cases column.dataType with
    | none => rfl
    | some dataType =>
        simp only [conforms_trimmed]
        split
        · rfl
        · simp only [Option.map_some, spot_eq, mark_invalidValue, Line.trimmedCells]
  have hwidth : line.trimmedCells.width = line.width := List.length_map _
  simp only [row, hwidth]
  split
  case isTrue => exact cells_map dialect schema trimmed rfl hcell
  case isFalse =>
      simp only [List.map_singleton, spot_eq, mark_wrongWidth, Line.trimmedCells]

theorem isHeader_trimmedCells (line : Line) :
    schema.isHeader line.trimmedCells.cells = schema.isHeader line.cells := by
  have htwice : (line.cells.map trimmed).map trimmed = line.cells.map trimmed := by
    rw [List.map_map]
    apply List.map_congr_left
    intro cell _
    simp [trimmed]
  simp only [Schema.isHeader, Line.trimmedCells, htwice]

theorem map_mark_rows_moved (count : Nat) (lines : List Line) :
    (rows dialect schema (lines.map (Line.moved count))).map mark =
      (rows dialect schema lines).map fun finding => mark (finding.moved count) := by
  have hheader (line : Line) :
      schema.isHeader (line.moved count).cells = schema.isHeader line.cells := rfl
  exact map_rows dialect schema hheader (map_mark_row_moved dialect schema count) lines

theorem map_spot_rows_relocated (count : Nat) (lines : List Line) :
    (rows dialect schema ((lines.map Line.trimmedCells).map (Line.moved count))).map spot =
      (rows dialect schema lines).map fun finding => spot (finding.moved count) := by
  let moveSpot (spot : Int64 × Place × UInt16) := (spot.1 + Int64.ofNat count, spot.2)
  have htrimmed := map_rows dialect schema (isHeader_trimmedCells schema)
    (map_spot_row_trimmedCells dialect schema) lines
  calc (rows dialect schema ((lines.map Line.trimmedCells).map (Line.moved count))).map spot
      _ = ((rows dialect schema (lines.map Line.trimmedCells)).map spot).map moveSpot := by
          rw [map_spot_eq, map_mark_rows_moved, List.map_map, List.map_map]
          rfl
      _ = ((rows dialect schema lines).map spot).map moveSpot := by rw [htrimmed]
      _ = (rows dialect schema lines).map fun finding => spot (finding.moved count) := by
          rw [List.map_map]
          rfl

end Relocated

theorem width_of_isHeader {schema : Schema} {line : Line}
    (h : schema.isHeader line.cells = true) : line.width = schema.width := by
  simp only [Schema.isHeader, Bool.and_eq_true, decide_eq_true_eq] at h
  have hlength := congrArg List.length h.2
  simpa [Line.width, Schema.width] using hlength

/-- A header has the right width, so that leaving it out changes no count. -/
theorem filter_body (schema : Schema) (lines : List Line) :
    (body schema lines).filter (·.width ≠ schema.width) =
      lines.filter (·.width ≠ schema.width) := by
  cases lines with
  | nil => rfl
  | cons first lines =>
      simp only [body]
      split
      case isTrue hheader => simp [width_of_isHeader hheader]
      case isFalse => rfl

/-- Rows that stand in a grammar are judged like rows of data, except that their widths are
checked apart from their cells. -/
theorem embeddedRows_perm (dialect : Dialect) (schema : Schema) (lines : List Line) :
    ((lines.filter (·.width ≠ schema.width)).map (wrongWidth dialect schema.width) ++
      embeddedRows dialect schema lines).Perm (rows dialect schema lines) := by
  -- The rows are sorted by whether their width is right; only the order of the findings changes.
  let wide (line : Line) : Bool := decide (line.width = schema.width)
  have hnarrow : (body schema lines).filter (!wide ·) = lines.filter (·.width ≠ schema.width) := by
    rw [← filter_body]
    apply List.filter_congr
    intro line _
    simp [wide]
  have hwidths : (lines.filter (·.width ≠ schema.width)).flatMap (row dialect schema) =
      (lines.filter (·.width ≠ schema.width)).map (wrongWidth dialect schema.width) := by
    rw [List.map_eq_flatMap]
    apply List.flatMap_congr
    intro line hline
    have hne : ¬ line.width = schema.width := by simpa using (List.mem_filter.mp hline).2
    rw [row, if_neg hne]
  have hsplit := (List.filter_append_perm wide (body schema lines)).flatMap_right
    (row dialect schema)
  rw [List.flatMap_append, hnarrow, hwidths] at hsplit
  exact List.perm_append_comm.trans hsplit

theorem grammar_withRows (dialect : Dialect) {document : Document} (rows : List Line)
    (h : document.dataLines = []) :
    (grammar dialect { document with dataLines := rows }).Perm
      (grammar dialect document ++
        (rows.filter (·.width ≠ document.width)).map (wrongWidth dialect document.width)) := by
  have hlines : ({ document with dataLines := rows } : Document).lines =
      document.lines ++ rows := by
    simp [Document.lines, h]
  have hwidth : ({ document with dataLines := rows } : Document).width = document.width := rfl
  simp only [grammar, columnCounts, hlines, hwidth, List.filter_append, List.map_append,
    List.append_assoc]
  apply List.Perm.append_left
  exact List.perm_append_comm.trans (List.Perm.of_eq (List.append_assoc _ _ _))

theorem parse_joined {grammar : String} (h : Line.filledCount grammar = 3) (data : String) :
    (Document.parse grammar).dataLines = [] ∧
      Document.parse (grammar ++ "\n" ++ data) =
        { Document.parse grammar with
          dataLines := ((dataRows data).map Line.trimmedCells).map
            (Line.moved (Line.count grammar + Line.blankLead data)) } := by
  have hlength : (Line.ofText trim grammar).length = 3 := (Line.length_ofText trim grammar).trans h
  have hfilled : Line.filledCount grammar ≠ 0 := by omega
  obtain ⟨role, type, name, hthree⟩ := List.length_eq_three.mp hlength
  simp only [Document.parse, Line.ofText_join trim hfilled, Line.ofText_trim data, hthree]
  exact ⟨rfl, rfl⟩

theorem width_ofDocument (dialect : Dialect) (document : Document) :
    (Schema.ofDocument document dialect).width = document.width := by
  simp [Document.width, Line.width, Schema.width, Schema.ofDocument]

theorem ofDocument_withRows (dialect : Dialect) (document : Document) (rows : List Line) :
    Schema.ofDocument { document with dataLines := rows } dialect =
      Schema.ofDocument document dialect := rfl

theorem dataFindings_withRows (variant : Variant) {grammar joined : String} {lines : List Line}
    (hgrammar : (Document.parse grammar).dataLines = [])
    (hjoined : Document.parse joined = { Document.parse grammar with dataLines := lines }) :
    (variant.dataFindings joined "").Perm
      (variant.grammarFindings grammar ++
        rows variant.dialect (Schema.ofDocument (Document.parse grammar) variant.dialect)
          lines) := by
  have hempty : dataRows "" = [] := by decide
  have hwidths := grammar_withRows variant.dialect lines hgrammar
  have hrows := embeddedRows_perm variant.dialect
    (Schema.ofDocument (Document.parse grammar) variant.dialect) lines
  rw [width_ofDocument] at hrows
  simp only [Variant.dataFindings, Variant.grammarFindings, Variant.rowFindings, hjoined, hempty,
    ofDocument_withRows]
  refine ((hwidths.append_right _).trans (List.Perm.of_eq ?_)).trans (hrows.append_left _)
  simp only [rows, body, List.flatMap_nil, List.append_nil, List.append_assoc]

/-- The rows of a text of data are found to be the same when they stand in the grammar, behind
its three lines: at the same columns, and as far down as they are moved by that. -/
theorem checkData_joined (variant : Variant) {grammar : String}
    (h : Line.filledCount grammar = 3) (data : String) (journal : Log.Journal) :
    ∃ own others : List Finding,
      ((variant.checkGrammar grammar).run journal).1 = own ∧
      ((variant.checkData grammar data).run journal).1 = own ++ others ∧
      (((variant.checkData (grammar ++ "\n" ++ data) "").run journal).1.map spot).Perm
        ((own ++ others.map
          (Finding.moved (Line.count grammar + Line.blankLead data))).map spot) ∧
      ((∀ line ∈ dataRows data, ∀ cell ∈ line.cells, trimmed cell = cell) →
        (((variant.checkData (grammar ++ "\n" ++ data) "").run journal).1.map mark).Perm
          ((own ++ others.map
            (Finding.moved (Line.count grammar + Line.blankLead data))).map mark)) := by
  obtain ⟨hthree, hjoined⟩ := parse_joined h data
  have hperm := dataFindings_withRows variant hthree hjoined
  have hothers : variant.rowFindings grammar data =
      rows variant.dialect (Schema.ofDocument (Document.parse grammar) variant.dialect)
        (dataRows data) := by
    simp only [Variant.rowFindings, hthree, embeddedRows, body, List.filter_nil,
      List.flatMap_nil, List.nil_append]
  refine ⟨variant.grammarFindings grammar, variant.rowFindings grammar data, rfl, rfl, ?_, ?_⟩
  · have hspots := hperm.map spot
    rw [List.map_append, map_spot_rows_relocated, ← hothers] at hspots
    rwa [List.map_append, List.map_map]
  · intro hcells
    have hsame : (dataRows data).map Line.trimmedCells = dataRows data := by
      refine (List.map_congr_left fun line hline => ?_).trans (List.map_id _)
      have hline := (List.map_congr_left (hcells line hline)).trans (List.map_id line.cells)
      simp only [Line.trimmedCells, hline, id]
    rw [hsame] at hperm
    have hmarks := hperm.map mark
    rw [List.map_append, map_mark_rows_moved, ← hothers] at hmarks
    rwa [List.map_append, List.map_map]

theorem checkData_joined_blank_lines :
    Line.filledCount "PK,\n\nstring,integer\nid,n\n" = 3 ∧
      (((Variant.dimension.checkData
          ("PK,\n\nstring,integer\nid,n\n" ++ "\n" ++ "\n b,x \nc") "").run {}).1.map spot).Perm
        [(7, .index 1, 2004), (8, .index 0, 2003)] := by
  have hthree : Line.filledCount "PK,\n\nstring,integer\nid,n\n" = 3 := by decide +kernel
  have hrows : Line.count "PK,\n\nstring,integer\nid,n\n" + Line.blankLead "\n b,x \nc" = 6 := by
    decide +kernel
  obtain ⟨own, others, hown, hall, hperm, -⟩ :=
    checkData_joined .dimension hthree "\n b,x \nc" {}
  have hnone : own.length = 0 := by
    rw [← hown]
    decide +kernel
  have hspots : ((own ++ others).map (Finding.moved 6)).map spot =
      [(7, .index 1, 2004), (8, .index 0, 2003)] := by
    rw [← hall]
    decide +kernel
  rw [List.length_eq_zero_iff.mp hnone] at hperm hspots
  rw [hrows] at hperm
  rw [List.nil_append] at hperm hspots
  rw [hspots] at hperm
  exact ⟨hthree, hperm⟩

end Check

end TableIntake
