import Mathlib.Data.List.Basic
import TableIntake.Proofs.Grammar.Lines
import TableIntake.Proofs.Lexical.Forms
import TableIntake.Variant

namespace TableIntake.Check

open TableIntake.Grammar
open TableIntake.Json (Value)
open TableIntake.Lexical (HasForm)
open TableIntake.Text

/-! Sites: the places in a text that the checks of rows have something to say about. -/

structure Site where
  row : Nat
  column : Nat
  kind : FindingKind
  data : Value

/-- Where a finding is, and what it shows. -/
abbrev Mark := Int64 × Place × UInt16 × Value

def Site.mark (dialect : Dialect) (site : Site) : Mark :=
  (Int64.ofNat site.row, .index (UInt64.ofNat site.column), dialect.code site.kind, site.data)

def mark (finding : Finding) : Mark :=
  (finding.row, finding.place, finding.code, finding.data)

/-- Rows come in order, and so do the columns of a row. -/
def Site.Before (first second : Site) : Prop :=
  first.row < second.row ∨ first.row = second.row ∧ first.column < second.column

/-- A cell of a row of the right width that does not have the form of its column. -/
def CellSite (declaration : Declaration) (line : Line) (site : Site) : Prop :=
  line.width = declaration.width ∧
    ∃ column cell dataType, line.cells[column]? = some cell ∧
      declaration.dataType? column = some dataType ∧
      ¬ HasForm dataType (trim cell.toList) ∧
      site = ⟨line.number, column, .dataConformance, .string cell⟩

/-- A row of another width. -/
def WidthSite (declaration : Declaration) (line : Line) (site : Site) : Prop :=
  line.width ≠ declaration.width ∧
    site = ⟨line.number, 0, .columnCount, .strings line.cells⟩

/-- The row is one of the rows, and not their header. -/
def Counts (declaration : Declaration) (rows : List Line) (line : Line) : Prop :=
  line ∈ rows ∧ ¬ (rows.head? = some line ∧ declaration.IsHeader line.cells)

/-! The sites as lists. -/

def cellSite? (declaration : Declaration) (line : Line) (column : Nat) (cell : String) :
    Option Site :=
  match declaration.dataType? column with
  | none => none
  | some dataType =>
      if Lexical.conforms cell dataType then none
      else some ⟨line.number, column, .dataConformance, .string cell⟩

def rowSites (declaration : Declaration) (line : Line) : List Site :=
  if line.width = declaration.width then
    line.cells.zipIdx.filterMap fun (cell, column) => cellSite? declaration line column cell
  else [⟨line.number, 0, .columnCount, .strings line.cells⟩]

theorem cellSite?_eq_some {declaration : Declaration} {line : Line} {column : Nat}
    {cell : String} {site : Site} :
    cellSite? declaration line column cell = some site ↔
      ∃ dataType, declaration.dataType? column = some dataType ∧
        ¬ HasForm dataType (trim cell.toList) ∧
        site = ⟨line.number, column, .dataConformance, .string cell⟩ := by
  unfold cellSite?
  cases declaration.dataType? column with
  | none => simp
  | some dataType =>
      simp only [Option.some.injEq, exists_eq_left', ← Lexical.conforms_iff]
      split
      case isTrue h => simp [h]
      case isFalse h => simp [h, eq_comm]

theorem mem_rowSites {declaration : Declaration} {line : Line} {site : Site} :
    site ∈ rowSites declaration line ↔
      WidthSite declaration line site ∨ CellSite declaration line site := by
  unfold rowSites WidthSite CellSite
  split
  case isFalse hwidth => simp [hwidth]
  case isTrue hwidth =>
      simp only [List.mem_filterMap, Prod.exists, List.mk_mem_zipIdx_iff_getElem?,
        cellSite?_eq_some, hwidth, ne_eq, not_true_eq_false, false_and, false_or, true_and]
      constructor
      · rintro ⟨cell, column, hcell, dataType, htype, hform, heq⟩
        exact ⟨column, cell, dataType, hcell, htype, hform, heq⟩
      · rintro ⟨column, cell, dataType, hcell, htype, hform, heq⟩
        exact ⟨cell, column, hcell, dataType, htype, hform, heq⟩

theorem row_of_mem_rowSites {declaration : Declaration} {line : Line} {site : Site}
    (h : site ∈ rowSites declaration line) : site.row = line.number := by
  rcases mem_rowSites.mp h with ⟨-, rfl⟩ | ⟨-, _, _, _, -, -, -, rfl⟩
  · rfl
  · rfl

theorem pairwise_rowSites (declaration : Declaration) (line : Line) :
    (rowSites declaration line).Pairwise Site.Before := by
  unfold rowSites
  split
  case isFalse => exact List.pairwise_singleton _ _
  case isTrue =>
      rw [List.pairwise_filterMap, List.pairwise_iff_getElem]
      intro i j hi hj hij first hfirst second hsecond
      rw [List.getElem_zipIdx] at hfirst hsecond
      obtain ⟨_, -, -, rfl⟩ := cellSite?_eq_some.mp hfirst
      obtain ⟨_, -, -, rfl⟩ := cellSite?_eq_some.mp hsecond
      refine Or.inr ⟨rfl, ?_⟩
      change 0 + i < 0 + j
      omega

theorem pairwise_flatMap_rowSites {declaration : Declaration} {lines : List Line}
    (h : lines.Pairwise (·.number < ·.number)) :
    (lines.flatMap (rowSites declaration)).Pairwise Site.Before := by
  refine List.pairwise_flatMap.mpr ⟨fun line _ => pairwise_rowSites declaration line, ?_⟩
  refine h.imp fun {first second} hlt site hsite other hother => Or.inl ?_
  rw [row_of_mem_rowSites hsite, row_of_mem_rowSites hother]
  exact hlt

theorem sublist_body (schema : Schema) (lines : List Line) : (body schema lines).Sublist lines := by
  cases lines with
  | nil => exact List.Sublist.refl []
  | cons first rows =>
      simp only [body]
      split
      · exact List.sublist_cons_self first rows
      · exact List.Sublist.refl _

section Declared

variable (grammar : List Line) (dialect : Dialect)

theorem mem_body {rows : List Line} (h : rows.Pairwise (·.number < ·.number)) (line : Line) :
    line ∈ body (Schema.ofDocument (Document.ofLines grammar) dialect) rows ↔
      Counts (Declaration.ofLines grammar) rows line := by
  unfold Counts
  rw [← Schema.isHeader_iff grammar dialect]
  cases rows with
  | nil => simp [body]
  | cons first rows =>
      simp only [body, List.head?_cons, Option.some.injEq]
      split
      case isTrue hheader =>
          have hnot : first ∉ rows := by
            intro hmem
            exact Nat.lt_irrefl _ (List.rel_of_pairwise_cons h hmem)
          constructor
          · intro hmem
            refine ⟨List.mem_cons_of_mem first hmem, ?_⟩
            rintro ⟨rfl, -⟩
            exact hnot hmem
          · rintro ⟨hmem, hother⟩
            rcases List.mem_cons.mp hmem with rfl | hmem
            · exact absurd ⟨rfl, hheader⟩ hother
            · exact hmem
      case isFalse hheader =>
          constructor
          · intro hmem
            refine ⟨hmem, ?_⟩
            rintro ⟨rfl, hthis⟩
            exact hheader hthis
          · exact fun hmem => hmem.1

/-- The findings about a row are at its sites, in their order. -/
theorem map_mark_row (line : Line) :
    (row dialect (Schema.ofDocument (Document.ofLines grammar) dialect) line).map mark =
      (rowSites (Declaration.ofLines grammar) line).map (Site.mark dialect) := by
  unfold row rowSites
  rw [Schema.width_ofDocument]
  split
  case isFalse => rfl
  case isTrue hwidth =>
      let schema := Schema.ofDocument (Document.ofLines grammar) dialect
      have hlength : schema.columns.length = line.cells.length := by
        exact (Schema.width_ofDocument grammar dialect).trans hwidth.symm
      -- Both sides go through the cells, with their columns at hand or by their positions.
      have hzip : (schema.columns.zip line.cells).zipIdx =
          line.cells.zipIdx.map fun entry =>
            ((schema.columns[entry.2]?.getD {}, entry.1), entry.2) := by
        apply List.ext_getElem
        · simp [hlength]
        · intro i hi hj
          have hcell : i < line.cells.length := by simpa using hj
          have hcolumn : i < schema.columns.length := by omega
          simp [List.getElem?_eq_getElem hcolumn]
      rw [cells, hzip, List.filterMap_map, List.map_filterMap, List.map_filterMap]
      refine List.filterMap_congr fun entry hentry => ?_
      obtain ⟨text, i⟩ := entry
      have hi : i < (Declaration.ofLines grammar).width := by
        rw [← hwidth]
        exact (List.getElem?_eq_some_iff.mp (List.mk_mem_zipIdx_iff_getElem?.mp hentry)).1
      obtain ⟨column, hcolumn, htype, -⟩ := Schema.getElem?_columns grammar dialect i hi
      have hsome : schema.columns[i]? = some column := hcolumn
      simp only [Function.comp, hsome, Option.getD_some, cell?, cellSite?, htype]
      cases (Declaration.ofLines grammar).dataType? i with
      | none => rfl
      | some dataType =>
          simp only
          split
          · rfl
          · rfl

theorem map_mark_flatMap_row (lines : List Line) :
    (lines.flatMap (row dialect (Schema.ofDocument (Document.ofLines grammar) dialect))).map
        mark =
      (lines.flatMap (rowSites (Declaration.ofLines grammar))).map (Site.mark dialect) := by
  rw [List.map_flatMap, List.map_flatMap]
  exact List.flatMap_congr fun line _ => map_mark_row grammar dialect line

end Declared

/-- The findings that checking data adds to those about the grammar: first those about the rows
that stand in the grammar behind its three lines, then those about the rows of the data. Each cell
that does not have the form of its column is found, and each row of the data that has another
width; nothing else is. -/
theorem checkData_sites (variant : Variant) (grammarText dataText : String)
    (journal : Log.Journal) :
    ∃ (grammar data : List Line) (embedded separate : List Site) (rest : List Finding),
      Line.Enumerates trim grammarText grammar ∧ Line.Enumerates id dataText data ∧
      ((variant.checkData grammarText dataText).run journal).1 =
        ((variant.checkGrammar grammarText).run journal).1 ++ rest ∧
      rest.map mark = (embedded ++ separate).map (Site.mark variant.dialect) ∧
      embedded.Pairwise Site.Before ∧ separate.Pairwise Site.Before ∧
      (∀ site, site ∈ embedded ↔
        ∃ line, Counts (Declaration.ofLines grammar) (grammar.drop 3) line ∧
          CellSite (Declaration.ofLines grammar) line site) ∧
      ∀ site, site ∈ separate ↔
        ∃ line, Counts (Declaration.ofLines grammar) data line ∧
          (WidthSite (Declaration.ofLines grammar) line site ∨
            CellSite (Declaration.ofLines grammar) line site) := by
  let grammar := Line.ofText trim grammarText
  let data := dataRows dataText
  let declaration := Declaration.ofLines grammar
  let schema := Schema.ofDocument (Document.ofLines grammar) variant.dialect
  let wide := (body schema (grammar.drop 3)).filter (·.width = schema.width)
  have hgrammar := Line.enumerates_ofText trim grammarText
  have hdata := Line.enumerates_ofText id dataText
  have hrows : (grammar.drop 3).Pairwise (·.number < ·.number) :=
    hgrammar.ordered.sublist (List.drop_sublist 3 grammar)
  have hfound : variant.rowFindings grammarText dataText =
      wide.flatMap (row variant.dialect schema) ++
        (body schema data).flatMap (row variant.dialect schema) := by
    simp only [Variant.rowFindings, Document.parse, embeddedRows, rows,
      (cells_ofLines (Line.ofText trim grammarText)).2.2.2]
    rfl
  refine ⟨grammar, data, wide.flatMap (rowSites declaration),
    (body schema data).flatMap (rowSites declaration),
    variant.rowFindings grammarText dataText, hgrammar, hdata, rfl, ?_, ?_, ?_, ?_, ?_⟩
  · rw [hfound, List.map_append, List.map_append, map_mark_flatMap_row, map_mark_flatMap_row]
  · exact pairwise_flatMap_rowSites
      (hrows.sublist (List.filter_sublist.trans (sublist_body schema _)))
  · exact pairwise_flatMap_rowSites (hdata.ordered.sublist (sublist_body schema data))
  · intro site
    have hwidth : schema.width = declaration.width :=
      Schema.width_ofDocument grammar variant.dialect
    simp only [List.mem_flatMap, wide, List.mem_filter, decide_eq_true_eq, hwidth, mem_rowSites]
    constructor
    · rintro ⟨line, ⟨hline, hwide⟩, hsite⟩
      refine ⟨line, (mem_body grammar variant.dialect hrows line).mp hline, ?_⟩
      exact hsite.resolve_left fun hother => hother.1 hwide
    · rintro ⟨line, hline, hsite⟩
      exact ⟨line, ⟨(mem_body grammar variant.dialect hrows line).mpr hline, hsite.1⟩,
        Or.inr hsite⟩
  · intro site
    simp only [List.mem_flatMap, mem_rowSites]
    constructor
    · rintro ⟨line, hline, hsite⟩
      exact ⟨line, (mem_body grammar variant.dialect hdata.ordered line).mp hline, hsite⟩
    · rintro ⟨line, hline, hsite⟩
      exact ⟨line, (mem_body grammar variant.dialect hdata.ordered line).mpr hline, hsite⟩

end TableIntake.Check
