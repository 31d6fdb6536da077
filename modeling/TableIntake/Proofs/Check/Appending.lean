import TableIntake.Proofs.Grammar.Joining
import TableIntake.Proofs.Grammar.Lines
import TableIntake.Variant

namespace TableIntake.Check

open TableIntake.Grammar
open TableIntake.Text

/-! Data that is put behind other data: what was found before is found again, and only the lines
that come anew are checked anew. -/

variable (dialect : Dialect) (schema : Schema)

/-- Only the first of all rows can be a header. -/
theorem body_append {lines : List Line} (h : lines ≠ []) (more : List Line) :
    body schema (lines ++ more) = body schema lines ++ more := by
  cases lines with
  | nil => exact absurd rfl h
  | cons first lines =>
      simp only [List.cons_append, body]
      split
      · rfl
      · rfl

theorem rows_append (lines more : List Line) :
    rows dialect schema (lines ++ more) =
      rows dialect schema lines ++
        if lines = [] then rows dialect schema more else more.flatMap (row dialect schema) := by
  split
  case isTrue h =>
      rw [h, List.nil_append]
      rfl
  case isFalse h => rw [rows, body_append schema h, List.flatMap_append, ← rows]

theorem rows_dataRows_append (first second : String) :
    rows dialect schema (dataRows (first ++ "\n" ++ second)) =
      rows dialect schema (dataRows first) ++
        let more := (dataRows second).map (Line.moved (Line.shift first second))
        if Line.filledCount first = 0 then rows dialect schema more
        else more.flatMap (row dialect schema) := by
  have hempty : dataRows first = [] ↔ Line.filledCount first = 0 := by
    rw [← Line.length_ofText id, List.length_eq_zero_iff]
    rfl
  have hlines : dataRows (first ++ "\n" ++ second) =
      dataRows first ++ (dataRows second).map (Line.moved (Line.shift first second)) :=
    Line.ofText_append id first second
  rw [hlines, rows_append]
  simp only [hempty]

/-- Behind the findings about the data as it was come those about each line that is put behind it,
under the number that the line has in the longer text. The first of them can be a header only where
the data had no lines before. -/
theorem checkData_appended (variant : Variant) (grammar first second : String)
    (journal : Log.Journal) :
    let schema := Schema.ofDocument (Document.parse grammar) variant.dialect
    let more := (dataRows second).map (Line.moved (Line.shift first second))
    Line.Enumerates id (first ++ "\n" ++ second) (dataRows first ++ more) ∧
      ((variant.checkData grammar (first ++ "\n" ++ second)).run journal).1 =
        ((variant.checkData grammar first).run journal).1 ++
          if Line.filledCount first = 0 then rows variant.dialect schema more
          else more.flatMap (row variant.dialect schema) := by
  intro schema more
  constructor
  · have hlines := Line.enumerates_ofText id (first ++ "\n" ++ second)
    rw [Line.ofText_append] at hlines
    exact hlines
  · change variant.dataFindings grammar (first ++ "\n" ++ second) =
      variant.dataFindings grammar first ++ _
    simp only [Variant.dataFindings, Variant.rowFindings, rows_dataRows_append, List.append_assoc]
    rfl

end TableIntake.Check
