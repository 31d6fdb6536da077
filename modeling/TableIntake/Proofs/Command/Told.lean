import TableIntake.Command.Run
import TableIntake.Proofs.Batch.Reports
import TableIntake.Proofs.Check.Origins
import TableIntake.Proofs.Findings
import TableIntake.Proofs.Json.Sorted

namespace TableIntake

open TableIntake.Files
open TableIntake.Json (Reader Tellable Value)

/-! What commands tell: findings, which are read again from what is told of them, and reports. -/

namespace Finding

/-- The data is a cell or the cells of a row, as in all findings of the checks. -/
def Plain (finding : Finding) : Prop :=
  (∃ cell, finding.data = .string cell) ∨ ∃ cells, finding.data = .strings cells

variable {finding : Finding}

theorem plain_of_origin {dialect : Grammar.Dialect} (h : Check.Origin dialect finding) :
    finding.Plain := by
  cases h with
  | width expected line => exact Or.inr ⟨line.cells, rfl⟩
  | role line marker column => exact Or.inr ⟨line.cells, rfl⟩
  | key line => exact Or.inr ⟨line.cells, rfl⟩
  | type line literal column => exact Or.inr ⟨line.cells, rfl⟩
  | value line column name cell dataType => exact Or.inl ⟨cell, rfl⟩

theorem Plain.tellable_data (h : finding.Plain) : Tellable 1 finding.data := by
  rcases h with ⟨cell, hdata⟩ | ⟨cells, hdata⟩
  · exact hdata ▸ .string cell
  · exact hdata ▸ .array (List.forall_mem_map.mpr fun cell _ => .string cell)

theorem Plain.ordered_data (h : finding.Plain) : finding.data.Everywhere Value.Ordered := by
  rcases h with ⟨cell, hdata⟩ | ⟨cells, hdata⟩
  · exact hdata ▸ Value.everywhere_string.mpr trivial
  · rw [hdata]
    exact Value.everywhere_array.mpr
      ⟨trivial, List.forall_mem_map.mpr fun cell _ => Value.everywhere_string.mpr trivial⟩

theorem depth_toJson (finding : Finding) : finding.toJson.depth = finding.data.depth + 1 := by
  have hplace : finding.place.toJson.depth = 0 := by cases finding.place <;> rfl
  simp [toJson, Value.depth, Value.membersDepth, Value.natural, hplace]

theorem Plain.tellable_toJson (h : finding.Plain) : Tellable 2 finding.toJson where
  noDecimal := toJson_noDecimal h.tellable_data.noDecimal
  fits := toJson_fits h.tellable_data.fits
  depth := depth_toJson finding ▸ Nat.succ_le_succ h.tellable_data.depth

theorem tellable_listToJson {findings : List Finding} (h : ∀ finding ∈ findings, finding.Plain) :
    Tellable 3 (listToJson findings) :=
  .array (List.forall_mem_map.mpr fun finding hfinding => (h finding hfinding).tellable_toJson)

theorem sorted_toJson (finding : Finding) :
    finding.toJson.sorted =
      .object
        [("col", finding.place.toJson), ("data", finding.data.sorted),
          ("error", .string finding.message), ("errorCode", .natural finding.code.toNat),
          ("row", .number (.integer finding.row.toInt))] := by
  have hplace : finding.place.toJson.sorted = finding.place.toJson := by
    cases finding.place <;> rfl
  simp +decide only [toJson, Value.sorted, Value.sortedMembers, Value.sortMembers, List.foldl_cons,
    List.foldl_nil, insertKey, Value.natural, hplace, if_true, if_false]

/-- A finding whose members are told in order is read as the finding. -/
theorem Plain.reader_sorted (h : finding.Plain) (rest : List Char) :
    reader (finding.toJson.sorted.outline rest) = .ok finding := by
  have hdepth : finding.data.depth ≤ dataDepth := Nat.le_trans h.tellable_data.depth (by decide)
  have hdata := Json.recovered h.ordered_data dataDepth
  rw [sorted_toJson, Value.sorted_of_ordered h.ordered_data, reader, Value.outline,
    Json.Record.read]
  simp only [Value.memberOutlines]
  rw [Json.Record.members_field rfl (by decide) (bind_of_ok (finding.place.reader_toJson _)),
    Json.Record.members_field rfl (by decide) (bind_of_ok (hdata _ hdepth)),
    Json.Record.members_field rfl (by decide) rfl,
    Json.Record.members_field rfl (by decide) (bind_of_ok (integer_code finding.code _)),
    Json.Record.members_field rfl (by decide) (bind_of_ok (integer_row finding.row _))]
  simp only [Json.Record.members, Int64.ofInt_toInt, Int.toNat_natCast, UInt16.ofNat_toNat]
  rfl

theorem mapM_reader_sorted {findings : List Finding} (h : ∀ finding ∈ findings, finding.Plain)
    (rest : List Char) :
    (Value.itemOutlines (findings.map fun finding => finding.toJson.sorted) rest).mapM reader =
      .ok findings := by
  induction findings with
  | nil => rfl
  | cons finding findings ih =>
      obtain ⟨hfinding, hfindings⟩ := List.forall_mem_cons.mp h
      rw [List.map_cons, Value.itemOutlines, List.mapM_cons, hfinding.reader_sorted,
        ih hfindings]
      rfl

/-- A told list of findings is read as the list. -/
theorem read_list_sorted {findings : List Finding} (h : ∀ finding ∈ findings, finding.Plain) :
    Json.read (Reader.list reader)
      (Value.array (findings.map fun finding => finding.toJson.sorted)).render = .ok findings := by
  have htold := (tellable_listToJson h).sorted
  rw [listToJson, Value.sorted, Value.sortedItems_eq, List.map_map] at htold
  exact Json.read_render htold.noDecimal htold.fits (mapM_reader_sorted h [])

end Finding

namespace Batch

/-- The findings of the report are findings of a check. -/
def Report.Plain (report : Report) : Prop :=
  ∀ findings, report.outcome = .validated findings → ∀ finding ∈ findings, finding.Plain

theorem Report.Plain.tellable_toJson {report : Report} (h : report.Plain) :
    Tellable 4 report.toJson := by
  obtain ⟨pair, variant, outcome⟩ := report
  refine .object (List.forall_mem_cons.mpr ⟨.string pair, List.forall_mem_cons.mpr ⟨?_, ?_⟩⟩)
  · cases variant with
    | none => exact .null
    | some v => exact .string v.name
  · refine List.forall_mem_singleton.mpr ?_
    cases outcome with
    | validated findings => exact Finding.tellable_listToJson (h findings rfl)
    | failed failure =>
        have hcode : Tellable 2 (.string failure.code) := .string failure.code
        have hmessage : Tellable 2 (.string failure.message) := .string failure.message
        exact .object
          (List.forall_mem_cons.mpr ⟨hcode, List.forall_mem_singleton.mpr hmessage⟩)

theorem Pending.plain_reported (pending : Pending) (tree : FileTree) :
    (pending.reported tree).Plain := by
  intro findings hfindings finding hfinding
  unfold reported outcome at hfindings
  split at hfindings
  case h_1 variant grammar data _ =>
      rw [← Outcome.validated.inj hfindings] at hfinding
      exact Finding.plain_of_origin (Check.origin_of_mem_dataFindings hfinding)
  case h_2 => cases hfindings

theorem tellable_reports (table : Table) (tree : FileTree) :
    Tellable 5 (.array ((table.reports tree).map Report.toJson)) := by
  refine .array (List.forall_mem_map.mpr (List.forall_mem_map.mpr fun pending _ => ?_))
  exact (pending.plain_reported tree).tellable_toJson

end Batch

namespace Command

variable {findings : List Finding}

theorem tellable_verdict (h : ∀ finding ∈ findings, finding.Plain) :
    Tellable 4 (verdict findings) :=
  .object (List.forall_mem_cons.mpr
    ⟨.bool findings.isEmpty, List.forall_mem_singleton.mpr (Finding.tellable_listToJson h)⟩)

theorem sorted_verdict (findings : List Finding) :
    (verdict findings).sorted =
      .object
        [("errors", .array (findings.map fun finding => finding.toJson.sorted)),
          ("valid", .bool findings.isEmpty)] := by
  simp +decide only [verdict, Value.sorted, Value.sortedMembers, Value.sortMembers,
    List.foldl_cons, List.foldl_nil, insertKey, if_true, if_false, Finding.listToJson,
    Value.sortedItems_eq, List.map_map]
  rfl

/-- What is read from a response: its members stand in the order of their keys. -/
def told : Except CommandError Value → Value
  | .ok data => .object [("data", data.sorted), ("status", .string "ok")]
  | .error e =>
      .object
        [("code", .string e.code), ("message", .string e.message), ("status", .string "error")]

def envelope : Except CommandError Value → Value
  | .ok data => .object [("status", .string "ok"), ("data", data)]
  | .error e =>
      .object
        [("status", .string "error"), ("code", .string e.code), ("message", .string e.message)]

theorem sorted_envelope (result : Except CommandError Value) :
    (envelope result).sorted = told result := by
  cases result <;>
  simp +decide only [envelope, told, Value.sorted, Value.sortedMembers, Value.sortMembers,
    List.foldl_cons, List.foldl_nil, insertKey, if_true, if_false]

theorem response_eq (result : Except CommandError Value) :
    response result = (told result).render ++ "\n" := by
  rw [← sorted_envelope]
  cases result <;> rfl

theorem tellable_envelope {result : Except CommandError Value} {room : Nat}
    (h : ∀ data, result = .ok data → Tellable room data) :
    Tellable (room + 1) (envelope result) := by
  cases result with
  | ok data =>
      exact .object (List.forall_mem_cons.mpr
        ⟨.string "ok", List.forall_mem_singleton.mpr (h data rfl)⟩)
  | error e =>
      exact .object (List.forall_mem_cons.mpr ⟨.string "error", List.forall_mem_cons.mpr
        ⟨.string e.code, List.forall_mem_singleton.mpr (.string e.message)⟩⟩)

end Command

end TableIntake
