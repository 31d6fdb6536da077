import TableIntake.Proofs.Grammar.Joining
import TableIntake.Proofs.Grammar.Lines

namespace TableIntake

open TableIntake.Grammar
open TableIntake.Text

/-! Nothing is lost between a text and its lines: the segments of the text can be told from it, and
the cells of a line from its segment. -/

namespace Text

/-- The texts between the separators of a text. -/
structure Pieces (separator : Char) (cs : List Char) (pieces : List (List Char)) : Prop where
  filled : pieces ≠ []
  free : ∀ piece ∈ pieces, separator ∉ piece
  joined : [separator].intercalate pieces = cs

theorem pieces_split (separator : Char) (cs : List Char) :
    Pieces separator cs (split separator cs) where
  filled := split_ne_nil separator cs
  free := fun _ => not_mem_of_mem_split
  joined := intercalate_split separator cs

theorem split_of_not_mem {separator : Char} {cs : List Char} (h : separator ∉ cs) :
    split separator cs = [cs] := by
  induction cs with
  | nil => rfl
  | cons c cs ih =>
      obtain ⟨hc, hcs⟩ := not_or.mp (mt List.mem_cons.mpr h)
      rw [split, if_neg (Ne.symm hc), ih hcs, List.modifyHead_cons]

/-- There is only one way to take a text apart. -/
theorem Pieces.eq_split {separator : Char} {cs : List Char} {pieces : List (List Char)}
    (h : Pieces separator cs pieces) : pieces = split separator cs := by
  obtain ⟨hfilled, hfree, rfl⟩ := h
  induction pieces with
  | nil => exact absurd rfl hfilled
  | cons piece pieces ih =>
      have hpiece := split_of_not_mem (hfree piece List.mem_cons_self)
      cases pieces with
      | nil => simpa using hpiece.symm
      | cons next rest =>
          have hrest := ih (List.cons_ne_nil next rest) fun other hother =>
            hfree other (List.mem_cons_of_mem piece hother)
          rw [List.intercalate_cons_cons, List.append_assoc, List.singleton_append,
            split_append_separator, hpiece, ← hrest, List.singleton_append]

theorem pieces_iff {separator : Char} {cs : List Char} {pieces : List (List Char)} :
    Pieces separator cs pieces ↔ pieces = split separator cs := by
  constructor
  · exact Pieces.eq_split
  · rintro rfl
    exact pieces_split separator cs

end Text

namespace Grammar

namespace Line

/-- The cells are what stands between the commas of the segment, once the blanks around the segment
are gone. -/
structure CellsOf (segment : List Char) (cells : List String) : Prop where
  joined : ",".intercalate cells = String.ofList (trim segment)
  free : ∀ cell ∈ cells, ',' ∉ cell.toList ∧ '\n' ∉ cell.toList

theorem cellsOf_split {segment : List Char} (h : '\n' ∉ segment) :
    CellsOf segment ((split ',' (trim segment)).map String.ofList) where
  joined := by
    apply String.toList_inj.mp
    simp [Function.comp_def, intercalate_split]
  free := by
    intro cell hcell
    obtain ⟨piece, hpiece, rfl⟩ := List.mem_map.mp hcell
    rw [String.toList_ofList]
    exact ⟨not_mem_of_mem_split hpiece,
      fun hmem => h (trim_subset segment (subset_of_mem_split hpiece hmem))⟩

/-- The number is that of a segment that is not blank. -/
def Numbers (segments : List (List Char)) (number : Nat) : Prop :=
  ∃ segment, 0 < number ∧ segments[number - 1]? = some segment ∧ ∃ c ∈ segment, isBlank c = false

theorem numbers_iff (text : String) (number : Nat) :
    (∃ line ∈ dataRows text, line.number = number) ↔
      Numbers (split '\n' (trim text.toList)) number := by
  have hlines := (enumerates_ofText id text).mem_iff
  have hfilled (segment : List Char) :
      trim segment ≠ [] ↔ ∃ c ∈ segment, isBlank c = false := by
    simp [trim_eq_nil_iff]
  constructor
  · rintro ⟨line, hline, rfl⟩
    obtain ⟨segment, hpos, hsegment, hne, -⟩ := (hlines line).mp hline
    exact ⟨segment, hpos, hsegment, (hfilled segment).mp hne⟩
  · rintro ⟨segment, hpos, hsegment, hne⟩
    refine ⟨⟨number, _⟩, (hlines _).mpr ⟨segment, hpos, hsegment, ?_, rfl⟩, rfl⟩
    exact (hfilled segment).mpr hne

theorem cellsOf_of_mem {text : String} {line : Line} (h : line ∈ dataRows text) :
    ∃ segment, (split '\n' (trim text.toList))[line.number - 1]? = some segment ∧
      CellsOf segment line.cells := by
  obtain ⟨segment, -, hsegment, -, hcells⟩ := ((enumerates_ofText id text).mem_iff line).mp h
  refine ⟨segment, hsegment, ?_⟩
  rw [hcells]
  exact cellsOf_split (not_mem_of_mem_split (List.mem_of_getElem? hsegment))

end Line

/-- The first three lines are those of the document that say what its columns are, the others are
its rows. A line that is not there has no cells, and the number it would have without blank
lines. -/
structure Document.Follows (document : Document) (lines : List Line) : Prop where
  role : document.roleLine = lines[0]?.getD ⟨1, []⟩
  type : document.typeLine = lines[1]?.getD ⟨2, []⟩
  name : document.nameLine = lines[2]?.getD ⟨3, []⟩
  rows : document.dataLines = lines.drop 3

theorem follows_ofLines (lines : List Line) : (Document.ofLines lines).Follows lines := by
  match lines with
  | [] => exact ⟨rfl, rfl, rfl, rfl⟩
  | [_] => exact ⟨rfl, rfl, rfl, rfl⟩
  | [_, _] => exact ⟨rfl, rfl, rfl, rfl⟩
  | _ :: _ :: _ :: _ => exact ⟨rfl, rfl, rfl, rfl⟩

/-- The rows of a text are its segments between newlines, as far as they are not blank: numbered as
they stand, and with all that the segments say. The lines of a grammar are the same ones, with
their cells trimmed. -/
theorem parse_lossless (text : String) :
    ∃ segments : List (List Char),
      (∀ pieces, Pieces '\n' (trim text.toList) pieces ↔ pieces = segments) ∧
      (dataRows text).Pairwise (·.number < ·.number) ∧
      (∀ number, (∃ line ∈ dataRows text, line.number = number) ↔ Line.Numbers segments number) ∧
      (∀ line ∈ dataRows text, ∃ segment, segments[line.number - 1]? = some segment ∧
        Line.CellsOf segment line.cells) ∧
      (Document.parse text).Follows ((dataRows text).map Line.trimmedCells) := by
  refine ⟨split '\n' (trim text.toList), fun pieces => pieces_iff,
    (Line.enumerates_ofText id text).ordered, Line.numbers_iff text,
    fun line => Line.cellsOf_of_mem, ?_⟩
  rw [← Line.ofText_trim]
  exact follows_ofLines _

example : dataRows "a , 1\n\n b,2\r\n" = [⟨1, ["a ", " 1"]⟩, ⟨3, ["b", "2"]⟩] := by
  decide

end Grammar

end TableIntake
