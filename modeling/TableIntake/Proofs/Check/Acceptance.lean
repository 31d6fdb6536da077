import Mathlib.Data.List.Basic
import TableIntake.Check.Schema

namespace TableIntake

open TableIntake.Grammar

/-! Grammars in which nothing is found, and the schemas that they declare. -/

namespace Grammar

namespace Role

theorem ofMarker?_eq_some {marker : String} {r : Role} :
    ofMarker? marker = some r ↔ r.marker = marker := by
  constructor
  · exact marker_of_ofMarker?
  · intro h
    rw [← h, ofMarker?_marker]

theorem marker_inj {first second : Role} (h : first.marker = second.marker) :
    first = second := by
  have hfirst := ofMarker?_marker first
  rw [h, ofMarker?_marker] at hfirst
  exact (Option.some.inj hfirst).symm

theorem any_ofMarker? (roles : List Role) (marker : String) :
    ((ofMarker? marker).any fun role => decide (role ∈ roles)) = true ↔
      ∃ role ∈ roles, role.marker = marker := by
  simp only [Option.any_eq_true, ofMarker?_eq_some, decide_eq_true_eq]
  constructor
  · intro ⟨role, hmarker, hmem⟩
    exact ⟨role, hmem, hmarker⟩
  · intro ⟨role, hmem, hmarker⟩
    exact ⟨role, hmarker, hmem⟩

end Role

namespace DataType

theorem ofLiteral?_eq_some {literal : String} {t : DataType} :
    ofLiteral? literal = some t ↔ t.literal = literal := by
  constructor
  · exact literal_of_ofLiteral?
  · intro h
    rw [← h, ofLiteral?_literal]

end DataType

namespace Dialect

variable (dialect : Dialect)

theorem allowsMarker_iff (marker : String) :
    dialect.allowsMarker marker = true ↔ ∃ role ∈ dialect.roles, role.marker = marker :=
  Role.any_ofMarker? dialect.roles marker

theorem isKeyMarker_iff (marker : String) :
    dialect.isKeyMarker marker = true ↔ ∃ role ∈ dialect.keyRoles, role.marker = marker :=
  Role.any_ofMarker? dialect.keyRoles marker

theorem isNone_dataType?_iff (literal : String) :
    (dialect.dataType? literal).isNone = false ↔
      ∃ t ∈ dialect.dataTypes, t.literal = literal := by
  simp only [dataType?, Option.isNone_eq_false_iff, Option.isSome_iff_exists,
    Option.filter_eq_some_iff, DataType.ofLiteral?_eq_some, decide_eq_true_eq]
  constructor
  · intro ⟨t, hliteral, hmem⟩
    exact ⟨t, hmem, hliteral⟩
  · intro ⟨t, hmem, hliteral⟩
    exact ⟨t, hliteral, hmem⟩

end Dialect

/-- All lines are as wide as the first one, and what the first two say is in the dialect. -/
structure Complete (dialect : Dialect) (document : Document) : Prop where
  typeWidth : document.typeLine.width = document.roleLine.width
  nameWidth : document.nameLine.width = document.roleLine.width
  rowWidth : ∀ line ∈ document.dataLines, line.width = document.roleLine.width
  roles : ∀ marker ∈ document.roleLine.cells, ∃ role ∈ dialect.roles, role.marker = marker
  key : ∃ marker ∈ document.roleLine.cells, ∃ role ∈ dialect.keyRoles, role.marker = marker
  types : ∀ literal ∈ document.typeLine.cells, ∃ t ∈ dialect.dataTypes, t.literal = literal

/-- The three lines of a grammar can be read off its schema again. -/
structure Faithful (dialect : Dialect) (document : Document) (schema : Schema) : Prop where
  roleWidth : schema.width = document.roleLine.width
  typeWidth : schema.width = document.typeLine.width
  nameWidth : schema.width = document.nameLine.width
  typed : ∀ column ∈ schema.columns, column.dataType.isSome = true
  keyed : ∃ column ∈ schema.columns, column.role ∈ dialect.keyRoles
  markers : schema.columns.map (·.role.marker) = document.roleLine.cells
  literals : schema.columns.map (·.dataType.map DataType.literal) =
    document.typeLine.cells.map some
  names : schema.columns.map (·.name) = document.nameLine.cells

theorem map_getElem?_zipIdx {items : List α} {others : List β}
    (h : others.length = items.length) :
    (items.zipIdx.map fun entry => others[entry.2]?) = others.map some := by
  apply List.ext_getElem
  · simp [h]
  · intro i hi hj
    have hother : i < others.length := by simpa using hj
    simp [List.getElem?_eq_getElem hother]

namespace Complete

variable {dialect : Dialect} {document : Document}

theorem markers (h : Complete dialect document) :
    (Schema.ofDocument document dialect).columns.map (·.role.marker) =
      document.roleLine.cells := by
  have hrole : ∀ entry ∈ document.roleLine.cells.zipIdx,
      (Column.ofCells dialect entry.1 document.typeLine.cells[entry.2]?
        document.nameLine.cells[entry.2]?).role.marker = entry.1 := by
    intro entry hentry
    obtain ⟨role, hmem, hmarker⟩ := h.roles entry.1 (List.fst_mem_of_mem_zipIdx hentry)
    have hallowed : (some role).filter dialect.allowsRole = some role :=
      Option.filter_eq_some_iff.mpr ⟨rfl, decide_eq_true hmem⟩
    simp only [Column.ofCells, Role.ofMarker?_eq_some.mpr hmarker, hallowed, Option.getD_some,
      hmarker]
  simp only [Schema.ofDocument, List.map_map]
  exact (List.map_congr_left hrole).trans (List.zipIdx_map_fst 0 _)

theorem literals (h : Complete dialect document) :
    (Schema.ofDocument document dialect).columns.map (·.dataType.map DataType.literal) =
      document.typeLine.cells.map some := by
  have hfound := congrArg
    (List.map fun literal => (literal.bind DataType.ofLiteral?).map DataType.literal)
    (map_getElem?_zipIdx h.typeWidth)
  simp only [List.map_map] at hfound
  simp only [Schema.ofDocument, List.map_map]
  refine hfound.trans (List.map_congr_left fun literal hliteral => ?_)
  obtain ⟨t, -, ht⟩ := h.types literal hliteral
  simp [DataType.ofLiteral?_eq_some.mpr ht, ht]

theorem names (h : Complete dialect document) :
    (Schema.ofDocument document dialect).columns.map (·.name) = document.nameLine.cells := by
  have hfound := congrArg (List.map fun name : Option String => name.getD "")
    (map_getElem?_zipIdx h.nameWidth)
  simp only [List.map_map] at hfound
  simp only [Schema.ofDocument, List.map_map]
  exact hfound.trans (List.map_id _)

theorem faithful (h : Complete dialect document) :
    Faithful dialect document (Schema.ofDocument document dialect) where
  roleWidth := by simp [Schema.width, Schema.ofDocument, Line.width]
  typeWidth := by
    rw [h.typeWidth]
    simp [Schema.width, Schema.ofDocument, Line.width]
  nameWidth := by
    rw [h.nameWidth]
    simp [Schema.width, Schema.ofDocument, Line.width]
  typed := by
    intro column hcolumn
    have hliteral : column.dataType.map DataType.literal ∈ document.typeLine.cells.map some := by
      rw [← h.literals]
      exact List.mem_map_of_mem hcolumn
    obtain ⟨literal, -, heq⟩ := List.mem_map.mp hliteral
    rw [← Option.isSome_map, ← heq]
    rfl
  keyed := by
    obtain ⟨marker, hmarker, role, hrole, heq⟩ := h.key
    rw [← h.markers] at hmarker
    obtain ⟨column, hcolumn, hsame⟩ := List.mem_map.mp hmarker
    refine ⟨column, hcolumn, ?_⟩
    rw [Role.marker_inj (hsame.trans heq.symm)]
    exact hrole
  markers := h.markers
  literals := h.literals
  names := h.names

end Complete

end Grammar

namespace Check

theorem filter_zipIdx_eq_nil_iff (items : List α) (strange : α → Bool) :
    (items.zipIdx.filter fun entry => strange entry.1) = [] ↔
      ∀ item ∈ items, strange item = false := by
  rw [List.filter_eq_nil_iff]
  constructor
  · intro h item hitem
    obtain ⟨i, hi, heq⟩ := List.getElem_of_mem hitem
    have hentry := h (items[i], i) (List.mk_mem_zipIdx_iff_getElem?.mpr
      (List.getElem?_eq_getElem hi))
    rw [← heq]
    exact eq_false_of_ne_true hentry
  · intro h entry hentry
    exact Bool.eq_false_iff.mp (h entry.1 (List.fst_mem_of_mem_zipIdx hentry))

variable (dialect : Dialect)

theorem columnCounts_eq_nil_iff (document : Document) :
    columnCounts dialect document = [] ↔
      ∀ line ∈ document.lines, line.width = document.width := by
  simp [columnCounts]

theorem roleMarkers_eq_nil_iff (line : Line) :
    roleMarkers dialect line = [] ↔
      (∀ marker ∈ line.cells, ∃ role ∈ dialect.roles, role.marker = marker) ∧
        ∃ marker ∈ line.cells, ∃ role ∈ dialect.keyRoles, role.marker = marker := by
  have hlacks : dialect.lacksKey line.cells = false ↔
      ∃ marker ∈ line.cells, ∃ role ∈ dialect.keyRoles, role.marker = marker := by
    simp only [Dialect.lacksKey, Bool.not_eq_false', List.any_eq_true, Dialect.isKeyMarker_iff]
  have hstrange := filter_zipIdx_eq_nil_iff line.cells fun marker => !dialect.allowsMarker marker
  simp only [Bool.not_eq_false', Dialect.allowsMarker_iff] at hstrange
  simp only [roleMarkers, List.append_eq_nil_iff, List.map_eq_nil_iff, hstrange, ← hlacks]
  simp

theorem dataTypes_eq_nil_iff (line : Line) :
    dataTypes dialect line = [] ↔
      ∀ literal ∈ line.cells, ∃ t ∈ dialect.dataTypes, t.literal = literal := by
  have hstrange := filter_zipIdx_eq_nil_iff line.cells fun literal =>
    (dialect.dataType? literal).isNone
  simp only [Dialect.isNone_dataType?_iff] at hstrange
  simp only [dataTypes, List.map_eq_nil_iff, hstrange]

/-- The three checks of a grammar find nothing just when it is complete. -/
theorem grammar_eq_nil_iff (document : Document) :
    grammar dialect document = [] ↔ Complete dialect document := by
  simp only [grammar, List.append_eq_nil_iff, columnCounts_eq_nil_iff, roleMarkers_eq_nil_iff,
    dataTypes_eq_nil_iff]
  constructor
  · intro ⟨⟨hwidths, hroles, hkey⟩, htypes⟩
    exact {
      typeWidth := hwidths _ (by simp [Document.lines])
      nameWidth := hwidths _ (by simp [Document.lines])
      rowWidth := fun line hline => hwidths line (by simp [Document.lines, hline])
      roles := hroles
      key := hkey
      types := htypes }
  · intro h
    refine ⟨⟨?_, h.roles, h.key⟩, h.types⟩
    intro line hline
    simp only [Document.lines, List.mem_cons] at hline
    rcases hline with rfl | rfl | rfl | hline
    · rfl
    · exact h.typeWidth
    · exact h.nameWidth
    · exact h.rowWidth line hline

example : (grammar .event (Document.parse "FK,\nstring,number\nid,n")).isEmpty = true := by
  decide

/-- A grammar in which nothing is found is complete, and its schema says all that its three lines
say. -/
theorem grammar_accepted (text : String) :
    (grammar dialect (Document.parse text) = [] ↔ Complete dialect (Document.parse text)) ∧
      (grammar dialect (Document.parse text) = [] →
        Faithful dialect (Document.parse text)
          (Schema.ofDocument (Document.parse text) dialect)) := by
  refine ⟨grammar_eq_nil_iff dialect _, fun h => ?_⟩
  exact ((grammar_eq_nil_iff dialect _).mp h).faithful

end Check

end TableIntake
