import Mathlib.Algebra.Group.Nat.Defs
import TableIntake.Proofs.Check.Dialects
import TableIntake.Proofs.Grammar.Joining
import TableIntake.Proofs.Grammar.Lines

namespace TableIntake

open TableIntake.Grammar
open TableIntake.Text

/-! Rows under which lines of a wrong width are reported, and where two of them can get mixed up. -/

namespace Grammar

namespace Line.StandsIn

variable {cell : List Char → List Char} {text : String} {line : Line}

theorem width_pos (h : StandsIn cell text line) : 0 < line.width := by
  obtain ⟨segment, -, -, -, hcells⟩ := h
  rw [width, hcells, List.length_map]
  exact List.length_pos_iff.mpr (split_ne_nil ',' (trim segment))

/-- There is a newline before each line but the first one, and something else in the line. -/
theorem number_le_length (h : StandsIn cell text line) : line.number ≤ text.length := by
  obtain ⟨segment, -, hsegment, hfilled, -⟩ := h
  have hmem := List.mem_of_getElem? hsegment
  obtain ⟨c, rest, hcons⟩ : ∃ c rest, segment = c :: rest := by
    apply List.exists_cons_of_ne_nil
    rintro rfl
    exact hfilled rfl
  have hc : c ∈ segment := hcons ▸ List.mem_cons_self
  have hother : c ≠ '\n' := fun heq => not_mem_of_mem_split hmem (heq ▸ hc)
  have hcount : (trim text.toList).count '\n' < (trim text.toList).length := by
    apply Nat.lt_of_le_of_ne List.count_le_length
    intro heq
    exact hother (List.count_eq_length.mp heq c (subset_of_mem_split hmem hc)).symm
  have hnumber : line.number - 1 < (split '\n' (trim text.toList)).length :=
    (List.getElem?_eq_some_iff.mp hsegment).1
  have htrim := length_trim_le text.toList
  rw [length_split] at hnumber
  rw [String.length_toList] at htrim
  omega

end Line.StandsIn

/-- What stands in the place of lines that are not there. -/
def absent : List Line :=
  [⟨1, []⟩, ⟨2, []⟩, ⟨3, []⟩]

theorem lines_ofLines (lines : List Line) :
    (Document.ofLines lines).lines = lines ++ absent.drop lines.length := by
  match lines with
  | [] => rfl
  | [_] => rfl
  | [_, _] => rfl
  | _ :: _ :: _ :: _ => simp [Document.ofLines, Document.lines, absent]

theorem width_ofLines_cons (role : Line) (rest : List Line) :
    (Document.ofLines (role :: rest)).width = role.width := by
  match rest with
  | [] => rfl
  | [_] => rfl
  | _ :: _ :: _ => rfl

end Grammar

namespace Check

/-- The lines that are not as wide as the first one. -/
def misfits (document : Document) : List Line :=
  document.lines.filter (·.width ≠ document.width)

/-- Two lines of different widths with a blank line between them, and no third one. -/
def Gapped (lines : List Line) : Prop :=
  ∃ role type, lines = [role, type] ∧ 2 < type.number ∧ type.width ≠ role.width

/-- The rows of the findings about widths. -/
def widthRows (dialect : Dialect) (findings : List Finding) : List Int64 :=
  (findings.filter (·.code = dialect.code .columnCount)).map (·.row)

theorem not_gapped_of_length {lines : List Line} (h : lines.length ≠ 2) : ¬ Gapped lines := by
  rintro ⟨role, type, rfl, -⟩
  exact h rfl

/-- Findings of one kind are not about widths if that kind is another one. -/
theorem filter_eq_nil_of_kind {dialect : Dialect} (h : dialect.Telling) {kind : FindingKind}
    (hkind : kind ≠ .columnCount) {findings : List Finding}
    (hcode : ∀ finding ∈ findings, finding.code = dialect.code kind) :
    findings.filter (·.code = dialect.code .columnCount) = [] := by
  apply List.filter_eq_nil_iff.mpr
  intro finding hfinding hwidth
  exact h.code_ne hkind ((hcode finding hfinding).symm.trans (of_decide_eq_true hwidth))

theorem filter_columnCount_grammar {dialect : Dialect} (h : dialect.Telling)
    (document : Document) :
    (grammar dialect document).filter (·.code = dialect.code .columnCount) =
      columnCounts dialect document := by
  have hwidths : (columnCounts dialect document).filter (·.code = dialect.code .columnCount) =
      columnCounts dialect document := by
    apply List.filter_eq_self.mpr
    intro finding hfinding
    obtain ⟨line, -, rfl⟩ := List.mem_map.mp hfinding
    exact decide_eq_true rfl
  have hroles : ∀ finding ∈ roleMarkers dialect document.roleLine,
      finding.code = dialect.code .invalidRole := by
    intro finding hfinding
    rcases mem_roleMarkers hfinding with ⟨marker, column, rfl⟩ | rfl
    · rfl
    · rfl
  have htypes : ∀ finding ∈ dataTypes dialect document.typeLine,
      finding.code = dialect.code .invalidDataType := by
    intro finding hfinding
    obtain ⟨⟨literal, column⟩, -, rfl⟩ := List.mem_map.mp hfinding
    rfl
  rw [grammar, List.filter_append, List.filter_append, hwidths,
    filter_eq_nil_of_kind h (by decide) hroles, filter_eq_nil_of_kind h (by decide) htypes,
    List.append_nil, List.append_nil]

theorem widthRows_grammar {dialect : Dialect} (h : dialect.Telling) (document : Document) :
    widthRows dialect (grammar dialect document) =
      (misfits document).map fun line => Int64.ofNat line.number := by
  rw [widthRows, filter_columnCount_grammar h, columnCounts, List.map_map]
  rfl

/-- A line that is not there has no cells, and so it is a misfit where another line is there. -/
theorem misfits_cons {role : Line} (h : 0 < role.width) (rest : List Line) :
    misfits (Document.ofLines (role :: rest)) =
      rest.filter (·.width ≠ role.width) ++ absent.drop (rest.length + 1) := by
  have hnone : ∀ line ∈ absent, line.width = 0 := by decide
  have habsent : (absent.drop (rest.length + 1)).filter (·.width ≠ role.width) =
      absent.drop (rest.length + 1) := by
    apply List.filter_eq_self.mpr
    intro line hline
    rw [hnone line (List.mem_of_mem_drop hline)]
    exact decide_eq_true (Nat.ne_of_lt h)
  rw [misfits, lines_ofLines, width_ofLines_cons, List.filter_append, List.length_cons, habsent,
    List.filter_cons_of_neg (by simp)]

theorem misfits_pair {role type : Line} (h : 0 < role.width) (hne : type.width ≠ role.width) :
    misfits (Document.ofLines [role, type]) = [type, ⟨3, []⟩] := by
  have hkept : [type].filter (·.width ≠ role.width) = [type] :=
    List.filter_cons_of_pos (decide_eq_true hne)
  rw [misfits_cons h, hkept]
  rfl

theorem sublist_misfits (document : Document) : (misfits document).Sublist document.lines :=
  List.filter_sublist

/-- Lines that are there come in order. Only the number of one that is not can fall behind theirs,
or coincide with one of them. -/
theorem pairwise_misfits_iff {lines : List Line} (hordered : lines.Pairwise (·.number < ·.number))
    (hwidth : ∀ line ∈ lines, 0 < line.width) :
    (misfits (Document.ofLines lines)).Pairwise (·.number < ·.number) ↔ ¬ Gapped lines := by
  have habsent (n : Nat) : (absent.drop n).Pairwise (·.number < ·.number) := by
    have hall : absent.Pairwise (·.number < ·.number) := by decide
    exact hall.sublist (List.drop_sublist n absent)
  match lines with
  | [] => exact iff_of_true (by decide) (not_gapped_of_length (by decide))
  | [role] =>
      rw [misfits_cons (hwidth role List.mem_cons_self), List.filter_nil, List.nil_append]
      exact iff_of_true (habsent _) (not_gapped_of_length (by simp))
  | [role, type] =>
      have hrole := hwidth role List.mem_cons_self
      by_cases hsame : type.width = role.width
      · rw [misfits_cons hrole, List.filter_cons_of_neg (by simpa using hsame), List.filter_nil,
          List.nil_append]
        apply iff_of_true (habsent _)
        rintro ⟨_, _, heq, -, hne⟩
        cases heq
        exact hne hsame
      · rw [misfits_pair hrole hsame, List.pairwise_pair]
        constructor
        · rintro hlt ⟨_, _, heq, hgap, -⟩
          cases heq
          exact Nat.not_lt.mpr hgap hlt
        · intro hnot
          exact Nat.lt_of_not_le fun hgap => hnot ⟨role, type, rfl, hgap, hsame⟩
  | role :: type :: name :: rows =>
      have hthere : (Document.ofLines (role :: type :: name :: rows)).lines =
          role :: type :: name :: rows := rfl
      apply iff_of_true (hordered.sublist (hthere ▸ sublist_misfits _))
      exact not_gapped_of_length (by simp)

theorem number_lt_of_mem_misfits {text : String} (h : text.length < 2 ^ 63) {line : Line}
    (hline : line ∈ misfits (Document.parse text)) : line.number < 2 ^ 63 := by
  have hmem := (sublist_misfits _).subset hline
  rw [Document.parse, lines_ofLines] at hmem
  rcases List.mem_append.mp hmem with hthere | hnot
  · have hstands := ((Line.enumerates_ofText trim text).mem_iff line).mp hthere
    exact Nat.lt_of_le_of_lt hstands.number_le_length h
  · have habsent : ∀ line ∈ absent, line.number < 2 ^ 63 := by decide
    exact habsent line (List.mem_of_mem_drop hnot)

/-- The findings about widths are about the misfits, in their order and under their numbers. These
are in order, too, and no two of them are equal, unless a grammar breaks off behind two lines of
different widths with a blank line between them: the name line, which is not there, is reported as
the third one all the same, behind the type line, which has that number or a higher one. Texts have
fewer than `2 ^ 63` characters; beyond that, rows run over. -/
theorem checkGrammar_ordered (variant : Variant) (grammar : String) (journal : Log.Journal) :
    let lines := Line.ofText trim grammar
    let rows := widthRows variant.dialect ((variant.checkGrammar grammar).run journal).1
    Line.Enumerates trim grammar lines ∧
      rows = (misfits (Document.ofLines lines)).map (fun line => Int64.ofNat line.number) ∧
      ((misfits (Document.ofLines lines)).Pairwise (·.number < ·.number) ↔ ¬ Gapped lines) ∧
      (∀ role type, lines = [role, type] → Gapped lines →
        misfits (Document.ofLines lines) = [type, ⟨3, []⟩]) ∧
      (grammar.length < 2 ^ 63 → (rows.Pairwise (· < ·) ↔ ¬ Gapped lines)) := by
  intro lines rows
  have henumerates := Line.enumerates_ofText trim grammar
  have hwidth : ∀ line ∈ lines, 0 < line.width := fun line hline =>
    ((henumerates.mem_iff line).mp hline).width_pos
  have hrows : rows =
      (misfits (Document.ofLines lines)).map fun line => Int64.ofNat line.number :=
    widthRows_grammar (telling_dialect variant) (Document.parse grammar)
  have hiff := pairwise_misfits_iff henumerates.ordered hwidth
  refine ⟨henumerates, hrows, hiff, ?_, ?_⟩
  · rintro role type heq ⟨_, _, hpair, -, hne⟩
    rw [heq] at hpair hwidth
    cases hpair
    rw [heq]
    exact misfits_pair (hwidth role List.mem_cons_self) hne
  · intro hlength
    have hnumber : ∀ line ∈ misfits (Document.ofLines lines), line.number < 2 ^ 63 :=
      fun line => number_lt_of_mem_misfits hlength
    rw [hrows, List.pairwise_map, ← hiff]
    apply List.Pairwise.iff_of_mem
    intro first second hfirst hsecond
    exact Int64.ofNat_lt_iff_lt (hnumber first hfirst) (hnumber second hsecond)

/-- Blank lines do no harm where there are three lines or more. -/
theorem checkGrammar_ordered_blankLines :
    let grammar := "PK,\n\nstring\n\nid,n\nx"
    let rows := widthRows Variant.dimension.dialect
      ((Variant.dimension.checkGrammar grammar).run {}).1
    grammar.length < 2 ^ 63 ∧ rows.Pairwise (· < ·) ∧ rows = [3, 6] := by
  intro grammar rows
  have hlength : grammar.length < 2 ^ 63 := by decide +kernel
  have hfour : (Line.ofText trim grammar).length = 4 := by decide +kernel
  have hnot : ¬ Gapped (Line.ofText trim grammar) := not_gapped_of_length (by simp [hfour])
  obtain ⟨-, -, -, -, hrows⟩ := checkGrammar_ordered .dimension grammar {}
  exact ⟨hlength, (hrows hlength).mpr hnot, by decide +kernel⟩

/-- Behind one blank line, the type line and the name line that is not there are reported under
the same number; behind two, under numbers that run backwards. -/
theorem checkGrammar_unordered :
    let rows (grammar : String) := widthRows Variant.dimension.dialect
      ((Variant.dimension.checkGrammar grammar).run {}).1
    rows "PK\n\nstring,string" = [3, 3] ∧ ¬ (rows "PK\n\nstring,string").Pairwise (· < ·) ∧
      rows "PK\n\n\nstring,string" = [4, 3] ∧
      ¬ (rows "PK\n\n\nstring,string").Pairwise (· < ·) := by
  decide +kernel

end Check

end TableIntake
