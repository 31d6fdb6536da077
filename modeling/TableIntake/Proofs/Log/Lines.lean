import Mathlib.Data.List.Nodup
import TableIntake.Log.Entry
import TableIntake.Proofs.Json.Sorted
import TableIntake.Proofs.Text.ByteOrder

namespace TableIntake.Log

open TableIntake.Json
open TableIntake.Text (utf8 utf8_le_utf8_iff)

/-! Lines of a log: an entry is shown on one line, and all that it tells is read from it again. -/

/-! The order of the fields. -/

section Sorting

variable (a b c : String × String)

theorem key_le_trans (hab : decide (a.1 ≤ b.1) = true) (hbc : decide (b.1 ≤ c.1) = true) :
    decide (a.1 ≤ c.1) = true :=
  decide_eq_true (String.le_trans (of_decide_eq_true hab) (of_decide_eq_true hbc))

theorem key_le_total : (decide (a.1 ≤ b.1) || decide (b.1 ≤ a.1)) = true := by
  simpa using String.le_total a.1 b.1

end Sorting

theorem pairwise_sortFields (fields : List (String × String)) :
    (sortFields fields).Pairwise fun a b => utf8 a.1 ≤ utf8 b.1 := by
  have hsorted : (sortFields fields).Pairwise fun a b => decide (a.1 ≤ b.1) = true :=
    List.pairwise_mergeSort key_le_trans key_le_total fields
  refine hsorted.imp ?_
  intro a b hle
  exact (utf8_le_utf8_iff a.1 b.1).mpr (of_decide_eq_true hle)

/-- Fields of one key keep their order: none of them has to give way to another. -/
theorem filter_sortFields (fields : List (String × String)) (key : String) :
    (sortFields fields).filter (·.1 = key) = fields.filter (·.1 = key) := by
  have hsame : (fields.filter (·.1 = key)).Pairwise fun a b => decide (a.1 ≤ b.1) = true := by
    apply List.pairwise_of_forall_mem_list
    intro a ha b hb
    rw [of_decide_eq_true (List.mem_filter.mp ha).2, of_decide_eq_true (List.mem_filter.mp hb).2]
    exact decide_eq_true (String.le_refl key)
  have hsub : (fields.filter (·.1 = key)).Sublist (sortFields fields) :=
    List.sublist_mergeSort key_le_trans key_le_total hsame List.filter_sublist
  have hfilter := hsub.filter (·.1 = key)
  rw [List.filter_filter] at hfilter
  simp only [Bool.and_self] at hfilter
  have hlength := ((sortFields_perm fields).filter (·.1 = key)).length_eq
  exact (hfilter.eq_of_length hlength.symm).symm

/-- With a key for each, the order in which the fields are given does not matter. -/
theorem sortFields_eq_of_perm {fields other : List (String × String)}
    (hkeys : (fields.map Prod.fst).Nodup) (h : other.Perm fields) :
    sortFields other = sortFields fields := by
  have hperm : (sortFields other).Perm (sortFields fields) :=
    (sortFields_perm other).trans (h.trans (sortFields_perm fields).symm)
  refine hperm.eq_of_pairwise ?_ (pairwise_sortFields other) (pairwise_sortFields fields)
  intro a b ha hb hab hba
  have ha := (sortFields_perm other |>.trans h).mem_iff.mp ha
  have hb := (sortFields_perm fields).mem_iff.mp hb
  apply List.inj_on_of_nodup_map hkeys ha hb
  exact String.le_antisymm ((utf8_le_utf8_iff a.1 b.1).mp hab) ((utf8_le_utf8_iff b.1 a.1).mp hba)

/-! The line without its end. -/

namespace Entry

/-- What the line of an entry shows, in its order. -/
def shown (entry : Entry) : List (String × String) :=
  ("event", entry.event) :: ("severity", entry.severity.label) :: sortFields entry.fields

def body (entry : Entry) : List Char :=
  '\x7b' :: (quote "event" ++ ':' :: quote entry.event)
    ++ (("severity", entry.severity.label) :: sortFields entry.fields).flatMap fieldChars
    ++ ['\x7d']

theorem toList_line (entry : Entry) : entry.line.toList = entry.body ++ ['\n'] := by
  simp [line, body]

/-! The line as data. -/

def toMember (field : String × String) : String × Value :=
  (field.1, .string field.2)

theorem memberChars_map_toMember (fields : List (String × String)) :
    memberChars (fields.map toMember) = fields.flatMap fieldChars ++ ['\x7d'] := by
  induction fields with
  | nil => rfl
  | cons field fields ih =>
      rw [List.map_cons, toMember, memberChars, ih]
      simp [fieldChars, Value.chars]

theorem body_eq_chars (entry : Entry) :
    entry.body = (Value.object (entry.shown.map toMember)).chars := by
  rw [shown, List.map_cons, toMember, Value.chars, memberChars_map_toMember]
  simp [body, Value.chars]

theorem newline_not_mem_body (entry : Entry) : '\n' ∉ entry.body := by
  rw [body_eq_chars]
  apply newline_not_mem_chars
  refine Value.everywhere_object.mpr ⟨trivial, ?_⟩
  intro member hmember
  obtain ⟨field, -, rfl⟩ := List.mem_map.mp hmember
  exact Value.everywhere_string.mpr trivial

end Entry

/-- The member is read as the field. -/
def ReadAs (member : Option String × Outline) (field : String × String) : Prop :=
  member.1 = some field.1 ∧ ∀ expected, Reader.string expected member.2 = .ok field.2

theorem readAs_memberOutlines (fields : List (String × String)) (rest : List Char) :
    List.Forall₂ ReadAs (Value.memberOutlines (fields.map Entry.toMember) rest) fields := by
  induction fields with
  | nil => exact .nil
  | cons field fields ih =>
      refine .cons ⟨rfl, ?_⟩ ih
      intro expected
      simp [Value.outline, Reader.string]

theorem reads_members (fields : List (String × String)) :
    Reads (.object (fields.map Entry.toMember)) := by
  apply reads_object
  intro member hmember
  obtain ⟨field, -, rfl⟩ := List.mem_map.mp hmember
  exact reads_string field.2

theorem Entry.ofChars_body (entry : Entry) :
    ∃ members, Outline.ofChars entry.body = (.object members, []) ∧
      List.Forall₂ ReadAs members entry.shown := by
  refine ⟨_, ?_, readAs_memberOutlines entry.shown []⟩
  rw [body_eq_chars]
  have hreads := reads_members entry.shown _ [] Closed.nil (Nat.le_add_right _ 2)
  rwa [List.append_nil] at hreads

/-- The line of an entry ends with the only newline in it. Before that stands an object, whose
members are read as the event, the severity and the fields in the order of the bytes of their
keys. -/
theorem line_read :
    (∀ entry : Entry, ∃ body members sorted,
      entry.line.toList = body ++ ['\n'] ∧ '\n' ∉ body ∧
      Outline.ofChars body = (.object members, []) ∧
      List.Forall₂ ReadAs members
        (("event", entry.event) :: ("severity", entry.severity.label) :: sorted) ∧
      sorted.Pairwise (fun a b => utf8 a.1 ≤ utf8 b.1) ∧
      sorted.Perm entry.fields ∧
      ∀ key, sorted.filter (·.1 = key) = entry.fields.filter (·.1 = key)) ∧
    ∀ severity event fields other, (fields.map Prod.fst).Nodup → other.Perm fields →
      Entry.line ⟨severity, event, other⟩ = Entry.line ⟨severity, event, fields⟩ := by
  constructor
  · intro entry
    obtain ⟨members, hread, hmembers⟩ := entry.ofChars_body
    exact ⟨entry.body, members, sortFields entry.fields, entry.toList_line,
      entry.newline_not_mem_body, hread, hmembers, pairwise_sortFields entry.fields,
      sortFields_perm entry.fields, filter_sortFields entry.fields⟩
  · intro severity event fields other hkeys hperm
    simp only [Entry.line, sortFields_eq_of_perm hkeys hperm]

/-- One key is that of the event, and the values have much that is to be escaped. -/
def awkwardFields : List (String × String) :=
  [("event", "\"\n\x1f"), ("\u2028", ""), ("a", "\\")]

theorem line_read_awkwardFields :
    (awkwardFields.map Prod.fst).Nodup ∧ awkwardFields.reverse.Perm awkwardFields ∧
      Entry.line ⟨.warn, "E", awkwardFields.reverse⟩ =
        Entry.line ⟨.warn, "E", awkwardFields⟩ := by
  have hkeys : (awkwardFields.map Prod.fst).Nodup := by decide
  have hperm : awkwardFields.reverse.Perm awkwardFields := by decide
  exact ⟨hkeys, hperm, line_read.2 .warn "E" _ _ hkeys hperm⟩

end TableIntake.Log
