import Mathlib.Data.List.Forall2
import TableIntake.Batch.Convention

namespace TableIntake.Batch

/-! Normal forms of entry names: what normalizing takes away, that it comes to an end, and which
names it makes one. -/

def IsSeparator (c : Char) : Prop :=
  c = '/' ∨ c = '\\'

/-- A separator as a slash, any other character as it is. -/
def slashed (c : Char) : Char :=
  if c = '\\' then '/' else c

theorem toList_normalize (name : String) :
    (normalize name).toList = withoutLead (name.toList.map slashed) :=
  String.toList_ofList

theorem slashed_ne (c : Char) : slashed c ≠ '\\' := by
  unfold slashed
  split
  case isTrue => decide
  case isFalse h => exact h

theorem slashed_of_ne {c : Char} (h : c ≠ '\\') : slashed c = c :=
  if_neg h

theorem slashed_eq_slashed_iff (c d : Char) :
    slashed c = slashed d ↔ c = d ∨ IsSeparator c ∧ IsSeparator d := by
  unfold slashed IsSeparator
  grind

theorem map_slashed_of_not_mem {text : List Char} (h : '\\' ∉ text) : text.map slashed = text := by
  refine (List.map_congr_left fun c hc => slashed_of_ne ?_).trans (List.map_id' text)
  rintro rfl
  exact h hc

/-- What is left of a text after some turns of stripping. In each turn a slash, or a reference to
the current directory, goes from its start. -/
inductive Strips : Nat → List Char → List Char → Prop where
  | stop (text : List Char) : Strips 0 text text
  | here {turns : Nat} {text rest : List Char} :
      Strips turns text rest → Strips (turns + 1) ('.' :: '/' :: text) rest
  | slash {turns : Nat} {text rest : List Char} :
      Strips turns text rest → Strips (turns + 1) ('/' :: text) rest

/-- Only slashes and references to the current directory. -/
inductive Lead : List Char → Prop where
  | nil : Lead []
  | here {lead : List Char} : Lead lead → Lead ('.' :: '/' :: lead)
  | slash {lead : List Char} : Lead lead → Lead ('/' :: lead)

namespace Strips

variable {turns : Nat} {text rest : List Char}

theorem turns_le (h : Strips turns text rest) : turns + rest.length ≤ text.length := by
  induction h with
  | stop text => simp
  | here _ ih => simp only [List.length_cons]; omega
  | slash _ ih => simp only [List.length_cons]; omega

theorem exists_lead (h : Strips turns text rest) : ∃ lead, Lead lead ∧ text = lead ++ rest := by
  induction h with
  | stop text => exact ⟨[], .nil, rfl⟩
  | here _ ih =>
      obtain ⟨lead, hlead, rfl⟩ := ih
      exact ⟨_, hlead.here, rfl⟩
  | slash _ ih =>
      obtain ⟨lead, hlead, rfl⟩ := ih
      exact ⟨_, hlead.slash, rfl⟩

theorem withoutLead_eq (h : Strips turns text rest) : withoutLead text = withoutLead rest := by
  induction h with
  | stop text => rfl
  | here _ ih => exact ih
  | slash _ ih => exact ih

end Strips

theorem strips_withoutLead (text : List Char) : ∃ turns, Strips turns text (withoutLead text) := by
  fun_induction withoutLead text with
  | case1 text ih => exact ih.imp' (· + 1) fun _ => .here
  | case2 text ih => exact ih.imp' (· + 1) fun _ => .slash
  | case3 text hhere hslash => exact ⟨0, .stop text⟩

/-- Stripping goes on as long as it can. -/
theorem not_lead_withoutLead (text : List Char) :
    ¬ ['/'] <+: withoutLead text ∧ ¬ ['.', '/'] <+: withoutLead text := by
  fun_induction withoutLead text with
  | case1 text ih => exact ih
  | case2 text ih => exact ih
  | case3 text hhere hslash =>
      constructor
      · rintro ⟨rest, rfl⟩
        exact hslash rest rfl
      · rintro ⟨rest, rfl⟩
        exact hhere rest rfl

theorem Lead.withoutLead_append {lead : List Char} (h : Lead lead) (rest : List Char) :
    withoutLead (lead ++ rest) = withoutLead rest := by
  induction h with
  | nil => rfl
  | here _ ih => exact ih
  | slash _ ih => exact ih

theorem backslash_not_mem_normalize (name : String) : '\\' ∉ (normalize name).toList := by
  obtain ⟨turns, hstrips⟩ := strips_withoutLead (name.toList.map slashed)
  obtain ⟨lead, -, htext⟩ := hstrips.exists_lead
  rw [toList_normalize]
  intro hmem
  have hall : '\\' ∈ name.toList.map slashed := htext ▸ List.mem_append_right lead hmem
  obtain ⟨c, -, hc⟩ := List.mem_map.mp hall
  exact slashed_ne c hc

theorem normalize_normalize (name : String) : normalize (normalize name) = normalize name := by
  apply String.toList_inj.mp
  rw [toList_normalize (normalize name), map_slashed_of_not_mem (backslash_not_mem_normalize name),
    toList_normalize, withoutLead_withoutLead]

/-- The names differ only in the style of their separators, and in slashes and references to the
current directory at their start. -/
def SameButStyle (name other : String) : Prop :=
  ∃ lead rest before after, name.toList = lead ++ rest ∧ other.toList = before ++ after ∧
    Lead (lead.map slashed) ∧ Lead (before.map slashed) ∧
    List.Forall₂ (fun c d => c = d ∨ IsSeparator c ∧ IsSeparator d) rest after

theorem map_slashed_eq_iff (rest after : List Char) :
    rest.map slashed = after.map slashed ↔
      List.Forall₂ (fun c d => c = d ∨ IsSeparator c ∧ IsSeparator d) rest after := by
  simp only [← slashed_eq_slashed_iff, ← List.forall₂_map_left_iff,
    ← List.forall₂_map_right_iff, List.forall₂_eq_eq_eq]

/-- What is normalized away stands before the rest in the name itself. -/
theorem exists_rest (name : String) :
    ∃ lead rest, name.toList = lead ++ rest ∧ Lead (lead.map slashed) ∧
      rest.map slashed = (normalize name).toList := by
  obtain ⟨turns, hstrips⟩ := strips_withoutLead (name.toList.map slashed)
  obtain ⟨start, hstart, htext⟩ := hstrips.exists_lead
  obtain ⟨lead, rest, hname, rfl, hrest⟩ := List.map_eq_append_iff.mp htext
  exact ⟨lead, rest, hname, hstart, hrest.trans (toList_normalize name).symm⟩

theorem normalize_eq_normalize_iff (name other : String) :
    normalize name = normalize other ↔ SameButStyle name other := by
  constructor
  · intro hsame
    obtain ⟨lead, rest, hname, hlead, hrest⟩ := exists_rest name
    obtain ⟨before, after, hother, hbefore, hafter⟩ := exists_rest other
    refine ⟨lead, rest, before, after, hname, hother, hlead, hbefore, ?_⟩
    rw [← map_slashed_eq_iff, hrest, hafter, hsame]
  · rintro ⟨lead, rest, before, after, hname, hother, hlead, hbefore, hrest⟩
    apply String.toList_inj.mp
    rw [toList_normalize, toList_normalize, hname, hother, List.map_append, List.map_append,
      hlead.withoutLead_append, hbefore.withoutLead_append,
      (map_slashed_eq_iff rest after).mpr hrest]

/-- Stripping a name comes to an end, from wherever it has got to, and always at the normal form.
Two names have the same one just when they differ only in style. -/
theorem normalize_canonical :
    (∀ name : String,
      (∀ turns rest, Strips turns (name.toList.map slashed) rest →
        turns ≤ name.length ∧ ∃ more, Strips more rest (normalize name).toList) ∧
      '\\' ∉ (normalize name).toList ∧
      ¬ ['/'] <+: (normalize name).toList ∧ ¬ ['.', '/'] <+: (normalize name).toList ∧
      (∃ lead, Lead lead ∧ name.toList.map slashed = lead ++ (normalize name).toList) ∧
      normalize (normalize name) = normalize name) ∧
    ∀ name other, normalize name = normalize other ↔ SameButStyle name other := by
  refine ⟨fun name => ?_, normalize_eq_normalize_iff⟩
  obtain ⟨turns, hstrips⟩ := strips_withoutLead (name.toList.map slashed)
  obtain ⟨hslash, hhere⟩ := not_lead_withoutLead (name.toList.map slashed)
  rw [← toList_normalize] at hstrips hslash hhere
  refine ⟨?_, backslash_not_mem_normalize name, hslash, hhere, hstrips.exists_lead,
    normalize_normalize name⟩
  intro turns rest hrest
  have hle := hrest.turns_le
  rw [List.length_map, String.length_toList] at hle
  refine ⟨by omega, ?_⟩
  rw [toList_normalize, hrest.withoutLead_eq]
  exact strips_withoutLead rest

/-- After one turn the rest still starts with two references to the current directory. -/
theorem normalize_canonical_mixed :
    Strips 1 ("\\./.\\a".toList.map slashed) "././a".toList ∧
      ∃ more, Strips more "././a".toList (normalize "\\./.\\a").toList := by
  have hstrips : Strips 1 ("\\./.\\a".toList.map slashed) "././a".toList := .slash (.stop _)
  exact ⟨hstrips, ((normalize_canonical.1 _).1 1 _ hstrips).2⟩

end TableIntake.Batch
