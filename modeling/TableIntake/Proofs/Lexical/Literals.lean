import TableIntake.Proofs.Lexical.Patterns

namespace TableIntake.Lexical

open TableIntake.Text

/-! Which cells are literals, blanks around them included. -/

/-- A text of the form, with blanks on both sides or none. -/
def Padded (form : List Char → Prop) (cs : List Char) : Prop :=
  ∃ before literal behind, (∀ c ∈ before, isBlank c = true) ∧ (∀ c ∈ behind, isBlank c = true) ∧
    form literal ∧ cs = before ++ (literal ++ behind)

theorem NumberForm.plain {cs : List Char} (h : NumberForm cs) :
    ∀ c ∈ cs, isBlank c = false ∧ c.toNat < 128 := by
  intro c hc
  have hletter := Pattern.mem_letters (Pattern.mem_number.mpr h) c hc
  have hall : (Pattern.letters .number).all (fun c => !isBlank c && c.toNat < 128) = true := by
    decide
  simpa using List.all_eq_true.mp hall c hletter

theorem padded_iff {form : List Char → Prop} (hform : ∀ cs, form cs → NumberForm cs)
    {cs : List Char} : Padded form cs ↔ form (trim cs) := by
  constructor
  · intro h
    obtain ⟨before, literal, behind, hbefore, hbehind, hliteral, rfl⟩ := h
    have hplain : ∀ c ∈ literal, ¬ isBlank c = true := by
      intro c hc
      rw [((hform literal hliteral).plain c hc).1]
      exact Bool.false_ne_true
    rwa [trim_blank_append hbefore, trim_append_blank hbehind, trim_of_not_blank hplain]
  · intro h
    obtain ⟨before, behind, hbefore, hbehind, heq⟩ := exists_blank_append_trim cs
    exact ⟨before, trim cs, behind, hbefore, hbehind, h, heq⟩

theorem isInteger_iff_padded (cell : String) :
    isInteger cell = true ↔ Padded IntegerForm cell.toList := by
  rw [isInteger_iff, padded_iff fun _ => IntegerForm.numberForm]

theorem isNumber_iff_padded (cell : String) :
    isNumber cell = true ↔ Padded NumberForm cell.toList := by
  rw [isNumber_iff, padded_iff fun _ => id]

theorem isNumber_of_isInteger {cell : String} (h : isInteger cell = true) :
    isNumber cell = true :=
  (isNumber_iff cell).mpr ((isInteger_iff cell).mp h).numberForm

/-- The cell is a literal of neither type. -/
def Rejected (cell : String) : Prop :=
  isInteger cell = false ∧ isNumber cell = false

theorem rejected_iff {cell : String} : Rejected cell ↔ ¬ Padded NumberForm cell.toList := by
  rw [← isNumber_iff_padded]
  constructor
  · intro h
    rw [h.2]
    exact Bool.false_ne_true
  · intro h
    refine ⟨(Bool.not_eq_true _).mp fun hinteger => h (isNumber_of_isInteger hinteger), ?_⟩
    exact (Bool.not_eq_true _).mp h

/-- A blank between characters that are none stands in what the blanks around it leave. -/
theorem mem_of_between {front back before literal behind : List Char} {c d e : Char}
    (heq : front ++ c :: back = before ++ (literal ++ behind))
    (hbefore : ∀ b ∈ before, isBlank b = true) (hbehind : ∀ b ∈ behind, isBlank b = true)
    (hd : d ∈ front) (hfront : isBlank d = false) (he : e ∈ back) (hback : isBlank e = false) :
    c ∈ literal := by
  have hd' : d ∉ before := by
    intro hmem
    rw [hbefore d hmem] at hfront
    cases hfront
  have he' : e ∉ behind := by
    intro hmem
    rw [hbehind e hmem] at hback
    cases hback
  rcases List.append_eq_append_iff.mp heq with ⟨rest, hrest, -⟩ | ⟨inner, -, hinner⟩
  · rw [hrest] at hd'
    exact absurd (List.mem_append_left rest hd) hd'
  · rcases List.append_eq_append_iff.mp hinner with ⟨rest, -, hrest⟩ | ⟨rest, hliteral, hrest⟩
    · rw [hrest] at he'
      exact absurd (List.mem_append_right rest (List.mem_cons_of_mem c he)) he'
    · cases rest with
      | nil =>
          rw [← show c :: back = behind from hrest] at he'
          exact absurd (List.mem_cons_of_mem c he) he'
      | cons first rest =>
          rw [hliteral, (List.cons.inj hrest).1]
          exact List.mem_append_right inner List.mem_cons_self

/-- Cells of integers and numbers are exactly the texts of their forms, which are those of two
regular expressions, with blanks around them. Blanks on the outside never matter; a blank on the
inside is no part of a literal, and neither is a character beyond ASCII that is none, such as a
digit of another script. -/
theorem literals_exact :
    (∀ cell : String, isInteger cell = true ↔ Padded IntegerForm cell.toList) ∧
    (∀ cell : String, isNumber cell = true ↔ Padded NumberForm cell.toList) ∧
    (∀ cs, IntegerForm cs ↔ cs ∈ Pattern.integer.matches') ∧
    (∀ cs, NumberForm cs ↔ cs ∈ Pattern.number.matches') ∧
    (∀ before cell behind : String, (∀ c ∈ before.toList, isBlank c = true) →
      (∀ c ∈ behind.toList, isBlank c = true) →
        isInteger (before ++ cell ++ behind) = isInteger cell ∧
          isNumber (before ++ cell ++ behind) = isNumber cell) ∧
    (∀ cell : String, ∀ c ∈ cell.toList, 128 ≤ c.toNat → isBlank c = false → Rejected cell) ∧
    ∀ (front back : String) (c : Char), isBlank c = true →
      (∃ d ∈ front.toList, isBlank d = false) → (∃ e ∈ back.toList, isBlank e = false) →
        Rejected (front ++ String.singleton c ++ back) := by
  refine ⟨isInteger_iff_padded, isNumber_iff_padded, fun _ => Pattern.mem_integer.symm,
    fun _ => Pattern.mem_number.symm, ?_, ?_, ?_⟩
  · intro before cell behind hbefore hbehind
    have htrim : trim (before ++ cell ++ behind).toList = trim cell.toList := by
      rw [String.toList_append, String.toList_append, trim_append_blank hbehind,
        trim_blank_append hbefore]
    simp only [isInteger, isNumber, htrim, and_self]
  · intro cell c hc hwide hblank
    rw [rejected_iff]
    intro h
    obtain ⟨before, literal, behind, hbefore, hbehind, hliteral, heq⟩ := h
    rw [heq, List.mem_append, List.mem_append] at hc
    rcases hc with hc | hc | hc
    · exact absurd (hbefore c hc) (Bool.eq_false_iff.mp hblank)
    · exact absurd (hliteral.plain c hc).2 (Nat.not_lt_of_le hwide)
    · exact absurd (hbehind c hc) (Bool.eq_false_iff.mp hblank)
  · intro front back c hblank hfront hback
    rw [rejected_iff]
    intro h
    obtain ⟨before, literal, behind, hbefore, hbehind, hliteral, heq⟩ := h
    obtain ⟨d, hd, hfront⟩ := hfront
    obtain ⟨e, he, hback⟩ := hback
    have hlists : front.toList ++ c :: back.toList = before ++ (literal ++ behind) := by
      rw [← heq]
      simp
    have hmem := mem_of_between hlists hbefore hbehind hd hfront he hback
    rw [(hliteral.plain c hmem).1] at hblank
    cases hblank

/-- A power of ten between wide blanks, a digit of another script, and a newline between digits. -/
theorem literals_exact_edges :
    isNumber "\u2003+.5E-07\n" = true ∧ Rejected "1٣" ∧ Rejected "1\n2" := by
  obtain ⟨-, -, -, -, hpadded, hwide, hbetween⟩ := literals_exact
  refine ⟨?_, ?_, ?_⟩
  · have hblank (blanks : String) (h : blanks.toList.all isBlank = true) :
        ∀ c ∈ blanks.toList, isBlank c = true := List.all_eq_true.mp h
    exact (hpadded "\u2003" "+.5E-07" "\n" (hblank _ (by decide)) (hblank _ (by decide))).2
  · exact hwide "1٣" '٣' (by decide) (by decide) (by decide)
  · exact hbetween "1" "2" '\n' (by decide) ⟨'1', by decide, by decide⟩ ⟨'2', by decide, by decide⟩

end TableIntake.Lexical
