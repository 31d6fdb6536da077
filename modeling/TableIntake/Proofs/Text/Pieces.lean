import Mathlib.Data.List.TakeWhile
import TableIntake.Text.Blank
import TableIntake.Text.Split

namespace TableIntake.Text

/-! Pieces and blanks of texts that stand one behind the other. -/

theorem split_cons_of_ne {separator c : Char} (h : c ≠ separator) (cs : List Char) :
    ∃ piece pieces, split separator cs = piece :: pieces ∧
      split separator (c :: cs) = (c :: piece) :: pieces := by
  obtain ⟨piece, pieces, hsplit⟩ := List.exists_cons_of_ne_nil (split_ne_nil separator cs)
  exact ⟨piece, pieces, hsplit, by rw [split, if_neg h, hsplit, List.modifyHead_cons]⟩

theorem split_append_separator (separator : Char) (xs ys : List Char) :
    split separator (xs ++ separator :: ys) = split separator xs ++ split separator ys := by
  induction xs with
  | nil => simp [split]
  | cons c xs ih =>
      obtain ⟨piece, pieces, hsplit⟩ := List.exists_cons_of_ne_nil (split_ne_nil separator xs)
      simp only [List.cons_append, split, ih, hsplit]
      split
      · rfl
      · rfl

/-- What is put behind a text goes on in its last piece. -/
theorem split_append (separator : Char) (xs : List Char) :
    ∃ pieces last, split separator xs = pieces ++ [last] ∧
      ∀ ys, split separator (xs ++ ys) =
        pieces ++ (split separator ys).modifyHead (last ++ ·) := by
  induction xs with
  | nil =>
      refine ⟨[], [], rfl, fun ys => ?_⟩
      obtain ⟨piece, pieces, hsplit⟩ := List.exists_cons_of_ne_nil (split_ne_nil separator ys)
      simp [hsplit]
  | cons c xs ih =>
      obtain ⟨pieces, last, hxs, happend⟩ := ih
      simp only [List.cons_append, split, hxs, happend]
      split
      · exact ⟨[] :: pieces, last, rfl, fun ys => rfl⟩
      · cases pieces with
        | nil =>
            refine ⟨[], c :: last, rfl, fun ys => ?_⟩
            simp [List.modifyHead_modifyHead, Function.comp_def]
        | cons piece pieces => exact ⟨(c :: piece) :: pieces, last, rfl, fun ys => rfl⟩

theorem subset_of_mem_split {separator : Char} {cs piece : List Char}
    (h : piece ∈ split separator cs) : piece ⊆ cs := by
  induction cs generalizing piece with
  | nil =>
      obtain rfl : piece = [] := by simpa using h
      exact List.Subset.refl []
  | cons c cs ih =>
      obtain ⟨first, rest, hsplit⟩ := List.exists_cons_of_ne_nil (split_ne_nil separator cs)
      simp only [split, hsplit, List.modifyHead_cons] at h
      simp only [hsplit, List.mem_cons] at ih
      split at h
      case isTrue =>
          cases h with
          | head => exact List.nil_subset _
          | tail _ hmem => exact List.subset_cons_of_subset c (ih (List.mem_cons.mp hmem))
      case isFalse =>
          cases h with
          | head => exact List.cons_subset_cons c (ih (Or.inl rfl))
          | tail _ hmem => exact List.subset_cons_of_subset c (ih (Or.inr hmem))

theorem exists_mem_split {separator c : Char} {cs : List Char} (h : c ∈ cs)
    (hc : c ≠ separator) : ∃ piece ∈ split separator cs, c ∈ piece := by
  induction cs with
  | nil => cases h
  | cons d cs ih =>
      by_cases hd : d = separator
      · have hrest : c ∈ cs := (List.mem_cons.mp h).resolve_left fun heq => hc (heq.trans hd)
        obtain ⟨piece, hpiece, hmem⟩ := ih hrest
        rw [split, if_pos hd]
        exact ⟨piece, List.mem_cons_of_mem [] hpiece, hmem⟩
      · obtain ⟨first, rest, hsplit, hcons⟩ := split_cons_of_ne hd cs
        rw [hcons]
        cases h with
        | head => exact ⟨c :: first, List.mem_cons_self, List.mem_cons_self⟩
        | tail _ hrest =>
            obtain ⟨piece, hpiece, hmem⟩ := ih hrest
            rw [hsplit] at hpiece
            cases hpiece with
            | head => exact ⟨d :: first, List.mem_cons_self, List.mem_cons_of_mem d hmem⟩
            | tail _ hpiece => exact ⟨piece, List.mem_cons_of_mem _ hpiece, hmem⟩

section Blanks

variable {blanks : List Char}

theorem trimStart_append (h : ∀ c ∈ blanks, isBlank c = true) (cs : List Char) :
    trimStart (blanks ++ cs) = trimStart cs :=
  List.dropWhile_append_of_pos h

theorem trim_cons_of_blank {c : Char} (h : isBlank c = true) (cs : List Char) :
    trim (c :: cs) = trim cs := by
  simp only [trim, trimStart, List.dropWhile_cons, h, if_true]

theorem trimEnd_append (h : ∀ c ∈ blanks, isBlank c = true) (cs : List Char) :
    trimEnd (cs ++ blanks) = trimEnd cs := by
  have hreverse : ∀ c ∈ blanks.reverse, isBlank c = true := fun c hc =>
    h c (List.mem_reverse.mp hc)
  simp only [trimEnd, List.reverse_append, List.dropWhile_append_of_pos hreverse]

theorem trimStart_of_blank (h : ∀ c ∈ blanks, isBlank c = true) : trimStart blanks = [] :=
  List.dropWhile_eq_nil_iff.mpr h

theorem trim_blank_append (h : ∀ c ∈ blanks, isBlank c = true) (cs : List Char) :
    trim (blanks ++ cs) = trim cs := by
  simp only [trim, trimStart_append h]

theorem trim_append_blank (h : ∀ c ∈ blanks, isBlank c = true) (cs : List Char) :
    trim (cs ++ blanks) = trim cs := by
  simp only [trim, trimStart, List.dropWhile_append]
  split
  case isTrue hempty =>
      rw [List.isEmpty_iff.mp hempty, List.dropWhile_eq_nil_iff.mpr h]
  case isFalse => exact trimEnd_append h _

theorem trim_of_blank (h : ∀ c ∈ blanks, isBlank c = true) : trim blanks = [] := by
  simp only [trim, trimStart_of_blank h]
  rfl

end Blanks

theorem exists_blank_append_trimStart (cs : List Char) :
    ∃ blanks, (∀ c ∈ blanks, isBlank c = true) ∧ cs = blanks ++ trimStart cs :=
  ⟨cs.takeWhile isBlank, List.all_eq_true.mp List.all_takeWhile,
    List.takeWhile_append_dropWhile.symm⟩

theorem exists_trimEnd_append_blank (cs : List Char) :
    ∃ blanks, (∀ c ∈ blanks, isBlank c = true) ∧ cs = trimEnd cs ++ blanks := by
  obtain ⟨blanks, hblanks, heq⟩ := exists_blank_append_trimStart cs.reverse
  refine ⟨blanks.reverse, fun c hc => hblanks c (List.mem_reverse.mp hc), ?_⟩
  apply List.reverse_inj.mp
  simpa [trimEnd, trimStart] using heq

theorem exists_blank_append_trim (cs : List Char) :
    ∃ before behind, (∀ c ∈ before, isBlank c = true) ∧ (∀ c ∈ behind, isBlank c = true) ∧
      cs = before ++ (trim cs ++ behind) := by
  obtain ⟨before, hbefore, hstart⟩ := exists_blank_append_trimStart cs
  obtain ⟨behind, hbehind, hend⟩ := exists_trimEnd_append_blank (trimStart cs)
  refine ⟨before, behind, hbefore, hbehind, ?_⟩
  calc cs
      _ = before ++ trimStart cs := hstart
      _ = before ++ (trim cs ++ behind) := congrArg (before ++ ·) hend

@[simp] theorem trim_trim (cs : List Char) : trim (trim cs) = trim cs := by
  obtain ⟨before, behind, hbefore, hbehind, heq⟩ := exists_blank_append_trim cs
  calc trim (trim cs)
      _ = trim (trim cs ++ behind) := (trim_append_blank hbehind _).symm
      _ = trim (before ++ (trim cs ++ behind)) := (trim_blank_append hbefore _).symm
      _ = trim cs := by rw [← heq]

theorem trim_eq_nil_iff {cs : List Char} : trim cs = [] ↔ ∀ c ∈ cs, isBlank c = true := by
  refine ⟨fun h => ?_, trim_of_blank⟩
  obtain ⟨before, behind, hbefore, hbehind, heq⟩ := exists_blank_append_trim cs
  rw [h, List.nil_append] at heq
  rw [heq]
  intro c hc
  exact (List.mem_append.mp hc).elim (hbefore c) (hbehind c)

theorem trim_subset (cs : List Char) : trim cs ⊆ cs := by
  obtain ⟨before, behind, -, -, heq⟩ := exists_blank_append_trim cs
  intro c hc
  rw [heq]
  exact List.mem_append_right before (List.mem_append_left behind hc)

theorem length_trim_le (cs : List Char) : (trim cs).length ≤ cs.length := by
  obtain ⟨before, behind, -, -, heq⟩ := exists_blank_append_trim cs
  have hlength := congrArg List.length heq
  rw [List.length_append, List.length_append] at hlength
  omega

theorem trimStart_of_not_blank {cs : List Char} (h : ∀ c ∈ cs, ¬isBlank c = true) :
    trimStart cs = cs :=
  List.dropWhile_eq_self_iff.mpr fun hlength => h _ (List.getElem_mem hlength)

theorem trim_of_not_blank {cs : List Char} (h : ∀ c ∈ cs, ¬isBlank c = true) : trim cs = cs := by
  have hreverse : trimStart cs.reverse = cs.reverse :=
    trimStart_of_not_blank fun c hc => h c (List.mem_reverse.mp hc)
  rw [trim, trimStart_of_not_blank h, trimEnd, ← trimStart, hreverse, List.reverse_reverse]

end TableIntake.Text
