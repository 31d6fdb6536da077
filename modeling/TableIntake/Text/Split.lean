namespace TableIntake.Text

/-! Splitting at every occurrence of a separator. -/

/-- The pieces between the separators; there is one more of them than of separators. -/
def split (separator : Char) : List Char → List (List Char)
  | [] => [[]]
  | c :: cs =>
      if c = separator then [] :: split separator cs
      else (split separator cs).modifyHead (c :: ·)

@[simp] theorem split_nil (separator : Char) : split separator [] = [[]] := rfl

theorem split_ne_nil (separator : Char) (cs : List Char) : split separator cs ≠ [] := by
  cases cs with
  | nil => simp
  | cons c cs =>
      by_cases h : c = separator
      · simp [split, h]
      · simp only [split, h, if_false]
        cases hs : split separator cs with
        | nil => exact absurd hs (split_ne_nil separator cs)
        | cons piece pieces => simp

theorem length_split (separator : Char) (cs : List Char) :
    (split separator cs).length = cs.count separator + 1 := by
  induction cs with
  | nil => rfl
  | cons c cs ih =>
      by_cases h : c = separator
      · simp [split, h, ih]
      · simp [split, h, ih]

theorem intercalate_split (separator : Char) (cs : List Char) :
    [separator].intercalate (split separator cs) = cs := by
  induction cs with
  | nil => rfl
  | cons c cs ih =>
      obtain ⟨piece, pieces, hsplit⟩ := List.exists_cons_of_ne_nil (split_ne_nil separator cs)
      rw [hsplit] at ih
      by_cases hc : c = separator
      · rw [split, if_pos hc, hsplit, List.intercalate_cons_cons, ih, hc]
        rfl
      · rw [split, if_neg hc, hsplit, List.modifyHead_cons]
        cases pieces with
        | nil =>
          simp at ih ⊢
          exact ih
        | cons next rest =>
            rw [List.intercalate_cons_cons] at ih ⊢
            rw [← ih]
            rfl

theorem not_mem_of_mem_split {separator : Char} {cs piece : List Char}
    (h : piece ∈ split separator cs) : separator ∉ piece := by
  induction cs generalizing piece with
  | nil =>
      obtain rfl : piece = [] := by simpa using h
      simp
  | cons c cs ih =>
      by_cases hc : c = separator
      · rw [split, if_pos hc, List.mem_cons] at h
        rcases h with rfl | h
        · simp
        · exact ih h
      · obtain ⟨first, rest, hsplit⟩ :=
          List.exists_cons_of_ne_nil (split_ne_nil separator cs)
        rw [split, if_neg hc, hsplit, List.modifyHead_cons, List.mem_cons] at h
        rcases h with rfl | h
        · have hfirst := ih (by rw [hsplit]; exact List.mem_cons_self)
          simp [hfirst, Ne.symm hc]
        · exact ih (by rw [hsplit]; exact List.mem_cons_of_mem _ h)

end TableIntake.Text
