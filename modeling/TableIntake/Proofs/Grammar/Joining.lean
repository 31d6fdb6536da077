import TableIntake.Grammar.Line
import TableIntake.Proofs.Text.Pieces

namespace TableIntake.Grammar.Line

open TableIntake.Text

/-! The lines of a text that is put together from two. -/

def numbered (cell : List Char → List Char) (start : Nat) (segments : List (List Char)) :
    List Line :=
  (segments.zipIdx start).filterMap fun (raw, number) => ofChars? cell number raw

def moved (rows : Nat) (line : Line) : Line :=
  { line with number := line.number + rows }

variable (cell : List Char → List Char)

theorem ofChars?_congr {first second : List Char} (h : trim first = trim second)
    (number : Nat) : ofChars? cell number first = ofChars? cell number second := by
  simp only [ofChars?, h]

theorem ofChars?_of_blank {raw : List Char} (h : trim raw = []) (number : Nat) :
    ofChars? cell number raw = none := by
  simp only [ofChars?, h]

@[simp] theorem numbered_cons (start : Nat) (raw : List Char) (segments : List (List Char)) :
    numbered cell start (raw :: segments) =
      (ofChars? cell start raw).toList ++ numbered cell (start + 1) segments := by
  simp only [numbered, List.zipIdx_cons, List.filterMap_cons]
  cases ofChars? cell start raw with
  | none => rfl
  | some line => rfl

@[simp] theorem numbered_append (start : Nat) (before behind : List (List Char)) :
    numbered cell start (before ++ behind) =
      numbered cell start before ++ numbered cell (start + before.length) behind := by
  simp [numbered, List.zipIdx_append]

theorem numbered_of_blank (start : Nat) {segments : List (List Char)}
    (h : ∀ raw ∈ segments, trim raw = []) : numbered cell start segments = [] := by
  induction segments generalizing start with
  | nil => rfl
  | cons raw segments ih =>
      rw [numbered_cons, ofChars?_of_blank cell (h raw List.mem_cons_self),
        ih (start + 1) fun other hother => h other (List.mem_cons_of_mem raw hother)]
      rfl

theorem numbered_add (start rows : Nat) (segments : List (List Char)) :
    numbered cell (start + rows) segments = (numbered cell start segments).map (moved rows) := by
  induction segments generalizing start with
  | nil => rfl
  | cons raw segments ih =>
      rw [numbered_cons, numbered_cons, List.map_append, ← ih, Nat.add_right_comm]
      congr 1
      unfold ofChars?
      cases trim raw with
      | nil => rfl
      | cons c rest => rfl

theorem length_numbered (start : Nat) (segments : List (List Char)) :
    (numbered cell start segments).length = (segments.filter (trim · ≠ [])).length := by
  induction segments generalizing start with
  | nil => rfl
  | cons raw segments ih =>
      rw [numbered_cons, List.length_append, ih]
      unfold ofChars?
      cases hraw : trim raw with
      | nil => simp [hraw]
      | cons c rest => simp [hraw, Nat.add_comm]

/-- Blanks before a text only put its lines further down. -/
theorem numbered_blank_append {blanks : List Char} (h : ∀ c ∈ blanks, isBlank c = true)
    (start : Nat) (cs : List Char) :
    numbered cell start (split '\n' (blanks ++ cs)) =
      numbered cell (start + blanks.count '\n') (split '\n' cs) := by
  induction blanks generalizing start with
  | nil => rfl
  | cons c blanks ih =>
      have hrest := ih fun other hother => h other (List.mem_cons_of_mem c hother)
      by_cases hc : c = '\n'
      · have hnil : ofChars? cell start [] = none := ofChars?_of_blank cell rfl start
        rw [List.cons_append, split, if_pos hc, numbered_cons, hnil, hrest, hc,
          List.count_cons_self, Nat.add_right_comm, Nat.add_assoc]
        rfl
      · obtain ⟨piece, pieces, hsplit, hcons⟩ := split_cons_of_ne hc (blanks ++ cs)
        have htrim : trim (c :: piece) = trim piece :=
          trim_cons_of_blank (h c List.mem_cons_self) piece
        rw [List.count_cons_of_ne hc, ← hrest, List.cons_append, hcons, hsplit, numbered_cons,
          numbered_cons, ofChars?_congr cell htrim]

theorem numbered_append_blank {blanks : List Char} (h : ∀ c ∈ blanks, isBlank c = true)
    (start : Nat) (cs : List Char) :
    numbered cell start (split '\n' (cs ++ blanks)) = numbered cell start (split '\n' cs) := by
  obtain ⟨pieces, last, hcs, happend⟩ := split_append '\n' cs
  obtain ⟨first, rest, hblanks⟩ := List.exists_cons_of_ne_nil (split_ne_nil '\n' blanks)
  -- The first piece of the blanks ends the last line of the text; the others are blank lines.
  have hpiece : ∀ piece ∈ first :: rest, ∀ c ∈ piece, isBlank c = true := fun piece hmem c hc =>
    h c (subset_of_mem_split (hblanks ▸ hmem) hc)
  have hrest : ∀ piece ∈ rest, trim piece = [] := fun piece hmem =>
    trim_of_blank (hpiece piece (List.mem_cons_of_mem first hmem))
  rw [happend, hcs, hblanks, List.modifyHead_cons, numbered_append, numbered_append,
    numbered_cons, numbered_cons, numbered_of_blank cell _ hrest,
    ofChars?_congr cell (trim_append_blank (hpiece first List.mem_cons_self) last)]
  rfl

theorem ofText_eq_numbered (text : String) :
    ofText cell text = numbered cell 1 (split '\n' (trimStart text.toList)) := by
  obtain ⟨blanks, hblanks, heq⟩ := exists_trimEnd_append_blank (trimStart text.toList)
  rw [heq, numbered_append_blank cell hblanks]
  rfl

/-- How many lines there are behind the blanks at the start of a text. -/
def count (text : String) : Nat :=
  (split '\n' (trimStart text.toList)).length

/-- How many blank lines a text begins with. -/
def blankLead (text : String) : Nat :=
  ((split '\n' text.toList).takeWhile (trim · = [])).length

/-- How many lines of a text are not blank. -/
def filledCount (text : String) : Nat :=
  ((split '\n' text.toList).filter (trim · ≠ [])).length

theorem count_newline_of_blank {blanks cs : List Char} (h : ∀ c ∈ blanks, isBlank c = true)
    (hcs : ∃ c rest, cs = c :: rest ∧ isBlank c = false) :
    ((split '\n' (blanks ++ cs)).takeWhile (trim · = [])).length = blanks.count '\n' := by
  induction blanks with
  | nil =>
      obtain ⟨c, rest, rfl, hc⟩ := hcs
      have hne : c ≠ '\n' := by
        intro heq
        rw [heq] at hc
        exact absurd hc (by decide)
      obtain ⟨piece, pieces, hsplit⟩ := List.exists_cons_of_ne_nil (split_ne_nil '\n' rest)
      have hfilled : trim (c :: piece) ≠ [] := fun hnil =>
        Bool.false_ne_true (hc.symm.trans (trim_eq_nil_iff.mp hnil c List.mem_cons_self))
      simp [split, hne, hsplit, hfilled]
  | cons c blanks ih =>
      have hrest := ih fun other hother => h other (List.mem_cons_of_mem c hother)
      by_cases hc : c = '\n'
      · simp [split, hc, hrest]
      · obtain ⟨piece, pieces, hsplit, hcons⟩ := split_cons_of_ne hc (blanks ++ cs)
        have htrim : trim (c :: piece) = trim piece :=
          trim_cons_of_blank (h c List.mem_cons_self) piece
        rw [List.count_cons_of_ne hc, ← hrest, List.cons_append, hcons, hsplit,
          List.takeWhile_cons, List.takeWhile_cons, htrim]
        split
        · rfl
        · rfl

/-- The lines of a text that is not trimmed at its start stand further down by its blank lines. -/
theorem numbered_split (start : Nat) (text : String) :
    numbered cell (1 + start) (split '\n' text.toList) =
      (ofText cell text).map (moved (start + blankLead text)) := by
  obtain ⟨blanks, hblanks, htext⟩ := exists_blank_append_trimStart text.toList
  cases hrest : trimStart text.toList with
  | nil =>
      have hpieces : ∀ raw ∈ split '\n' text.toList, trim raw = [] := fun raw hraw =>
        trim_of_blank fun c hc =>
          List.dropWhile_eq_nil_iff.mp hrest c (subset_of_mem_split hraw hc)
      have hnil : ofText cell text = [] := by
        rw [ofText_eq_numbered, hrest]
        exact numbered_of_blank cell 1 (by simp)
      rw [numbered_of_blank cell _ hpieces, hnil]
      rfl
  | cons c rest =>
      have hc : isBlank c = false := by
        have hhead := List.head?_dropWhile_not isBlank text.toList
        simp only [trimStart] at hrest
        simpa [hrest] using hhead
      have hlead : blankLead text = blanks.count '\n' := by
        have hcount := count_newline_of_blank hblanks ⟨c, rest, hrest, hc⟩
        rwa [← htext] at hcount
      rw [hlead, ofText_eq_numbered, ← numbered_add, htext, numbered_blank_append cell hblanks,
        ← htext, ← Nat.add_assoc]

theorem length_ofText (text : String) : (ofText cell text).length = filledCount text := by
  have hlines := congrArg List.length (numbered_split cell 0 text)
  rw [length_numbered, List.length_map] at hlines
  exact hlines.symm

/-- The lines of a second text follow those of the first, numbered on. -/
theorem ofText_join {first second : String} (h : filledCount first ≠ 0) :
    ofText cell (first ++ "\n" ++ second) =
      ofText cell first ++ (ofText cell second).map (moved (count first + blankLead second)) := by
  have hfirst : trimStart first.toList ≠ [] := by
    intro hnil
    apply h
    rw [← length_ofText cell, ofText_eq_numbered, hnil]
    rfl
  -- The first text is not blank, so that trimming ends before the second one.
  have hjoined : trimStart (first ++ "\n" ++ second).toList =
      trimStart first.toList ++ '\n' :: second.toList := by
    have hnot : (first.toList.dropWhile isBlank).isEmpty = false :=
      List.isEmpty_eq_false_iff.mpr hfirst
    simp only [String.toList_append, List.append_assoc, trimStart, List.dropWhile_append, hnot]
    rfl
  rw [ofText_eq_numbered, hjoined, split_append_separator, numbered_append,
    ← ofText_eq_numbered, ← numbered_split]
  rfl

theorem blank_of_filledCount {text : String} (h : filledCount text = 0) :
    ∀ c ∈ text.toList, isBlank c = true := by
  intro c hc
  by_cases hnewline : c = '\n'
  · rw [hnewline]
    decide
  · obtain ⟨piece, hpiece, hmem⟩ := exists_mem_split hc hnewline
    have hblank : trim piece = [] := by
      simpa using List.filter_eq_nil_iff.mp (List.length_eq_zero_iff.mp h) piece hpiece
    exact trim_eq_nil_iff.mp hblank c hmem

/-- How many lines a text puts before another one that follows it. A blank text puts none there:
it is trimmed. -/
def shift (first second : String) : Nat :=
  if filledCount first = 0 then 0 else count first + blankLead second

theorem ofText_append (first second : String) :
    ofText cell (first ++ "\n" ++ second) =
      ofText cell first ++ (ofText cell second).map (moved (shift first second)) := by
  unfold shift
  split
  case isFalse h => exact ofText_join cell h
  case isTrue h =>
      have hfirst : ofText cell first = [] :=
        List.length_eq_zero_iff.mp ((length_ofText cell first).trans h)
      have hblank : ∀ c ∈ first.toList ++ "\n".toList, isBlank c = true := by
        intro c hc
        rcases List.mem_append.mp hc with hc | hc
        · exact blank_of_filledCount h c hc
        · rw [List.mem_singleton.mp hc]
          decide
      have hmoved : (ofText cell second).map (moved 0) = ofText cell second := List.map_id _
      rw [hfirst, hmoved, List.nil_append]
      simp only [ofText, String.toList_append, trim_blank_append hblank]

end TableIntake.Grammar.Line
