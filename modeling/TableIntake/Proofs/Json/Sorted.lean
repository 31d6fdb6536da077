import Mathlib.Data.List.Induction
import TableIntake.Proofs.Json.Kept
import TableIntake.Proofs.Json.RoundTrip

namespace TableIntake.Json

/-! Data with its members in order, as it is written into one line and read from it again. -/

namespace Value

theorem sortedItems_eq (items : List Value) : sortedItems items = items.map sorted := by
  induction items with
  | nil => rfl
  | cons item items ih => rw [sortedItems, ih, List.map_cons]

theorem sortedMembers_eq (members : List (String × Value)) :
    sortedMembers members = members.map fun member => (member.1, member.2.sorted) := by
  induction members with
  | nil => rfl
  | cons member members ih => rw [sortedMembers, ih, List.map_cons]

theorem sortMembers_concat (members : List (String × Value)) (key : String) (value : Value) :
    sortMembers (members ++ [(key, value)]) = insertKey key value (sortMembers members) := by
  simp only [sortMembers, List.foldl_append, List.foldl_cons, List.foldl_nil]

theorem mem_sortMembers {members : List (String × Value)} {member : String × Value}
    (h : member ∈ sortMembers members) : member ∈ members := by
  induction members using List.reverseRecOn with
  | nil => exact h
  | append_singleton members last ih =>
      obtain ⟨key, value⟩ := last
      rw [sortMembers_concat] at h
      rcases of_mem_insertKey h with rfl | h
      · exact List.mem_append_right _ List.mem_cons_self
      · exact List.mem_append_left _ (ih h)

theorem pairwise_sortMembers (members : List (String × Value)) :
    (sortMembers members).Pairwise (·.1 < ·.1) := by
  induction members using List.reverseRecOn with
  | nil => exact .nil
  | append_singleton members last ih =>
      obtain ⟨key, value⟩ := last
      rw [sortMembers_concat]
      exact pairwise_insertKey key value ih

/-- What all members have before they are sorted, they have afterwards. -/
theorem forall_mem_sorted {members : List (String × Value)} {P : Value → Prop}
    (h : ∀ member ∈ members, P member.2.sorted) :
    ∀ member ∈ sortMembers (sortedMembers members), P member.2 := by
  intro member hmember
  have hmem := mem_sortMembers hmember
  rw [sortedMembers_eq] at hmem
  obtain ⟨source, hsource, rfl⟩ := List.mem_map.mp hmem
  exact h source hsource

theorem sortMembers_of_pairwise {members : List (String × Value)}
    (h : members.Pairwise (·.1 < ·.1)) : sortMembers members = members := by
  induction members using List.reverseRecOn with
  | nil => rfl
  | append_singleton members last ih =>
      obtain ⟨key, value⟩ := last
      obtain ⟨hmembers, -, hlast⟩ := List.pairwise_append.mp h
      rw [sortMembers_concat, ih hmembers]
      exact insertKey_last value fun member hmember =>
        hlast member hmember (key, value) List.mem_cons_self

/-- What is in order already stays as it is. -/
theorem sorted_of_ordered {v : Value} (h : v.Everywhere Ordered) : v.sorted = v := by
  induction v using nested_induction with
  | null => rfl
  | bool b => rfl
  | number n => rfl
  | string s => rfl
  | array items ih =>
      obtain ⟨-, hitems⟩ := everywhere_array.mp h
      have hmap : items.map sorted = items.map id :=
        List.map_congr_left fun item hitem => ih item hitem (hitems item hitem)
      rw [sorted, sortedItems_eq, hmap, List.map_id]
  | object members ih =>
      obtain ⟨hordered, hmembers⟩ := everywhere_object.mp h
      have hmap : (members.map fun member => (member.1, member.2.sorted)) = members.map id :=
        List.map_congr_left fun member hmember =>
          Prod.ext rfl (ih member hmember (hmembers member hmember))
      rw [sorted, sortedMembers_eq, hmap, List.map_id, sortMembers_of_pairwise hordered]

theorem everywhere_sorted {P : Value → Prop} (harray : ∀ items, P (.array items))
    (hobject : ∀ members, P (.object members)) {v : Value} (h : v.Everywhere P) :
    v.sorted.Everywhere P := by
  induction v using nested_induction with
  | null => exact h
  | bool b => exact h
  | number n => exact h
  | string s => exact h
  | array items ih =>
      obtain ⟨-, hitems⟩ := everywhere_array.mp h
      rw [sorted, sortedItems_eq]
      refine everywhere_array.mpr ⟨harray _, List.forall_mem_map.mpr fun item hitem => ?_⟩
      exact ih item hitem (hitems item hitem)
  | object members ih =>
      obtain ⟨-, hmembers⟩ := everywhere_object.mp h
      rw [sorted]
      refine everywhere_object.mpr ⟨hobject _, forall_mem_sorted fun member hmember => ?_⟩
      exact ih member hmember (hmembers member hmember)

theorem ordered_sorted (v : Value) : v.sorted.Everywhere Ordered := by
  induction v using nested_induction with
  | null => exact everywhere_null.mpr trivial
  | bool b => exact everywhere_bool.mpr trivial
  | number n => exact everywhere_number.mpr trivial
  | string s => exact everywhere_string.mpr trivial
  | array items ih =>
      rw [sorted, sortedItems_eq]
      exact everywhere_array.mpr ⟨trivial, List.forall_mem_map.mpr ih⟩
  | object members ih =>
      rw [sorted]
      exact everywhere_object.mpr ⟨pairwise_sortMembers _, forall_mem_sorted ih⟩

theorem depth_sorted_le (v : Value) : v.sorted.depth ≤ v.depth := by
  induction v using nested_induction with
  | null => exact Nat.le_refl _
  | bool b => exact Nat.le_refl _
  | number n => exact Nat.le_refl _
  | string s => exact Nat.le_refl _
  | array items ih =>
      rw [sorted, sortedItems_eq, depth, depth]
      refine Nat.succ_le_succ (itemsDepth_le.mpr (List.forall_mem_map.mpr fun item hitem => ?_))
      exact Nat.le_trans (ih item hitem) (itemsDepth_le.mp (Nat.le_refl _) item hitem)
  | object members ih =>
      rw [sorted, depth, depth]
      refine Nat.succ_le_succ (membersDepth_le.mpr
        (forall_mem_sorted (P := fun v => v.depth ≤ membersDepth members)
          fun member hmember => ?_))
      exact Nat.le_trans (ih member hmember) (membersDepth_le.mp (Nat.le_refl _) member hmember)

end Value

/-! Lines. -/

theorem newline_not_mem_escape (c : Char) : '\n' ∉ escape c := by
  unfold escape
  cases hshort : shortEscape? c with
  | some short =>
      have hall : ∀ pair ∈ shortEscapes, '\n' ∉ ['\\', pair.2] := by decide
      exact hall (c, short) (mem_shortEscapes hshort)
  | none =>
      simp only
      split
      case isTrue =>
          have hdigit : ∀ n, '\n' ≠ hexDigit n := by
            intro n
            have hall : ∀ m < 16, '\n' ≠ Nat.digitChar m := by decide
            exact hall (n % 16) (Nat.mod_lt n (by decide))
          simp [hdigit]
      case isFalse =>
          intro hmem
          rw [← List.mem_singleton.mp hmem] at hshort
          cases hshort

theorem newline_not_mem_quote (s : String) : '\n' ∉ quote s := by
  have hescaped : '\n' ∉ s.toList.flatMap escape := by
    intro hmem
    obtain ⟨c, -, hc⟩ := List.mem_flatMap.mp hmem
    exact newline_not_mem_escape c hc
  simp [quote, hescaped]

theorem newline_not_mem_integer (i : Int) : '\n' ∉ (Number.integer i).chars := by
  have hdigits (n : Nat) : '\n' ∉ Nat.toDigits 10 n := fun hmem =>
    absurd (Numeral.isDigit_of_mem_toDigits '\n' hmem) (by decide)
  cases i with
  | ofNat n =>
      rw [Int.ofNat_eq_natCast, Number.chars_natural]
      exact hdigits n
  | negSucc n =>
      rw [Number.chars_negative]
      exact List.not_mem_cons_of_ne_of_not_mem (by decide) (hdigits _)

theorem newline_not_mem_itemChars {items : List Value} (h : ∀ item ∈ items, '\n' ∉ item.chars) :
    '\n' ∉ itemChars items := by
  induction items with
  | nil => decide
  | cons item items ih =>
      obtain ⟨hitem, hitems⟩ := List.forall_mem_cons.mp h
      simp [itemChars, hitem, ih hitems]

theorem newline_not_mem_memberChars {members : List (String × Value)}
    (h : ∀ member ∈ members, '\n' ∉ member.2.chars) : '\n' ∉ memberChars members := by
  induction members with
  | nil => decide
  | cons member members ih =>
      obtain ⟨hmember, hmembers⟩ := List.forall_mem_cons.mp h
      simp [memberChars, newline_not_mem_quote, hmember, ih hmembers]

/-- Data without floating point numbers is written into one line. -/
theorem newline_not_mem_chars {v : Value} (h : v.Everywhere Value.NoDecimal) :
    '\n' ∉ v.chars := by
  induction v using Value.nested_induction with
  | null => decide
  | bool b => cases b <;> decide
  | number n =>
      cases n with
      | integer i => exact newline_not_mem_integer i
      | decimal bits => exact absurd (Value.everywhere_number.mp h) id
  | string s => exact newline_not_mem_quote s
  | array items ih =>
      obtain ⟨-, hitems⟩ := Value.everywhere_array.mp h
      have hlines : ∀ item ∈ items, '\n' ∉ item.chars :=
        fun item hitem => ih item hitem (hitems item hitem)
      cases items with
      | nil => decide
      | cons item items =>
          obtain ⟨hfirst, hothers⟩ := List.forall_mem_cons.mp hlines
          simp [Value.chars, hfirst, newline_not_mem_itemChars hothers]
  | object members ih =>
      obtain ⟨-, hmembers⟩ := Value.everywhere_object.mp h
      have hlines : ∀ member ∈ members, '\n' ∉ member.2.chars :=
        fun member hmember => ih member hmember (hmembers member hmember)
      cases members with
      | nil => decide
      | cons member members =>
          obtain ⟨hfirst, hothers⟩ := List.forall_mem_cons.mp hlines
          simp [Value.chars, newline_not_mem_quote, hfirst, newline_not_mem_memberChars hothers]

/-- Data that can be told in one line: it has no floating point numbers, its whole numbers fit, and
no more arrays and objects stand in each other than there is room for. -/
structure Tellable (room : Nat) (v : Value) : Prop where
  noDecimal : v.Everywhere Value.NoDecimal
  fits : v.Everywhere Value.Fits
  depth : v.depth ≤ room

namespace Tellable

variable {room : Nat} {v : Value}

theorem mono {more : Nat} (h : Tellable room v) (hroom : room ≤ more) : Tellable more v :=
  ⟨h.noDecimal, h.fits, Nat.le_trans h.depth hroom⟩

theorem null : Tellable room .null :=
  ⟨Value.everywhere_null.mpr trivial, Value.everywhere_null.mpr trivial, Nat.zero_le room⟩

theorem bool (b : Bool) : Tellable room (.bool b) :=
  ⟨Value.everywhere_bool.mpr trivial, Value.everywhere_bool.mpr trivial, Nat.zero_le room⟩

theorem string (s : String) : Tellable room (.string s) :=
  ⟨Value.everywhere_string.mpr trivial, Value.everywhere_string.mpr trivial, Nat.zero_le room⟩

theorem array {items : List Value} (h : ∀ item ∈ items, Tellable room item) :
    Tellable (room + 1) (.array items) where
  noDecimal := Value.everywhere_array.mpr ⟨trivial, fun item hitem => (h item hitem).noDecimal⟩
  fits := Value.everywhere_array.mpr ⟨trivial, fun item hitem => (h item hitem).fits⟩
  depth := Nat.succ_le_succ (Value.itemsDepth_le.mpr fun item hitem => (h item hitem).depth)

theorem object {members : List (String × Value)} (h : ∀ member ∈ members, Tellable room member.2) :
    Tellable (room + 1) (.object members) where
  noDecimal :=
    Value.everywhere_object.mpr ⟨trivial, fun member hmember => (h member hmember).noDecimal⟩
  fits := Value.everywhere_object.mpr ⟨trivial, fun member hmember => (h member hmember).fits⟩
  depth :=
    Nat.succ_le_succ (Value.membersDepth_le.mpr fun member hmember => (h member hmember).depth)

theorem sorted (h : Tellable room v) : Tellable room v.sorted where
  noDecimal := Value.everywhere_sorted (fun _ => trivial) (fun _ => trivial) h.noDecimal
  fits := Value.everywhere_sorted (fun _ => trivial) (fun _ => trivial) h.fits
  depth := Nat.le_trans v.depth_sorted_le h.depth

theorem newline_not_mem (h : Tellable room v) : '\n' ∉ v.render.toList := by
  rw [Value.render, String.toList_ofList]
  exact newline_not_mem_chars h.noDecimal

theorem parse_sorted (h : Tellable depthLimit v) : parse v.sorted.render = .ok v.sorted :=
  read_render h.sorted.noDecimal h.sorted.fits
    (recovered v.ordered_sorted depthLimit [] h.sorted.depth)

end Tellable

end TableIntake.Json
