import Mathlib.Tactic.SplitIfs
import TableIntake.Keyed

namespace TableIntake

/-! Lists that are kept in the order of their keys: what an insertion adds, and what it leaves. -/

variable {key : String} {value : α} {pairs : List (String × α)} {pair : String × α}

theorem of_mem_insertKey (h : pair ∈ insertKey key value pairs) :
    pair = (key, value) ∨ pair ∈ pairs := by
  induction pairs with
  | nil => exact Or.inl (List.mem_singleton.mp h)
  | cons first pairs ih => grind [insertKey]

theorem pairwise_insertKey (key : String) (value : α) (h : pairs.Pairwise (·.1 < ·.1)) :
    (insertKey key value pairs).Pairwise (·.1 < ·.1) := by
  induction pairs with
  | nil => exact List.pairwise_singleton ..
  | cons first pairs ih =>
      obtain ⟨k, v⟩ := first
      obtain ⟨hfirst, hpairs⟩ := List.pairwise_cons.mp h
      rw [insertKey]
      split_ifs with hlt heq
      · refine List.pairwise_cons.mpr ⟨?_, h⟩
        intro pair hpair
        obtain rfl | hpair := List.mem_cons.mp hpair
        · exact hlt
        · exact String.lt_trans hlt (hfirst pair hpair)
      · subst heq
        exact List.pairwise_cons.mpr ⟨hfirst, hpairs⟩
      · have hgt : k < key := Std.lt_of_le_of_ne (String.not_lt.mp hlt) (Ne.symm heq)
        refine List.pairwise_cons.mpr ⟨?_, ih hpairs⟩
        intro pair hpair
        obtain rfl | hpair := of_mem_insertKey hpair
        · exact hgt
        · exact hfirst pair hpair

/-- Behind all other keys the key comes last. -/
theorem insertKey_last (value : α) (h : ∀ pair ∈ pairs, pair.1 < key) :
    insertKey key value pairs = pairs ++ [(key, value)] := by
  induction pairs with
  | nil => rfl
  | cons first pairs ih =>
      obtain ⟨k, v⟩ := first
      obtain ⟨hfirst, hpairs⟩ := List.forall_mem_cons.mp h
      have hne : key ≠ k := fun heq => String.lt_irrefl k (heq ▸ hfirst)
      rw [insertKey, if_neg (String.lt_asymm hfirst), if_neg hne, ih hpairs, List.cons_append]

/-- What stood there under the key is gone, and all else is still there. -/
theorem mem_insertKey (h : pairs.Pairwise (·.1 < ·.1)) :
    pair ∈ insertKey key value pairs ↔
      pair = (key, value) ∨ (pair.1 ≠ key ∧ pair ∈ pairs) := by
  induction pairs with
  | nil => simp [insertKey]
  | cons first pairs ih =>
      obtain ⟨k, v⟩ := first
      obtain ⟨hfirst, hpairs⟩ := List.pairwise_cons.mp h
      have hlater : pair ∈ pairs → k < pair.1 := hfirst pair
      have hrest := ih hpairs
      rw [insertKey]
      split_ifs with hlt heq
      · have hne : pair ∈ (k, v) :: pairs → pair.1 ≠ key := by
          intro hmem
          obtain rfl | hmem := List.mem_cons.mp hmem
          · exact (String.ne_of_lt hlt).symm
          · exact (String.ne_of_lt (String.lt_trans hlt (hlater hmem))).symm
        grind
      · subst heq
        have hne : pair ∈ pairs → pair.1 ≠ key := fun hmem => (String.ne_of_lt (hlater hmem)).symm
        grind
      · grind

end TableIntake
