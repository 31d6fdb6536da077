import TableIntake.Batch.Workers

namespace TableIntake.Batch

/-! However many workers there are, the results are those of the items in their order. -/

/-- The action has the value, whatever the state it starts from. -/
def Gives (action : StateM σ α) (value : α) : Prop :=
  ∀ s, (action.run s).1 = value

theorem Gives.pure (value : α) : Gives (pure value : StateM σ α) value :=
  fun _ => rfl

theorem Gives.bind {action : StateM σ α} {next : α → StateM σ β} {value : α} {result : β}
    (hfirst : Gives action value) (hnext : Gives (next value) result) :
    Gives (action >>= next) result := by
  intro s
  have hvalue := hfirst s
  rcases hrun : action.run s with ⟨a, middle⟩
  rw [hrun] at hvalue
  subst hvalue
  rw [StateT.run_bind, hrun]
  exact hnext middle

theorem Gives.mapM {work : α → StateM σ β} {value : α → β} :
    (items : List α) → (∀ item ∈ items, Gives (work item) (value item)) →
      Gives (items.mapM work) (items.map value)
  | [], _ => Gives.pure []
  | item :: items, h => by
      rw [List.mapM_cons, List.map_cons]
      refine (h item List.mem_cons_self).bind (Gives.bind ?_ (Gives.pure _))
      exact Gives.mapM items fun other hother => h other (List.mem_cons_of_mem item hother)

theorem flatMap_filter_perm (key : α → Nat) (items : List α) (bound : Nat) :
    ((List.range bound).flatMap fun group => items.filter (key · = group)).Perm
      (items.filter (key · < bound)) := by
  induction bound with
  | zero => simp
  | succ bound ih =>
      let low (item : α) : Bool := decide (key item < bound)
      have hlow : (items.filter (key · < bound + 1)).filter low = items.filter low := by
        rw [List.filter_filter]
        refine List.filter_congr fun item _ => ?_
        rw [← Bool.decide_and, decide_eq_decide]
        omega
      have hhigh : (items.filter (key · < bound + 1)).filter (!low ·) =
          items.filter (key · = bound) := by
        rw [List.filter_filter]
        refine List.filter_congr fun item _ => ?_
        rw [← decide_not, ← Bool.decide_and, decide_eq_decide]
        omega
      rw [List.range_succ, List.flatMap_append, List.flatMap_singleton]
      refine (ih.append_right _).trans ?_
      have hsplit := List.filter_append_perm low (items.filter (key · < bound + 1))
      rwa [hlow, hhigh] at hsplit

theorem flatten_deal_perm (items : List α) {workers : Nat} (h : 0 < workers) :
    (deal workers items).flatten.Perm (items.zipIdx.map Prod.swap) := by
  have hall : items.zipIdx.filter (fun entry => entry.2 % workers < workers) =
      items.zipIdx :=
    List.filter_eq_self.mpr fun entry _ => by simpa using Nat.mod_lt entry.2 h
  have hgroups := flatMap_filter_perm (fun entry : α × Nat => entry.2 % workers)
    items.zipIdx workers
  rw [hall] at hgroups
  rw [deal, ← List.flatMap_def, ← List.map_flatMap]
  exact hgroups.map Prod.swap

theorem pairwise_positions (values : List α) (start : Nat) :
    ((values.zipIdx start).map Prod.swap).Pairwise fun a b => a.1 < b.1 := by
  rw [List.pairwise_map]
  have hrange : ((values.zipIdx start).map Prod.snd).Pairwise (· < ·) := by
    rw [List.zipIdx_map_snd]
    exact List.pairwise_lt_range'
  exact List.pairwise_map.mp hrange

/-- Results are put in the order of their positions, whatever order they come in. -/
theorem gather_of_perm {results : List (Nat × α)} {values : List α}
    (h : results.Perm (values.zipIdx.map Prod.swap)) : gather results = values := by
  let le (a b : Nat × α) : Bool := decide (a.1 ≤ b.1)
  have hsorted : (results.mergeSort le).Pairwise fun a b => le a b = true :=
    List.pairwise_mergeSort
      (fun a b c hab hbc => by
        simp only [le, decide_eq_true_eq] at hab hbc ⊢
        exact Nat.le_trans hab hbc)
      (fun a b => by
        simp only [le, Bool.or_eq_true, decide_eq_true_eq]
        exact Nat.le_total a.1 b.1) results
  have hpositions := pairwise_positions values 0
  have hperm : (results.mergeSort le).Perm (values.zipIdx.map Prod.swap) :=
    (List.mergeSort_perm results le).trans h
  have hunique (a b : Nat × α) (ha : a ∈ results.mergeSort le)
      (hb : b ∈ values.zipIdx.map Prod.swap) (hab : le a b = true) (hba : le b a = true) :
      a = b := by
    have hkey : a.1 = b.1 :=
      Nat.le_antisymm (of_decide_eq_true hab) (of_decide_eq_true hba)
    rw [List.mem_map] at hb
    obtain ⟨⟨y, j⟩, hy, rfl⟩ := hb
    obtain ⟨⟨x, i⟩, hx, rfl⟩ := List.mem_map.mp (hperm.mem_iff.mp ha)
    rw [List.mem_zipIdx_iff_getElem?] at hx hy
    have hij : i = j := hkey
    subst hij
    exact congrArg (Prod.mk i) (Option.some.inj (hx.symm.trans hy))
  have heq : results.mergeSort le = values.zipIdx.map Prod.swap :=
    hperm.eq_of_pairwise hunique hsorted
      (hpositions.imp fun hlt => by simpa [le] using Nat.le_of_lt hlt)
  rw [gather]
  change (results.mergeSort le).map Prod.snd = values
  rw [heq, List.map_map]
  exact List.zipIdx_map_fst 0 values

/-- Work whose value does not depend on the state has the same results for every count of
workers. -/
theorem gives_workOff {work : α → StateM σ β} {value : α → β} (workers : Nat)
    (items : List α) (h : ∀ item ∈ items, Gives (work item) (value item)) :
    Gives (workOff workers work items) (items.map value) := by
  unfold workOff
  by_cases hone : workerCount workers items.length = 1
  · simp only [hone, if_true]
    exact Gives.mapM items h
  · simp only [hone, if_false]
    let count := workerCount workers items.length
    have hcount : 0 < count := Nat.lt_of_lt_of_le Nat.zero_lt_one (Nat.le_max_left 1 _)
    let share := fun entry : Nat × α => (entry.1, value entry.2)
    have hdeal := flatten_deal_perm items hcount
    have hshares : Gives
        ((deal count items).mapM fun share =>
          share.mapM fun entry => do return (entry.1, ← work entry.2))
        ((deal count items).map fun entries => entries.map share) := by
      refine Gives.mapM _ fun entries hentries => Gives.mapM _ fun entry hentry => ?_
      refine Gives.bind (h entry.2 ?_) (Gives.pure _)
      have hmem := hdeal.mem_iff.mp (List.mem_flatten_of_mem hentries hentry)
      obtain ⟨⟨item, i⟩, hitem, rfl⟩ := List.mem_map.mp hmem
      exact List.fst_mem_of_mem_zipIdx hitem
    have hgather : gather ((deal count items).map fun entries => entries.map share).flatten =
        items.map value := by
      refine gather_of_perm ?_
      rw [← List.map_flatten]
      refine (hdeal.map share).trans (List.Perm.of_eq ?_)
      rw [List.zipIdx_map, List.map_map, List.map_map]
      rfl
    exact hgather ▸ hshares.bind (Gives.pure _)

end TableIntake.Batch
