import Mathlib.Data.List.Nodup
import TableIntake.Proofs.Batch.Postings

namespace TableIntake.Batch

open TableIntake.Archive (Entry)
open TableIntake.Files

/-! Places: the index of collected pairs is right, so that looking a pair up in it is looking it up
in the table. -/

namespace Table

theorem update_of_new (table : Table) {pair : String} (variant : Option String)
    (f : Pending → Pending) (h : pair ∉ table.map Pending.pair) :
    table.update pair variant f = table ++ [f { pair, variant }] := by
  induction table with
  | nil => rfl
  | cons pending table ih =>
      rw [List.map_cons, List.mem_cons, not_or] at h
      rw [update, if_neg (Ne.symm h.1), ih h.2, List.cons_append]

theorem update_of_place {table : Table} {pair : String} {place : Nat} (variant : Option String)
    (f : Pending → Pending) (hplace : (table[place]?).map Pending.pair = some pair)
    (honly : ∀ other, (table[other]?).map Pending.pair = some pair → other = place) :
    table.update pair variant f = table.modify place f := by
  induction table generalizing place with
  | nil => simp at hplace
  | cons pending table ih =>
      by_cases hpair : pending.pair = pair
      · obtain rfl : 0 = place := honly 0 (congrArg some hpair)
        rw [update, if_pos hpair]
        rfl
      · cases place with
        | zero => exact absurd (Option.some.inj hplace) hpair
        | succ place =>
            rw [update, if_neg hpair, List.modify_succ_cons]
            rw [ih hplace fun other hother => Nat.succ.inj (honly (other + 1) hother)]

end Table

namespace Slots

/-- The index leads to every pair, and only there. -/
structure Sound (slots : Slots) : Prop where
  place?_eq_some_iff : ∀ pair place, slots.place? pair = some place ↔
    (slots.pairs[place]?).map Pending.pair = some pair

theorem sound_empty : Sound {} where
  place?_eq_some_iff := fun pair place => by simp [place?]

theorem pair_getElem?_modify {f : Pending → Pending} (hf : ∀ p, (f p).pair = p.pair)
    (table : Table) (changed place : Nat) :
    ((table.modify changed f)[place]?).map Pending.pair = (table[place]?).map Pending.pair := by
  rw [List.getElem?_modify]
  cases table[place]? with
  | none => rfl
  | some pending =>
      by_cases hplace : changed = place
      · simp [hplace, hf]
      · simp [hplace]

theorem pair_getElem?_concat (table : Table) (new : Pending) (pair : String) (place : Nat) :
    ((table ++ [new])[place]?).map Pending.pair = some pair ↔
      (table[place]?).map Pending.pair = some pair ∨ place = table.length ∧ new.pair = pair := by
  rcases Nat.lt_trichotomy place table.length with hlt | heq | hgt
  · rw [List.getElem?_append_left hlt]
    simp [Nat.ne_of_lt hlt]
  · subst heq
    simp
  · rw [List.getElem?_eq_none (by rw [List.length_append, List.length_singleton]; omega),
      List.getElem?_eq_none (Nat.le_of_lt hgt)]
    simp [Nat.ne_of_gt hgt]

namespace Sound

variable {slots : Slots} {pair : String}

theorem not_mem (h : slots.Sound) (hnew : slots.place? pair = none) :
    pair ∉ slots.pairs.map Pending.pair := by
  intro hmem
  obtain ⟨place, hplace⟩ := List.mem_iff_getElem?.mp hmem
  rw [List.getElem?_map] at hplace
  exact nomatch hnew.symm.trans ((h.place?_eq_some_iff pair place).mpr hplace)

theorem slot (h : slots.Sound) (pair : String) (variant : Option String) :
    (slots.slot pair variant).2.Sound := by
  unfold Slots.slot
  cases hplace : slots.place? pair with
  | some place => exact h
  | none =>
      constructor
      intro other place
      rw [pair_getElem?_concat, ← h.place?_eq_some_iff]
      by_cases heq : other = pair
      · subst heq
        have hnone : slots.index.lookup other = none := hplace
        simp [place?, hnone, eq_comm]
      · have hne : (other == pair) = false := beq_false_of_ne heq
        simp [place?, List.lookup_cons, hne, Ne.symm heq]

theorem update (h : slots.Sound) {f : Pending → Pending} (hf : ∀ p, (f p).pair = p.pair)
    (pair : String) (variant : Option String) : (slots.update pair variant f).Sound := by
  constructor
  intro other place
  have hslot := (h.slot pair variant).place?_eq_some_iff other place
  rw [← pair_getElem?_modify hf _ (slots.slot pair variant).1 place] at hslot
  exact hslot

theorem pairs_update (h : slots.Sound) (pair : String) (variant : Option String)
    (f : Pending → Pending) :
    (slots.update pair variant f).pairs = Table.update pair variant f slots.pairs := by
  unfold Slots.update Slots.slot
  cases hplace : slots.place? pair with
  | none =>
      rw [Table.update_of_new slots.pairs variant f (h.not_mem hplace)]
      simp [List.modify_eq_take_cons_drop]
  | some place =>
      have hpair := (h.place?_eq_some_iff pair place).mp hplace
      refine (Table.update_of_place variant f hpair fun other hother => ?_).symm
      exact Option.some.inj (((h.place?_eq_some_iff pair other).mpr hother).symm.trans hplace)

/-- No two pairs have one name: the index leads to one place only. -/
theorem distinct (h : slots.Sound) : Table.Distinct slots.pairs := by
  apply List.nodup_iff_getElem?_ne_getElem?.mpr
  intro first second hlt hlength heq
  rw [List.getElem?_map, List.getElem?_map] at heq
  rw [List.length_map] at hlength
  have hsecond : (slots.pairs[second]?).map Pending.pair = some slots.pairs[second].pair := by
    rw [List.getElem?_eq_getElem hlength]
    rfl
  have hplace := (h.place?_eq_some_iff _ second).mpr hsecond
  have hother := (h.place?_eq_some_iff _ first).mpr (heq.trans hsecond)
  exact Nat.ne_of_lt hlt (Option.some.inj (hother.symm.trans hplace))

theorem holds_eq (h : slots.Sound) (pair : String) (half : Half) :
    slots.holds pair half = Table.holds slots.pairs pair half := by
  unfold Slots.holds Table.holds
  cases hplace : slots.place? pair with
  | none =>
      have hnone : Table.find? slots.pairs pair = none := by
        apply List.find?_eq_none.mpr
        intro pending hmem heq
        exact h.not_mem hplace (List.mem_map.mpr ⟨pending, hmem, of_decide_eq_true heq⟩)
      rw [hnone]
      rfl
  | some place =>
      obtain ⟨pending, hpending, rfl⟩ :=
        Option.map_eq_some_iff.mp ((h.place?_eq_some_iff pair place).mp hplace)
      rw [h.distinct.find?_of_mem (List.mem_of_getElem? hpending)]
      simp only [hpending]

end Sound

end Slots

namespace Unpacked

/-- What is collected, without the index. -/
def view (state : Unpacked Slots) : Unpacked Table :=
  ⟨state.table.pairs, state.tree⟩

/-- The index is right, and all else is as without it. -/
structure Agrees (state : Unpacked Slots) (unpacked : Unpacked Table) : Prop where
  sound : state.table.Sound
  view_eq : state.view = unpacked

section Agrees

variable {state : Unpacked Slots} {unpacked : Unpacked Table}

theorem agrees_fail (h : state.table.Sound) (pair : String) (variant : Option String)
    (failure : PairFailure) :
    (state.fail pair variant failure).Agrees (state.view.fail pair variant failure) where
  sound := h.update (f := (·.fail failure)) (fun _ => rfl) pair variant
  view_eq := congrArg (Unpacked.mk · state.tree) (h.pairs_update pair variant _)

theorem agrees_store (h : state.table.Sound) (pair variant : String) (half : Half)
    (extracted : Extracted) (tree : FileTree) :
    Agrees ⟨state.table.store pair variant half extracted, tree⟩
      ⟨Table.store state.table.pairs pair variant half extracted, tree⟩ where
  sound := h.update (Note.stored half extracted).pair_enter pair (some variant)
  view_eq := congrArg (Unpacked.mk · tree) (h.pairs_update pair (some variant) _)

theorem agrees_takeMember (h : state.table.Sound) (scratch : Scratch) (pair variant : String)
    (half : Half) (name : String) (regular : Bool) (content : Content) :
    (state.takeMember scratch pair variant half name regular content).Agrees
      (state.view.takeMember scratch pair variant half name regular content) := by
  have hholds : PairStore.holds state.table pair half =
      PairStore.holds state.view.table pair half := h.holds_eq pair half
  unfold takeMember
  rw [hholds]
  by_cases hheld : PairStore.holds state.view.table pair half = true
  · rw [if_pos hheld, if_pos hheld]
    exact agrees_fail h pair variant _
  · rw [if_neg hheld, if_neg hheld]
    cases regular with
    | false => exact agrees_fail h pair variant _
    | true =>
        simp only [Bool.not_true, Bool.false_eq_true, if_false, view]
        rcases scratch.write name content state.tree with ⟨result, tree⟩
        cases result with
        | error e =>
            have hwritten : ({ state with tree } : Unpacked Slots).table.Sound := h
            exact agrees_fail hwritten pair variant _
        | ok path => exact agrees_store h pair variant half ⟨name, path⟩ tree

theorem Agrees.take (h : state.Agrees unpacked) (convention : Convention) (scratch : Scratch)
    (position : Nat) (entry : Entry) :
    (state.take convention scratch position entry).Agrees
      (unpacked.take convention scratch position entry) := by
  obtain ⟨hsound, rfl⟩ := h
  cases entry with
  | skipped => exact ⟨hsound, rfl⟩
  | «sealed» reason => exact agrees_fail hsound _ none _
  | member name regular content =>
      simp only [Unpacked.take]
      cases convention (normalize name) with
      | ignored => exact ⟨hsound, rfl⟩
      | misnamed expected =>
          cases regular with
          | false => exact ⟨hsound, rfl⟩
          | true => exact agrees_fail hsound _ none _
      | member pair variant half => exact agrees_takeMember hsound ..

theorem Agrees.takeAll (h : state.Agrees unpacked) (convention : Convention) (scratch : Scratch)
    (position : Nat) (entries : List Entry) :
    (takeAll convention scratch position state entries).Agrees
      (takeAll convention scratch position unpacked entries) := by
  induction entries generalizing position state unpacked with
  | nil => exact h
  | cons entry entries ih => exact ih (h.take convention scratch position entry) (position + 1)

end Agrees

end Unpacked

section Collect

variable (convention : Convention) (scratch : Scratch) (entries : List Entry) (tree : FileTree)

theorem agrees_collect :
    (collect convention scratch entries tree).Agrees
      (unpack convention scratch entries tree) :=
  Unpacked.Agrees.takeAll ⟨Slots.sound_empty, rfl⟩ convention scratch 1 entries

theorem pairs_collect :
    (collect convention scratch entries tree).table.pairs =
      (unpack convention scratch entries tree).table :=
  congrArg Unpacked.table (agrees_collect convention scratch entries tree).view_eq

theorem tree_collect :
    (collect convention scratch entries tree).tree =
      (unpack convention scratch entries tree).tree :=
  congrArg Unpacked.tree (agrees_collect convention scratch entries tree).view_eq

end Collect

end TableIntake.Batch
