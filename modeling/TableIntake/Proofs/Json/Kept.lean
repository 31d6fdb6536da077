import Mathlib.Tactic.SplitIfs
import TableIntake.Json.Reader
import TableIntake.Proofs.Json.Data
import TableIntake.Proofs.Keyed
import TableIntake.Proofs.Outcomes

namespace TableIntake.Json

/-! Data that was read from a text is lawful: its whole numbers fit, the members of its objects
stand in the order of their keys, and it is nested no deeper than was allowed. -/

/-- The whole numbers in the outline fit. -/
inductive Outline.Fits : Outline → Prop where
  | scalar {value : Scalar} {left : Nat}
      (h : ∀ i, value = .number (some (.integer i)) → FitsWord i) : Fits (.scalar value left)
  | array {items : List Outline} (h : ∀ item ∈ items, Fits item) : Fits (.array items)
  | object {members : List (Option String × Outline)} (h : ∀ member ∈ members, Fits member.2) :
      Fits (.object members)
  | broken : Fits .broken

namespace Numeral

theorem fill_lt {n : Nat} (h : n < UInt64.size) (ds : List Char) :
    (fill n ds).1 < UInt64.size := by
  induction ds generalizing n with
  | nil => exact h
  | cons d ds ih =>
      rw [fill]
      split
      case isTrue hnext => exact ih hnext
      case isFalse => exact h

theorem value?_fits {x : Numeral} {i : Int} (h : x.value? = some (.integer i)) : FitsWord i := by
  have hfill := fill_lt (n := 0) (by decide) x.whole
  unfold value? at h
  split at h
  case h_1 n hn _ _ =>
      rw [hn] at hfill
      have hsize : n < 18446744073709551616 := hfill
      split at h
      · cases h
        exact fitsWord_iff.mpr ⟨by omega, by omega⟩
      · split at h
        case isTrue hrange =>
            have hlow : n ≤ 9223372036854775808 := hrange.2
            cases h
            exact fitsWord_iff.mpr ⟨by omega, by omega⟩
        case isFalse => cases h
  case h_2 =>
      obtain ⟨_, _, hdecimal⟩ := Option.map_eq_some_iff.mp h
      cases hdecimal

end Numeral

theorem scalar?_fits {cs rest : List Char} {i : Int}
    (h : scalar? cs = some (.number (some (.integer i)), rest)) : FitsWord i := by
  cases cs with
  | nil => cases h
  | cons c cs =>
      simp only [scalar?] at h
      split_ifs at h
      case neg =>
        obtain ⟨⟨x, _⟩, _, hvalue⟩ := Option.map_eq_some_iff.mp h
        exact Numeral.value?_fits (Scalar.number.inj (Prod.mk.inj hvalue).1)
      -- no other scalar is a number
      all_goals
        obtain ⟨_, _, hvalue⟩ := Option.map_eq_some_iff.mp h
        cases hvalue

namespace Outline

/-- What is read from a text with this much fuel fits. -/
structure ReadsFitting (fuel : Nat) : Prop where
  value : ∀ cs, (readValue fuel cs).1.Fits
  items : ∀ cs, ∀ item ∈ (readItems fuel cs).1, item.Fits
  members : ∀ cs, ∀ member ∈ (readMembers fuel cs).1, member.2.Fits

theorem readValue_fits {fuel : Nat} (h : ReadsFitting fuel) (cs : List Char) :
    (readValue (fuel + 1) cs).1.Fits := by
  rw [readValue]
  split
  case h_1 => exact .broken
  case h_2 c cs _ =>
      split_ifs
      · split
        · exact .array nofun
        · exact .array (h.items _)
      · split
        · exact .object nofun
        · exact .object (h.members _)
      · split
        case h_1 value rest hscalar =>
            refine .scalar fun i hi => ?_
            subst hi
            exact scalar?_fits hscalar
        case h_2 => exact .broken

theorem readItems_fits {fuel : Nat} (h : ReadsFitting fuel) (cs : List Char) :
    ∀ item ∈ (readItems (fuel + 1) cs).1, item.Fits := by
  rw [readItems]
  simp only
  split
  · exact List.forall_mem_cons.mpr ⟨h.value cs, h.items _⟩
  · exact List.forall_mem_cons.mpr ⟨h.value cs, nofun⟩
  · exact List.forall_mem_cons.mpr ⟨h.value cs, List.forall_mem_cons.mpr ⟨.broken, nofun⟩⟩

theorem readMembers_fits {fuel : Nat} (h : ReadsFitting fuel) (cs : List Char) :
    ∀ member ∈ (readMembers (fuel + 1) cs).1, member.2.Fits := by
  have hbroken : ∀ member ∈ [((none : Option String), broken)], member.2.Fits :=
    List.forall_mem_cons.mpr ⟨.broken, nofun⟩
  rw [readMembers]
  split
  case h_2 => exact hbroken
  case h_1 =>
      split
      case h_1 => exact hbroken
      case h_2 key rest _ =>
          split
          case h_2 => exact List.forall_mem_cons.mpr ⟨.broken, nofun⟩
          case h_1 rest _ =>
              simp only
              split
              · exact List.forall_mem_cons.mpr ⟨h.value rest, h.members _⟩
              · exact List.forall_mem_cons.mpr ⟨h.value rest, nofun⟩
              · exact List.forall_mem_cons.mpr ⟨h.value rest, hbroken⟩

theorem readsFitting (fuel : Nat) : ReadsFitting fuel := by
  induction fuel with
  | zero => exact ⟨fun _ => .broken, fun _ => List.forall_mem_cons.mpr ⟨.broken, nofun⟩,
      fun _ => List.forall_mem_cons.mpr ⟨.broken, nofun⟩⟩
  | succ fuel ih => exact ⟨readValue_fits ih, readItems_fits ih, readMembers_fits ih⟩

theorem ofChars_fits (cs : List Char) : (ofChars cs).1.Fits :=
  (readsFitting _).value cs

end Outline

namespace Value

theorem kept_null (room : Nat) : Kept room .null :=
  ⟨everywhere_null.mpr trivial, everywhere_null.mpr trivial, Nat.zero_le room⟩

theorem kept_array {room : Nat} {items : List Value} (h : ∀ item ∈ items, Kept room item) :
    Kept (room + 1) (.array items) where
  fits := everywhere_array.mpr ⟨trivial, fun item hitem => (h item hitem).fits⟩
  ordered := everywhere_array.mpr ⟨trivial, fun item hitem => (h item hitem).ordered⟩
  depth := Nat.succ_le_succ (itemsDepth_le.mpr fun item hitem => (h item hitem).depth)

theorem kept_object {room : Nat} {members : List (String × Value)}
    (hordered : members.Pairwise (·.1 < ·.1)) (h : ∀ member ∈ members, Kept room member.2) :
    Kept (room + 1) (.object members) where
  fits := everywhere_object.mpr ⟨trivial, fun member hmember => (h member hmember).fits⟩
  ordered := everywhere_object.mpr ⟨hordered, fun member hmember => (h member hmember).ordered⟩
  depth := Nat.succ_le_succ (membersDepth_le.mpr fun member hmember => (h member hmember).depth)

end Value

namespace Reader

theorem refuse_ne_ok {expected : String} {outline : Outline} {a : α} :
    refuse expected outline ≠ .ok a := by
  unfold refuse ofScalar
  cases outline with
  | scalar value left => simp only; split <;> nofun
  | array _ => nofun
  | object _ => nofun
  | broken => nofun

theorem mem_values {room : Nat} {items : List Outline} {vs : List Value}
    (h : values room items = .ok vs) : ∀ v ∈ vs, ∃ item ∈ items, value room item = .ok v := by
  induction items generalizing vs with
  | nil =>
      cases h
      exact nofun
  | cons item items ih =>
      rw [values] at h
      split at h
      case h_1 => cases h
      case h_2 first hfirst =>
          obtain ⟨others, hothers, rfl⟩ := map_eq_ok.mp h
          refine List.forall_mem_cons.mpr ⟨⟨item, List.mem_cons_self, hfirst⟩, ?_⟩
          intro v hv
          obtain ⟨source, hsource, hvalue⟩ := ih hothers v hv
          exact ⟨source, List.mem_cons_of_mem item hsource, hvalue⟩

theorem members'_cons_eq_ok {room : Nat} {key : Option String} {outline : Outline}
    {members : List (Option String × Outline)} {sorted result : List (String × Value)}
    (h : members' room ((key, outline) :: members) sorted = .ok result) :
    ∃ name v, value room outline = .ok v ∧
      members' room members (insertKey name v sorted) = .ok result := by
  cases key with
  | none => cases h
  | some name =>
      rw [members'] at h
      split at h
      case h_1 => cases h
      case h_2 v hvalue => exact ⟨name, v, hvalue, h⟩

theorem mem_members' {room : Nat} {members : List (Option String × Outline)}
    {sorted result : List (String × Value)} (h : members' room members sorted = .ok result) :
    ∀ member ∈ result,
      member ∈ sorted ∨ ∃ source ∈ members, value room source.2 = .ok member.2 := by
  induction members generalizing sorted with
  | nil =>
      cases h
      exact fun _ hmember => Or.inl hmember
  | cons source members ih =>
      obtain ⟨name, v, hvalue, hmembers⟩ := members'_cons_eq_ok h
      intro member hmember
      obtain hmember | ⟨other, hother, hread⟩ := ih hmembers member hmember
      · obtain rfl | hmember := of_mem_insertKey hmember
        · exact Or.inr ⟨source, List.mem_cons_self, hvalue⟩
        · exact Or.inl hmember
      · exact Or.inr ⟨other, List.mem_cons_of_mem source hother, hread⟩

theorem pairwise_members' {room : Nat} {members : List (Option String × Outline)}
    {sorted result : List (String × Value)} (hsorted : sorted.Pairwise (·.1 < ·.1))
    (h : members' room members sorted = .ok result) : result.Pairwise (·.1 < ·.1) := by
  induction members generalizing sorted with
  | nil =>
      cases h
      exact hsorted
  | cons source members ih =>
      obtain ⟨name, v, -, hmembers⟩ := members'_cons_eq_ok h
      exact ih (pairwise_insertKey name v hsorted) hmembers

theorem scalar_kept {scalar : Scalar} {left room : Nat} {v : Value}
    (hfits : ∀ i, scalar = .number (some (.integer i)) → FitsWord i)
    (h : value room (.scalar scalar left) = .ok v) : v.Kept room := by
  cases scalar with
  | null =>
      cases h
      exact Value.kept_null room
  | bool b =>
      cases h
      exact ⟨Value.everywhere_bool.mpr trivial, Value.everywhere_bool.mpr trivial, Nat.zero_le room⟩
  | number n =>
      cases n with
      | none => cases h
      | some n =>
          cases h
          refine ⟨Value.everywhere_number.mpr ?_, Value.everywhere_number.mpr trivial,
            Nat.zero_le room⟩
          cases n with
          | integer i => exact hfits i rfl
          | decimal bits => trivial
  | string s =>
      cases s with
      | none => cases h
      | some s =>
          cases h
          exact ⟨Value.everywhere_string.mpr trivial, Value.everywhere_string.mpr trivial,
            Nat.zero_le room⟩

theorem value_kept {outline : Outline} (hfits : outline.Fits) {room : Nat} {v : Value}
    (h : value room outline = .ok v) : v.Kept room := by
  induction hfits generalizing room v with
  | scalar hscalar => exact scalar_kept hscalar h
  | array _ ih =>
      cases room with
      | zero => cases h
      | succ room =>
          rw [value] at h
          obtain ⟨vs, hvalues, rfl⟩ := map_eq_ok.mp h
          refine Value.kept_array fun v hv => ?_
          obtain ⟨item, hitem, hvalue⟩ := mem_values hvalues v hv
          exact ih item hitem hvalue
  | object _ ih =>
      cases room with
      | zero => cases h
      | succ room =>
          rw [value] at h
          obtain ⟨members, hmembers, rfl⟩ := map_eq_ok.mp h
          refine Value.kept_object (pairwise_members' .nil hmembers) fun member hmember => ?_
          obtain hnone | ⟨source, hsource, hvalue⟩ := mem_members' hmembers member hmember
          · cases hnone
          · exact ih source hsource hvalue
  | broken => cases room <;> cases h

end Reader

namespace Record

/-- Each field, read from an outline whose numbers fit, keeps the property of the record. -/
def FieldsKeep (fields : List (Field σ)) (P : σ → Prop) : Prop :=
  ∀ field ∈ fields, ∀ {record next : σ} {outline : Outline}, P record → outline.Fits →
    field.read record outline = .ok next → P next

variable {P : σ → Prop}

theorem members_keeps {fields : List (Field σ)} (hkeep : FieldsKeep fields P) {record : σ}
    (hrecord : P record) {seen : List String} {members : List (Option String × Outline)}
    (hfits : ∀ member ∈ members, member.2.Fits) {result : σ × List String}
    (h : Record.members fields record seen members = .ok result) : P result.1 := by
  induction members generalizing record seen with
  | nil =>
      cases h
      exact hrecord
  | cons member members ih =>
      obtain ⟨key, outline⟩ := member
      obtain ⟨houtline, hothers⟩ := List.forall_mem_cons.mp hfits
      cases key with
      | none => cases h
      | some key =>
          rw [Record.members] at h
          split at h
          case h_1 =>
              split_ifs at h
              exact ih hrecord hothers h
          case h_2 field hfind =>
              split_ifs at h
              split at h
              case h_1 => cases h
              case h_2 next hread =>
                  have hmem := List.mem_of_find?_eq_some hfind
                  exact ih (hkeep field hmem hrecord houtline hread) hothers h

theorem items_keeps {expected : String} {fields : List (Field σ)} (hkeep : FieldsKeep fields P)
    {record : σ} (hrecord : P record) {length : Nat} {outlines : List Outline}
    (hfits : ∀ outline ∈ outlines, outline.Fits) {result : σ}
    (h : items expected record length fields outlines = .ok result) : P result := by
  induction fields generalizing record length outlines with
  | nil =>
      cases outlines with
      | nil =>
          cases h
          exact hrecord
      | cons outline outlines => cases h
  | cons field fields ih =>
      have hothers : FieldsKeep fields P :=
        fun other hother => hkeep other (List.mem_cons_of_mem field hother)
      cases outlines with
      | nil =>
          rw [items] at h
          split_ifs at h
          exact ih hothers hrecord hfits h
      | cons outline outlines =>
          obtain ⟨houtline, hfits⟩ := List.forall_mem_cons.mp hfits
          rw [items] at h
          split at h
          case h_1 => cases h
          case h_2 next hread =>
              exact ih hothers (hkeep field List.mem_cons_self hrecord houtline hread) hfits h

/-- What every field keeps holds of the record that is read. -/
theorem read_keeps {name : String} {fields : List (Field σ)} (hkeep : FieldsKeep fields P)
    {start : σ} (hstart : P start) {outline : Outline} (hfits : outline.Fits) {record : σ}
    (h : read name fields start outline = .ok record) : P record := by
  cases hfits with
  | scalar _ =>
      simp only [read] at h
      exact absurd h Reader.refuse_ne_ok
  | array hitems => exact items_keeps hkeep hstart hitems h
  | object hmembers =>
      rw [read] at h
      obtain ⟨⟨filled, seen⟩, hread, hmissing⟩ := bind_eq_ok.mp h
      simp only at hmissing
      split at hmissing
      case h_1 => cases hmissing
      case h_2 =>
          cases hmissing
          exact members_keeps hkeep hstart hmembers hread
  | broken => cases h

end Record

theorem read_eq_ok {reader : Reader α} {text : String} {a : α} (h : read reader text = .ok a) :
    reader (Outline.ofChars text.toList).1 = .ok a := by
  unfold read at h
  simp only at h
  split at h
  case h_1 => cases h
  case h_2 b hread =>
      split_ifs at h
      cases h
      exact hread

end TableIntake.Json
