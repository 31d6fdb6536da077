import TableIntake.Json.Basic

namespace TableIntake.Json

/-! What data consists of: the values in it, how deep they are nested, and which data there is
at all in the wire form. -/

/-- The whole numbers that are kept as such. -/
def FitsWord (i : Int) : Prop :=
  Int64.minValue.toInt ≤ i ∧ i < UInt64.size

theorem fitsWord_iff {i : Int} :
    FitsWord i ↔ -9223372036854775808 ≤ i ∧ i < 18446744073709551616 :=
  Iff.rfl

instance (i : Int) : Decidable (FitsWord i) :=
  inferInstanceAs (Decidable (_ ∧ _))

namespace Value

/-- What arrays and objects have from the values in them, all values have. -/
@[elab_as_elim]
theorem nested_induction {motive : Value → Prop} (null : motive .null)
    (bool : ∀ b, motive (.bool b)) (number : ∀ n, motive (.number n))
    (string : ∀ s, motive (.string s))
    (array : ∀ items, (∀ item ∈ items, motive item) → motive (.array items))
    (object : ∀ members, (∀ member ∈ members, motive member.2) → motive (.object members))
    (v : Value) : motive v :=
  @Value.rec motive (fun items => ∀ item ∈ items, motive item)
    (fun members => ∀ member ∈ members, motive member.2) (fun member => motive member.2)
    null bool number string array object
    nofun (fun _ _ hitem hitems => List.forall_mem_cons.mpr ⟨hitem, hitems⟩)
    nofun (fun _ _ hmember hmembers => List.forall_mem_cons.mpr ⟨hmember, hmembers⟩)
    (fun _ _ hvalue => hvalue) v

mutual

/-- The value itself and all values in it. -/
def parts : Value → List Value
  | .array items => .array items :: itemParts items
  | .object members => .object members :: memberParts members
  | .null => [.null]
  | .bool b => [.bool b]
  | .number n => [.number n]
  | .string s => [.string s]

def itemParts : List Value → List Value
  | [] => []
  | item :: items => item.parts ++ itemParts items

def memberParts : List (String × Value) → List Value
  | [] => []
  | (_, value) :: members => value.parts ++ memberParts members

end

mutual

/-- How many arrays and objects stand in each other. -/
def depth : Value → Nat
  | .array items => itemsDepth items + 1
  | .object members => membersDepth members + 1
  | .null => 0
  | .bool _ => 0
  | .number _ => 0
  | .string _ => 0

def itemsDepth : List Value → Nat
  | [] => 0
  | item :: items => max item.depth (itemsDepth items)

def membersDepth : List (String × Value) → Nat
  | [] => 0
  | (_, value) :: members => max value.depth (membersDepth members)

end

/-- The property holds of the value and of all values in it. -/
def Everywhere (P : Value → Prop) (v : Value) : Prop :=
  ∀ part ∈ v.parts, P part

def NoDecimal : Value → Prop
  | .number (.decimal _) => False
  | _ => True

def Fits : Value → Prop
  | .number (.integer i) => FitsWord i
  | _ => True

/-- The members of an object stand in the order of their keys, which differ. -/
def Ordered : Value → Prop
  | .object members => members.Pairwise (·.1 < ·.1)
  | _ => True

instance (v : Value) : Decidable v.NoDecimal :=
  match v with
  | .number (.decimal _) => .isFalse not_false
  | .number (.integer _) | .null | .bool _ | .string _ | .array _ | .object _ => .isTrue trivial

instance (v : Value) : Decidable v.Fits :=
  match v with
  | .number (.integer i) => inferInstanceAs (Decidable (FitsWord i))
  | .number (.decimal _) | .null | .bool _ | .string _ | .array _ | .object _ => .isTrue trivial

instance (v : Value) : Decidable v.Ordered :=
  match v with
  | .object members => inferInstanceAs (Decidable (members.Pairwise (·.1 < ·.1)))
  | .null | .bool _ | .number _ | .string _ | .array _ => .isTrue trivial

instance (P : Value → Prop) [DecidablePred P] (v : Value) : Decidable (v.Everywhere P) :=
  inferInstanceAs (Decidable (∀ part ∈ v.parts, P part))

/-- Data as it is kept: its whole numbers fit, its members are ordered, and no more arrays and
objects stand in each other than there is room for. -/
structure Kept (room : Nat) (v : Value) : Prop where
  fits : v.Everywhere Fits
  ordered : v.Everywhere Ordered
  depth : v.depth ≤ room

theorem mem_itemParts {items : List Value} {part : Value} :
    part ∈ itemParts items ↔ ∃ item ∈ items, part ∈ item.parts := by
  induction items with
  | nil => simp [itemParts]
  | cons item items ih => simp [itemParts, ih]

theorem mem_memberParts {members : List (String × Value)} {part : Value} :
    part ∈ memberParts members ↔ ∃ member ∈ members, part ∈ member.2.parts := by
  induction members with
  | nil => simp [memberParts]
  | cons member members ih => simp [memberParts, ih]

theorem itemsDepth_le {items : List Value} {room : Nat} :
    itemsDepth items ≤ room ↔ ∀ item ∈ items, item.depth ≤ room := by
  induction items with
  | nil => simp [itemsDepth]
  | cons item items ih => rw [itemsDepth, Nat.max_le, ih, List.forall_mem_cons]

theorem membersDepth_le {members : List (String × Value)} {room : Nat} :
    membersDepth members ≤ room ↔ ∀ member ∈ members, member.2.depth ≤ room := by
  induction members with
  | nil => simp [membersDepth]
  | cons member members ih => rw [membersDepth, Nat.max_le, ih, List.forall_mem_cons]

section Everywhere

variable {P : Value → Prop}

theorem everywhere_array {items : List Value} :
    (array items).Everywhere P ↔ P (.array items) ∧ ∀ item ∈ items, item.Everywhere P := by
  simp only [Everywhere, parts, List.forall_mem_cons, mem_itemParts]
  exact and_congr_right fun _ =>
    ⟨fun h item hitem part hpart => h part ⟨item, hitem, hpart⟩,
      fun h part ⟨item, hitem, hpart⟩ => h item hitem part hpart⟩

theorem everywhere_object {members : List (String × Value)} :
    (object members).Everywhere P ↔
      P (.object members) ∧ ∀ member ∈ members, member.2.Everywhere P := by
  simp only [Everywhere, parts, List.forall_mem_cons, mem_memberParts]
  exact and_congr_right fun _ =>
    ⟨fun h member hmember part hpart => h part ⟨member, hmember, hpart⟩,
      fun h part ⟨member, hmember, hpart⟩ => h member hmember part hpart⟩

@[simp] theorem everywhere_null : null.Everywhere P ↔ P .null :=
  List.forall_mem_singleton

@[simp] theorem everywhere_bool {b : Bool} : (bool b).Everywhere P ↔ P (.bool b) :=
  List.forall_mem_singleton

@[simp] theorem everywhere_number {n : Number} : (number n).Everywhere P ↔ P (.number n) :=
  List.forall_mem_singleton

@[simp] theorem everywhere_string {s : String} : (string s).Everywhere P ↔ P (.string s) :=
  List.forall_mem_singleton

end Everywhere

end Value

end TableIntake.Json
