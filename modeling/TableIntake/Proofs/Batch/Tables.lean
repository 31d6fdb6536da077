import TableIntake.Batch.Collect

namespace TableIntake.Batch

open TableIntake.Archive (Entry)
open TableIntake.Files

/-! Tables without an index: a pair is looked up by its name. Entries can be taken into such a table
just as well, and what is said of the pairs is said of it. -/

namespace Table

def find? (table : Table) (pair : String) : Option Pending :=
  List.find? (fun pending => pending.pair = pair) table

/-- Alters the pair, which is put at the end if it is new. -/
def update (pair : String) (variant : Option String) (f : Pending → Pending) : Table → Table
  | [] => [f { pair, variant }]
  | pending :: table =>
      if pending.pair = pair then f pending :: table
      else pending :: update pair variant f table

def holds (table : Table) (pair : String) (half : Half) : Bool :=
  ((table.find? pair).bind (·.get? half)).isSome

def store (table : Table) (pair variant : String) (half : Half) (extracted : Extracted) :
    Table :=
  table.update pair (some variant) (·.store half extracted)

def fail (table : Table) (pair : String) (variant : Option String) (failure : PairFailure) :
    Table :=
  table.update pair variant (·.fail failure)

theorem find?_update_self {f : Pending → Pending} (hf : ∀ p, (f p).pair = p.pair)
    (table : Table) (pair : String) (variant : Option String) :
    (table.update pair variant f).find? pair =
      some (f ((table.find? pair).getD { pair, variant })) := by
  induction table with
  | nil => simp [update, find?, hf]
  | cons p table ih =>
      by_cases h : p.pair = pair
      · simp [update, find?, h, hf]
      · simpa [update, find?, h] using ih

theorem find?_update_of_ne {f : Pending → Pending} (hf : ∀ p, (f p).pair = p.pair)
    (table : Table) {pair other : String} (variant : Option String) (h : other ≠ pair) :
    (table.update pair variant f).find? other = table.find? other := by
  induction table with
  | nil => simp [update, find?, hf, Ne.symm h]
  | cons p table ih =>
      by_cases hp : p.pair = pair
      · simp [update, find?, hp, hf, Ne.symm h]
      · by_cases ho : p.pair = other
        · simp [update, find?, ho, h]
        · simpa [update, find?, hp, ho] using ih

/-- Updating adds at most the pair itself, at the end. -/
theorem map_pair_update {f : Pending → Pending} (hf : ∀ p, (f p).pair = p.pair)
    (table : Table) (pair : String) (variant : Option String) :
    (table.update pair variant f).map Pending.pair =
      if pair ∈ table.map Pending.pair then table.map Pending.pair
      else table.map Pending.pair ++ [pair] := by
  induction table with
  | nil => simp [update, hf]
  | cons p table ih =>
      by_cases hp : p.pair = pair
      · simp [update, hp, hf]
      · simp only [update, hp, if_false, List.map_cons, ih, List.mem_cons, Ne.symm hp, false_or]
        split <;> simp

end Table

instance : PairStore Table where
  holds := Table.holds
  store := Table.store
  fail := Table.fail

@[simp] theorem PairStore.holds_table (table : Table) (pair : String) (half : Half) :
    PairStore.holds table pair half = table.holds pair half :=
  rfl

@[simp] theorem PairStore.store_table (table : Table) (pair variant : String) (half : Half)
    (extracted : Extracted) :
    PairStore.store table pair variant half extracted =
      table.store pair variant half extracted :=
  rfl

def unpack (convention : Convention) (scratch : Scratch) (entries : List Entry)
    (tree : FileTree) : Unpacked Table :=
  Unpacked.takeAll convention scratch 1 ⟨[], tree⟩ entries

end TableIntake.Batch
