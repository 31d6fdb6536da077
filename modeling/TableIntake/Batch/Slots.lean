import TableIntake.Batch.Table

namespace TableIntake.Batch

/-! Pairs with an index, which tells at once where the pair of a name stands. -/

structure Slots where
  pairs : Table := []
  index : List (String × Nat) := []
  deriving Repr

namespace Slots

def place? (slots : Slots) (pair : String) : Option Nat :=
  slots.index.lookup pair

/-- The place of the pair, which is put at the end if it is new. -/
def slot (slots : Slots) (pair : String) (variant : Option String) : Nat × Slots :=
  match slots.place? pair with
  | some place => (place, slots)
  | none =>
      let place := slots.pairs.length
      (place, ⟨slots.pairs ++ [{ pair, variant }], (pair, place) :: slots.index⟩)

def update (slots : Slots) (pair : String) (variant : Option String)
    (f : Pending → Pending) : Slots :=
  let (place, slots) := slots.slot pair variant
  { slots with pairs := slots.pairs.modify place f }

def holds (slots : Slots) (pair : String) (half : Half) : Bool :=
  match slots.place? pair with
  | some place => ((slots.pairs[place]?).bind (·.get? half)).isSome
  | none => false

def store (slots : Slots) (pair variant : String) (half : Half) (extracted : Extracted) :
    Slots :=
  slots.update pair (some variant) (·.store half extracted)

def fail (slots : Slots) (pair : String) (variant : Option String) (failure : PairFailure) :
    Slots :=
  slots.update pair variant (·.fail failure)

end Slots

end TableIntake.Batch
