import TableIntake.Batch.Slots

namespace TableIntake.Batch

open TableIntake.Archive (Entry)
open TableIntake.Files

/-! Collecting: entries go to the scratch directory and into the pairs. -/

/-- What taking an entry asks of that which keeps the pairs. -/
class PairStore (T : Type) where
  holds : T → (pair : String) → Half → Bool
  store : T → (pair variant : String) → Half → Extracted → T
  fail : T → (pair : String) → (variant : Option String) → PairFailure → T

instance : PairStore Slots where
  holds := Slots.holds
  store := Slots.store
  fail := Slots.fail

structure Unpacked (T : Type) where
  table : T
  tree : FileTree

namespace Unpacked

variable {T : Type} [PairStore T]

def fail (state : Unpacked T) (pair : String) (variant : Option String)
    (failure : PairFailure) : Unpacked T :=
  { state with table := PairStore.fail state.table pair variant failure }

/-- A member of a pair. One that is no regular file cannot be a half of it. -/
def takeMember (state : Unpacked T) (scratch : Scratch) (pair variant : String) (half : Half)
    (name : String) (regular : Bool) (content : Content) : Unpacked T :=
  if PairStore.holds state.table pair half then state.fail pair variant (.duplicate name)
  else if !regular then
    state.fail pair variant (.unreadable name "not a regular file")
  else
    match scratch.write name content state.tree with
    | (.error e, tree) =>
        { state with tree }.fail pair variant (.unreadable name e.message)
    | (.ok path, tree) =>
        ⟨PairStore.store state.table pair variant half ⟨name, path⟩, tree⟩

def take (state : Unpacked T) (convention : Convention) (scratch : Scratch) (position : Nat) :
    Entry → Unpacked T
  | .skipped => state
  | .sealed reason =>
      let label := s!"entry #{position}"
      state.fail label none (.unreadable label reason)
  | .member name regular content =>
      let name := normalize name
      match convention name with
      | .ignored => state
      | .misnamed expected =>
          if regular then state.fail name none (.misnamed name expected) else state
      | .member pair variant half =>
          state.takeMember scratch pair variant half name regular content

def takeAll (convention : Convention) (scratch : Scratch) :
    Nat → Unpacked T → List Entry → Unpacked T
  | _, state, [] => state
  | position, state, entry :: entries =>
      takeAll convention scratch (position + 1)
        (state.take convention scratch position entry) entries

end Unpacked

def collect (convention : Convention) (scratch : Scratch) (entries : List Entry)
    (tree : FileTree) : Unpacked Slots :=
  Unpacked.takeAll convention scratch 1 ⟨{}, tree⟩ entries

end TableIntake.Batch
