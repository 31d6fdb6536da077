namespace TableIntake.Batch

/-! Workers: items are dealt out to them in turn, and their results are put in order again. -/

/-- How many workers there are for so many items. -/
def workerCount (workers items : Nat) : Nat :=
  max 1 (min workers items)

def deal (workers : Nat) (items : List α) : List (List (Nat × α)) :=
  (List.range workers).map fun worker =>
    (items.zipIdx.filter fun (_, position) => position % workers = worker).map Prod.swap

def gather (results : List (Nat × α)) : List α :=
  (results.mergeSort fun a b => decide (a.1 ≤ b.1)).map Prod.snd

def workOff [Monad m] (workers : Nat) (work : α → m β) (items : List α) : m (List β) := do
  let workers := workerCount workers items.length
  if workers = 1 then items.mapM work
  else
    let results ← (deal workers items).mapM fun share =>
      share.mapM fun (position, item) => return (position, ← work item)
    return gather results.flatten

end TableIntake.Batch
