import Mathlib.Algebra.GroupWithZero.Nat
import TableIntake.Proofs.Batch.Reports
import TableIntake.Proofs.Log.Scripts

namespace TableIntake.Batch

open TableIntake.Files
open TableIntake.Log (Logging Script)

/-! Crews: workers that take turns in any order. In a turn a worker writes one entry to the log,
or hands over the result of the item it is at. -/

structure Worker (β : Type) where
  left : List (Nat × Script β)
  done : List (Nat × β) := []

namespace Worker

def turn : Worker β → Logging (Worker β)
  | ⟨[], done⟩ => return ⟨[], done⟩
  | ⟨(position, ⟨[], result⟩) :: left, done⟩ => return ⟨left, done ++ [(position, result)]⟩
  | ⟨(position, ⟨entry :: entries, result⟩) :: left, done⟩ => do
      Log.record entry
      return ⟨(position, ⟨entries, result⟩) :: left, done⟩

/-- What the worker has handed over in the end. -/
def share (worker : Worker β) : List (Nat × β) :=
  worker.done ++ worker.left.map fun (position, script) => (position, script.result)

theorem share_of_left_nil {worker : Worker β} (h : worker.left = []) :
    worker.share = worker.done := by
  rw [share, h, List.map_nil, List.append_nil]

/-- The turns that the worker still needs. -/
def rest (worker : Worker β) : Nat :=
  (worker.left.map fun (_, script) => script.entries.length + 1).sum

theorem share_turn (worker : Worker β) (journal : Log.Journal) :
    ((worker.turn).run journal).1.share = worker.share := by
  obtain ⟨left, done⟩ := worker
  match left with
  | [] => rfl
  | (position, ⟨[], result⟩) :: left =>
      change (done ++ [(position, result)]) ++ _ = done ++ _
      rw [List.append_assoc]
      rfl
  | (position, ⟨entry :: entries, result⟩) :: left => rfl

theorem rest_turn {worker : Worker β} (h : worker.left ≠ []) (journal : Log.Journal) :
    ((worker.turn).run journal).1.rest < worker.rest := by
  obtain ⟨left, done⟩ := worker
  match left with
  | [] => exact absurd rfl h
  | (position, ⟨[], result⟩) :: left =>
      change (left.map _).sum < (_ :: left.map _).sum
      rw [List.sum_cons]
      exact Nat.lt_add_of_pos_left Nat.one_pos
  | (position, ⟨entry :: entries, result⟩) :: left =>
      change (_ :: left.map _).sum < (_ :: left.map _).sum
      simp only [List.sum_cons, List.length_cons]
      omega

end Worker

abbrev Crew (β : Type) := List (Worker β)

namespace Crew

/-- The items have been dealt out, and nobody has begun. -/
def start (workers : Nat) (items : List (Script β)) : Crew β :=
  (deal (workerCount workers items.length) items).map fun share => ⟨share, []⟩

def turn (crew : Crew β) (i : Nat) : Logging (Crew β) :=
  match crew[i]? with
  | none => return crew
  | some worker => do return crew.set i (← worker.turn)

/-- The turns that the schedule names, one after the other. -/
def run (crew : Crew β) (schedule : List Nat) : Logging (Crew β) :=
  schedule.foldlM turn crew

def IsFinished (crew : Crew β) : Prop :=
  ∀ worker ∈ crew, worker.left = []

theorem fst_run_turn (crew : Crew β) (i : Nat) (journal : Log.Journal) :
    ((crew.turn i).run journal).1 =
      match crew[i]? with
      | none => crew
      | some worker => crew.set i (worker.turn.run journal).1 := by
  unfold turn
  cases crew[i]? <;> rfl

/-- Turns change who has what behind them, and not what comes of it. -/
theorem map_share_turn (crew : Crew β) (i : Nat) (journal : Log.Journal) :
    ((crew.turn i).run journal).1.map Worker.share = crew.map Worker.share := by
  rw [fst_run_turn]
  cases hworker : crew[i]? with
  | none => rfl
  | some worker =>
      obtain ⟨hi, rfl⟩ := List.getElem?_eq_some_iff.mp hworker
      rw [List.map_set, Worker.share_turn, ← List.getElem_map (f := Worker.share) (h := by simpa)]
      exact List.set_getElem_self _

theorem map_share_run (crew : Crew β) (schedule : List Nat) (journal : Log.Journal) :
    ((crew.run schedule).run journal).1.map Worker.share = crew.map Worker.share := by
  induction schedule generalizing crew journal with
  | nil => rfl
  | cons i schedule ih =>
      have hturn := map_share_turn crew i journal
      rw [← hturn]
      exact ih _ _

theorem sum_rest_turn {crew : Crew β} {i : Nat} {worker : Worker β}
    (hworker : crew[i]? = some worker)
    (hleft : worker.left ≠ []) (journal : Log.Journal) :
    (((crew.turn i).run journal).1.map Worker.rest).sum < (crew.map Worker.rest).sum := by
  obtain ⟨hi, rfl⟩ := List.getElem?_eq_some_iff.mp hworker
  have hrest := Worker.rest_turn hleft journal
  rw [fst_run_turn, hworker, List.map_set]
  have hsplit : crew.map Worker.rest =
      (crew.take i).map Worker.rest ++ crew[i].rest :: (crew.drop (i + 1)).map Worker.rest := by
    rw [← List.map_cons, ← List.map_append, List.getElem_cons_drop, List.take_append_drop]
  rw [hsplit]
  have hlength : ((crew.take i).map Worker.rest).length = i := by
    simp [Nat.min_eq_left (Nat.le_of_lt hi)]
  rw [List.set_append_right _ _ (Nat.le_of_eq hlength), hlength, Nat.sub_self, List.set_cons_zero]
  simp only [List.sum_append, List.sum_cons]
  omega

/-- Nobody waits for anybody: whoever has work left can take the next turn. -/
theorem exists_finishing (crew : Crew β) (journal : Log.Journal) :
    ∃ schedule, IsFinished ((crew.run schedule).run journal).1 := by
  have hall : ∀ n (crew : Crew β) (journal : Log.Journal), (crew.map Worker.rest).sum < n →
      ∃ schedule, IsFinished ((crew.run schedule).run journal).1 := by
    intro n
    induction n with
    | zero => exact fun crew journal h => absurd h (Nat.not_lt_zero _)
    | succ n ih =>
        intro crew journal h
        by_cases hfinished : crew.IsFinished
        · exact ⟨[], hfinished⟩
        · obtain ⟨worker, hmem, hleft⟩ : ∃ worker ∈ crew, worker.left ≠ [] := by
            simpa [IsFinished] using hfinished
          obtain ⟨i, hi⟩ := List.mem_iff_getElem?.mp hmem
          have hless := sum_rest_turn hi hleft journal
          obtain ⟨schedule, hschedule⟩ :=
            ih ((crew.turn i).run journal).1 ((crew.turn i).run journal).2 (by omega)
          exact ⟨i :: schedule, hschedule⟩
  exact hall _ crew journal (Nat.lt_succ_self _)

/-- A crew that has finished has a result for each item, and their order is that of the items,
whoever is asked for them first. -/
theorem gather_of_finished {workers : Nat} {items : List (Script β)} {schedule : List Nat}
    {journal : Log.Journal} {joined : Crew β}
    (hjoined : joined.Perm (((start workers items).run schedule).run journal).1)
    (hfinished : IsFinished (((start workers items).run schedule).run journal).1) :
    gather (joined.flatMap Worker.done) = items.map Script.result := by
  have hcount : 0 < workerCount workers items.length :=
    Nat.lt_of_lt_of_le Nat.zero_lt_one (Nat.le_max_left 1 _)
  have hshares := map_share_run (start workers items) schedule journal
  have hdone : joined.map Worker.done = joined.map Worker.share :=
    List.map_congr_left fun worker hworker =>
      (Worker.share_of_left_nil (hfinished worker (hjoined.mem_iff.mp hworker))).symm
  refine gather_of_perm ?_
  calc joined.flatMap Worker.done
      = (joined.map Worker.share).flatten := by rw [List.flatMap_def, hdone]
    List.Perm _ ((start workers items).map Worker.share).flatten := by
        rw [← hshares]
        exact (hjoined.map Worker.share).flatten
    _ = (deal (workerCount workers items.length) items).flatten.map
          fun (position, script) => (position, script.result) := by
        rw [start, List.map_map, List.map_flatten]
        rfl
    List.Perm _ ((items.map Script.result).zipIdx.map Prod.swap) := by
        refine ((flatten_deal_perm items hcount).map _).trans (List.Perm.of_eq ?_)
        rw [List.zipIdx_map, List.map_map, List.map_map]
        rfl

end Crew

/-! Pairs. -/

namespace Pending

def variantScript (pending : Pending) : Script (Except UnknownVariant (Option Variant)) :=
  match pending.variant with
  | none => pure (.ok none)
  | some text =>
      match Variant.ofText text with
      | .error unknown => do
          Script.emit .dispatchRejected [("variant", unknown.text)]
          return .error unknown
      | .ok variant => pure (.ok (some variant))

def findingsScript (variant : Variant) (grammar data : String) : Script (List Finding) := do
  let findings := variant.dataFindings grammar data
  Script.emit .dataChecked [("variant", variant.name), ("findings", toString findings.length)]
  return findings

def script (pending : Pending) (tree : FileTree) : Script Report := do
  let variant ← pending.variantScript
  let known := variant.toOption.bind id
  match pending.load variant tree with
  | .ok (v, grammar, data) =>
      let findings ← findingsScript v grammar data
      Script.emit .bulkPairValidated
        [("pair", pending.pair), ("findings", toString findings.length)]
      return ⟨pending.pair, known, .validated findings⟩
  | .error failure =>
      Script.emit .bulkPairFailed
        [("pair", pending.pair), ("code", failure.code), ("error", failure.message)]
      return ⟨pending.pair, known, .failed failure⟩

theorem play_variantScript (pending : Pending) :
    pending.variantScript.play = pending.parseVariant := by
  unfold variantScript parseVariant
  cases pending.variant with
  | none => rfl
  | some text =>
      simp only [Variant.parse]
      cases Variant.ofText text <;> simp [Except.map]

theorem play_findingsScript (variant : Variant) (grammar data : String) :
    (findingsScript variant grammar data).play = variant.checkData grammar data := by
  simp [findingsScript, Variant.checkData, Variant.report]

/-- A report is made turn by turn. -/
theorem play_script (pending : Pending) (tree : FileTree) :
    (pending.script tree).play = pending.report tree := by
  unfold script report
  rw [Script.play_bind, play_variantScript]
  refine congrArg (pending.parseVariant >>= ·) (funext fun variant => ?_)
  cases pending.load variant tree with
  | error failure => simp
  | ok texts => simp [play_findingsScript]

theorem result_script (pending : Pending) (tree : FileTree) :
    (pending.script tree).result = pending.reported tree := by
  rw [← Script.fst_run_play _ {}, play_script]
  exact pending.gives_report tree {}

end Pending

namespace Table

/-- The pairs are checked by so many workers. -/
def checkedBy (table : Table) (workers : Nat) (tree : FileTree) : Logging (List Report) :=
  workOff workers (·.report tree) table

theorem fst_run_checkedBy (table : Table) (workers : Nat) (tree : FileTree)
    (journal : Log.Journal) :
    ((table.checkedBy workers tree).run journal).1 = table.reports tree :=
  gives_workOff workers table (fun pending _ => pending.gives_report tree) journal

/-- Whoever takes which turn, and whoever has finished first: the reports are those of one worker
who goes through the pairs alone. -/
theorem reports_of_crew (table : Table) (tree : FileTree) (workers : Nat)
    (journal : Log.Journal) :
    (∀ pending ∈ table, (pending.script tree).play = pending.report tree) ∧
      ((table.checkedBy workers tree).run journal).1 =
        ((table.checkedBy 1 tree).run journal).1 ∧
      ∀ schedule crew later,
        ((Crew.start workers (table.map (·.script tree))).run schedule).run journal =
            (crew, later) →
          (∃ rest, Crew.IsFinished ((crew.run rest).run later).1) ∧
            (crew.IsFinished → ∀ joined : Crew Report, joined.Perm crew →
              gather (joined.flatMap Worker.done) =
                ((table.checkedBy 1 tree).run journal).1) := by
  refine ⟨fun pending _ => pending.play_script tree, ?_, ?_⟩
  · rw [fst_run_checkedBy, fst_run_checkedBy]
  · intro schedule crew later hrun
    refine ⟨crew.exists_finishing later, fun hfinished joined hjoined => ?_⟩
    have hcrew : (((Crew.start workers (table.map (·.script tree))).run schedule).run
        journal).1 = crew := congrArg Prod.fst hrun
    rw [← hcrew] at hjoined hfinished
    rw [Crew.gather_of_finished hjoined hfinished, fst_run_checkedBy, List.map_map]
    exact List.map_congr_left fun pending _ => pending.result_script tree

/-- The crew after the second worker, who has one pair of three, has finished first. -/
def secondFirst (table : Table) : Crew Report :=
  (((Crew.start 2 (table.map (·.script {}))).run [1, 0, 1, 0, 1, 0, 0]).run {}).1

theorem reports_of_crew_secondFirst :
    let table : Table := [⟨"event/a", some "event", none, none, none⟩,
      ⟨"fact/b", some "fact", none, none, none⟩,
      ⟨"dimension/c", some "dimension", none, none, none⟩]
    table.secondFirst.IsFinished ∧
      gather (table.secondFirst.reverse.flatMap Worker.done) =
        ((table.checkedBy 1 {}).run {}).1 := by
  intro table
  have hfinished : ∀ worker ∈ table.secondFirst, worker.left = [] := by decide +kernel
  obtain ⟨-, -, hcrew⟩ := reports_of_crew table {} 2 {}
  obtain ⟨-, hgather⟩ := hcrew [1, 0, 1, 0, 1, 0, 0] _ _ (Prod.eta _).symm
  exact ⟨hfinished, hgather hfinished _ (List.reverse_perm table.secondFirst)⟩

end Table

end TableIntake.Batch
