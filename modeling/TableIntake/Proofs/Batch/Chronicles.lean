import TableIntake.Proofs.Batch.Crews
import TableIntake.Proofs.Log.Tellings

namespace TableIntake.Batch

open TableIntake.Archive (Contents Fault)
open TableIntake.Files
open TableIntake.Log (Entry Event Tells)

/-! Chronicles: what the log of a batch tells, from its first entry to its last. -/

/-- An entry that tells what became of a pair. -/
def IsNotice (entry : Entry) : Prop :=
  entry.event = Event.bulkPairValidated.label ∨ entry.event = Event.bulkPairFailed.label
  deriving Decidable

/-- An entry that stands among those, and says nothing of what became of a pair. -/
def IsAside (entry : Entry) : Prop :=
  entry.event = Event.dispatchRejected.label ∨ entry.event = Event.dataChecked.label ∨
    entry.event = Event.scratchCleanupFailed.label

theorem IsAside.not_isNotice {entry : Entry} (h : IsAside entry) : ¬IsNotice entry := by
  unfold IsNotice
  rcases h with h | h | h <;> rw [h] <;> decide

theorem filter_asides {entries : List Entry} (h : ∀ entry ∈ entries, IsAside entry) :
    entries.filter IsNotice = [] :=
  List.filter_eq_nil_iff.mpr fun entry hentry hnotice =>
    (h entry hentry).not_isNotice (of_decide_eq_true hnotice)

namespace Report

def notice (report : Report) : Entry :=
  match report.outcome with
  | .validated findings =>
      Event.bulkPairValidated.entry
        [("pair", report.pair), ("findings", toString findings.length)]
  | .failed failure =>
      Event.bulkPairFailed.entry
        [("pair", report.pair), ("code", failure.code), ("error", failure.message)]

theorem isNotice_notice (report : Report) : IsNotice report.notice := by
  unfold notice
  cases report.outcome with
  | validated findings => exact .inl rfl
  | failed failure => exact .inr rfl

theorem event_notice (report : Report) :
    decide (report.notice.event = Event.bulkPairFailed.label) = report.isFailed := by
  unfold notice isFailed
  cases report.outcome with
  | validated findings =>
      change decide (Event.bulkPairValidated.label = Event.bulkPairFailed.label) = false
      decide
  | failed failure => exact decide_eq_true rfl

end Report

/-! The entries about the batch itself. -/

namespace Chronicle

def opening (archive scratch : Path) : List Entry :=
  [Event.bulkStart.entry [("archive", archive.text), ("scratch", scratch.text)],
    ⟨.info, "BULK_UNPACK_BEGIN", [("scratch", scratch.text)]⟩]

def unpacked (scratch : Path) (pairs elapsed : Nat) : Entry :=
  ⟨.info, "BULK_UNPACK_COMPLETE",
    [("scratch", scratch.text), ("pairs", toString pairs), ("elapsed_ms", toString elapsed)]⟩

def unread (scratch : Path) (failure : Failure) : Entry :=
  ⟨.error, "BULK_UNPACK_FAILED", [("scratch", scratch.text), ("reason", failure.code)]⟩

def completed (archive : Path) (pairs failed : Nat) : Entry :=
  Event.bulkComplete.entry
    [("archive", archive.text), ("pairs", toString pairs), ("failed", toString failed)]

def aborted (archive : Path) (failure : Failure) : Entry :=
  Event.bulkAborted.entry
    [("archive", archive.text), ("code", failure.code), ("error", failure.message)]

end Chronicle

open Chronicle in
/-- What the log tells of a batch, by how the batch ends. -/
inductive Chronicle (plan : Plan) (run : Run) (archive : Path) (tree : FileTree) :
    Except Failure (List Report) → List Entry → Prop
  | unopened {e : Error} (hopen : tree.lookup archive = .error e) :
      Chronicle plan run archive tree (.error (.cannotOpen archive e))
        [aborted archive (.cannotOpen archive e)]
  | unallocated {found : Location × Node} {e : Error} {left : FileTree}
      (hopen : tree.lookup archive = .ok found)
      (hcreate : Scratch.create plan.scratchRoot run.tag tree = (.error e, left)) :
      Chronicle plan run archive tree
        (.error (.noScratch (Scratch.location plan.scratchRoot run.tag) e))
        [aborted archive (.noScratch (Scratch.location plan.scratchRoot run.tag) e)]
  | unreadable {location : Location} {node : Node} {scratch : Scratch} {made : FileTree}
      {fault : Fault} {cleanup : List Entry}
      (hopen : tree.lookup archive = .ok (location, node))
      (hcreate : Scratch.create plan.scratchRoot run.tag tree = (.ok scratch, made))
      (hfault : (contentsOf node).fault = some fault)
      (hlength : cleanup.length ≤ 1)
      (hcleanup : ∀ entry ∈ cleanup, entry.event = Event.scratchCleanupFailed.label) :
      Chronicle plan run archive tree (.error (.cannotRead archive fault))
        (opening archive scratch.path ++ [unread scratch.path (.cannotRead archive fault)] ++
          cleanup ++ [aborted archive (.cannotRead archive fault)])
  | finished {location : Location} {node : Node} {scratch : Scratch} {made : FileTree}
      {reports : List Report} {among : List Entry}
      (hopen : tree.lookup archive = .ok (location, node))
      (hcreate : Scratch.create plan.scratchRoot run.tag tree = (.ok scratch, made))
      (hfault : (contentsOf node).fault = none)
      (hnotices : among.filter IsNotice = reports.map Report.notice)
      (hothers : ∀ entry ∈ among, IsNotice entry ∨ IsAside entry) :
      Chronicle plan run archive tree (.ok reports)
        (opening archive scratch.path ++
          [unpacked scratch.path reports.length run.elapsed] ++ among ++
          [completed archive reports.length
            (among.countP fun entry => entry.event = Event.bulkPairFailed.label)])

/-! What each part of a batch tells. -/

theorem tells_remove (scratch : Scratch) (tree : FileTree) :
    ∃ left cleanup, Tells (scratch.remove tree) left cleanup ∧ cleanup.length ≤ 1 ∧
      ∀ entry ∈ cleanup, entry.event = Event.scratchCleanupFailed.label := by
  unfold Scratch.remove
  split
  case isTrue hexists =>
    cases tree.removeAll scratch.path with
    | error e =>
        exact ⟨tree, _, (Tells.emit .scratchCleanupFailed _).bind (Tells.pure tree),
          Nat.le_refl 1, List.forall_mem_singleton.mpr rfl⟩
    | ok tree => exact ⟨_, [], Tells.pure _, Nat.zero_le 1, List.forall_mem_nil _⟩
  case isFalse hexists => exact ⟨_, [], Tells.pure _, Nat.zero_le 1, List.forall_mem_nil _⟩

namespace Pending

theorem tells_report (pending : Pending) (tree : FileTree) :
    Tells (pending.report tree) (pending.reported tree) (pending.script tree).entries := by
  rw [← pending.play_script tree, ← pending.result_script tree]
  exact Tells.play _

theorem isAside_variantScript (pending : Pending) :
    ∀ entry ∈ pending.variantScript.entries, IsAside entry := by
  unfold variantScript
  cases pending.variant with
  | none => exact List.forall_mem_nil _
  | some text =>
      dsimp only
      cases Variant.ofText text with
      | ok variant => exact List.forall_mem_nil _
      | error unknown => exact List.forall_mem_singleton.mpr (.inl rfl)

theorem isAside_findingsScript (variant : Variant) (grammar data : String) :
    ∀ entry ∈ (findingsScript variant grammar data).entries, IsAside entry :=
  List.forall_mem_singleton.mpr (.inr (.inl rfl))

/-- Of each pair the log tells last what became of it. -/
theorem entries_script (pending : Pending) (tree : FileTree) :
    ∃ asides, (pending.script tree).entries = asides ++ [(pending.reported tree).notice] ∧
      ∀ entry ∈ asides, IsAside entry := by
  have hvariant := pending.isAside_variantScript
  rw [← pending.result_script tree]
  unfold script
  simp only [Log.Script.entries_bind, Log.Script.result_bind]
  cases pending.load pending.variantScript.result tree with
  | error failure => exact ⟨_, rfl, hvariant⟩
  | ok texts =>
      obtain ⟨variant, grammar, data⟩ := texts
      refine ⟨_, (List.append_assoc _ _ _).symm, fun entry hentry => ?_⟩
      exact (List.mem_append.mp hentry).elim (hvariant entry)
        (isAside_findingsScript variant grammar data entry)

end Pending

namespace Table

/-- All that one worker tells of the pairs. -/
def tellings (table : Table) (tree : FileTree) : List Entry :=
  table.flatMap fun pending => (pending.script tree).entries

theorem tells_workOff (table : Table) (tree : FileTree) :
    Tells (workOff 1 (·.report tree) table) (table.reports tree) (table.tellings tree) := by
  have hcount : workerCount 1 table.length = 1 :=
    Nat.max_eq_left (Nat.min_le_left 1 table.length)
  unfold workOff
  rw [hcount]
  exact Tells.mapM table fun pending _ => pending.tells_report tree

theorem filter_tellings (table : Table) (tree : FileTree) :
    (table.tellings tree).filter IsNotice = (table.reports tree).map Report.notice := by
  induction table with
  | nil => rfl
  | cons pending table ih =>
      obtain ⟨asides, hentries, hasides⟩ := pending.entries_script tree
      have hnotice : [(pending.reported tree).notice].filter IsNotice =
          [(pending.reported tree).notice] :=
        List.filter_eq_self.mpr <| List.forall_mem_singleton.mpr <|
          decide_eq_true (Report.isNotice_notice _)
      unfold tellings at ih ⊢
      rw [List.flatMap_cons, List.filter_append, ih, hentries, List.filter_append,
        filter_asides hasides, hnotice]
      rfl

theorem mem_tellings {table : Table} {tree : FileTree} {entry : Entry}
    (h : entry ∈ table.tellings tree) : IsNotice entry ∨ IsAside entry := by
  obtain ⟨pending, -, hentry⟩ := List.mem_flatMap.mp h
  obtain ⟨asides, hentries, hasides⟩ := pending.entries_script tree
  rw [hentries] at hentry
  rcases List.mem_append.mp hentry with haside | hlast
  · exact .inr (hasides entry haside)
  · rw [List.mem_singleton.mp hlast]
    exact .inl (Report.isNotice_notice _)

end Table

/-- The failures that are told are those that are reported. -/
theorem countP_of_notices {among : List Entry} {reports : List Report}
    (h : among.filter IsNotice = reports.map Report.notice) :
    among.countP (fun entry => entry.event = Event.bulkPairFailed.label) =
      reports.countP Report.isFailed := by
  have hfailed : ∀ entry : Entry, (decide (entry.event = Event.bulkPairFailed.label) &&
      decide (IsNotice entry)) = decide (entry.event = Event.bulkPairFailed.label) := by
    intro entry
    refine Bool.and_eq_left_iff_imp.mpr fun hevent => ?_
    exact decide_eq_true (.inr (of_decide_eq_true hevent))
  calc among.countP (fun entry => entry.event = Event.bulkPairFailed.label)
      = (among.filter IsNotice).countP
          fun entry => entry.event = Event.bulkPairFailed.label := by
        rw [List.countP_filter]
        simp only [hfailed]
    _ = reports.countP Report.isFailed := by
        rw [h, List.countP_map]
        exact List.countP_congr fun report _ => by
          rw [Function.comp_apply, report.event_notice]

namespace Plan

open Chronicle

/-- One worker checks the pairs of an archive. -/
abbrev alone (convention : Convention) (scratchRoot : Path) : Plan :=
  ⟨convention, scratchRoot, 1⟩

variable (plan : Plan) (run : Run) (archive : Path) (scratch : Scratch) (contents : Contents)
  (tree : FileTree)

theorem tells_unpackLogged_of_fault {fault : Fault} (h : contents.fault = some fault) :
    ∃ left, Tells (plan.unpackLogged run archive scratch contents tree)
      (.error (.cannotRead archive fault), left)
      [⟨.info, "BULK_UNPACK_BEGIN", [("scratch", scratch.path.text)]⟩,
        unread scratch.path (.cannotRead archive fault)] := by
  unfold unpackLogged
  rw [h]
  exact ⟨_, (Tells.start _ _).bind ((Tells.fail _ _).bind (Tells.pure _))⟩

theorem tells_unpackLogged (h : contents.fault = none) :
    ∃ table left, Tells (plan.unpackLogged run archive scratch contents tree) (.ok table, left)
      [⟨.info, "BULK_UNPACK_BEGIN", [("scratch", scratch.path.text)]⟩,
        unpacked scratch.path table.length run.elapsed] := by
  unfold unpackLogged
  rw [h]
  exact ⟨_, _, (Tells.start _ _).bind ((Tells.complete _ _ _).bind (Tells.pure _))⟩

theorem tells_processIn_of_fault {fault : Fault} (h : contents.fault = some fault) :
    ∃ left cleanup, Tells (plan.processIn run archive scratch contents tree)
        (.error (.cannotRead archive fault), left)
        (opening archive scratch.path ++ [unread scratch.path (.cannotRead archive fault)] ++
          cleanup) ∧
      cleanup.length ≤ 1 ∧
      ∀ entry ∈ cleanup, entry.event = Event.scratchCleanupFailed.label := by
  obtain ⟨unpackedTree, hunpack⟩ :=
    plan.tells_unpackLogged_of_fault run archive scratch contents tree h
  obtain ⟨left, cleanup, hremove, hcleanup⟩ := tells_remove scratch unpackedTree
  refine ⟨left, cleanup, ?_, hcleanup⟩
  refine Tells.congr ?_ ((Tells.emit _ _).bind (hunpack.bind (hremove.bind (Tells.pure _))))
  rw [List.append_nil]
  rfl

theorem tells_processIn (convention : Convention) (root : Path) (h : contents.fault = none) :
    ∃ reports left among,
      Tells ((alone convention root).processIn run archive scratch contents tree)
        (.ok reports, left)
        (opening archive scratch.path ++
          [unpacked scratch.path reports.length run.elapsed] ++ among) ∧
      among.filter IsNotice = reports.map Report.notice ∧
      ∀ entry ∈ among, IsNotice entry ∨ IsAside entry := by
  obtain ⟨table, unpackedTree, hunpack⟩ :=
    (alone convention root).tells_unpackLogged run archive scratch contents tree h
  obtain ⟨left, cleanup, hremove, -, hcleanup⟩ := tells_remove scratch unpackedTree
  -- The scratch directory is removed before the batch is told to be complete.
  have hasides : ∀ entry ∈ cleanup, IsAside entry :=
    fun entry hentry => .inr (.inr (hcleanup entry hentry))
  refine ⟨table.reports unpackedTree, left, table.tellings unpackedTree ++ cleanup, ?_, ?_,
    fun entry hentry => ?_⟩
  · refine Tells.congr ?_ ((Tells.emit _ _).bind (hunpack.bind
      ((table.tells_workOff unpackedTree).bind (hremove.bind (Tells.pure _)))))
    rw [List.append_nil, Table.reports, List.length_map]
    rfl
  · rw [List.filter_append, table.filter_tellings, filter_asides hasides, List.append_nil]
  · exact (List.mem_append.mp hentry).elim Table.mem_tellings fun hentry =>
      .inr (hasides entry hentry)


/-- The entry that comes last. -/
def ending (archive : Path) : Except Failure (List Report) → Entry
  | .ok reports => completed archive reports.length (reports.countP Report.isFailed)
  | .error failure => aborted archive failure

theorem tells_process {result : Except Failure (List Report)} {left : FileTree}
    {told : List Entry} (h : Tells (plan.processQuietly run archive tree) (result, left) told) :
    Tells (plan.process run archive tree) (result, left) (told ++ [ending archive result]) := by
  refine h.bind ?_
  cases result with
  | ok reports => exact (Tells.emit _ _).bind (Tells.pure _)
  | error failure => exact (Tells.emit _ _).bind (Tells.pure _)

theorem processQuietly_of_create {location : Location} {node : Node} {made : FileTree}
    (hopen : tree.lookup archive = .ok (location, node))
    (hcreate : Scratch.create plan.scratchRoot run.tag tree = (.ok scratch, made)) :
    plan.processQuietly run archive tree =
      plan.processIn run archive scratch (contentsOf node) made := by
  unfold processQuietly
  rw [hopen]
  simp only [hcreate]

theorem exists_chronicle (convention : Convention) (root : Path) :
    ∃ result left told,
      Tells ((alone convention root).process run archive tree) (result, left) told ∧
        Chronicle (alone convention root) run archive tree result told := by
  cases hopen : tree.lookup archive with
  | error e =>
      have hquiet : Tells ((alone convention root).processQuietly run archive tree)
          (.error (.cannotOpen archive e), tree) [] := by
        unfold processQuietly
        rw [hopen]
        exact Tells.pure _
      exact ⟨_, _, _, tells_process _ _ _ _ hquiet, .unopened hopen⟩
  | ok found =>
      obtain ⟨location, node⟩ := found
      rcases hcreate : Scratch.create (alone convention root).scratchRoot run.tag tree with
        ⟨e | scratch, made⟩
      · have hquiet : Tells ((alone convention root).processQuietly run archive tree)
            (.error (.noScratch (Scratch.location root run.tag) e), made) [] := by
          unfold processQuietly
          rw [hopen]
          simp only [hcreate]
          exact Tells.pure _
        exact ⟨_, _, _, tells_process _ _ _ _ hquiet, .unallocated hopen hcreate⟩
      · have hin := (alone convention root).processQuietly_of_create run archive scratch tree
          hopen hcreate
        cases hfault : (contentsOf node).fault with
        | some fault =>
            obtain ⟨left, cleanup, htells, hlength, hcleanup⟩ :=
              (alone convention root).tells_processIn_of_fault run archive scratch _ made hfault
            rw [← hin] at htells
            exact ⟨_, _, _, tells_process _ _ _ _ htells,
              .unreadable hopen hcreate hfault hlength hcleanup⟩
        | none =>
            obtain ⟨reports, left, among, htells, hnotices, hothers⟩ :=
              tells_processIn run archive scratch _ made convention root hfault
            rw [← hin] at htells
            refine ⟨_, _, _, tells_process _ _ _ _ htells, ?_⟩
            -- The last entry counts the reports of failures; they are told one by one before it.
            rw [ending, ← countP_of_notices hnotices]
            exact .finished hopen hcreate hfault hnotices hothers

/-- However the batch ends, its log tells how, and nothing else. -/
theorem process_chronicle (convention : Convention) (root : Path) (run : Run) (archive : Path)
    (tree : FileTree) (before : List Entry) :
    let plan := alone convention root
    let ran := (plan.process run archive tree).run ⟨.trace, before⟩
    ∃ told, ran.2 = ⟨.trace, before ++ told⟩ ∧
      Chronicle plan run archive tree ran.1.1 told := by
  obtain ⟨result, left, told, htells, hchronicle⟩ :=
    exists_chronicle run archive tree convention root
  intro plan ran
  have hran : ran = ((result, left), ⟨.trace, before ++ told⟩) := by
    rw [← Log.Journal.recordAll_trace]
    exact htells _
  rw [hran]
  exact ⟨told, rfl, hchronicle⟩

end Plan

end TableIntake.Batch
