import TableIntake.Log.Scope
import TableIntake.Proofs.Log.Scripts

namespace TableIntake.Log

/-! Tellings: what an action gives and which entries it writes, whatever the journal holds. -/

def Event.entry (event : Event) (fields : List (String × String)) : Entry :=
  ⟨event.severity, event.label, fields⟩

/-- The entries that are severe enough. -/
def Severity.keep (threshold : Severity) (entries : List Entry) : List Entry :=
  entries.filter fun entry => decide (threshold ≤ entry.severity)

theorem Severity.keep_trace (entries : List Entry) : Severity.trace.keep entries = entries :=
  List.filter_eq_self.mpr fun entry _ => decide_eq_true (Nat.zero_le entry.severity.rank)

namespace Journal

def recordAll (journal : Journal) (entries : List Entry) : Journal :=
  entries.foldl record journal

@[simp] theorem recordAll_nil (journal : Journal) : journal.recordAll [] = journal := rfl

@[simp] theorem recordAll_cons (journal : Journal) (entry : Entry) (entries : List Entry) :
    journal.recordAll (entry :: entries) = (journal.record entry).recordAll entries := rfl

theorem recordAll_append (journal : Journal) (entries more : List Entry) :
    journal.recordAll (entries ++ more) = (journal.recordAll entries).recordAll more :=
  List.foldl_append

theorem recordAll_eq (threshold : Severity) (before entries : List Entry) :
    recordAll ⟨threshold, before⟩ entries = ⟨threshold, before ++ threshold.keep entries⟩ := by
  induction entries generalizing before with
  | nil => simp [Severity.keep]
  | cons entry entries ih =>
      have hentries : (record ⟨threshold, before⟩ entry).entries =
          before ++ threshold.keep [entry] :=
        entries_record _ entry
      have hrecord : record ⟨threshold, before⟩ entry =
          ⟨threshold, (record ⟨threshold, before⟩ entry).entries⟩ :=
        congrArg (Journal.mk · _) (threshold_record _ entry)
      rw [recordAll_cons, hrecord, hentries, ih, List.append_assoc, Severity.keep, Severity.keep,
        ← List.filter_append]
      rfl

theorem recordAll_trace (before entries : List Entry) :
    recordAll ⟨.trace, before⟩ entries = ⟨.trace, before ++ entries⟩ := by
  rw [recordAll_eq, Severity.keep_trace]

end Journal

def Tells (action : Logging α) (value : α) (entries : List Entry) : Prop :=
  ∀ journal, action.run journal = (value, journal.recordAll entries)

namespace Tells

theorem pure (value : α) : Tells (pure value) value [] :=
  fun _ => rfl

theorem congr {action : Logging α} {value : α} {entries told : List Entry}
    (htold : entries = told) (h : Tells action value entries) : Tells action value told :=
  htold ▸ h

theorem bind {action : Logging α} {next : α → Logging β} {value : α} {result : β}
    {entries more : List Entry} (hfirst : Tells action value entries)
    (hnext : Tells (next value) result more) :
    Tells (action >>= next) result (entries ++ more) := by
  intro journal
  rw [StateT.run_bind, hfirst journal, Journal.recordAll_append]
  exact hnext _

theorem record (entry : Entry) : Tells (Log.record entry) () [entry] :=
  fun _ => rfl

theorem emit (event : Event) (fields : List (String × String)) :
    Tells (Log.emit event fields) () [event.entry fields] :=
  record _

theorem start (name : String) (fields : List (String × String)) :
    Tells (Scope.start name fields) { name, fields } [⟨.info, name ++ "_BEGIN", fields⟩] :=
  (record _).bind (pure _)

/-- A scope that has its outcome is let go without a word. -/
theorem complete (scope : Scope) (extra : List (String × String)) (elapsed : Nat) :
    Tells (scope.complete extra elapsed) ()
      [⟨.info, scope.name ++ "_COMPLETE",
        scope.fields ++ extra ++ [("elapsed_ms", toString elapsed)]⟩] :=
  (record _).bind (pure _)

theorem fail (scope : Scope) (reason : String) :
    Tells (scope.fail reason) ()
      [⟨.error, scope.name ++ "_FAILED", scope.fields ++ [("reason", reason)]⟩] :=
  (record _).bind (pure _)

theorem mapM {work : α → Logging β} {value : α → β} {told : α → List Entry} :
    (items : List α) → (∀ item ∈ items, Tells (work item) (value item) (told item)) →
      Tells (items.mapM work) (items.map value) (items.flatMap told)
  | [], _ => pure []
  | item :: items, h => by
      have hrest := mapM items fun other hother => h other (List.mem_cons_of_mem item hother)
      have hlist : Tells (items.mapM work >>= fun values => Pure.pure (value item :: values))
          (value item :: items.map value) (items.flatMap told ++ []) := hrest.bind (pure _)
      rw [List.append_nil] at hlist
      rw [List.mapM_cons, List.map_cons, List.flatMap_cons]
      exact (h item List.mem_cons_self).bind hlist

theorem forM_record : (entries : List Entry) → Tells (entries.forM Log.record) () entries
  | [] => pure ()
  | entry :: entries => (record entry).bind (forM_record entries)

theorem play (script : Script α) : Tells script.play script.result script.entries := by
  have hplay : Tells script.play script.result (script.entries ++ []) :=
    (forM_record script.entries).bind (pure script.result)
  rwa [List.append_nil] at hplay

end Tells

end TableIntake.Log
