import TableIntake.Log.Event
import TableIntake.Log.Journal

namespace TableIntake.Log

/-! Scripts: what an action writes to a journal and what comes of it, where neither depends on what
the journal holds. -/

structure Script (α : Type) where
  entries : List Entry
  result : α

namespace Script

instance : Monad Script where
  pure result := ⟨[], result⟩
  bind script next :=
    ⟨script.entries ++ (next script.result).entries, (next script.result).result⟩

def play (script : Script α) : Logging α := do
  script.entries.forM record
  return script.result

def entry (entry : Entry) : Script Unit :=
  ⟨[entry], ()⟩

def emit (event : Event) (fields : List (String × String)) : Script Unit :=
  entry ⟨event.severity, event.label, fields⟩

@[simp] theorem entries_pure (result : α) : (pure result : Script α).entries = [] := rfl

@[simp] theorem entries_bind (script : Script α) (next : α → Script β) :
    (script >>= next).entries = script.entries ++ (next script.result).entries := rfl

@[simp] theorem result_pure (result : α) : (pure result : Script α).result = result := rfl

@[simp] theorem result_bind (script : Script α) (next : α → Script β) :
    (script >>= next).result = (next script.result).result := rfl

@[simp] theorem play_pure (result : α) : (pure result : Script α).play = pure result := rfl

@[simp] theorem play_bind (script : Script α) (next : α → Script β) :
    (script >>= next).play = script.play >>= fun result => (next result).play := by
  change ((script.entries ++ (next script.result).entries).forM record >>= fun _ =>
    pure (next script.result).result) = _
  simp only [play, List.forM_eq_forM, List.forM_append, bind_assoc, pure_bind]

@[simp] theorem play_emit (event : Event) (fields : List (String × String)) :
    (emit event fields).play = Log.emit event fields := rfl

theorem fst_run_play (script : Script α) (journal : Journal) :
    (script.play.run journal).1 = script.result := rfl

end Script

end TableIntake.Log
