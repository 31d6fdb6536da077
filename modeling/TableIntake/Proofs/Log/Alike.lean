import TableIntake.Proofs.Log.Tellings

namespace TableIntake.Log

/-! Two runs side by side: what they give, and what a journal keeps of what they tell. -/

/-- The entry without the time that it tells. -/
def Entry.timeless (entry : Entry) : Entry :=
  { entry with
    fields := entry.fields.map fun (key, value) =>
      (key, if key = "elapsed_ms" then "" else value) }

/-- The actions give the same and tell the same, times apart. -/
def Alike (first second : Logging α) : Prop :=
  ∃ value told heard, Tells first value told ∧ Tells second value heard ∧
    heard.map Entry.timeless = told.map Entry.timeless

theorem Tells.alike {action : Logging α} {value : α} {told : List Entry}
    (h : Tells action value told) : Alike action action :=
  ⟨value, told, told, h, h, rfl⟩

namespace Alike

variable {first second : Logging α} {next later : α → Logging β}

theorem pure (value : α) : Alike (pure value) (pure value) :=
  ⟨value, [], [], Tells.pure value, Tells.pure value, rfl⟩

theorem bind (hfirst : Alike first second) (hnext : ∀ value, Alike (next value) (later value)) :
    Alike (first >>= next) (second >>= later) := by
  obtain ⟨value, told, heard, htold, hheard, hsame⟩ := hfirst
  obtain ⟨result, more, others, hmore, hothers, hrest⟩ := hnext value
  refine ⟨result, told ++ more, heard ++ others, htold.bind hmore, hheard.bind hothers, ?_⟩
  rw [List.map_append, List.map_append, hsame, hrest]

theorem record {entry other : Entry} (h : other.timeless = entry.timeless) :
    Alike (record entry) (Log.record other) :=
  ⟨(), [entry], [other], Tells.record entry, Tells.record other, congrArg ([·]) h⟩

theorem emit (event : Event) (fields : List (String × String)) :
    Alike (Log.emit event fields) (Log.emit event fields) :=
  record rfl

theorem complete (scope : Scope) (extra : List (String × String)) (elapsed later : Nat) :
    Alike (scope.complete extra elapsed) (scope.complete extra later) :=
  (record (by simp [Entry.timeless])).bind fun _ => pure _

end Alike

/-- The actions give the same, whatever the journals hold. Of the entries that the journal with the
lower threshold gets, the other one gets those that are severe enough, times apart. -/
def Thinned (low high : Severity) (first second : Logging α) : Prop :=
  ∃ value told heard,
    (∀ before, first.run ⟨low, before⟩ = (value, ⟨low, before ++ told⟩)) ∧
      (∀ before, second.run ⟨high, before⟩ = (value, ⟨high, before ++ heard⟩)) ∧
      heard.map Entry.timeless = (high.keep told).map Entry.timeless

theorem map_timeless_keep (threshold : Severity) (entries : List Entry) :
    (threshold.keep entries).map Entry.timeless = threshold.keep (entries.map Entry.timeless) := by
  unfold Severity.keep
  rw [List.filter_map]
  rfl

/-- What the higher threshold keeps, the lower one keeps as well. -/
theorem keep_keep {low high : Severity} (h : low ≤ high) (entries : List Entry) :
    high.keep (low.keep entries) = high.keep entries := by
  unfold Severity.keep
  rw [List.filter_filter]
  refine List.filter_congr fun entry _ => Bool.and_eq_left_iff_imp.mpr fun hhigh => ?_
  exact decide_eq_true (Severity.le_trans h (of_decide_eq_true hhigh))

theorem Alike.thinned {first second : Logging α} (h : Alike first second) {low high : Severity}
    (hle : low ≤ high) : Thinned low high first second := by
  obtain ⟨value, told, heard, htold, hheard, hsame⟩ := h
  refine ⟨value, low.keep told, high.keep heard, fun before => ?_, fun before => ?_, ?_⟩
  · rw [htold, Journal.recordAll_eq]
  · rw [hheard, Journal.recordAll_eq]
  · rw [keep_keep hle, map_timeless_keep, map_timeless_keep, hsame]

end TableIntake.Log
